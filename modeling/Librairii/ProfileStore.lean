import Librairii.ControlReplacement
import Librairii.NavigationCodec
import Librairii.ShelfWarnings

/-!
# Settings and preference documents of a profile namespace

The store of a profile namespace reads and replaces its settings document and the
documents of the user interface: navigation, shelf warnings, interface choices
and the receipt of an imported handover. A call that cannot tell which document
is named poisons the store, and a poisoned store refuses every further call.
-/

namespace Librairii.ProfileStore

open InterruptedSteps NamedObjects ControlFiles

def settingsName : String := "settings.json"

def markerName : String := ".librairii-native-profile"

def markerBytes : List UInt8 := "librairii-native-profile-v1\n".toUTF8.data.toList

def setupIntent : String := ".librairii-setup-pending"

def setupIntentBytes : List UInt8 := "librairii-native-setup-v1\n".toUTF8.data.toList

def journalName : String := "relocation.json"

def settingsStem : String := ".librairii-settings-"

/-- The size limit of a settings document. -/
def maxProfileBytes : ℕ := 64*1024

/-- A settings document. -/
structure Profile where
  version : ℤ
  language : String
  root : String
  libraryId : String
  complete : Bool
  recovering : Bool
  deriving DecidableEq

def Profile.empty : Profile := ⟨0,"","","",false,false⟩

def Profile.setup : Profile := { Profile.empty with version := 1, language := "en" }

def Profile.validate (profile : Profile) : Except StorageError Unit :=
  if profile.version≠1 ∨ ¬ (profile.language="en" ∨ profile.language="fr") ∨
      ((profile.complete ∨ profile.recovering) ∧
        (profile.root.toList.head?≠some '/' ∨ profile.libraryId="")) then
    .error .invalidProfile
  else .ok ()

/-- A value of a settings member as the parser sees it. -/
inductive WireValue where
  | null
  | integer (n : ℤ)
  | text (s : String)
  | flag (b : Bool)
  | other

/-- Member names are matched without case; the long s counts as s. -/
def foldKey (key : String) : String :=
  String.ofList (key.toList.map fun c => (if c=Char.ofNat 0x17f then 's' else c).toLower)

def readMember (profile : Profile) (key : String) (value : WireValue) : Option Profile :=
  match foldKey key,value with
  | "version",.integer n =>
    if -2^63≤n ∧ n<2^63 then some { profile with version := n } else none
  | "language",.text s => some { profile with language := s }
  | "root",.text s => some { profile with root := s }
  | "libraryid",.text s => some { profile with libraryId := s }
  | "complete",.flag b => some { profile with complete := b }
  | "recovering",.flag b => some { profile with recovering := b }
  | "version",.null | "language",.null | "root",.null | "libraryid",.null | "complete",.null
  | "recovering",.null => some profile
  | _,_ => none

/-- A settings document with the bytes it was read from. -/
structure ProfileDocument where
  profile : Profile
  original : List UInt8
  deriving DecidableEq

/-- The choices shown by the interface. -/
structure InterfacePreferences where
  format : String
  version : ℕ
  library : String
  syncPanelHidden : Bool
  dismissedOperations : List String
  deriving DecidableEq

/-- What an import of preferences takes over. -/
structure HandoverPreferences where
  navigation : NavigationCodec.Navigation
  dismissedOperations : List String
  syncPanelHidden : Bool

/-- The receipt of an imported handover. -/
structure Receipt where
  format : String
  version : ℕ
  library : String
  sourceSha256 : String
  navigation : List UInt8
  interface : InterfacePreferences
  navigationApplied : Bool
  interfaceApplied : Bool

/-- The parsers, printers and read-only checks the store relies on. -/
structure StoreEnv where
  /-- The tables and parsers of navigation states. -/
  navigation : NavigationCodec.NavigationEnv
  warnings : ShelfWarnings.WarningEnv
  /-- The members of a settings object in order. -/
  parseProfile : List UInt8 → Option (List (String×WireValue))
  /-- The indented text of a settings object. -/
  prettyProfile : Profile → Option String
  parseInterface : List UInt8 → Option InterfacePreferences
  printInterface : InterfacePreferences → Option (List UInt8)
  parseReceipt : List UInt8 → Option Receipt
  printReceipt : Receipt → Option (List UInt8)
  decodeHandover : List UInt8 → NavigationCodec.LibraryId → Option HandoverPreferences
  digest : List UInt8 → String
  parseLibraryId : String → Option NavigationCodec.LibraryId
  revalidateMoveJournal : Control → Except StorageError Unit

variable (env : StoreEnv)

def decodeProfile (bytes : List UInt8) : Except StorageError ProfileDocument :=
  if maxProfileBytes<bytes.length then .error .invalidProfile
  else
    match (env.parseProfile bytes).bind fun members =>
        members.foldlM (fun profile m => readMember profile m.1 m.2) Profile.empty with
    | none => .error .invalidProfile
    | some profile => profile.validate.map fun _ => ⟨profile,bytes⟩

def escapeSettings (c : Char) : List Char :=
  if c= '&' then "\\u0026".toList
  else if c= '<' then "\\u003c".toList
  else if c= '>' then "\\u003e".toList
  else if c=Char.ofNat 0x2028 then "\\u2028".toList
  else if c=Char.ofNat 0x2029 then "\\u2029".toList
  else [c]

def encodeProfile (profile : Profile) : Except StorageError (List UInt8) :=
  match env.prettyProfile profile with
  | none => .error .invalidProfile
  | some json =>
    let text := String.ofList (json.toList.flatMap escapeSettings)
    if maxProfileBytes<text.utf8ByteSize then .error .invalidProfile
    else .ok text.toUTF8.data.toList

/-- The library a store is bound to. -/
structure BindingState where
  root : String
  rawId : String
  fenced : Bool
  frozen : Bool
  deriving DecidableEq

def BindingState.matches (binding : BindingState) (profile : Profile) : Bool :=
  profile.root=binding.root && profile.libraryId=binding.rawId && profile.complete &&
    !profile.recovering

/-- What the store remembers. -/
structure State where
  /-- The settings were read once. -/
  loaded : Bool
  /-- The settings read or written last. -/
  document : Option ProfileDocument
  settingsMetadata : Option ℕ
  /-- The store can only be used after a restart. -/
  poisoned : Bool
  /-- The library the store is bound to. -/
  binding : Option BindingState
  /-- Files kept open after an uncertain replacement. -/
  recoveryWitnesses : List ConfigTemp
  /-- Files kept open after an uncertain creation. -/
  recoveryAllocations : List ControlAllocation
  marker : ℕ
  /-- The namespace was created by this process and never bound. -/
  freshNamespace : Bool

namespace State

def poison (state : State) : State :=
  { state with
    poisoned := true
    binding := state.binding.map fun b => { b with fenced := true } }

def fenced (state : State) : Bool := (state.binding.map (·.fenced)).getD false

def frozen (state : State) : Bool := (state.binding.map (·.frozen)).getD false

/-- Keep files of an uncertain replacement. -/
def witness (state : State) (files : List ConfigTemp) : State :=
  { state.poison with recoveryWitnesses := state.recoveryWitnesses ++ files }

/-- Keep a file of an uncertain creation. -/
def allocation (state : State) (made : ControlAllocation) : State :=
  { state.poison with recoveryAllocations := state.recoveryAllocations ++ [made] }

/-- The settings, or those of a new setup. -/
def profile (state : State) : Profile := (state.document.map (·.profile)).getD .setup

end State

/-- A refused call with what the store remembers afterwards. -/
structure Refusal where
  cause : StorageError
  state : State

/-- A call of the store. -/
abbrev Work (α : Type) := Steps Control Choice Refusal α

/-- A part whose error leaves what the store remembers. -/
def within (state : State) {α : Type} (m : Steps Control Choice StorageError α) : Work α :=
  orFail m fun cause => ⟨cause,state⟩

def reserve (state : State) : Work Unit :=
  if state.poisoned || state.fenced then fail ⟨.profileRestartRequired,state⟩
  else if state.frozen then fail ⟨.profileBusy,state⟩
  else pure ()

def revalidateNamespace (marker : ℕ) : Steps Control Choice StorageError Unit := do
  look "revalidate profile directory" fun _ => .ok ()
  look "revalidate profile marker" fun s =>
    match s.folder.find markerName with
    | none => .error (.io "revalidate profile marker" .notFound)
    | some i =>
      match s.folder.contents i with
      | .file _ =>
        if s.folder.links i≠1 then .error .pathEscape
        else if i=marker then .ok () else .error .profileChanged
      | _ => .error .pathEscape
  let opened ← openRegular markerName
  inspect fun _ => if opened=marker then .ok () else .error .profileChanged
  let bytes ← readBytes "recheck profile marker bytes" opened
  inspect fun _ => if bytes=markerBytes then .ok () else .error .profileChanged
  look "revalidate retained marker" fun _ => .ok ()

def readNativeDocument : Steps Control Choice StorageError (Option (ProfileDocument×ℕ)) := do
  match ← readRegular settingsName with
  | none => return none
  | some identity =>
    look "inspect anchored settings" fun _ => .ok ()
    let bytes ← readBytes "read bounded settings" identity
    let document ← inspect fun _ => decodeProfile env bytes
    return some (document,identity)

def revalidateSettings (state : State) : Steps Control Choice StorageError Unit := do
  let named ← readNativeDocument env
  inspect fun _ =>
    match named,state.settingsMetadata with
    | none,none => if state.document=none then .ok () else .error .profileChanged
    | some (document,identity),some previous =>
      if some document=state.document ∧ previous=identity then .ok () else .error .profileChanged
    | _,_ => .error .profileChanged

def loadLocked (state : State) : Work State := do
  if state.poisoned then fail ⟨.profileRestartRequired,state⟩
  else
    orFail (revalidateNamespace state.marker) fun cause =>
      ⟨cause,if state.binding.isSome then state.poison else state⟩
    if state.loaded then return state
    else
      match ← within state (readNativeDocument env) with
      | none => return { state with loaded := true }
      | some (document,identity) =>
        return { state with
          loaded := true, document := some document, settingsMetadata := some identity }

def hasSetupIntent : Steps Control Choice StorageError Bool := do
  if ← regularEntry setupIntent then
    let identity ← openRegular setupIntent
    let bytes ← readBytes "read native setup intent" identity
    inspect fun _ => if bytes=setupIntentBytes then .ok true else .error .recoveryBindingRequired
  else return false

def knownNames : List String :=
  [markerName,setupIntent,settingsName,"navigation.json","shelf-warnings.json","interface.json",
    "handover.json",journalName]

def requireUnrecoveredNamespace (state : State) : Steps Control Choice StorageError Unit := do
  revalidateNamespace state.marker
  let entries ← look "enumerate anchored directory" fun s =>
    if 8<s.folder.listing.length then .error .recoveryBindingRequired else .ok s.folder.listing
  let intent ← hasSetupIntent
  inspect fun _ =>
    if !entries.contains settingsName &&
        (entries.any (fun entry => entry≠markerName && entry≠setupIntent) ||
          (!intent && !state.freshNamespace)) then
      .error .recoveryBindingRequired
    else if entries.any fun entry => !knownNames.contains entry then
      .error .recoveryBindingRequired
    else .ok ()
  if entries.contains journalName then
    look "check retained move intent" env.revalidateMoveJournal
  ["navigation.json","shelf-warnings.json"].forM fun name => do
    if entries.contains name then
      let _ ← openRegular name
  let _ ← regularEntry "interface.json"
  let _ ← regularEntry "handover.json"

def load (state : State) : Work State := do
  reserve state
  loadLocked env state

def beginBinding (state : State) : Work State := do
  reserve state
  let state ← loadLocked env state
  within state (revalidateSettings env state)
  if state.binding.isSome then fail ⟨.profileBindingActive,state⟩
  else
    within state (requireUnrecoveredNamespace env state)
    if (state.document.map (·.profile.recovering)).getD false then
      fail ⟨.recoveryBindingRequired,state⟩
    else return state

/-- A private temporary for a replacement. -/
def stage (state : State) : Work ConfigTemp :=
  orFail (createControlTemp settingsStem) fun failure =>
    ⟨failure.cause,
      if !failure.creationRefused || failure.allocation.file.isSome then
        state.allocation failure.allocation
      else state⟩

/-- Remove the temporary of work that failed before the names were exchanged. -/
def dropStage (state : State) (staged : ConfigTemp) {α : Type} (work : StorageError) : Work α := do
  match ← attempt (removeConfigTemp staged) with
  | .ok () => fail ⟨work,state⟩
  | .error cleanup => fail ⟨.ownedTempCleanupFailed work cleanup,state.witness [staged]⟩

/-- The part of `update_unix` before the names are exchanged. -/
def settingsBefore (state : State) (staged : ConfigTemp) (bytes : List UInt8) :
    Steps Control Choice StorageError Unit := do
  writeAll "write anchored settings stage" staged.identity bytes
  durableFileFlush staged.identity
  revalidateNamespace state.marker
  revalidateSettings env state

def checkDisplaced (context : String) (original : Option (List UInt8)) :
    Option ConfigTemp → Steps Control Choice StorageError Unit
  | none => pure ()
  | some displaced => do
    let prior ← readBytes context displaced.identity
    inspect fun _ => if original=some prior then .ok () else .error .profileChanged

def removeDisplaced : Option ConfigTemp → Steps Control Choice StorageError Unit
  | none => pure ()
  | some displaced => do
    removeConfigTemp displaced
    flush

def settingsNamed (published : ConfigTemp) (bytes : List UInt8) :
    Steps Control Choice StorageError ℕ := do
  match ← readNativeDocument env with
  | none => fail .profileChanged
  | some (actual,identity) =>
    inspect fun _ =>
      if actual.original=bytes ∧ published.identity=identity then .ok identity
      else .error .profileChanged

/-- The part of `update_unix` after the names were exchanged. -/
def settingsAfter (state : State) (published : ConfigTemp) (old : Option ConfigTemp)
    (bytes : List UInt8) : Steps Control Choice StorageError ℕ := do
  checkDisplaced "read displaced config" (state.document.map (·.original)) old
  flush
  revalidateNamespace state.marker
  let metadata ← settingsNamed env published bytes
  removeDisplaced old
  return metadata

def updateUnix (state : State) (next : Profile) (bytes : List UInt8) : Work State := do
  note state.settingsMetadata
  let staged ← stage state
  match ← attempt (settingsBefore env state staged bytes) with
  | .error work => dropStage state staged work
  | .ok () =>
    match ← attempt (replaceOwnedConfig staged settingsName state.settingsMetadata) with
    | .error failure =>
      if failure.changed then
        fail ⟨.profilePublicationUncertain failure.cause,state.witness [failure.temporary]⟩
      else dropStage state failure.temporary failure.cause
    | .ok (published,old) =>
      match ← attempt (settingsAfter env state published old bytes) with
      | .ok metadata =>
        return { state with
          document := some ⟨next,bytes⟩, settingsMetadata := some metadata }
      | .error cause =>
        fail ⟨.profilePublicationUncertain cause,state.witness (published::old.toList)⟩

def changedSettings (state : State) (change : Profile → Except StorageError Profile) :
    Except StorageError (Profile×List UInt8) := do
  let next ← change state.profile
  next.validate
  match state.binding with
  | some binding =>
    if binding.fenced then throw .profileRestartRequired
    else if binding.frozen then throw .profileBusy
    else if !binding.matches next then throw .profileBindingActive
    else pure ()
  | none => pure ()
  let bytes ← encodeProfile env next
  let previous := state.profile
  if (next.root,next.libraryId,next.complete,next.recovering)≠
      (previous.root,previous.libraryId,previous.complete,previous.recovering) then
    throw .profileBindingActive
  else return (next,bytes)

def update (state : State) (change : Profile → Except StorageError Profile) : Work State := do
  reserve state
  let state ← loadLocked env state
  orFail (revalidateSettings env state) fun cause =>
    ⟨cause,if state.binding.isSome then state.poison else state⟩
  if state.document.isNone then within state (requireUnrecoveredNamespace env state)
  match changedSettings env state change with
  | .error cause => fail ⟨cause,state⟩
  | .ok (next,bytes) => updateUnix env state next bytes

def uiBytes (marker : ℕ) (name : String) :
    Steps Control Choice StorageError (Option (List UInt8×ℕ)) := do
  match ← attempt (openRegular name) with
  | .error (.io context kind) =>
    if kind=.notFound then return none else fail (.io context kind)
  | .error cause => fail cause
  | .ok identity =>
    look "inspect navigation preferences" fun _ => .ok ()
    let bytes ← readBytes "read navigation preferences" identity
    inspect fun _ =>
      if NavigationCodec.maxStateBytes<bytes.length then .error .invalidNavigation else .ok ()
    revalidateNamespace marker
    return some (bytes,identity)

/-- The part of a save before the names are exchanged. -/
def uiBefore (marker : ℕ) (name : String) (previous : Option (List UInt8×ℕ))
    (staged : ConfigTemp) (bytes : List UInt8) : Steps Control Choice StorageError Unit := do
  writeAll "write navigation preferences" staged.identity bytes
  durableFileFlush staged.identity
  revalidateNamespace marker
  let actual ← uiBytes marker name
  inspect fun _ => if previous=actual then .ok () else .error .profileChanged

def uiNamed (marker : ℕ) (name : String) (published : ConfigTemp) (bytes : List UInt8) :
    Steps Control Choice StorageError Unit := do
  match ← uiBytes marker name with
  | none => fail .profileChanged
  | some (actual,identity) =>
    inspect fun _ =>
      if actual=bytes ∧ published.identity=identity then .ok () else .error .profileChanged

/-- The part of a save after the names were exchanged. -/
def uiAfter (marker : ℕ) (name : String) (previous : Option (List UInt8×ℕ))
    (published : ConfigTemp) (old : Option ConfigTemp) (bytes : List UInt8) :
    Steps Control Choice StorageError Unit := do
  checkDisplaced "read old navigation preferences" (previous.map (·.1)) old
  flush
  revalidateNamespace marker
  uiNamed marker name published bytes
  removeDisplaced old

/-- `save_ui_document_locked`: replace a document of the interface by other bytes. -/
def saveUiDocumentLocked (state : State) (name : String) (bytes : List UInt8)
    (validate : List UInt8 → Except StorageError Unit) : Work State := do
  within state (revalidateNamespace state.marker)
  let previous ← within state (uiBytes state.marker name)
  within state (inspect fun _ =>
    match previous with
    | some (prior,_) => validate prior
    | none => .ok ())
  note (previous.map (·.2))
  let staged ← stage state
  match ← attempt (uiBefore state.marker name previous staged bytes) with
  | .error work => dropStage state staged work
  | .ok () =>
    match ← attempt (replaceOwnedConfig staged name (previous.map (·.2))) with
    | .error failure =>
      fail ⟨.profilePublicationUncertain failure.cause,state.witness [failure.temporary]⟩
    | .ok (published,old) =>
      match ← attempt (uiAfter state.marker name previous published old bytes) with
      | .ok () => return state
      | .error cause =>
        fail ⟨.profilePublicationUncertain cause,state.witness (published::old.toList)⟩

def saveUiDocument (state : State) (name : String) (bytes : List UInt8)
    (validate : List UInt8 → Except StorageError Unit) : Work State := do
  reserve state
  saveUiDocumentLocked state name bytes validate

def navigationValid (library : NavigationCodec.LibraryId) (bytes : List UInt8) :
    Except StorageError Unit :=
  match NavigationCodec.decode env.navigation bytes library 1 0 with
  | .ok _ => .ok ()
  | .error _ => .error .invalidNavigation

def saveNavigation (state : State) (navigation : NavigationCodec.Navigation) : Work State :=
  match NavigationCodec.encode env.navigation navigation with
  | .error _ => fail ⟨.invalidNavigation,state⟩
  | .ok bytes =>
    saveUiDocument state "navigation.json" bytes (navigationValid env navigation.library)

def warningsValid (library : NavigationCodec.LibraryId) (bytes : List UInt8) :
    Except StorageError Unit :=
  match ShelfWarnings.decode env.warnings bytes library with
  | .ok _ => .ok ()
  | .error _ => .error .shelf

def saveShelfWarnings (state : State) (warnings : ShelfWarnings.WarningAcknowledgements) :
    Work State :=
  match ShelfWarnings.encode env.warnings warnings with
  | .error _ => fail ⟨.shelf,state⟩
  | .ok bytes =>
    saveUiDocument state "shelf-warnings.json" bytes (warningsValid env warnings.library)

def decodeInterface (bytes : List UInt8) (library : NavigationCodec.LibraryId) :
    Except StorageError InterfacePreferences :=
  match env.parseInterface bytes with
  | none => .error .invalidNavigation
  | some value =>
    if NavigationCodec.maxStateBytes<bytes.length ∨ value.format≠"librairii.native-interface" ∨
        value.version≠1 ∨ value.library≠library.text ∨ 4096<value.dismissedOperations.length ∨
        value.dismissedOperations.any fun id => id="" || 256 < id.utf8ByteSize then
      .error .invalidNavigation
    else .ok value

def interfaceValid (library : NavigationCodec.LibraryId) (bytes : List UInt8) :
    Except StorageError Unit :=
  (decodeInterface env bytes library).map fun _ => ()

/-- The bytes of interface choices, checked by reading them back. -/
def encodeInterface (value : InterfacePreferences) :
    Except StorageError (NavigationCodec.LibraryId×List UInt8) :=
  match env.parseLibraryId value.library,env.printInterface value with
  | some library,some bytes => (decodeInterface env bytes library).map fun _ => (library,bytes)
  | _,_ => .error .invalidNavigation

def saveInterface (state : State) (value : InterfacePreferences) : Work State :=
  match encodeInterface env value with
  | .error cause => fail ⟨cause,state⟩
  | .ok (library,bytes) =>
    saveUiDocument state "interface.json" bytes (interfaceValid env library)

def hexDigit (c : Char) : Bool :=
  c.isDigit || ('a' ≤ c && c ≤ 'f') || ('A' ≤ c && c ≤ 'F')

def decodeReceipt (bytes : List UInt8) (library : NavigationCodec.LibraryId) :
    Except StorageError Receipt :=
  if NavigationCodec.maxStateBytes<bytes.length then .error .invalidNavigation
  else
    match env.parseReceipt bytes with
    | none => .error .invalidNavigation
    | some value =>
      if value.format≠"librairii.native-handover" ∨ value.version≠1 ∨
          value.library≠library.text ∨ value.sourceSha256.utf8ByteSize≠64 ∨
          !value.sourceSha256.toList.all hexDigit then
        .error .invalidNavigation
      else do
        navigationValid env library value.navigation
        match env.printInterface value.interface with
        | none => throw .invalidNavigation
        | some bytes =>
          let _ ← decodeInterface env bytes library
          return value

def receiptValid (library : NavigationCodec.LibraryId) (bytes : List UInt8) :
    Except StorageError Unit :=
  (decodeReceipt env bytes library).map fun _ => ()

/-- The receipt written for imported preferences, with its bytes. -/
def newReceipt (source : List UInt8) (library : NavigationCodec.LibraryId)
    (imported : HandoverPreferences) (navigationApplied interfaceApplied : Bool) :
    Except StorageError (List UInt8) :=
  match NavigationCodec.encode env.navigation imported.navigation with
  | .error _ => .error .invalidNavigation
  | .ok navigation =>
    match env.printReceipt
        { format := "librairii.native-handover", version := 1, library := library.text
          sourceSha256 := env.digest source, navigation := navigation
          interface :=
            { format := "librairii.native-interface", version := 1, library := library.text
              syncPanelHidden := imported.syncPanelHidden
              dismissedOperations := imported.dismissedOperations }
          navigationApplied := navigationApplied, interfaceApplied := interfaceApplied } with
    | none => .error .invalidNavigation
    | some bytes => (decodeReceipt env bytes library).map fun _ => bytes

/-- A check of an optional document of the interface. -/
def validOptional (validate : List UInt8 → Except StorageError Unit) :
    Option (List UInt8×ℕ) → Except StorageError Unit
  | none => .ok ()
  | some (bytes,_) => validate bytes

/-- The part of `import_handover` after the settings were read. -/
def importLocked (state : State) (source : List UInt8) (library : NavigationCodec.LibraryId)
    (imported : HandoverPreferences) : Work State := do
  let receipt ← within state (uiBytes state.marker "handover.json")
  within state (inspect fun _ => validOptional (receiptValid env library) receipt)
  if receipt.isSome then return state
  else
    let priorNavigation ← within state (uiBytes state.marker "navigation.json")
    within state (inspect fun _ => validOptional (navigationValid env library) priorNavigation)
    let priorInterface ← within state (uiBytes state.marker "interface.json")
    within state (inspect fun _ => validOptional (interfaceValid env library) priorInterface)
    let bytes ← within state (inspect fun _ =>
      newReceipt env source library imported priorNavigation.isNone priorInterface.isNone)
    saveUiDocumentLocked state "handover.json" bytes (receiptValid env library)

def namesLibrary (state : State) (library : NavigationCodec.LibraryId) : Bool :=
  match state.document with
  | none => false
  | some document =>
    document.profile.complete &&
      ((env.parseLibraryId document.profile.libraryId).map (·.bytes)=some library.bytes)

def importHandover (state : State) (source : List UInt8) (library : NavigationCodec.LibraryId) :
    Work State :=
  match env.decodeHandover source library with
  | none => fail ⟨.invalidNavigation,state⟩
  | some imported => do
    reserve state
    let state ← loadLocked env state
    within state (revalidateSettings env state)
    if !namesLibrary env state library then fail ⟨.invalidNavigation,state⟩
    else importLocked env state source library imported

end Librairii.ProfileStore
