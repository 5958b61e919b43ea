import Librairii.HandoverDecoding
import Librairii.ProfileSessions

/-!
# Transfer of preferences into a profile

A profile that is bound to one library keeps its navigation, its interface choices and the receipt
of a transfer in three documents. Each is published as a whole or not at all, and a crash or an
uncertain publication leaves it in one of the two states. What is read afterwards is the last
native choice, or else what the only transfer brought.
-/

namespace Librairii.PreferenceTransfer

open CheckedResults JsonText JsonReader JsonValues WireParser NavigationCodec NavigationRoundTrip
  ProfileStore
open HandoverDecoding hiding decode
open ControlFiles (StorageError)
open SavedQueryRoundTrip (serdeEscape escaping_serdeEscape)

def withDecoder (env : StoreEnv) (henv : HandoverEnv) (fresh : ℕ) : StoreEnv :=
  {env with decodeHandover := fun bytes library =>
    (HandoverDecoding.decode env.navigation henv bytes library 1 fresh).toOption}

/-- The documents of a profile. -/
structure Documents where
  navigation : Option (List UInt8)
  interface : Option (List UInt8)
  /-- The receipt of a transfer. -/
  handover : Option (List UInt8)

/-- How a transfer ends. -/
inductive HandoverImport where
  | imported
  | importedPreservingNativeChoices
  /-- There was one before. -/
  | alreadyImported
  deriving DecidableEq

section Store

variable (env : StoreEnv)

def documentBytes (document : Option (List UInt8)) :
    Except StorageError (Option (List UInt8)) :=
  match document with
  | none => .ok none
  | some bytes => if maxStateBytes<bytes.length then .error .invalidNavigation else .ok (some bytes)

def readNavigation (bytes : List UInt8) (library : LibraryId) (generation fresh : ℕ) :
    Except StorageError Navigation :=
  (decode env.navigation bytes library generation fresh).mapError fun _ => .invalidNavigation

def handoverReceipt (docs : Documents) (library : LibraryId) :
    Except StorageError (Option Receipt) := do
  match ← documentBytes docs.handover with
  | none => .ok none
  | some bytes => (decodeReceipt env bytes library).map some

def handoverNavigation (docs : Documents) (library : LibraryId) (generation fresh : ℕ) :
    Except StorageError (Option Navigation) := do
  match ← handoverReceipt env docs library with
  | none => .ok none
  | some receipt =>
    if !receipt.navigationApplied then .ok none
    else (readNavigation env receipt.navigation library generation fresh).map some

def handoverInterface (docs : Documents) (library : LibraryId) :
    Except StorageError (Option InterfacePreferences) := do
  match ← handoverReceipt env docs library with
  | none => .ok none
  | some receipt => .ok (if receipt.interfaceApplied then some receipt.interface else none)

def loadNavigation (docs : Documents) (library : LibraryId) (generation fresh : ℕ) :
    Except StorageError (Option Navigation) := do
  match ← documentBytes docs.navigation with
  | none => handoverNavigation env docs library generation fresh
  | some bytes => (readNavigation env bytes library generation fresh).map some

def loadInterface (docs : Documents) (library : LibraryId) :
    Except StorageError (Option InterfacePreferences) := do
  match ← documentBytes docs.interface with
  | none => handoverInterface env docs library
  | some bytes => (decodeInterface env bytes library).map some

/-- A document that is there is valid. -/
def checkPrior (validate : List UInt8 → Except StorageError Unit) (document : Option (List UInt8)) :
    Except StorageError Unit := do
  match ← documentBytes document with
  | none => .ok ()
  | some bytes => validate bytes

def saveNavigation (docs : Documents) (navigation : Navigation) :
    Except StorageError (List UInt8) :=
  match encode env.navigation navigation with
  | .error _ => .error .invalidNavigation
  | .ok bytes => do
    checkPrior (navigationValid env navigation.library) docs.navigation
    .ok bytes

def saveInterface (docs : Documents) (value : InterfacePreferences) :
    Except StorageError (List UInt8) := do
  let (library,bytes) ← encodeInterface env value
  checkPrior (interfaceValid env library) docs.interface
  .ok bytes

def importHandover (docs : Documents) (profile : LibraryId) (source : List UInt8)
    (library : LibraryId) : Except StorageError (HandoverImport×Option (List UInt8)) :=
  match env.decodeHandover source library with
  | none => .error .invalidNavigation
  | some imported =>
    if profile.bytes≠library.bytes then .error .invalidNavigation
    else do
      match ← handoverReceipt env docs library with
      | some _ => .ok (.alreadyImported,none)
      | none =>
        checkPrior (navigationValid env library) docs.navigation
        checkPrior (interfaceValid env library) docs.interface
        let bytes ← newReceipt env source library imported docs.navigation.isNone
          docs.interface.isNone
        .ok (if docs.navigation.isSome || docs.interface.isSome then
          .importedPreservingNativeChoices else .imported,some bytes)

end Store

/-- What becomes of a publication. -/
inductive Fate where
  /-- It does not happen: the call is refused, fails or the process ends before it. -/
  | missed
  /-- It happens, but the caller does not learn so. -/
  | unknown
  /-- It happens. -/
  | done
  deriving DecidableEq

/-- What happens to the profile of a library. -/
inductive Event (library : LibraryId) where
  | importHandover (source : List UInt8) (target : LibraryId) (fate : Fate)
  | saveNavigation (navigation : Navigation) (own : navigation.library=library) (fate : Fate)
  | saveInterface (value : InterfacePreferences) (own : value.library=library.text)
      (sorted : value.dismissedOperations.Pairwise (·<·)) (fate : Fate)
  /-- The process ends and starts again. -/
  | restart

/-- What has been chosen for a library. -/
structure Choices where
  navigation : Option Navigation
  /-- The last native interface choices. -/
  interface : Option InterfacePreferences
  /-- The transfer, and whether there were no native navigation and no native interface choices
  when it was imported. -/
  imported : Option (HandoverPreferences×Bool×Bool)

/-- A profile: its documents, and what they stand for. -/
structure Profile where
  docs : Documents
  chosen : Choices

def Profile.new : Profile := ⟨⟨none,none,none⟩,⟨none,none,none⟩⟩

def importedInterface (library : LibraryId) (imported : HandoverPreferences) :
    InterfacePreferences :=
  ⟨"librairii.native-interface",1,library.text,imported.syncPanelHidden,
    imported.dismissedOperations⟩

section Runs

variable (env : StoreEnv) {library : LibraryId}

/-- One event. What is published is recorded as chosen. -/
def Profile.step (s : Profile) : Event library → Profile
  | .importHandover source target fate =>
    match importHandover env s.docs library source target with
    | .ok (_,some bytes) =>
      if fate=.missed then s
      else ⟨{s.docs with handover := some bytes},
        {s.chosen with imported := (env.decodeHandover source target).map fun imported =>
          (imported,s.chosen.navigation.isNone,s.chosen.interface.isNone)}⟩
    | _ => s
  | .saveNavigation navigation _ fate =>
    match saveNavigation env s.docs navigation with
    | .ok bytes =>
      if fate=.missed then s
      else ⟨{s.docs with navigation := some bytes},{s.chosen with navigation := some navigation}⟩
    | .error _ => s
  | .saveInterface value _ _ fate =>
    match saveInterface env s.docs value with
    | .ok bytes =>
      if fate=.missed then s
      else ⟨{s.docs with interface := some bytes},{s.chosen with interface := some value}⟩
    | .error _ => s
  | .restart => s

/-- Events one after the other. -/
def Profile.run (s : Profile) (events : List (Event library)) : Profile :=
  events.foldl (fun s event => s.step env event) s

end Runs

def SameNavigation (a b : Navigation) : Prop :=
  a.library=b.library ∧ a.frames=b.frames ∧ a.position=b.position ∧ a.presentation=b.presentation

/-- The documented behaviour of the readers and writers of the preferences of a library. -/
structure DocumentedTransfer (env : StoreEnv) (library : LibraryId) : Prop where
  navigation : DocumentedNavigation env.navigation
  parsesLibrary : env.parseLibraryId library.text=some library
  /-- Interface choices are read back. -/
  interfaces : ∀ value bytes, value.dismissedOperations.Pairwise (·<·) →
    env.printInterface value=some bytes → env.parseInterface bytes=some value
  /-- A state is read by the names of its members, whatever their order. -/
  readsMap : ∀ state : WireState, (∀ frame ∈ state.frames, ValueForm frame.request) →
    height (stateJson state)<126 → state.position<2^64 →
    ∀ bytes, valueBytes env.navigation (toValue (stateJson state))=some bytes →
      env.navigation.readState bytes=some state
  /-- A receipt is read back; the navigation state in it has become a value tree. -/
  receipts : ∀ (receipt : Receipt) (state : WireState) (bytes : List UInt8),
    (∀ frame ∈ state.frames, ValueForm frame.request) → height (stateJson state)<126 →
    state.position<2^64 → valueBytes env.navigation (stateJson state)=some receipt.navigation →
    receipt.interface.dismissedOperations.Pairwise (·<·) →
    env.printReceipt receipt=some bytes →
      ∃ kept, valueBytes env.navigation (toValue (stateJson state))=some kept ∧
        env.parseReceipt bytes=some {receipt with navigation := kept}

/-- A receipt keeps a transfer. -/
structure Keeps (env : StoreEnv) (library : LibraryId) (bytes : List UInt8)
    (imported : HandoverPreferences) (noNavigation noInterface : Bool) (receipt : Receipt) :
    Prop where
  decoded : decodeReceipt env bytes library=.ok receipt
  /-- Whether the navigation is taken over. -/
  navigationApplied : receipt.navigationApplied=noNavigation
  /-- Whether the interface choices are taken over. -/
  interfaceApplied : receipt.interfaceApplied=noInterface
  interface : receipt.interface=importedInterface library imported
  navigation : ∀ generation fresh : ℕ, generation≠0 →
    ∃ m, readNavigation env receipt.navigation library generation fresh=.ok m ∧
      SameNavigation m imported.navigation

/-- Documents stand for what was chosen. -/
structure Stands (env : StoreEnv) (library : LibraryId) (s : Profile) : Prop where
  navigation : match s.chosen.navigation with
    | none => s.docs.navigation=none
    | some n => n.library=library ∧ ∃ bytes, s.docs.navigation=some bytes ∧
      encode env.navigation n=.ok bytes
  interface : match s.chosen.interface with
    | none => s.docs.interface=none
    | some value => ∃ bytes, s.docs.interface=some bytes ∧ bytes.length ≤ maxStateBytes ∧
      decodeInterface env bytes library=.ok value
  /-- The transfer. -/
  imported : match s.chosen.imported with
    | none => s.docs.handover=none
    | some (p,noNavigation,noInterface) => ∃ bytes receipt, s.docs.handover=some bytes ∧
      bytes.length ≤ maxStateBytes ∧ Keeps env library bytes p noNavigation noInterface receipt

/-- Transfers are decoded to a storable navigation of their library. -/
def Decodes (env : StoreEnv) : Prop :=
  ∀ source library imported, env.decodeHandover source library=some imported →
    imported.navigation.library=library ∧
      NavigationHistory.Persistable env.navigation imported.navigation ∧
      imported.dismissedOperations.Pairwise (·<·)

theorem decodes_withDecoder (env : StoreEnv) (henv : HandoverEnv) (fresh : ℕ) :
    Decodes (withDecoder env henv fresh) := by
  intro source library imported h
  have hdecode : HandoverDecoding.decode env.navigation henv source library 1 fresh=
      .ok imported := by
    change (HandoverDecoding.decode env.navigation henv source library 1 fresh).toOption=_ at h
    cases hd : HandoverDecoding.decode env.navigation henv source library 1 fresh with
    | error e =>
      rw [hd] at h
      cases h
    | ok p =>
      rw [hd] at h
      cases h
      rfl
  exact decode_sound hdecode

section Documented

variable {env : StoreEnv} {library : LibraryId}

theorem documentBytes_some {bytes : List UInt8} (h : bytes.length ≤ maxStateBytes) :
    documentBytes (some bytes)=.ok (some bytes) := if_neg (Nat.not_lt.mpr h)

theorem newReceipt_keeps (hd : DocumentedTransfer env library) {source bytes : List UInt8}
    {imported : HandoverPreferences} {noNavigation noInterface : Bool}
    (hlibrary : imported.navigation.library=library)
    (hsorted : imported.dismissedOperations.Pairwise (·<·))
    (h : newReceipt env source library imported noNavigation noInterface=.ok bytes) :
    bytes.length ≤ maxStateBytes ∧
      ∃ receipt, Keeps env library bytes imported noNavigation noInterface receipt := by
  rw [newReceipt] at h
  cases hencode : encode env.navigation imported.navigation with
  | error e => simp [hencode] at h
  | ok written =>
    simp only [hencode] at h
    split at h
    · cases h
    · rename_i printed hprint
      obtain ⟨receipt,hreceipt,he⟩ := exceptMap_ok.mp h
      subst he
      have hdecoded := hreceipt
      obtain ⟨hbound,hall,hvalue,_⟩ := (encode_iff hd.navigation).mp hencode
      obtain ⟨kept,hkept,hparse⟩ := hd.receipts _ (storedState imported.navigation) _
        (valueForm_storedState _) (height_storedState hd.navigation hall)
        (position_storedState hbound) hvalue hsorted hprint
      have hread := hd.readsMap _ (valueForm_storedState _)
        (height_storedState hd.navigation hall) (position_storedState hbound) kept hkept
      rw [decodeReceipt] at hreceipt
      obtain ⟨hlength,hreceipt⟩ := checked_ok.mp hreceipt
      rw [hparse] at hreceipt
      simp only at hreceipt
      obtain ⟨-,hreceipt⟩ := checked_ok.mp hreceipt
      obtain ⟨_,hvalid,hreceipt⟩ := exceptBind_ok.mp hreceipt
      split at hreceipt
      · cases hreceipt
      · obtain ⟨_,_,hreceipt⟩ := exceptBind_ok.mp hreceipt
        cases hreceipt
        have hkeptLength : kept.length ≤ maxStateBytes := by
          by_contra hlong
          rw [navigationValid,decode,if_pos (Or.inl (by omega))] at hvalid
          cases hvalid
        refine ⟨by omega,_,hdecoded,rfl,rfl,rfl,fun generation fresh hg => ?_⟩
        have hdecode : decode env.navigation kept _ generation fresh=_ :=
          decode_storedState hd.navigation hbound hall hread hkeptLength hg
        rw [hlibrary] at hdecode
        refine ⟨_,mapError_ok.mpr hdecode,?_⟩
        exact ⟨hlibrary.symm,rfl,rfl,rfl⟩

theorem handoverReceipt_none {s : Profile} (h : Stands env library s)
    (hnone : s.chosen.imported=none) : handoverReceipt env s.docs library=.ok none := by
  have hdocs := h.imported
  rw [hnone] at hdocs
  rw [handoverReceipt,hdocs]
  rfl

theorem handoverReceipt_some {s : Profile} (h : Stands env library s)
    {imported : HandoverPreferences} {noNavigation noInterface : Bool}
    (hsome : s.chosen.imported=some (imported,noNavigation,noInterface)) :
    ∃ bytes receipt, handoverReceipt env s.docs library=.ok (some receipt) ∧
      Keeps env library bytes imported noNavigation noInterface receipt := by
  have hdocs := h.imported
  rw [hsome] at hdocs
  obtain ⟨bytes,receipt,hbytes,hlength,hkeeps⟩ := hdocs
  refine ⟨bytes,receipt,?_,hkeeps⟩
  rw [handoverReceipt,hbytes,bind_of_ok (documentBytes_some hlength)]
  exact exceptMap_ok.mpr ⟨receipt,hkeeps.decoded,rfl⟩

theorem library_ext {a b : LibraryId} (h : a.bytes=b.bytes) : a=b := by
  obtain ⟨bytes,_⟩ := a
  obtain ⟨others,_⟩ := b
  cases h
  rfl

/-- A transfer that is published is for the library, the first, and kept with what it found. -/
theorem importHandover_published (hd : DocumentedTransfer env library) (hdecodes : Decodes env)
    {s : Profile} (h : Stands env library s) {source bytes : List UInt8} {target : LibraryId}
    {result : HandoverImport}
    (hok : importHandover env s.docs library source target=.ok (result,some bytes)) :
    target=library ∧ ∃ imported, env.decodeHandover source library=some imported ∧
      bytes.length ≤ maxStateBytes ∧ ∃ receipt, Keeps env library bytes imported
        s.docs.navigation.isNone s.docs.interface.isNone receipt := by
  rw [importHandover] at hok
  split at hok
  · cases hok
  · rename_i imported hsource
    split at hok
    · cases hok
    · rename_i hsame
      have htarget : target=library := (library_ext (not_not.mp hsame)).symm
      subst htarget
      obtain ⟨receipt,_,hok⟩ := exceptBind_ok.mp hok
      cases receipt with
      | some receipt => cases hok
      | none =>
        obtain ⟨_,_,hok⟩ := exceptBind_ok.mp hok
        obtain ⟨_,_,hok⟩ := exceptBind_ok.mp hok
        obtain ⟨written,hwritten,hok⟩ := exceptBind_ok.mp hok
        cases hok
        obtain ⟨hlibrary,_,hsorted⟩ := hdecodes source target imported hsource
        exact ⟨rfl,imported,hsource,newReceipt_keeps hd hlibrary hsorted hwritten⟩

theorem Stands.navigation_isNone {s : Profile} (h : Stands env library s) :
    s.docs.navigation.isNone=s.chosen.navigation.isNone := by
  have hdocs := h.navigation
  cases hn : s.chosen.navigation with
  | none =>
    rw [hn] at hdocs
    rw [hdocs]
    rfl
  | some n =>
    rw [hn] at hdocs
    obtain ⟨_,bytes,hbytes,_⟩ := hdocs
    rw [hbytes]
    rfl

theorem Stands.interface_isNone {s : Profile} (h : Stands env library s) :
    s.docs.interface.isNone=s.chosen.interface.isNone := by
  have hdocs := h.interface
  cases hn : s.chosen.interface with
  | none =>
    rw [hn] at hdocs
    rw [hdocs]
    rfl
  | some n =>
    rw [hn] at hdocs
    obtain ⟨bytes,hbytes,_⟩ := hdocs
    rw [hbytes]
    rfl

theorem step_stands (hd : DocumentedTransfer env library) (hdecodes : Decodes env) {s : Profile}
    (h : Stands env library s) (event : Event library) : Stands env library (s.step env event) := by
  cases event with
  | restart => exact h
  | importHandover source target fate =>
    rw [Profile.step]
    split
    · rename_i result bytes hok
      split
      · exact h
      · obtain ⟨htarget,imported,hsource,hlength,receipt,hkeeps⟩ :=
          importHandover_published hd hdecodes h hok
        rw [h.navigation_isNone,h.interface_isNone] at hkeeps
        refine ⟨h.navigation,h.interface,?_⟩
        simp only [htarget,hsource,Option.map_some]
        exact ⟨bytes,receipt,rfl,hlength,hkeeps⟩
    · exact h
  | saveNavigation navigation own fate =>
    rw [Profile.step]
    split
    · rename_i bytes hok
      split
      · exact h
      · rw [saveNavigation] at hok
        split at hok
        · cases hok
        · rename_i written hencode
          obtain ⟨_,_,hok⟩ := exceptBind_ok.mp hok
          cases hok
          exact ⟨⟨own,bytes,rfl,hencode⟩,h.interface,h.imported⟩
    · exact h
  | saveInterface value own sorted fate =>
    rw [Profile.step]
    split
    · rename_i bytes hok
      split
      · exact h
      · obtain ⟨⟨target,written⟩,hencode,hok⟩ := exceptBind_ok.mp hok
        obtain ⟨_,_,hok⟩ := exceptBind_ok.mp hok
        cases hok
        refine ⟨h.navigation,?_,h.imported⟩
        rw [encodeInterface,own,hd.parsesLibrary] at hencode
        cases hprint : env.printInterface value with
        | none => simp [hprint] at hencode
        | some printed =>
          simp only [hprint] at hencode
          obtain ⟨read,hread,he⟩ := exceptMap_ok.mp hencode
          have hbytes : printed=bytes := congrArg Prod.snd he
          have hparse := hd.interfaces value printed sorted hprint
          have hvalue : read=value ∧ printed.length ≤ maxStateBytes := by
            have hdecoded := hread
            rw [decodeInterface,hparse] at hdecoded
            simp only at hdecoded
            obtain ⟨hlimits,hdecoded⟩ := checked_ok.mp hdecoded
            cases hdecoded
            push Not at hlimits
            exact ⟨rfl,hlimits.1⟩
          rw [hvalue.1] at hread
          exact ⟨printed,congrArg some hbytes.symm,hvalue.2,hread⟩
    · exact h

theorem run_stands (hd : DocumentedTransfer env library) (hdecodes : Decodes env)
    (events : List (Event library)) {s : Profile} (h : Stands env library s) :
    Stands env library (s.run env events) := by
  induction events generalizing s with
  | nil => exact h
  | cons event events ih => exact ih (step_stands hd hdecodes h event)

theorem new_stands : Stands env library Profile.new := ⟨rfl,rfl,rfl⟩

def Choices.ShowsNavigation (chosen : Choices) (result : Option Navigation) : Prop :=
  match chosen.navigation,chosen.imported with
  | some n,_ => ∃ m, result=some m ∧ SameNavigation m n
  | none,some (imported,true,_) => ∃ m, result=some m ∧ SameNavigation m imported.navigation
  | none,_ => result=none

def Choices.shownInterface (library : LibraryId) (chosen : Choices) :
    Option InterfacePreferences :=
  match chosen.interface,chosen.imported with
  | some value,_ => some value
  | none,some (imported,_,true) => some (importedInterface library imported)
  | none,_ => none

/-- Reading the navigation returns the last native one, or else the transferred one. -/
theorem loadNavigation_stands (hd : DocumentedTransfer env library) {s : Profile}
    (h : Stands env library s) {generation : ℕ} (hg : generation≠0) (fresh : ℕ) :
    ∃ result, loadNavigation env s.docs library generation fresh=.ok result ∧
      s.chosen.ShowsNavigation result := by
  have hdocs := h.navigation
  rw [loadNavigation]
  unfold Choices.ShowsNavigation
  cases hn : s.chosen.navigation with
  | some n =>
    rw [hn] at hdocs
    obtain ⟨hlibrary,bytes,hbytes,hencode⟩ := hdocs
    have hlength := ((encode_iff hd.navigation).mp hencode).2.2.2
    obtain ⟨m,hm,hsame⟩ : ∃ m, decode env.navigation bytes n.library generation fresh=.ok m ∧ _ :=
      decode_navigation hd.navigation hencode hg
    rw [hlibrary] at hm hsame
    rw [hbytes,bind_of_ok (documentBytes_some hlength)]
    refine ⟨some m,exceptMap_ok.mpr ⟨m,mapError_ok.mpr hm,rfl⟩,m,rfl,?_⟩
    exact ⟨hsame.1.trans hlibrary.symm,hsame.2.1,hsame.2.2.1,hsame.2.2.2.1⟩
  | none =>
    rw [hn] at hdocs
    rw [hdocs]
    change ∃ result, handoverNavigation env s.docs library generation fresh=.ok result ∧ _
    rw [handoverNavigation]
    cases himported : s.chosen.imported with
    | none =>
      rw [bind_of_ok (handoverReceipt_none h himported)]
      exact ⟨none,rfl,rfl⟩
    | some imported =>
      obtain ⟨p,noNavigation,noInterface⟩ := imported
      obtain ⟨bytes,receipt,hreceipt,hkeeps⟩ := handoverReceipt_some h himported
      rw [bind_of_ok hreceipt]
      simp only [hkeeps.navigationApplied]
      cases noNavigation with
      | false => exact ⟨none,rfl,rfl⟩
      | true =>
        obtain ⟨m,hm,hsame⟩ := hkeeps.navigation generation fresh hg
        refine ⟨some m,?_,m,rfl,hsame⟩
        simp only [Bool.not_true,Bool.false_eq_true,if_false]
        exact exceptMap_ok.mpr ⟨m,hm,rfl⟩

/-- Reading the interface choices returns the last native ones, or else the transferred ones. -/
theorem loadInterface_stands {s : Profile} (h : Stands env library s) :
    loadInterface env s.docs library=.ok (s.chosen.shownInterface library) := by
  have hdocs := h.interface
  rw [loadInterface,Choices.shownInterface]
  cases hn : s.chosen.interface with
  | some value =>
    rw [hn] at hdocs
    obtain ⟨bytes,hbytes,hlength,hdecode⟩ := hdocs
    rw [hbytes,bind_of_ok (documentBytes_some hlength)]
    exact exceptMap_ok.mpr ⟨value,hdecode,rfl⟩
  | none =>
    rw [hn] at hdocs
    rw [hdocs]
    change handoverInterface env s.docs library=_
    rw [handoverInterface]
    cases himported : s.chosen.imported with
    | none =>
      rw [bind_of_ok (handoverReceipt_none h himported)]
    | some imported =>
      obtain ⟨p,noNavigation,noInterface⟩ := imported
      obtain ⟨bytes,receipt,hreceipt,hkeeps⟩ := handoverReceipt_some h himported
      rw [bind_of_ok hreceipt]
      simp only [hkeeps.interfaceApplied,hkeeps.interface]
      cases noInterface with
      | false => rfl
      | true => rfl

/-- A well-formed transfer changes nothing when there was one before. -/
theorem importHandover_again {s : Profile} (h : Stands env library s)
    (himported : s.chosen.imported.isSome) {source : List UInt8}
    (hsource : (env.decodeHandover source library).isSome) :
    importHandover env s.docs library source library=.ok (.alreadyImported,none) := by
  obtain ⟨⟨p,noNavigation,noInterface⟩,hchosen⟩ := Option.isSome_iff_exists.mp himported
  obtain ⟨imported,hdecode⟩ := Option.isSome_iff_exists.mp hsource
  obtain ⟨bytes,receipt,hreceipt,_⟩ := handoverReceipt_some h hchosen
  rw [importHandover,hdecode]
  simp only [ne_eq,not_true_eq_false,if_false]
  rw [bind_of_ok hreceipt]

theorem importHandover_refused {docs : Documents} {source : List UInt8} {target : LibraryId}
    (h : env.decodeHandover source target=none ∨ target≠library) :
    importHandover env docs library source target=.error .invalidNavigation := by
  rw [importHandover]
  cases hsource : env.decodeHandover source target with
  | none => rfl
  | some imported =>
    have hother : library.bytes≠target.bytes := by
      cases h with
      | inl hnone =>
        rw [hsource] at hnone
        cases hnone
      | inr htarget => exact fun hbytes => htarget (library_ext hbytes).symm
    exact if_pos hother

/-- An attempt that publishes nothing leaves the profile as it is. -/
theorem step_importHandover_unchanged {s : Profile} {source : List UInt8} {target : LibraryId}
    (h : ∀ result bytes, importHandover env s.docs library source target≠.ok (result,some bytes))
    (fate : Fate) : s.step env (.importHandover source target fate : Event library)=s := by
  rw [Profile.step]
  split
  · rename_i result bytes hok
    exact absurd hok (h result bytes)
  · rfl

end Documented

section Named

def named (members : List (String×Json)) (name : String) : Option Json :=
  (members.find? fun entry => entry.1=name).map Prod.snd

def textOf : Json → Option String
  | .string text => some text
  | _ => none

def flagOf : Json → Option Bool
  | .bool flag => some flag
  | _ => none

def naturalOf : Json → Option ℕ
  | .number n => if 0≤n then some n.toNat else none
  | _ => none

/-- A frame from its five members in any order. -/
def frameNamed : Json → Option WireFrame
  | .object members =>
    if members.length=5 then do
      let kind ← (named members "kind").bind textOf
      let id ← (named members "id").bind idOf
      let manualOrder ← (named members "manualOrder").bind manualOrderOf
      let request ← named members "request"
      let .array selection ← named members "selection" | none
      let selection ← selection.mapM i64Of
      some ⟨kind,id,manualOrder,request,selection⟩
    else none
  | _ => none

/-- A state from its five members in any order. -/
def stateNamed : Json → Option WireState
  | .object members =>
    if members.length=5 then do
      let version ← (named members "version").bind i64Of
      let libraryId ← (named members "libraryId").bind textOf
      let .array frames ← named members "frames" | none
      let frames ← frames.mapM frameNamed
      let position ← (named members "position").bind naturalOf
      let presentation ← ((named members "presentation").bind textOf).bind presentationOf
      some ⟨version,libraryId,frames,position,presentation⟩
    else none
  | _ => none

def frameValue (frame : WireFrame) : Json :=
  .object [("id",idJson frame.id),("kind",.string frame.kind),
    ("manualOrder",manualOrderJson frame.manualOrder),("request",frame.request),
    ("selection",.array (frame.selection.map fun id => .number id.val))]

def stateValue (state : WireState) : Json :=
  .object [("frames",.array (state.frames.map frameValue)),("libraryId",.string state.libraryId),
    ("position",.number state.position),("presentation",.string state.presentation.text),
    ("version",.number state.version.val)]

theorem toValue_frameJson {frame : WireFrame} (h : ValueForm frame.request) :
    toValue (frameJson frame)=frameValue frame := by
  have hk : ["id","kind","manualOrder","request","selection"].Pairwise (·<·) := by decide
  have hn : ["kind","id","manualOrder","request","selection"].Nodup := by decide
  have hid : toValue (idJson frame.id)=idJson frame.id := by
    cases frame.id with
    | none => rfl
    | some id => rfl
  have hmanual : toValue (manualOrderJson frame.manualOrder)=
      manualOrderJson frame.manualOrder := by
    cases frame.manualOrder with
    | none => rfl
    | some manualOrder => rfl
  have hselection : toValue (.array (frame.selection.map fun id => .number id.val))=
      .array (frame.selection.map fun id => .number id.val) := by
    rw [toValue,toValues_map]
    rfl
  rw [frameJson,toValue]
  simp only [toMembers,hid,hmanual,hselection,toValue_valueForm _ h]
  rw [frameValue]
  refine congrArg Json.object (mapOf_eq hn (ordered_of_sublist hk (List.Sublist.refl _)) ?_)
  intro entry
  simp only [List.mem_cons,List.not_mem_nil,or_false]
  tauto

theorem toValue_stateJson {state : WireState}
    (h : ∀ frame ∈ state.frames, ValueForm frame.request) :
    toValue (stateJson state)=stateValue state := by
  have hk : ["frames","libraryId","position","presentation","version"].Pairwise (·<·) := by decide
  have hn : ["version","libraryId","frames","position","presentation"].Nodup := by decide
  have hframes : toValue (.array (state.frames.map frameJson))=
      .array (state.frames.map frameValue) := by
    rw [toValue,toValues_map]
    exact congrArg Json.array (List.map_congr_left fun frame hf => toValue_frameJson (h frame hf))
  rw [stateJson,toValue]
  simp only [toMembers,hframes]
  rw [stateValue]
  refine congrArg Json.object (mapOf_eq hn (ordered_of_sublist hk (List.Sublist.refl _)) ?_)
  intro entry
  simp only [List.mem_cons,List.not_mem_nil,or_false]
  tauto

theorem valueForm_frameValue {frame : WireFrame} (h : ValueForm frame.request) :
    ValueForm (frameValue frame) := by
  have hk : ["id","kind","manualOrder","request","selection"].Pairwise (·<·) := by decide
  have hid : ValueForm (idJson frame.id) := by
    cases frame.id with
    | none => trivial
    | some id => exact valueForm_number id
  have hmanual : ValueForm (manualOrderJson frame.manualOrder) := by
    cases frame.manualOrder with
    | none => trivial
    | some manualOrder => trivial
  exact ⟨ordered_of_sublist hk (List.Sublist.refl _),hid,trivial,hmanual,h,
    valueForms_map valueForm_number frame.selection,trivial⟩

theorem valueForm_stateValue {state : WireState}
    (h : ∀ frame ∈ state.frames, ValueForm frame.request) (hposition : state.position<2^64) :
    ValueForm (stateValue state) := by
  have hk : ["frames","libraryId","position","presentation","version"].Pairwise (·<·) := by decide
  have hframes : ∀ frames : List WireFrame, (∀ frame ∈ frames, ValueForm frame.request) →
      ValueForms (frames.map frameValue) := by
    intro frames
    induction frames with
    | nil => exact fun _ => trivial
    | cons frame frames ih =>
      intro hall
      rw [List.forall_mem_cons] at hall
      exact ⟨valueForm_frameValue hall.1,ih hall.2⟩
  have hnumber : ValueForm (.number state.position) := ⟨by omega,by exact_mod_cast hposition⟩
  exact ⟨ordered_of_sublist hk (List.Sublist.refl _),hframes _ h,trivial,hnumber,trivial,
    valueForm_number state.version,trivial⟩

theorem naturalOf_written (n : ℕ) : naturalOf (.number n)=some n := by
  rw [naturalOf,if_pos (Int.natCast_nonneg n),Int.toNat_natCast]

theorem frameNamed_written (frame : WireFrame) :
    frameNamed (frameJson frame)=some frame ∧ frameNamed (frameValue frame)=some frame := by
  have hselection := mapM_written i64Of_number frame.selection
  have hid : idOf (idJson frame.id)=some frame.id := by
    cases frame.id with
    | none => rfl
    | some id => exact congrArg (Option.map some) (i64Of_number id)
  have hmanual : manualOrderOf (manualOrderJson frame.manualOrder)=some frame.manualOrder := by
    cases frame.manualOrder with
    | none => rfl
    | some manualOrder => rfl
  constructor
  · simp [frameJson,frameNamed,named,textOf,hid,hmanual,hselection,-List.map_subtype]
  · simp [frameValue,frameNamed,named,textOf,hid,hmanual,hselection,-List.map_subtype]

theorem stateNamed_written (state : WireState) :
    stateNamed (stateJson state)=some state ∧ stateNamed (stateValue state)=some state := by
  have hversion := i64Of_number state.version
  have hwritten := mapM_written (fun frame => (frameNamed_written frame).1) state.frames
  have hvalues := mapM_written (fun frame => (frameNamed_written frame).2) state.frames
  have hposition := naturalOf_written state.position
  have hpresentation : presentationOf state.presentation.text=some state.presentation := by
    cases state.presentation with
    | list => rfl
    | smallCovers => rfl
    | largeCovers => rfl
  constructor
  · simp [stateJson,stateNamed,named,textOf,hversion,hwritten,hposition,hpresentation]
  · simp [stateValue,stateNamed,named,textOf,hversion,hvalues,hposition,hpresentation]

def namedNavigation : NavigationEnv :=
  {plainNavigation with readState := fun bytes => (readJson bytes).bind stateNamed}

def interfaceJson (value : InterfacePreferences) : Json :=
  .object [("format",.string value.format),("version",.number value.version),
    ("library",.string value.library),("sync_panel_hidden",.bool value.syncPanelHidden),
    ("dismissed_operations",.array (value.dismissedOperations.map .string))]

/-- Interface choices from their members. -/
def interfaceNamed : Json → Option InterfacePreferences
  | .object members => do
    let format ← (named members "format").bind textOf
    let version ← (named members "version").bind naturalOf
    let library ← (named members "library").bind textOf
    let hidden ← (named members "sync_panel_hidden").bind flagOf
    let .array dismissed ← named members "dismissed_operations" | none
    let dismissed ← dismissed.mapM textOf
    some ⟨format,version,library,hidden,dismissed⟩
  | _ => none

theorem interfaceNamed_written (value : InterfacePreferences) :
    interfaceNamed (interfaceJson value)=some value := by
  have htext : ∀ text : String, textOf (.string text)=some text := fun _ => rfl
  have hdismissed := mapM_written htext value.dismissedOperations
  have hversion := naturalOf_written value.version
  simp [interfaceJson,interfaceNamed,named,textOf,flagOf,hdismissed,hversion]

theorem fit_interfaceJson (value : InterfacePreferences) : Fit exactKeys (interfaceJson value) := by
  have hkeys : ["format","version","library","sync_panel_hidden","dismissed_operations"].Nodup := by
    decide
  have htext : ∀ text : String, Fit exactKeys (.string text) := fun _ => trivial
  exact ⟨keyed_exactKeys hkeys,trivial,rfl,trivial,trivial,
    fitElements_map htext value.dismissedOperations,trivial⟩

def receiptJson (receipt : Receipt) (navigation : Json) : Json :=
  .object [("format",.string receipt.format),("version",.number receipt.version),
    ("library",.string receipt.library),("source_sha256",.string receipt.sourceSha256),
    ("navigation",navigation),("interface",interfaceJson receipt.interface),
    ("navigation_applied",.bool receipt.navigationApplied),
    ("interface_applied",.bool receipt.interfaceApplied)]

/-- A receipt from its members; its navigation is a value tree. -/
def receiptNamed : Json → Option Receipt
  | .object members => do
    let format ← (named members "format").bind textOf
    let version ← (named members "version").bind naturalOf
    let library ← (named members "library").bind textOf
    let source ← (named members "source_sha256").bind textOf
    let navigation ← (named members "navigation").bind fun value =>
      valueBytes namedNavigation (toValue value)
    let interface ← (named members "interface").bind interfaceNamed
    let navigationApplied ← (named members "navigation_applied").bind flagOf
    let interfaceApplied ← (named members "interface_applied").bind flagOf
    some ⟨format,version,library,source,navigation,interface,navigationApplied,interfaceApplied⟩
  | _ => none

/-- A store whose documents are texts read by the names of their members. -/
def namedStore : StoreEnv :=
  {ProfileSessions.plainStore with
    navigation := namedNavigation
    parseInterface := fun bytes => (readJson bytes).bind interfaceNamed
    printInterface := fun value => some (bytes (write serdeEscape (interfaceJson value)))
    parseReceipt := fun bytes => (readJson bytes).bind receiptNamed
    printReceipt := fun receipt => (readJson receipt.navigation).map fun navigation =>
      bytes (write serdeEscape (receiptJson receipt (toValue navigation)))
    digest := fun _ => String.ofList (List.replicate 64 '0')}

/-- Values are serialized to their texts. -/
theorem valueBytes_named (value : Json) :
    valueBytes namedNavigation value=some (bytes (write serdeEscape value)) :=
  valueBytes_plain value

theorem documented_namedNavigation : DocumentedNavigation namedNavigation where
  codec := documented_plainNavigation.codec
  readsValue := documented_plainNavigation.readsValue
  readsState state hforms hheight _ text hb := by
    rw [valueBytes_named] at hb
    cases hb
    have hread := readJson_write escaping_serdeEscape (fit_stateJson hforms) (by omega)
    change (readJson _).bind stateNamed=_
    rw [hread]
    exact (stateNamed_written state).1

theorem height_interfaceJson (value : InterfacePreferences) : height (interfaceJson value)≤2 := by
  have hdismissed : ∀ texts : List String, heightElements (texts.map .string)≤1 := by
    intro texts
    induction texts with
    | nil => decide
    | cons text texts ih => exact Nat.max_le.mpr ⟨Nat.le_refl _,ih⟩
  rw [interfaceJson,height,heightMembers_le]
  simp only [List.forall_mem_cons,height,List.not_mem_nil,false_imp_iff,implies_true,and_true]
  exact ⟨by decide,by decide,by decide,by decide,Nat.succ_le_succ (hdismissed _)⟩

theorem receiptNamed_written {receipt : Receipt} {navigation : Json}
    (hform : ValueForm navigation) (hheight : height navigation<126) :
    (readJson (bytes (write serdeEscape (receiptJson receipt navigation)))).bind receiptNamed=
      some {receipt with navigation := bytes (write serdeEscape navigation)} := by
  have hkeys : ["format","version","library","source_sha256","navigation","interface",
      "navigation_applied","interface_applied"].Nodup := by decide
  have hfit : Fit exactKeys (receiptJson receipt navigation) :=
    ⟨keyed_exactKeys hkeys,trivial,rfl,trivial,trivial,fit_valueForm _ hform,
      fit_interfaceJson receipt.interface,trivial,trivial,trivial⟩
  have hinterface := height_interfaceJson receipt.interface
  have hall : height (receiptJson receipt navigation)≤128 := by
    rw [receiptJson,height,heightMembers_le]
    simp only [List.forall_mem_cons,height,List.not_mem_nil,false_imp_iff,implies_true,and_true]
    omega
  rw [readJson_write escaping_serdeEscape hfit hall,Option.bind_some]
  simp [receiptJson,receiptNamed,named,textOf,flagOf,naturalOf_written,interfaceNamed_written,
    toValue_valueForm _ hform,valueBytes_named]

theorem documented_namedStore : DocumentedTransfer namedStore ProfileSessions.plainLibrary where
  navigation := documented_namedNavigation
  parsesLibrary := by
    change (if ProfileSessions.plainLibrary.text=ProfileSessions.plainLibrary.text then
      some ProfileSessions.plainLibrary else none)=_
    exact if_pos rfl
  interfaces value text _ hb := by
    cases hb
    have hheight := height_interfaceJson value
    have hread := readJson_write escaping_serdeEscape (fit_interfaceJson value) (by omega)
    change (readJson _).bind interfaceNamed=_
    rw [hread]
    exact interfaceNamed_written value
  readsMap state hforms hheight hposition text hb := by
    change valueBytes namedNavigation _=_ at hb
    rw [valueBytes_named,toValue_stateJson hforms] at hb
    cases hb
    have hvalue := height_toValue (stateJson state)
    rw [toValue_stateJson hforms] at hvalue
    have hread := readJson_write escaping_serdeEscape
      (fit_valueForm _ (valueForm_stateValue hforms hposition)) (by omega)
    change (readJson _).bind stateNamed=_
    rw [hread]
    exact (stateNamed_written state).2
  receipts receipt state text hforms hheight hposition hnavigation _ hb := by
    change valueBytes namedNavigation _=_ at hnavigation
    rw [valueBytes_named] at hnavigation
    have hread := readJson_write escaping_serdeEscape (fit_stateJson hforms) (by omega)
    rw [Option.some.inj hnavigation] at hread
    change (readJson receipt.navigation).map _=_ at hb
    rw [hread,Option.map_some,toValue_stateJson hforms] at hb
    cases hb
    have hvalue := height_toValue (stateJson state)
    rw [toValue_stateJson hforms] at hvalue
    rw [toValue_stateJson hforms]
    exact ⟨_,valueBytes_named _,receiptNamed_written (valueForm_stateValue hforms hposition)
      (by omega)⟩

end Named

section Example

/-- A transfer of two frames, shown at the first. -/
def plainDocument : Document where
  format := "librairii.preference-handover"
  version := 1
  libraryId := ProfileSessions.plainLibrary.text
  legacyBrokenTagId := SavedQuery.zero
  presentation := .largeCovers
  dismissedOperations := []
  syncPanelHidden := true
  frames := [⟨"","library",none,none⟩,⟨"","custom",none,none⟩]
  position := 0

/-- The parsers of the transfer. -/
def plainHandover : HandoverEnv where
  parseDocument source := if source=[0] then some plainDocument else none
  decodeHash hash _ :=
    if hash="" then (QueryRequests.normalizeRequest namedNavigation.toRuntimeEnv {}).toOption
    else none
  parseJobId := some

/-- Interface choices are saved, and a transfer is imported before and after a restart. -/
def plainEvents : List (Event ProfileSessions.plainLibrary) :=
  [.saveInterface (ProfileSessions.plainChoices false) rfl List.Pairwise.nil .done,
    .importHandover [0] ProfileSessions.plainLibrary .unknown,.restart,
    .importHandover [0] ProfileSessions.plainLibrary .done]

end Example

end Librairii.PreferenceTransfer
