import Librairii.InterruptedSteps
import Librairii.NamedObjects

/-!
# Control files of an owned directory

Settings, preferences and lifecycle records are files that are replaced as a
whole: a private temporary is created, written and flushed, and then exchanged
with the named file. Every call may fail with or without its effect, and others
may put other objects at a name between two calls. The state keeps what others
made of the names, so that the owner's own doings can be told from theirs.
-/

namespace Librairii.ControlFiles

open InterruptedSteps NamedObjects

/-- The kinds of input and output errors that are told apart. -/
inductive IoKind where
  /-- The name is taken. -/
  | alreadyExists
  /-- There is no such name. -/
  | notFound
  /-- The directory cannot be written. -/
  | permissionDenied
  /-- Any other cause. -/
  | other
  deriving DecidableEq

/-- The errors of the storage layer used here. -/
inductive StorageError where
  /-- A call of the operating system failed. -/
  | io (context : String) (kind : IoKind)
  /-- An entry that is no regular file with one name. -/
  | pathEscape
  /-- A name that is not one plain component. -/
  | invalidManagedPath
  /-- An entry is not the object it was. -/
  | snapshotChanged
  /-- No free private name was found. -/
  | destinationCollision
  | compatibilityInvariant
  /-- The bytes are no settings document. -/
  | invalidProfile
  /-- The bytes are no document for this library. -/
  | invalidNavigation
  | shelf
  /-- A document is not the one that was read. -/
  | profileChanged
  /-- The store can only be used after a restart. -/
  | profileRestartRequired
  /-- Another operation owns the store. -/
  | profileBusy
  /-- Fields reserved to a library binding were changed. -/
  | profileBindingActive
  /-- It is not known which document is named. -/
  | profilePublicationUncertain (cause : StorageError)
  /-- A private temporary could not be removed. -/
  | ownedTempCleanupFailed (work cleanup : StorageError)
  /-- The namespace holds something only recovery may touch. -/
  | recoveryBindingRequired
  | cancelled
  | runtimeInUse
  /-- A library may not be used any more. -/
  | runtimeFenced
  /-- A library takes no new work. -/
  | intakeClosed
  /-- No room is left for another registration. -/
  | queueFull
  | closedSnapshotRequired
  /-- Files under custody must be recovered first. -/
  | custodyRecoveryRequired
  /-- A directory holds more than was expected. -/
  | adoptionInputChanged
  /-- The marker names another library. -/
  | identityMismatch
  deriving DecidableEq

/-- What a name leads to. -/
inductive Node where
  | file (bytes : List UInt8)
  /-- A directory. -/
  | folder
  /-- A link, socket or device. -/
  | special
  deriving DecidableEq

def Node.bytes : Node → List UInt8
  | .file bytes => bytes
  | _ => []

/-- How one call of the operating system ends. -/
inductive Fate where
  /-- The call does what it should. -/
  | done
  /-- The call fails without an effect. -/
  | failed
  /-- The call fails after its effect. -/
  | lost
  /-- A write fails after its first bytes. -/
  | torn (taken : ℕ)
  deriving DecidableEq

/-- What somebody else does to a name. -/
inductive Meddling where
  /-- Bind the name to a new object of theirs. -/
  | replaced (name : String) (node : Node)
  /-- Remove the name. -/
  | removed (name : String)

/-- The name somebody else acts on. -/
def Meddling.name : Meddling → String
  | .replaced name _ => name
  | .removed name => name

/-- What is decided for one call: what others do before it and how it ends. -/
structure Choice where
  others : List Meddling
  /-- How the call ends. -/
  fate : Fate

instance : Inhabited Choice := ⟨⟨[],.done⟩⟩

/-- An owned directory with its files. -/
structure Control where
  /-- The names and their objects. -/
  folder : Folder String Node
  /-- The number of the next private name. -/
  serial : ℕ
  /-- The process that makes private names. -/
  process : ℕ
  /-- The directory grants write permission. -/
  writable : Bool
  /-- The names as they were at the start of the operation, with what others did since. -/
  theirs : String → Option ℕ
  /-- The name this operation published and its object, unless others acted on it since. -/
  ours : Option (String×ℕ)
  /-- The objects others put in place since the start of the operation. -/
  placed : List (ℕ×Node)
  /-- The objects whose names this operation removed. -/
  unlinked : List ℕ
  /-- The name this operation published, its object and what the name led to just before. -/
  overwrote : Option (String×ℕ×Option ℕ)
  /-- The object this operation read under the name it replaces. -/
  subject : Option ℕ

namespace Control

/-- What the names would be without a private temporary. -/
def base (s : Control) (k : String) : Option ℕ :=
  match s.ours with
  | none => s.theirs k
  | some (name,i) => if k=name then some i else s.theirs k

/-- The publication stays ours unless others act on its name. -/
def overtaken (s : Control) (name : String) : Option (String×ℕ) :=
  s.ours.filter fun p => p.1≠name

/-- The effect of somebody else's doing. -/
def meddle (s : Control) : Meddling → Control
  | .replaced name node =>
    { s with
      folder := s.folder.create name node
      theirs := Function.update s.theirs name (some s.folder.issued)
      ours := s.overtaken name
      placed := (s.folder.issued,node)::s.placed }
  | .removed name =>
    { s with
      folder := s.folder.remove name
      theirs := Function.update s.theirs name none
      ours := s.overtaken name }

/-- An operation starts: every name is where others left it. -/
def start (s : Control) : Control :=
  { s with
    theirs := s.folder.find
    ours := none
    placed := []
    unlinked := []
    overwrote := none
    subject := none }

def bytesOf (s : Control) (i : ℕ) : List UInt8 := (s.folder.contents i).bytes

end Control

variable {ε α : Type}

def call (f : Fate → Control → Except ε α×Control) : Steps Control Choice ε α :=
  act fun choice s => f choice.fate (choice.others.foldl Control.meddle s)

def look (context : String) (f : Control → Except StorageError α) :
    Steps Control Choice StorageError α :=
  call fun fate s =>
    (match fate with
      | .done => f s
      | _ => .error (.io context .other),s)

def entryName (name : String) : Bool :=
  name≠"" && name≠"." && name≠".." && !name.toList.contains '/' &&
    !name.toList.contains (Char.ofNat 0)

def requireName (name : String) (identity : ℕ) : Steps Control Choice StorageError Unit :=
  look "revalidate owned entry" fun s =>
    match s.folder.find name with
    | none => .error (.io "revalidate owned entry" .notFound)
    | some i => if i=identity then .ok () else .error .snapshotChanged

def requireRegular (identity : ℕ) : Steps Control Choice StorageError Unit :=
  look "inspect regular file witness" fun s =>
    match s.folder.contents identity with
    | .file _ => if s.folder.links identity=1 then .ok () else .error .pathEscape
    | _ => .error .pathEscape

/-- `open_regular` for reading: the object of the name, checked after it was opened. -/
def openRegular (name : String) : Steps Control Choice StorageError ℕ := do
  let identity ← look "open owned regular file" fun s =>
    match s.folder.find name with
    | none => .error (.io "open owned regular file" .notFound)
    | some i =>
      match s.folder.contents i with
      | .special => .error (.io "open owned regular file" .other)
      | _ => .ok i
  requireRegular identity
  requireName name identity
  return identity

/-- `regular_entry`: whether an optional name leads to a regular file with one name. -/
def regularEntry (name : String) : Steps Control Choice StorageError Bool :=
  look "inspect optional preference entry" fun s =>
    match s.folder.find name with
    | none => .ok false
    | some i =>
      match s.folder.contents i with
      | .file _ => if s.folder.links i=1 then .ok true else .error .pathEscape
      | _ => .error .pathEscape

def readRegular (name : String) : Steps Control Choice StorageError (Option ℕ) := do
  let bound ← look "inspect owned readable entry" fun s => .ok (s.folder.find name).isSome
  if bound then
    let identity ← openRegular name
    return some identity
  else
    return none

def readBytes (context : String) (identity : ℕ) :
    Steps Control Choice StorageError (List UInt8) :=
  look context fun s => .ok (s.bytesOf identity)

def durableFileFlush (_identity : ℕ) : Steps Control Choice StorageError Unit :=
  look "flush owned file" fun _ => .ok ()

/-- `Directory::flush`: the names reach the disk. -/
def flush : Steps Control Choice StorageError Unit :=
  look "flush anchored directory" fun _ => .ok ()

/-- The bytes of a file whose beginning was overwritten. -/
def overwritten (old new : List UInt8) : List UInt8 := new ++ old.drop new.length

def writeAll (context : String) (identity : ℕ) (bytes : List UInt8) :
    Steps Control Choice StorageError Unit :=
  call fun fate s =>
    let put (taken : List UInt8) : Control :=
      { s with folder := s.folder.write identity (.file (overwritten (s.bytesOf identity) taken)) }
    match fate with
    | .done => (.ok (),put bytes)
    | .failed => (.error (.io context .other),s)
    | .lost => (.error (.io context .other),put bytes)
    | .torn n => (.error (.io context .other),put (bytes.take n))

/-- An owned file with the name it was opened under. -/
structure ConfigTemp where
  /-- The open object. -/
  identity : ℕ
  name : String
  deriving DecidableEq

/-- An attempt to create a file: the open object, if any, and the name. -/
structure ControlAllocation where
  /-- The open object. -/
  file : Option ℕ
  name : String
  deriving DecidableEq

/-- A creation that failed. -/
structure ControlCreateFailure where
  cause : StorageError
  /-- What may have been created. -/
  allocation : ControlAllocation
  /-- The attempt was refused before the name was touched. -/
  creationRefused : Bool
  deriving DecidableEq

/-- A replacement that failed. -/
structure ConfigReplaceFailure where
  temporary : ConfigTemp
  /-- The names may have been exchanged. -/
  changed : Bool
  cause : StorageError
  deriving DecidableEq

/-- Report a failing part under the error type of the whole. -/
def orFail (m : Steps Control Choice ε α) {ε' : Type} (f : ε → ε') : Steps Control Choice ε' α := do
  match ← attempt m with
  | .ok a => return a
  | .error e => fail (f e)

/-- Create a name that must be free; the open call itself. -/
def openExclusive (name : String) : Steps Control Choice StorageError ℕ :=
  call fun fate s =>
    match s.folder.find name with
    | some _ => (.error (.io "create owned control file" .alreadyExists),s)
    | none =>
      let made := { s with folder := s.folder.create name (.file []) }
      match fate with
      | .done => (.ok s.folder.issued,made)
      | .lost => (.error (.io "create owned control file" .other),made)
      | _ => (.error (.io "create owned control file" .other),s)

def createControlRecord (name : String) :
    Steps Control Choice ControlCreateFailure ConfigTemp := do
  let unopened (refused : Bool) (cause : StorageError) : ControlCreateFailure :=
    ⟨cause,⟨none,name⟩,refused⟩
  if !entryName name then fail (unopened false .invalidManagedPath)
  else
    let writable ← orFail (look "inspect control directory permissions" fun s => .ok s.writable)
      (unopened false)
    if !writable then
      fail (unopened true (.io "control directory has no write permission" .permissionDenied))
    else
      let identity ← orFail (openExclusive name) (unopened false)
      let opened (cause : StorageError) : ControlCreateFailure :=
        ⟨cause,⟨some identity,name⟩,false⟩
      orFail (requireRegular identity) opened
      orFail (requireName name identity) opened
      return ⟨identity,name⟩

def temporaryName (stem : String) (process serial : ℕ) : String :=
  stem ++ (toString process ++ ("-" ++ toString serial))

def nextName (stem : String) : Steps Control Choice ε String :=
  act fun _ s => (.ok (temporaryName stem s.process s.serial),{ s with serial := s.serial+1 })

/-- `create_control_temp` with the attempts left: private names until one is free. -/
def createControlTempIn (stem : String) : ℕ → Steps Control Choice ControlCreateFailure ConfigTemp
  | 0 => fail ⟨.destinationCollision,⟨none,stem⟩,false⟩
  | attempts+1 => do
    let name ← nextName stem
    match ← attempt (createControlRecord name) with
    | .ok temporary => return temporary
    | .error failure =>
      if failure.allocation.file=none ∧
          failure.cause=.io "create owned control file" .alreadyExists then
        createControlTempIn stem attempts
      else
        fail failure

def createControlTemp (stem : String) : Steps Control Choice ControlCreateFailure ConfigTemp :=
  createControlTempIn stem 64

/-- Remove one name. -/
def unlinkat (context name : String) : Steps Control Choice StorageError Unit :=
  call fun fate s =>
    match s.folder.find name with
    | none => (.error (.io context .notFound),s)
    | some i =>
      let without := { s with folder := s.folder.remove name, unlinked := i::s.unlinked }
      match fate with
      | .done => (.ok (),without)
      | .lost => (.error (.io context .other),without)
      | _ => (.error (.io context .other),s)

/-- `remove_config_temp`: remove a private name that still leads to its object. -/
def removeConfigTemp (temporary : ConfigTemp) : Steps Control Choice StorageError Unit := do
  requireRegular temporary.identity
  requireName temporary.name temporary.identity
  unlinkat "remove owned config temporary" temporary.name
  look "check config temporary removal" fun s =>
    if s.folder.links temporary.identity=0 then .ok () else .error .snapshotChanged

def readConfig (name : String) : Steps Control Choice StorageError ConfigTemp := do
  let identity ← openRegular name
  return ⟨identity,name⟩

/-- Remember the object that was read and is to be replaced. -/
def note (subject : Option ℕ) : Steps Control Choice ε Unit :=
  act fun _ s => (.ok (),{ s with subject := subject })

/-- Exchange two names, or move the first to a free second one. -/
def renameat (source destination : String) (exchange : Bool) :
    Steps Control Choice StorageError Unit :=
  call fun fate s =>
    match s.folder.find source,s.folder.find destination,exchange with
    | some i,some displaced,true =>
      let moved := { s with
        folder := s.folder.exchange source destination
        ours := some (destination,i)
        overwrote := some (destination,i,some displaced) }
      match fate with
      | .done => (.ok (),moved)
      | .lost => (.error (.io "replace owned config atomically" .other),moved)
      | _ => (.error (.io "replace owned config atomically" .other),s)
    | some i,none,false =>
      let moved := { s with
        folder := s.folder.rename source destination
        ours := some (destination,i)
        overwrote := some (destination,i,none) }
      match fate with
      | .done => (.ok (),moved)
      | .lost => (.error (.io "replace owned config atomically" .other),moved)
      | _ => (.error (.io "replace owned config atomically" .other),s)
    | some _,some _,false => (.error (.io "replace owned config atomically" .alreadyExists),s)
    | _,_,_ => (.error (.io "replace owned config atomically" .notFound),s)

def beforeReplace (temporary : ConfigTemp) (destination : String) (expected : Option ℕ) :
    Steps Control Choice StorageError Unit := do
  inspect fun _ => if entryName destination then .ok () else .error .invalidManagedPath
  requireRegular temporary.identity
  requireName temporary.name temporary.identity
  match expected with
  | some identity => requireName destination identity
  | none => pure ()
  durableFileFlush temporary.identity

/-- The checks after the names were exchanged: the displaced file under the private name. -/
def afterReplace (temporary : ConfigTemp) (destination : String) (expected : Option ℕ) :
    Steps Control Choice StorageError (Option ConfigTemp) := do
  requireName destination temporary.identity
  match expected with
  | some identity =>
    requireName temporary.name identity
    let _ ← openRegular temporary.name
    return some ⟨identity,temporary.name⟩
  | none => return none

/-- `replace_owned_config`: put the temporary at the named place, keeping the displaced file. -/
def replaceOwnedConfig (temporary : ConfigTemp) (destination : String) (expected : Option ℕ) :
    Steps Control Choice ConfigReplaceFailure (ConfigTemp×Option ConfigTemp) := do
  orFail (beforeReplace temporary destination expected) fun cause => ⟨temporary,false,cause⟩
  orFail (renameat temporary.name destination expected.isSome) fun cause =>
    ⟨temporary,cause≠.io "replace owned config atomically" .alreadyExists,cause⟩
  let old ← orFail (afterReplace temporary destination expected) fun cause =>
    ⟨⟨temporary.identity,destination⟩,true,cause⟩
  return (⟨temporary.identity,destination⟩,old)

end Librairii.ControlFiles
