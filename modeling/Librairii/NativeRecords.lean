import Librairii.ControlFiles

/-!
# The lifecycle record of a native library

The record says whether the library is closed, and which temporaries its owner
may have left. It is replaced as a whole; a replacement whose outcome is not
known makes the record uncertain, and only reading it again clears that.
-/

namespace Librairii.NativeRecords

open InterruptedSteps NamedObjects ControlFiles

/-- The name of the record. -/
def nativeStateFile : String := ".librairii-native-state.json"

/-- The stem of the private names of next records. -/
def nativeStateTemp : String := ".librairii-native-state.json.tmp-"

/-- The size limit of a record. -/
def maxProfileBytes : ℕ := 64*1024

/-- The phases of a library. -/
inductive Phase where
  /-- The library was imported and never opened. -/
  | importedClosed
  /-- The library is or was in use. -/
  | active
  | closed
  deriving DecidableEq

/-- The device and inode of a file. -/
structure FileIdentity where
  device : ℕ
  inode : ℕ
  deriving DecidableEq

/-- A registered temporary. -/
structure Temporary where
  operation : String
  item : ℤ
  scopeSha256 : String
  /-- None is the managed staging directory, some is the destination of an export. -/
  destination : Option (List UInt8)
  parent : FileIdentity
  name : String
  directory : Option FileIdentity
  payload : Option FileIdentity
  deriving DecidableEq

/-- The proof of a move. -/
structure MoveProof where
  id : String
  manifestSha256 : String
  sourceStateSha256 : String
  deriving DecidableEq

/-- The selected roots of a library. -/
structure RootPolicy where
  legacyRoots : List String
  relocation : Option MoveProof
  deriving DecidableEq

/-- The lifecycle record. -/
structure Document where
  format : String
  version : ℕ
  state : Phase
  epoch : ℕ
  nativeProfileRoot : String
  nativeDataRoot : String
  libraryRoot : String
  sourceRoot : String
  libraryIdRaw : String
  libraryMarkerSha256 : String
  profileMarkerSha256 : String
  sourceManifestSha256 : String
  rootPolicy : Option RootPolicy
  temporaries : List Temporary
  deriving DecidableEq

/-- The parsers and printers of records. -/
structure RecordEnv where
  /-- Read the JSON text of a record. -/
  fromSlice : List UInt8 → Option Document
  /-- Write the JSON text of a record. -/
  toVec : Document → Option (List UInt8)
  spelling : String → Bool
  job : String → Bool

/-- Sixty-four lower-case hexadecimal digits. -/
def sha256Text (text : String) : Bool :=
  text.utf8ByteSize=64 && text.toList.all fun c => c.isDigit || ('a' ≤ c && c ≤ 'f')

/-- An absolute path without parent components. -/
def plainPath (path : String) : Bool :=
  path.toList.head?= some '/' && !path.toList.contains (Char.ofNat 0) &&
    !(path.toList.splitOn '/').contains "..".toList

def Temporary.validate (temporary : Temporary) : Bool :=
  !(temporary.payload.isSome && temporary.directory.isNone) &&
  temporary.operation≠"" && temporary.operation.utf8ByteSize≤256 &&
  sha256Text temporary.scopeSha256 &&
  (if temporary.destination.isSome then ".librairii-export-" else
    ".librairii-stage-").toList.isPrefixOf
    temporary.name.toList &&
  temporary.name.utf8ByteSize≤160 &&
  temporary.name.toList.all (fun c => c≠ '/' && c≠ '\\' && c≠Char.ofNat 0) &&
  match temporary.destination with
  | none => true
  | some path => path.head?=some 47 && path.length≤16*1024 && !path.contains 0

def RootPolicy.validate (env : RecordEnv) (policy : RootPolicy) (sourceRoot : String) : Bool :=
  policy.legacyRoots≠[] && policy.legacyRoots.length≤2 &&
  policy.legacyRoots.contains sourceRoot && policy.legacyRoots.all plainPath &&
  match policy.relocation with
  | none => true
  | some proof =>
    env.job proof.id && sha256Text proof.manifestSha256 && sha256Text proof.sourceStateSha256

variable (env : RecordEnv)

def Document.valid (document : Document) : Bool :=
  document.format="librairii.native-library" &&
  (document.version=1 || document.version=2) &&
  decide (document.version=2)=document.rootPolicy.isSome &&
  decide (document.state=.importedClosed)=decide (document.epoch=0) &&
  env.spelling document.libraryIdRaw &&
  (match document.rootPolicy with
    | none => true
    | some policy => policy.validate env document.sourceRoot) &&
  (document.state=.active || document.temporaries.isEmpty) &&
  document.temporaries.length≤64 &&
  document.temporaries.all Temporary.validate &&
  decide (document.temporaries.map fun t => (t.destination,t.name)).Nodup &&
  [document.nativeProfileRoot,document.nativeDataRoot,document.libraryRoot,
    document.sourceRoot].all plainPath &&
  [document.libraryMarkerSha256,document.profileMarkerSha256,
    document.sourceManifestSha256].all sha256Text

def decode (bytes : List UInt8) : Except StorageError Document :=
  if maxProfileBytes<bytes.length then .error .recoveryBindingRequired
  else
    match env.fromSlice bytes with
    | none => .error .recoveryBindingRequired
    | some document =>
      if document.valid env then .ok document else .error .recoveryBindingRequired

def Document.bytes (document : Document) : Except StorageError (List UInt8) :=
  if !document.valid env then .error .recoveryBindingRequired
  else
    match env.toVec document with
    | none => .error .recoveryBindingRequired
    | some bytes =>
      if maxProfileBytes<bytes.length then .error .recoveryBindingRequired else .ok bytes

def named (root : Control) : Option Document :=
  match root.folder.read nativeStateFile with
  | some (.file bytes) => (decode env bytes).toOption
  | _ => none

/-- The record as its owner remembers it. -/
structure Record where
  /-- The named file. -/
  current : ConfigTemp
  document : Document
  bytes : List UInt8
  /-- Files kept open until an update is acknowledged. -/
  retained : List ConfigTemp
  /-- Files whose creation failed. -/
  retainedAllocations : List ControlAllocation
  /-- It is not known which document is named. -/
  uncertain : Bool

/-- A failed call with what the owner remembers of the record. -/
structure RecordFailure where
  cause : StorageError
  record : Record

/-- A call that changes the record. -/
abbrev RecordWork (α : Type) := Steps Control Choice RecordFailure α

/-- `read`: the bytes of a record within the size limit. -/
def readState (identity : ℕ) : Steps Control Choice StorageError (List UInt8) := do
  let bytes ← readBytes "read bounded native state" identity
  inspect fun _ =>
    if maxProfileBytes<bytes.length then .error .recoveryBindingRequired else .ok bytes

namespace Record

def revalidate (record : Record) : Steps Control Choice StorageError Unit := do
  if record.uncertain then fail .recoveryBindingRequired
  else
    let links ← look "inspect native state witness" fun s =>
      .ok (s.folder.links record.current.identity)
    let actual ← readConfig nativeStateFile
    let found ← look "inspect current native state" fun s =>
      .ok (s.folder.links actual.identity)
    if links≠1 ∨ found≠1 ∨ record.current.identity≠actual.identity then
      fail .recoveryBindingRequired
    else
      let bytes ← readState actual.identity
      inspect fun _ => if bytes=record.bytes then .ok () else .error .recoveryBindingRequired

def openRecord : Steps Control Choice StorageError Record := do
  let current ← readConfig nativeStateFile
  let bytes ← readState current.identity
  let document ← inspect fun _ => decode env bytes
  let record : Record := ⟨current,document,bytes,[],[],false⟩
  record.revalidate
  return record

/-- A step whose failure leaves what the owner remembers. -/
def keeping (record : Record) {α : Type} (m : Steps Control Choice StorageError α) :
    RecordWork α :=
  orFail m fun cause => ⟨cause,record⟩

def removeRetained (context : String) (retained : List ConfigTemp) :
    Steps Control Choice StorageError Unit :=
  retained.forM fun temporary => do
    if temporary.name≠nativeStateFile then
      let links ← look context fun s =>
        .ok (s.folder.links temporary.identity)
      if links≠0 then removeConfigTemp temporary

def stageNext (record : Record) (bytes : List UInt8) : RecordWork ConfigTemp := do
  let staged ← orFail (createControlTemp nativeStateTemp) fun failure =>
    ⟨failure.cause,{ record with
      retainedAllocations := record.retainedAllocations ++ [failure.allocation] }⟩
  let kept := { record with retained := record.retained ++ [staged] }
  keeping kept (writeAll "write next native state" staged.identity bytes)
  keeping kept (durableFileFlush staged.identity)
  return staged

def publishNext (record : Record) (staged : ConfigTemp) : RecordWork Record := do
  let (published,old) ← orFail
    (replaceOwnedConfig staged nativeStateFile (some record.current.identity)) fun failure =>
      ⟨failure.cause,{ record with retained := record.retained ++ [failure.temporary] }⟩
  let moved := { record with
    current := published, retained := record.retained ++ [record.current] }
  match old with
  | none => return moved
  | some displaced =>
    let checked ← keeping moved (readConfig displaced.name)
    let bytes ← keeping moved (readState checked.identity)
    let kept := { moved with retained := moved.retained ++ [displaced] }
    if bytes≠record.bytes then fail ⟨.recoveryBindingRequired,kept⟩ else return kept

/-- The published record is acknowledged and the displaced one is removed. -/
def acknowledge (record : Record) : RecordWork Record := do
  keeping record flush
  keeping record { record with uncertain := false }.revalidate
  keeping record (removeRetained "inspect displaced native state" record.retained)
  keeping record flush
  keeping record { record with uncertain := false }.revalidate
  return { record with retained := [], retainedAllocations := [], uncertain := false }

def transition (record : Record) (next : Document) : RecordWork Record := do
  keeping record record.revalidate
  keeping record (look "retain old native state" fun _ => .ok ())
  let bytes ← keeping record (inspect fun _ => next.bytes env)
  note (some record.current.identity)
  let uncertain := { record with uncertain := true }
  let staged ← stageNext uncertain bytes
  let published ← publishNext uncertain staged
  acknowledge { published with document := next, bytes := bytes }

end Record

def Temporary.same (a b : Temporary) : Bool :=
  a.operation=b.operation && a.item=b.item && a.destination=b.destination &&
    a.parent=b.parent && a.name=b.name

/-- The document with the registration brought up to date or added. -/
def Document.with (document : Document) (temporary : Temporary) : Document :=
  { document with
    temporaries :=
      if document.temporaries.any (·.same temporary) then
        document.temporaries.replaceF fun t => if t.same temporary then some temporary else none
      else document.temporaries ++ [temporary] }

def Document.without (document : Document) (temporary : Temporary) : Document :=
  { document with temporaries := document.temporaries.filter fun t => !t.same temporary }

namespace Record

/-- The document whose bytes were found: the prior, the registered or the retired one. -/
def recognize (record : Record) (temporary : Temporary) (bytes : List UInt8) :
    Except StorageError Document := do
  if bytes=record.bytes then return record.document
  else
    let registered ← (record.document.with temporary).bytes env
    if bytes=registered then return record.document.with temporary
    else
      let retired ← (record.document.without temporary).bytes env
      if bytes=retired then return record.document.without temporary
      else throw .recoveryBindingRequired

def retireAllocation (allocation : ControlAllocation) : Steps Control Choice StorageError Unit := do
  match allocation.file with
  | none => flush
  | some identity =>
    let links ← look "observe retained control allocation" fun s =>
      .ok (s.folder.links identity)
    if links≠0 then
      requireRegular identity
      requireName allocation.name identity
      unlinkat "retire actual control allocation" allocation.name
      flush

/-- The open files of the owner. -/
def owned (record : Record) : List ℕ :=
  record.current.identity::record.retained.map (·.identity) ++
    record.retainedAllocations.filterMap (·.file)

/-- `Record::reconcile_temporary`: read the record again after an uncertain update. -/
def reconcileTemporary (record : Record) (temporary : Temporary) : RecordWork Record := do
  if !record.uncertain then
    keeping record record.revalidate
    return record
  else
    let actual ← keeping record (readConfig nativeStateFile)
    if !record.owned.contains actual.identity then fail ⟨.recoveryBindingRequired,record⟩
    else
      let bytes ← keeping record (readState actual.identity)
      let document ← keeping record (inspect fun _ => record.recognize env temporary bytes)
      keeping record (durableFileFlush actual.identity)
      keeping record flush
      let moved :=
        if record.current.identity≠actual.identity then
          { record with current := actual, retained := record.retained ++ [record.current] }
        else record
      let found := { moved with document := document, bytes := bytes }
      keeping found (removeRetained "observe retained control witness" found.retained)
      keeping found (found.retainedAllocations.forM retireAllocation)
      keeping found flush
      keeping found { found with uncertain := false }.revalidate
      return { found with retained := [], retainedAllocations := [], uncertain := false }

end Record

end Librairii.NativeRecords
