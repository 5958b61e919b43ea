import Librairii.NativeRecords

/-!
# The owner of a native library

The owner opens a closed or interrupted library, claims it for the database and
its workers, registers temporaries and closes it again. Its memory has six flags
beside the record; the disk has the root directory and the managed directories.
-/

namespace Librairii.NativeLibraries

open InterruptedSteps NamedObjects ControlFiles NativeRecords

/-- An entry of the trash directory. -/
structure TrashEntry where
  name : String
  /-- The names in it and whether they are regular files; none when it is no directory. -/
  children : Option (List (String×Bool))
  deriving DecidableEq

/-- What is on the disk of a library. -/
structure Disk where
  root : Control
  /-- The files that the database keeps beside its main file. -/
  sidecars : List String
  staging : List String
  trash : List TrashEntry
  /-- The phase on disk whenever managed directories or the database were changed. -/
  touches : List (Option Phase)

def managedNames : List String := ["db","archives","catalog","staging","trash","logs"]

/-- The files the database may keep beside its main file. -/
def sidecarNames : List String :=
  ["librairii.sqlite3-wal","librairii.sqlite3-shm","librairii.sqlite3-journal"]

def knownNames : List String :=
  [".librairii-library",".librairii-library.lock",nativeStateFile,"db","archives","catalog","staging",
    "trash","logs","state.json","history.json"]

/-- A name begins with the stem. -/
def startsWith (stem name : String) : Bool := stem.toList.isPrefixOf name.toList

/-- The most entries read from one directory of product data. -/
def maxEntries : ℕ := 64*1024*1024/128

variable (env : RecordEnv)

namespace Disk

/-- Managed directories or the database are changed. -/
def touch (disk : Disk) : Disk :=
  { disk with touches := (named env disk.root).map (·.state)::disk.touches }

def start (disk : Disk) : Disk := { disk with root := disk.root.start }

end Disk

/-- What the owner remembers. -/
structure Owner where
  record : Record
  /-- The managed directories opened by a claim. -/
  managed : Option (List String)
  /-- The library may have other names in its root. -/
  allowAdditions : Bool
  runtimeActive : Bool
  recoveryPending : Bool
  closedSuccess : Bool
  custodyActive : Bool
  fenced : Bool
  frozen : Bool
  /-- The library was closed and released. -/
  finalized : Bool
  /-- The database is open. -/
  serving : Bool
  /-- The last report of the database since the library was claimed. -/
  report : Option Bool

/-- A failed call with what the owner remembers. -/
structure Failure where
  cause : StorageError
  owner : Owner

/-- A call of the owner. -/
abbrev Work (α : Type) := Steps Disk Choice Failure α

def onRoot {ε α : Type} (m : Steps Control Choice ε α) : Steps Disk Choice ε α :=
  focus Disk.root (fun root disk => { disk with root := root }) m

/-- A call that only looks at the disk. -/
def observe {α : Type} (context : String) (f : Disk → Except StorageError α) :
    Steps Disk Choice StorageError α :=
  act fun choice disk =>
    let seen := { disk with root := choice.others.foldl Control.meddle disk.root }
    (match choice.fate with
      | .done => f seen
      | _ => .error (.io context .other),seen)

/-- A step whose failure leaves what the owner remembers. -/
def keeping (owner : Owner) {α : Type} (m : Steps Disk Choice StorageError α) : Work α := do
  match ← attempt m with
  | .ok a => return a
  | .error cause => fail ⟨cause,owner⟩

def child (name : String) : Steps Control Choice StorageError ℕ := do
  let identity ← look "anchor owned child directory" fun s =>
    match s.folder.find name with
    | none => .error (.io "anchor owned child directory" .notFound)
    | some i =>
      match s.folder.contents i with
      | .folder => .ok i
      | _ => .error (.io "anchor owned child directory" .other)
  requireName name identity
  return identity

def createChild (name : String) : Steps Disk Choice StorageError Unit := do
  act fun choice disk =>
    let seen := { disk with root := choice.others.foldl Control.meddle disk.root }
    let made := { seen.touch env with
      root := { seen.root with folder := seen.root.folder.create name .folder } }
    match seen.root.folder.find name,choice.fate with
    | some _,_ => (.error (.io "create fresh anchored directory" .alreadyExists),seen)
    | none,.done => (.ok (),made)
    | none,.lost => (.error (.io "create fresh anchored directory" .other),made)
    | none,_ => (.error (.io "create fresh anchored directory" .other),seen)
  let _ ← onRoot (child name)

def requireRootEntry (allowAdditions : Bool) (name : String) :
    Steps Control Choice StorageError Unit := do
  if startsWith nativeStateTemp name || (!allowAdditions && !knownNames.contains name) then
    fail .recoveryBindingRequired
  else if knownNames.contains name then return ()
  else if startsWith ".librairii-" name || name="relocation.json" then
    fail .recoveryBindingRequired
  else
    match ← attempt (child name) with
    | .ok _ => return ()
    | .error _ =>
      let _ ← openRegular name
      return ()

def requireRootEntries (allowAdditions : Bool) : Steps Control Choice StorageError Unit := do
  let names ← look "enumerate anchored directory" fun s =>
    if (if allowAdditions then maxEntries else 14)<s.folder.listing.length then
      .error .adoptionInputChanged
    else .ok (s.folder.listing.insertionSort (· ≤ ·))
  names.forM (requireRootEntry allowAdditions)

def requireNoSidecars : Steps Disk Choice StorageError Unit :=
  sidecarNames.forM fun name =>
    observe "inspect owned readable entry" fun disk =>
      if disk.sidecars.contains name then .error .closedSnapshotRequired else .ok ()

/-- A positive number below the bound in its shortest decimal form. -/
def shortNumber (bound : ℕ) (text : String) : Bool :=
  match text.toNat? with
  | some n => 0<n && n<bound && toString n=text
  | none => false

def retiredName (name : String) : Bool :=
  let stem := ".librairii-unused-stage-"
  startsWith stem name &&
    match (String.ofList (name.toList.drop stem.toList.length)).splitOn "-" with
    | pid::rest => shortNumber (2^32) pid && shortNumber (2^64) (String.intercalate "-" rest)
    | [] => false

def settledEntry (entry : TrashEntry) : Except StorageError Unit :=
  match entry.children with
  | none => .error (.io "anchor owned child directory" .other)
  | some children =>
    if entry.name="removals" then .ok ()
    else if !retiredName entry.name then .error .custodyRecoveryRequired
    else if 1<children.length then .error .adoptionInputChanged
    else if children.map Prod.fst≠["payload"] then .error .custodyRecoveryRequired
    else if children.all Prod.snd then .ok () else .error .pathEscape

def requireSettledTrash : Steps Disk Choice StorageError Unit := do
  let _ ← onRoot (child "trash")
  observe "enumerate anchored directory" fun disk =>
    if maxEntries<disk.trash.length then .error .adoptionInputChanged
    else disk.trash.forM settledEntry

def requireEmptyStaging : Steps Disk Choice StorageError Unit := do
  let _ ← onRoot (child "staging")
  observe "enumerate anchored directory" fun disk =>
    if disk.staging≠[] then .error .adoptionInputChanged else .ok ()

/-- `revalidate_database_ownership`: the directories and the marker are the ones opened. -/
def revalidateOwnership : Steps Disk Choice StorageError Unit :=
  observe "inspect retained native root" fun _ => .ok ()

namespace Owner

def fence (owner : Owner) : Owner := { owner with fenced := true }

/-- The binding of the profile admits the owner; otherwise the store says why not. -/
def binding (owner : Owner) (answer : Except StorageError Unit) : Except StorageError Unit :=
  if owner.fenced || owner.frozen then .error .profileRestartRequired else answer

def transition (owner : Owner) (next : Document) : Work Owner := do
  match ← attempt (onRoot (owner.record.transition env next)) with
  | .ok record => return { owner with record := record }
  | .error failure => fail ⟨failure.cause,{ owner with record := failure.record }⟩

def activated (document : Document) : Option Document :=
  if document.epoch+1<2^64 then
    some { document with epoch := document.epoch+1, state := .active }
  else none

/-- A transition into the next activation. -/
def activate (owner : Owner) : Work Owner :=
  match activated owner.record.document with
  | none => fail ⟨.recoveryBindingRequired,owner⟩
  | some next => owner.transition env next

def openManaged (owner : Owner) (opened : List String) : List String → Work Owner
  | [] => return { owner with managed := some opened }
  | name::names => do
    let here := { owner with managed := some opened }
    match ← attempt (onRoot (child name)) with
    | .ok _ => pure ()
    | .error (.io context kind) =>
      if kind=.notFound then keeping here (createChild env name)
      else fail ⟨.io context kind,here⟩
    | .error cause => fail ⟨cause,here⟩
    openManaged owner (opened ++ [name]) names

/-- Files beside the database are allowed only when an interrupted library is claimed. -/
def checkSidecars (recovery : Bool) : Steps Disk Choice StorageError Unit :=
  if recovery then return () else requireNoSidecars

/-- The first part of a claim, before the record is changed. -/
def claimChecks (owner : Owner) (answer : Except StorageError Unit) : Work Owner := do
  keeping owner (inspect fun _ => owner.binding answer)
  keeping owner revalidateOwnership
  keeping owner (onRoot (requireRootEntries owner.allowAdditions))
  let checked := { owner with recoveryPending := false }
  keeping checked (checkSidecars owner.recoveryPending)
  keeping checked (onRoot checked.record.revalidate)
  return checked

/-- A library that was closed by this owner is activated again. -/
def reactivate (owner : Owner) (priorClosed : Bool) : Work Owner :=
  if owner.record.document.state=.closed ∧ priorClosed then owner.activate env
  else return owner

/-- A claim of a library whose directories were opened before. -/
def reclaim (owner : Owner) (priorClosed : Bool) (directories : List String) : Work Owner := do
  let claimed ← owner.reactivate env priorClosed
  if claimed.record.document.state≠.active then fail ⟨.recoveryBindingRequired,claimed⟩
  else
    keeping claimed (directories.forM fun _ =>
      observe "revalidate native runtime directory" fun _ => .ok ())
    return claimed

def firstClaim (owner : Owner) (recovery : Bool) : Work Owner := do
  keeping owner (observe "revalidate existing native parent" fun _ => .ok ())
  if owner.record.document.state=.active ∧ !recovery then
    fail ⟨.recoveryBindingRequired,owner⟩
  else
    let claimed ← owner.activate env
    keeping claimed (onRoot (requireRootEntries claimed.allowAdditions))
    let opened ← claimed.openManaged env [] managedNames
    keeping opened (managedNames.forM fun _ =>
      observe "flush anchored directory" fun _ => .ok ())
    keeping opened (onRoot flush)
    keeping opened revalidateOwnership
    return opened

def claimChecked (owner : Owner) (priorClosed recovery : Bool) : Work Owner :=
  match owner.managed with
  | some directories => owner.reclaim env priorClosed directories
  | none => owner.firstClaim env recovery

def claiming (owner : Owner) : Owner :=
  { owner with runtimeActive := true, closedSuccess := false, report := none }

def claimRuntime (owner : Owner) (answer : Except StorageError Unit) : Work Owner := do
  if owner.runtimeActive then fail ⟨.runtimeInUse,owner⟩
  else
    let claim : Work Owner := do
      let checked ← owner.claiming.claimChecks answer
      checked.claimChecked env owner.closedSuccess owner.recoveryPending
    match ← attempt claim with
    | .ok claimed => return { claimed with serving := true }
    | .error ⟨cause,failed⟩ =>
      if cause=.profileBusy then
        fail ⟨cause,{ failed with
          closedSuccess := owner.closedSuccess, runtimeActive := false, report := owner.report }⟩
      else fail ⟨cause,failed.fence⟩

def releaseRuntime (owner : Owner) (fullyOpened : Bool) : Owner :=
  { owner with
    closedSuccess := fullyOpened
    fenced := owner.fenced || !fullyOpened
    runtimeActive := false
    serving := false
    report := some fullyOpened }

/-- A registration is changed; a failed transition fences the owner. -/
def reregister (owner : Owner) (next : Document) : Work Owner := do
  match ← attempt (owner.transition env next) with
  | .ok changed => return changed
  | .error ⟨cause,failed⟩ => fail ⟨cause,failed.fence⟩

def registered (document : Document) (temporary : Temporary) : Except StorageError Document :=
  match document.temporaries.find? (·.same temporary) with
  | some prior =>
    if prior.scopeSha256≠temporary.scopeSha256 ∨ prior.directory.isSome ∨ prior.payload.isSome then
      .error .snapshotChanged
    else .ok (document.with temporary)
  | none =>
    if 64≤document.temporaries.length then .error .queueFull
    else .ok { document with temporaries := document.temporaries ++ [temporary] }

def registerTemporary (owner : Owner) (temporary : Temporary) : Work Owner := do
  if !temporary.validate then fail ⟨.recoveryBindingRequired,owner⟩
  else
    keeping owner revalidateOwnership
    keeping owner (onRoot owner.record.revalidate)
    if owner.record.document.state≠.active ∨ !owner.runtimeActive then
      fail ⟨.intakeClosed,owner⟩
    else if owner.record.document.temporaries.contains temporary then return owner
    else
      match registered owner.record.document temporary with
      | .error cause => fail ⟨cause,owner⟩
      | .ok next =>
        match next.bytes env with
        | .error _ => fail ⟨.queueFull,owner⟩
        | .ok _ => owner.reregister env next

def reconcileRegistration (owner : Owner) (matching : Bool) (temporary : Temporary) :
    Work Owner := do
  if !matching then fail ⟨.snapshotChanged,owner⟩
  else if !temporary.validate then fail ⟨.recoveryBindingRequired,owner⟩
  else
    keeping owner revalidateOwnership
    if owner.record.document.state≠.active ∨ !owner.runtimeActive then
      fail ⟨.intakeClosed,owner⟩
    else
      match ← attempt (onRoot (owner.record.reconcileTemporary env temporary)) with
      | .ok record => return { owner with record := record }
      | .error failure => fail ⟨failure.cause,{ owner with record := failure.record }⟩

def forgetTemporary (owner : Owner) (temporary : Temporary) : Work Owner := do
  keeping owner revalidateOwnership
  keeping owner (onRoot owner.record.revalidate)
  owner.reregister env { owner.record.document with
    temporaries := owner.record.document.temporaries.filter fun t => t≠temporary }

/-- Everything but the record is settled, as `finish_closed` checks it. -/
def settle (owner : Owner) (answer : Except StorageError Unit) :
    Steps Disk Choice StorageError Unit := do
  inspect fun _ => if owner.fenced then .error .profileRestartRequired else answer
  revalidateOwnership
  match owner.managed with
  | none => fail .runtimeFenced
  | some directories =>
    directories.forM fun _ =>
      observe "verify closed native directory ownership" fun _ => .ok ()
  onRoot (requireRootEntries owner.allowAdditions)
  requireNoSidecars
  requireSettledTrash
  requireEmptyStaging
  onRoot owner.record.revalidate

def finishClosed (owner : Owner) (answer : Except StorageError Unit) : Work Owner := do
  if owner.runtimeActive || !owner.closedSuccess || owner.custodyActive || owner.fenced then
    fail ⟨.runtimeFenced,owner⟩
  else
    keeping owner (owner.settle answer)
    let document := owner.record.document
    if document.state≠.active ∨ !document.temporaries.isEmpty then
      fail ⟨.recoveryBindingRequired,owner⟩
    else
      let closed ← owner.transition env { document with state := .closed }
      keeping closed requireSettledTrash
      keeping closed (onRoot (requireRootEntries closed.allowAdditions))
      keeping closed revalidateOwnership
      keeping closed (inspect fun _ =>
        if closed.fenced then .error .profileRestartRequired else answer)
      return closed

def sealClosed (owner : Owner) (freeze answer : Except StorageError Unit) : Work Owner := do
  let work : Work Owner := do
    if !owner.frozen then keeping owner (inspect fun _ => freeze)
    { owner with frozen := true }.finishClosed env answer
  match ← attempt work with
  | .ok closed => return closed
  | .error ⟨cause,failed⟩ =>
    if cause=.profileBusy then fail ⟨cause,failed⟩ else fail ⟨cause,failed.fence⟩

end Owner

/-- What is asked of an owner. -/
inductive Op where
  | claim (answer : Except StorageError Unit)
  | register (temporary : Temporary)
  | reconcile (matching : Bool) (temporary : Temporary)
  | forget (temporary : Temporary)
  /-- The open database and its workers change what is theirs. -/
  | serve (sidecars staging : List String) (trash : List TrashEntry)
  /-- The database reports how it was closed. -/
  | release (fullyOpened : Bool)
  /-- Close for a move that is cancelled again. -/
  | close (freeze answer : Except StorageError Unit)
  /-- Close for good. -/
  | finish (freeze answer : Except StorageError Unit)
  | custody (active : Bool)
  | fence

/-- The owner does what is asked. -/
def perform (owner : Owner) : Op → Work Owner
  | .claim answer => owner.claimRuntime env answer
  | .register temporary => owner.registerTemporary env temporary
  | .reconcile matching temporary => owner.reconcileRegistration env matching temporary
  | .forget temporary => owner.forgetTemporary env temporary
  | .serve sidecars staging trash =>
    if owner.serving then
      act fun _ disk => (.ok owner,{ disk.touch env with
        sidecars := sidecars, staging := staging, trash := trash })
    else fail ⟨.intakeClosed,owner⟩
  | .release fullyOpened =>
    if owner.serving then return owner.releaseRuntime fullyOpened
    else fail ⟨.runtimeFenced,owner⟩
  | .close freeze answer => do
    let closed ← owner.sealClosed env freeze answer
    return { closed with frozen := false }
  | .finish freeze answer => do
    let closed ← owner.sealClosed env freeze answer
    return { closed with finalized := true }
  | .custody active => return { owner with custodyActive := active }
  | .fence => return owner.fence

end Librairii.NativeLibraries
