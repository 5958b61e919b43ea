import Librairii.NativeMoves

/-!
# Opening a library again

A library named by the profile is opened again after a drop or a crash. Everything is
checked and nothing on the disk is changed: the record, the names of the root, the
managed directories and the files beside the database.
-/

namespace Librairii.NativeOpenings

open InterruptedSteps NamedObjects ControlFiles ControlStages ControlMoves NativeRecords
  NativeLibraries NativeTransitions NativeReconciliation NativeCourses NativeOperations

/-- How a library is opened again. -/
inductive ReopenMode where
  | closed
  | interrupted
  | schema
  deriving DecidableEq

/-- What the profile says of its library. -/
structure Bound where
  root : String
  libraryId : String
  complete : Bool
  recovering : Bool
  deriving DecidableEq

/-- The identity read from a marker. -/
structure LibraryIdentity where
  originalBytes : List UInt8
  spelling : String

/-- What is answered around the root: the profile, the paths and the leases. -/
structure Surroundings where
  profile : Except StorageError (Option Bound)
  /-- The store admits a binding. -/
  admission : Except StorageError Unit
  cancelled : Bool
  actualPath : Except StorageError String
  layout : Except StorageError Unit
  lease : Except StorageError Unit
  /-- The canonical path of the native profile. -/
  profileRoot : Except StorageError String
  /-- The canonical path of the native data. -/
  dataRoot : Except StorageError String
  markerDigest : Except StorageError String
  explicitPaths : String → RootPolicy → Except StorageError Unit
  /-- The checks of the paths without a policy. -/
  reopenedPaths : String → Except StorageError Unit
  /-- The parser of markers. -/
  identity : List UInt8 → Except StorageError LibraryIdentity
  digest : List UInt8 → String
  /-- The parent directory and the name of the root. -/
  parent : Except StorageError Unit
  probe : Except StorageError Unit
  leaseHeld : Except StorageError Unit
  publish : Except StorageError Unit
  rootHeld : Except StorageError Unit

/-- The marker of a library. -/
def identityFile : String := ".librairii-library"

namespace Surroundings

variable (around : Surroundings)

/-- The profile names a complete library, the store admits a binding and the root is leased. -/
def bound : Except StorageError Bound := do
  match ← around.profile with
  | none => throw .recoveryBindingRequired
  | some profile =>
    if !profile.complete || profile.recovering then throw .recoveryBindingRequired
    else
      around.admission
      if around.cancelled then throw .cancelled
      else
        let actual ← around.actualPath
        if actual≠profile.root then throw .recoveryBindingRequired
        else
          around.layout
          around.lease
          return profile

/-- The record is that of the profile's library. -/
def matching (profile : Bound) (d : Document) : Except StorageError Unit :=
  if d.libraryRoot≠profile.root ∨ d.libraryIdRaw≠profile.libraryId then
    .error .recoveryBindingRequired
  else do
    let profileRoot ← around.profileRoot
    if d.nativeProfileRoot≠profileRoot then throw .recoveryBindingRequired
    else
      let dataRoot ← around.dataRoot
      if d.nativeDataRoot≠dataRoot then throw .recoveryBindingRequired
      else
        let marker ← around.markerDigest
        if d.profileMarkerSha256≠marker then throw .recoveryBindingRequired
        else
          match d.rootPolicy with
          | some policy => around.explicitPaths d.sourceRoot policy
          | none => around.reopenedPaths d.sourceRoot

/-- The marker is that of the record. -/
def identified (profile : Bound) (d : Document) (marker : List UInt8) :
    Except StorageError Unit := do
  let identity ← around.identity marker
  if identity.spelling≠profile.libraryId then throw .identityMismatch
  else if around.digest identity.originalBytes≠d.libraryMarkerSha256 then
    throw .recoveryBindingRequired
  else return ()

end Surroundings

def readMarker : Steps Control Choice StorageError (List UInt8) := do
  let i ← openRegular identityFile
  readBytes "read exact native marker" i

/-- One managed directory when a library is opened again. -/
def reopenDirectory (recovery : Bool) (phase : Phase) (name : String) :
    Steps Control Choice StorageError Unit := do
  match ← attempt (child name) with
  | .ok _ => return ()
  | .error cause =>
    match cause with
    | .io _ kind =>
      if kind=.notFound ∧ (phase=.importedClosed ∨ (recovery ∧ name≠"db")) then return ()
      else fail cause
    | _ => fail cause

/-- The files beside the database when a library is opened again. -/
def reopenSidecars (recovery : Bool) : Steps Disk Choice StorageError Unit :=
  if recovery then sidecarNames.forM fun _ => observe "inspect owned readable entry" fun _ => .ok ()
  else requireNoSidecars

/-- `NativeLibrary::new`. -/
def Owner.opened (record : Record) (recovery : Bool) : Owner where
  record := record
  managed := none
  allowAdditions := record.document.version=2
  runtimeActive := false
  recoveryPending := recovery
  closedSuccess := false
  custodyActive := false
  fenced := false
  frozen := false
  finalized := false
  serving := false
  report := none

def reopenRecord (around : Surroundings) (mode : ReopenMode) (profile : Bound) (record : Record) :
    Steps Disk Choice StorageError Unit := do
  let recovery : Bool := mode≠.closed
  inspect fun _ => around.matching profile record.document
  let marker ← onRoot readMarker
  inspect fun _ => around.identified profile record.document marker
  onRoot (requireRootEntries (record.document.version=2))
  let _ ← onRoot (child "db")
  onRoot (managedNames.forM (reopenDirectory recovery record.document.state))
  inspect fun _ => around.parent
  reopenSidecars recovery
  inspect fun _ => if mode=.schema then .ok () else around.probe
  inspect fun _ => around.leaseHeld
  onRoot record.revalidate
  inspect fun _ => around.publish
  inspect fun _ => around.rootHeld

def reopen (env : RecordEnv) (around : Surroundings) (mode : ReopenMode) :
    Steps Disk Choice StorageError Owner := do
  let profile ← inspect fun _ => around.bound
  let record ← onRoot (Record.openRecord env)
  if record.document.state=.active ∧ mode=.closed then fail .recoveryBindingRequired
  else
    reopenRecord around mode profile record
    return Owner.opened record (mode≠.closed)

variable {env : RecordEnv} {s : Disk} {record : Record}

theorem sees_openRecord {root : Control} :
    Sees (fun _ => True) (Record.openRecord env) root fun record =>
      Recalls env record ∧ Current record root :=
  see_openRecord.weaken (fun _ h => h) (fun _ _ h => ⟨h.1,h.2.1,h.1 ▸ h.2.2⟩)
    fun _ _ h => ⟨h,trivial⟩

theorem sees_reopenDirectory {root : Control} (recovery : Bool) (phase : Phase) (name : String) :
    Sees (fun _ => True) (reopenDirectory recovery phase name) root fun _ => True := by
  refine sees_attempt_bind (sees_child name) (fun _ _ => sees_pure trivial) fun cause _ => ?_
  cases cause with
  | io context kind =>
    dsimp only
    split_ifs
    · exact sees_pure trivial
    · exact sees_fail trivial
  | _ => exact sees_fail trivial

/-- `reopenRecord` on success: no private name is left and the root is not too large. -/
theorem sees_reopenRecord (around : Surroundings) (mode : ReopenMode) (profile : Bound)
    (record : Record) :
    Sees (fun _ => True) (reopenRecord around mode profile record) s fun _ => Clear s.root ∧
      (record.document.version=2 → s.root.folder.listing.length ≤ maxEntries) := by
  have hmarker : Sees NotBusy readMarker s.root fun _ => True :=
    sees_of_looks (looks_bind (looks_openRegular alone_default _) fun _ =>
      looks_look alone_default _ _) (moves_then (moves_openRegular _) fun _ => moves_see)
  have hdirectories : Sees (fun _ => True) (onRoot (managedNames.forM
      (reopenDirectory (mode≠.closed) record.document.state))) s fun _ => True :=
    sees_onRoot ((sees_forM (P:=fun _ => True) managedNames fun name _ =>
      sees_reopenDirectory _ _ name).weaken fun _ _ => trivial)
  have hsidecars : Sees (fun _ => True) (reopenSidecars (mode≠.closed)) s fun _ => True := by
    unfold reopenSidecars
    split_ifs
    · exact (sees_glances _ sidecarNames).anyError
    · exact (sees_requireNoSidecars.weaken fun _ _ => trivial).anyError
  refine sees_bind (sees_inspect fun _ _ => trivial) fun _ _ =>
    sees_bind (sees_onRoot hmarker).anyError fun marker _ =>
      sees_bind (sees_inspect fun _ _ => trivial) fun _ _ =>
        sees_bind (sees_onRoot (sees_requireRootEntries _)).anyError fun _ hroot =>
          sees_bind (sees_onRoot (sees_child _)).anyError fun _ _ =>
            sees_bind hdirectories fun _ _ =>
              sees_bind (sees_inspect fun _ _ => trivial) fun _ _ => ?_
  refine sees_bind hsidecars fun _ _ => sees_bind (sees_inspect fun _ _ => trivial) fun _ _ =>
    sees_bind (sees_inspect fun _ _ => trivial) fun _ _ =>
      sees_bind (sees_onRoot (sees_revalidate _)).anyError fun _ _ =>
        sees_bind (sees_inspect fun _ _ => trivial) fun _ _ => ?_
  exact (sees_inspect fun _ _ => trivial).weaken fun _ _ =>
    ⟨hroot.1,fun hv => hroot.2 (decide_eq_true hv)⟩

/-- `reopen_mode` changes nothing; the record of the owner is the named one, and closed unless
an interrupted library was asked for. -/
theorem sees_reopen (around : Surroundings) (mode : ReopenMode) :
    Sees (fun _ => True) (reopen env around mode) s fun owner => ∃ record,
      owner=Owner.opened record (mode≠.closed) ∧ Recalls env record ∧ Current record s.root ∧
        (mode=.closed → record.document.state≠.active) ∧ Clear s.root ∧
        (record.document.version=2 → s.root.folder.listing.length ≤ maxEntries) := by
  refine sees_bind (sees_inspect fun _ _ => trivial) fun profile _ =>
    sees_bind (sees_onRoot sees_openRecord) fun record hrecord => ?_
  by_cases hactive : record.document.state=.active ∧ mode=.closed
  · rw [if_pos hactive]
    exact sees_fail trivial
  rw [if_neg hactive]
  refine sees_bind (sees_reopenRecord around mode profile record) fun _ hroot => sees_pure ?_
  exact ⟨record,rfl,hrecord.1,hrecord.2,fun hmode ha => hactive ⟨ha,hmode⟩,hroot⟩

theorem sound_opened (hrecalls : Recalls env record) (hcurrent : Current record s.root)
    (recovery : Bool) : Sound env (Owner.opened record recovery) s :=
  ⟨hrecalls,fun _ => hcurrent,fun hn => absurd (hcurrent.certain.symm.trans hn)
    Bool.false_ne_true,fun hn => (nomatch hn),fun hn => (nomatch hn),fun _ => rfl,
    fun _ hn => absurd rfl hn⟩

end Librairii.NativeOpenings
