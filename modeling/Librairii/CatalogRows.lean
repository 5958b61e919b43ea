import Librairii.TagRows

/-!
# The rows of official catalogs

A synchronization owns at most one catalog snapshot. Its records are staged with
the snapshot while the synchronization runs, and the snapshot is then activated
or rejected. The writers of the catalog tables check the states they start from
and report a refused transition as an error, which leaves every table.
-/

namespace Librairii.CatalogRows

open CheckedResults RowTables TagRows

/-- The states of a synchronization. -/
inductive SyncStatus where
  | running
  | succeeded
  | failed
  | cancelled
  deriving DecidableEq

/-- The states of a snapshot. -/
inductive SnapshotStatus where
  | staged
  | active
  | superseded
  | rejected
  deriving DecidableEq

/-- One row of `catalog_syncs`. -/
structure Sync where
  id : String
  locale : String
  status : SyncStatus
  errorCode : Option String
  errorMessage : Option String
  startedAt : String
  finishedAt : Option String
  deriving DecidableEq

/-- One row of `catalog_snapshots`. -/
structure Snapshot where
  id : ℤ
  sync : String
  locale : String
  rawPath : String
  hash : String
  bytes : ℕ
  records : ℕ
  status : SnapshotStatus
  fetchedAt : String
  activatedAt : Option String
  deriving DecidableEq

/-- One row of `official_story_metadata`. -/
structure Metadata where
  snapshot : ℤ
  storyUuid : String
  locale : String
  title : String
  titleNormalized : String
  description : Option String
  author : Option String
  publisher : Option String
  language : String
  durationSeconds : Option ℤ
  minimumAge : Option ℤ
  maximumAge : Option ℤ
  artworkId : Option String
  sourceRecordId : String
  sourceUpdatedAt : Option String
  deriving DecidableEq

/-- One row of `catalog_artworks`. -/
structure CatalogArtwork where
  id : String
  sourceUrl : String
  deriving DecidableEq

/-- The catalog tables. -/
structure Catalog where
  syncs : List Sync
  snapshots : List Snapshot
  metadata : List Metadata
  artworks : List CatalogArtwork
  deriving DecidableEq

/-- A record of a normalized catalog. -/
structure CatalogRecord where
  uuid : String
  title : String
  description : String
  author : String
  publisher : String
  language : String
  durationSeconds : Option ℤ
  minimumAge : Option ℤ
  maximumAge : Option ℤ
  artworkId : Option String
  sourceRecordId : String
  sourceUpdatedAt : Option String
  deriving DecidableEq

/-- A validated catalog. -/
structure NormalizedCatalog where
  raw : List UInt8
  checksum : String
  locale : String
  records : List CatalogRecord
  artworks : List CatalogArtwork
  deriving DecidableEq

/-- What staging takes from frozen tables and from the schema. -/
structure CatalogEnv where
  titleKey : String → Except MetadataError String
  metadataChecks : Metadata → Bool

/-- Why a refresh ends without activation. -/
inductive RefreshCode where
  | fetchFailed
  | invalidCatalog
  | stageFailed
  | persistenceFailed
  | cancelled
  | outcomeUncertain
  deriving DecidableEq

def RefreshCode.asStr : RefreshCode → String
  | .fetchFailed => "catalog_fetch_failed"
  | .invalidCatalog => "catalog_invalid"
  | .stageFailed => "catalog_stage_failed"
  | .persistenceFailed => "catalog_persist_failed"
  | .cancelled => "catalog_cancelled"
  | .outcomeUncertain => "catalog_outcome_uncertain"

def failureMessage : RefreshCode → String
  | .fetchFailed => "Official metadata could not be downloaded."
  | .invalidCatalog => "The downloaded official catalog was invalid."
  | .stageFailed => "The downloaded official catalog could not be staged."
  | .cancelled => "Official metadata refresh was cancelled."
  | _ => "Official metadata could not be saved."

/-- A synchronization runs. -/
def Sync.running (sync : Sync) : Bool := sync.status=.running

def Snapshot.active (snapshot : Snapshot) : Bool := snapshot.status=.active

/-- Begin a synchronization while none runs. -/
def beginCatalogSync (id locale startedAt : String) (c : Catalog) :
    Except StorageError Catalog :=
  if c.syncs.any Sync.running then .error (.metadata .busy)
  else if (lookup (·.id) id c.syncs).isSome then .error .constraintViolation
  else .ok { c with syncs := c.syncs++[⟨id,locale,.running,none,none,startedAt,none⟩] }

def registerArtwork (artworks : List CatalogArtwork) (art : CatalogArtwork) :
    Except StorageError (List CatalogArtwork) :=
  match lookup (·.id) art.id artworks with
  | some stored => if stored.sourceUrl≠art.sourceUrl then .error .integrityFailed
    else .ok artworks
  | none => if artworks.any fun a => a.sourceUrl=art.sourceUrl then .error .constraintViolation
    else .ok (artworks++[art])

def nullIfEmpty (value : String) : Option String := if value="" then none else some value

def metadataRow (snapshot : ℤ) (locale titleNormalized : String) (r : CatalogRecord) :
    Metadata where
  snapshot := snapshot
  storyUuid := r.uuid
  locale := locale
  title := r.title
  titleNormalized := titleNormalized
  description := nullIfEmpty r.description
  author := nullIfEmpty r.author
  publisher := nullIfEmpty r.publisher
  language := r.language
  durationSeconds := r.durationSeconds
  minimumAge := r.minimumAge
  maximumAge := r.maximumAge
  artworkId := r.artworkId
  sourceRecordId := r.sourceRecordId
  sourceUpdatedAt := r.sourceUpdatedAt

/-- INSERT one metadata row: its snapshot is staged, its artwork is registered and its
story is new in the snapshot. -/
def insertMetadata (env : CatalogEnv) (row : Metadata) (c : Catalog) :
    Except StorageError Catalog :=
  if (lookup (·.id) row.snapshot c.snapshots).any (fun s => s.status=.staged) &&
      row.artworkId.all (fun id => (lookup (·.id) id c.artworks).isSome) &&
      !c.metadata.any (fun m => m.snapshot=row.snapshot && m.storyUuid=row.storyUuid) &&
      env.metadataChecks row then .ok { c with metadata := c.metadata++[row] }
  else .error .constraintViolation

def stageRecords (env : CatalogEnv) (snapshot : ℤ) (locale : String) :
    List CatalogRecord → Catalog → Except StorageError Catalog
  | [],c => .ok c
  | r::records,c => do
    let title ← (env.titleKey r.title).mapError .metadata
    let c ← insertMetadata env (metadataRow snapshot locale title r) c
    stageRecords env snapshot locale records c

def stageRows (env : CatalogEnv) (id : String) (catalog : NormalizedCatalog)
    (path fetchedAt : String) (c : Catalog) : Except StorageError (ℤ×Catalog) := do
  if !c.syncs.any (fun s => s.id=id && s.locale=catalog.locale && s.running) then
    .error (.metadata .invalidTransition)
  else if c.snapshots.any (fun s => s.sync=id) then .error .constraintViolation
  else do
    let snapshot := nextRowId (c.snapshots.map (·.id))
    let artworks ← catalog.artworks.foldlM registerArtwork c.artworks
    let c ← stageRecords env snapshot catalog.locale catalog.records { c with
      snapshots := c.snapshots++[⟨snapshot,id,catalog.locale,path,catalog.checksum,
        catalog.raw.length,catalog.records.length,.staged,fetchedAt,none⟩]
      artworks := artworks }
    return (snapshot,c)

def rejectCatalog (id : ℤ) (c : Catalog) : Except StorageError Catalog :=
  let selected := fun s : Snapshot => s.id=id && s.status=.staged
  if affected selected c.snapshots≠1 then .error (.metadata .invalidTransition)
  else .ok { c with
    snapshots := update selected (fun s => { s with status := .rejected }) c.snapshots }

/-- End a running synchronization. -/
def finishSync (id : String) (f : Sync → Sync) (c : Catalog) : Except StorageError Catalog :=
  let selected := fun s : Sync => s.id=id && s.running
  if affected selected c.syncs≠1 then .error (.metadata .invalidTransition)
  else .ok { c with syncs := update selected f c.syncs }

def rejectStaged (id : String) (snapshot : ℤ) (c : Catalog) : Except StorageError Catalog :=
  let selected := fun s : Snapshot => s.id=snapshot && s.sync=id && s.status=.staged
  if affected selected c.snapshots≠1 then .error (.metadata .invalidTransition)
  else .ok { c with
    snapshots := update selected (fun s => { s with status := .rejected }) c.snapshots }

/-- End a refresh that failed or was cancelled, with its staged snapshot if it has one. -/
def finishCatalogFailure (id : String) (snapshot : Option ℤ) (code : RefreshCode)
    (finishedAt : String) (c : Catalog) : Except StorageError Catalog := do
  let rejected := match snapshot with
    | some snapshot => rejectStaged id snapshot c
    | none => .ok c
  let c ← rejected
  finishSync id (fun s => { s with
    status := if code=.cancelled then .cancelled else .failed
    errorCode := some code.asStr
    errorMessage := some (failureMessage code)
    finishedAt := some finishedAt }) c

/-- Startup recovery: fail what runs and reject what it staged. -/
def recoverCatalogRefreshes (now : String) (c : Catalog) : Catalog :=
  { c with
    snapshots := update
      (fun s => s.status=.staged && c.syncs.any fun y => y.id=s.sync && y.running)
      (fun s => { s with status := .rejected }) c.snapshots
    syncs := update Sync.running (fun s => { s with
      status := .failed
      errorCode := some "catalog_interrupted"
      errorMessage := some
        "Official metadata refresh was interrupted. Start a new refresh to retry."
      finishedAt := some now }) c.syncs }

end Librairii.CatalogRows
