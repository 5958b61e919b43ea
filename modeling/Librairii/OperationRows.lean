import Librairii.StorageTransactions
import Librairii.RowTables

/-!
# Stored operation rows and the views read from them

The two operation tables hold exactly the columns the operations repository
reads: a header row per operation and a row per item. Persisted discriminators
are the closed enumerations their CHECK constraints admit. Every read measures
the stored text before it materializes a row, and a targeted view counts all
sibling items of the same snapshot.
-/

namespace Librairii.OperationRows

open CheckedResults StorageTransactions RowTables

/-- The three kinds of durable work. -/
inductive OperationKind where
  | import
  | metadataSync
  | export
  deriving DecidableEq

/-- The persisted states of an operation. -/
inductive OperationState where
  | queued
  | running
  | succeeded
  | partiallySucceeded
  | failed
  | cancelled
  | interrupted
  deriving DecidableEq

/-- The persisted states of one item. -/
inductive ItemState where
  | pending
  | running
  | succeeded
  | skipped
  | conflicted
  | failed
  | cancelled
  deriving DecidableEq

def encodeKind : OperationKind → String
  | .import => "import"
  | .metadataSync => "metadata_sync"
  | .export => "export"

def encodeState : OperationState → String
  | .queued => "queued"
  | .running => "running"
  | .succeeded => "succeeded"
  | .partiallySucceeded => "partially_succeeded"
  | .failed => "failed"
  | .cancelled => "cancelled"
  | .interrupted => "interrupted"

def ItemState.asPersisted : ItemState → String
  | .pending => "pending"
  | .running => "running"
  | .succeeded => "succeeded"
  | .skipped => "skipped"
  | .conflicted => "conflicted"
  | .failed => "failed"
  | .cancelled => "cancelled"

def isTerminal : OperationState → Bool
  | .queued | .running => false
  | _ => true

def ItemState.isTerminal : ItemState → Bool
  | .pending | .running => false
  | _ => true

/-- Open code and message texts; NULL and the empty text stay distinct. -/
structure RawOutcome where
  /-- Outcome or error code column. -/
  code : Option String
  /-- Outcome or error message column. -/
  message : Option String
  deriving DecidableEq

/-- The three nullable export source columns, as stored text. -/
structure StoredExportScope where
  discriminator : Option String
  groupIds : Option String
  groupNames : Option String
  deriving DecidableEq

/-- Exact native path bytes, compared without normalization. -/
structure OperationPath where
  bytes : List UInt8
  deriving DecidableEq

/-- The raw history order key. -/
structure HistoryKey where
  createdAt : String
  id : String
  deriving DecidableEq

/-- Identity and time columns of an operation row. -/
structure StoredOperationIdentity where
  /-- Primary key text. -/
  id : String
  createdAt : String
  startedAt : Option String
  /-- Finish time, when the operation is terminal. -/
  finishedAt : Option String
  deriving DecidableEq

def StoredOperationIdentity.historyKey (identity : StoredOperationIdentity) : HistoryKey :=
  ⟨identity.createdAt,identity.id⟩

/-- Identity columns of an item row. -/
structure StoredItemIdentity where
  id : ℤ
  storyId : Option ℤ
  /-- Immutable story reference recorded at creation. -/
  resolvedStoryId : Option ℤ
  storyUuid : Option String
  deriving DecidableEq

/-- Item counters of an operation row. -/
structure Counts where
  /-- Items recorded as terminal. -/
  completed : ℤ
  /-- All items of the operation. -/
  total : ℤ
  deriving DecidableEq

/-- Stored counters are valid when they are ordered and nonnegative. -/
def Counts.validate (counts : Counts) : Bool :=
  !(counts.total<0 || counts.completed<0 || counts.total<counts.completed)

/-- Byte progress of an item row. -/
structure Progress where
  /-- Bytes recorded so far. -/
  completed : ℤ
  /-- Bytes planned at creation. -/
  total : ℤ
  deriving DecidableEq

/-- One row of `file_operations`. -/
structure OperationHeader where
  identity : StoredOperationIdentity
  kind : OperationKind
  state : OperationState
  exportScope : StoredExportScope
  destination : Option OperationPath
  /-- Completed and total item counters. -/
  counts : Counts
  /-- Planned bytes of the whole operation. -/
  totalBytes : ℤ
  cancelRequested : Bool
  /-- Error code and message columns. -/
  outcome : RawOutcome
  deriving DecidableEq

/-- The immutable scope a command must name to address an operation. -/
structure OperationScope where
  /-- Raw history key. -/
  identity : HistoryKey
  kind : OperationKind
  exportScope : StoredExportScope
  destination : Option OperationPath
  totalItems : ℤ
  totalBytes : ℤ
  deriving DecidableEq

/-- The scope excludes state, progress and times after creation. -/
def OperationHeader.immutableScope (header : OperationHeader) : OperationScope where
  identity := header.identity.historyKey
  kind := header.kind
  exportScope := header.exportScope
  destination := header.destination
  totalItems := header.counts.total
  totalBytes := header.totalBytes

/-- One row of `file_operation_items`. -/
structure OperationItem where
  operationId : String
  /-- Row id and story references. -/
  identity : StoredItemIdentity
  storyTitle : Option String
  sourceName : String
  outputName : Option OperationPath
  archiveRelativePath : Option OperationPath
  /-- Archive hash recorded at creation. -/
  archiveSha256 : Option String
  exportSkipCode : Option String
  state : ItemState
  progress : Progress
  /-- Outcome code and message columns. -/
  outcome : RawOutcome
  deriving DecidableEq

/-- The immutable scope a command must name to address an item. -/
structure ItemScope where
  operationId : String
  id : ℤ
  resolvedStoryId : Option ℤ
  storyUuid : Option String
  storyTitle : Option String
  sourceName : String
  outputName : Option OperationPath
  archiveRelativePath : Option OperationPath
  archiveSha256 : Option String
  exportSkipCode : Option String
  totalBytes : ℤ
  deriving DecidableEq

/-- The item scope excludes the live story reference, state and progress. -/
def OperationItem.immutableScope (item : OperationItem) : ItemScope where
  operationId := item.operationId
  id := item.identity.id
  resolvedStoryId := item.identity.resolvedStoryId
  storyUuid := item.identity.storyUuid
  storyTitle := item.storyTitle
  sourceName := item.sourceName
  outputName := item.outputName
  archiveRelativePath := item.archiveRelativePath
  archiveSha256 := item.archiveSha256
  exportSkipCode := item.exportSkipCode
  totalBytes := item.progress.total

/-- The two operation tables of one database. -/
structure Database where
  operations : List OperationHeader
  items : List OperationItem
  deriving DecidableEq

/-- A refused creation input. -/
inductive InputError where
  | invalid
  | resourceLimit
  deriving DecidableEq

/-- The engine errors the repository tells apart. -/
inductive SqliteError where
  /-- A CHECK, key, foreign key or trigger refused the statement. -/
  | constraintViolation
  /-- The marker raised when a guarded UPDATE did not change one row. -/
  | queryReturnedNoRows
  | failure
  deriving DecidableEq

/-- The storage errors an operation transaction can end in. -/
inductive StorageError where
  | snapshotChanged
  | operationInput (error : InputError)
  | sqlite (error : SqliteError)
  | cancelled
  | queueFull
  | profileBusy
  | intakeClosed
  | runtimeFenced
  deriving DecidableEq

/-- Sizes of the row structures in memory, fixed by the compiled layout. -/
structure RowSizes where
  header : ℕ
  item : ℕ

def maxRowText : ℕ := 16*1024*1024

def maxSnapshot : ℕ := 64*1024*1024

def textLength (value : Option String) : ℕ := (value.map String.utf8ByteSize).getD 0

def pathLength (value : Option OperationPath) : ℕ := (value.map fun p => p.bytes.length).getD 0

/-- Bytes measured for one header row before it is read. -/
def headerText (sizes : RowSizes) (row : OperationHeader) : ℕ :=
  row.identity.id.utf8ByteSize+(encodeKind row.kind).utf8ByteSize+
    (encodeState row.state).utf8ByteSize+row.identity.createdAt.utf8ByteSize+
    textLength row.identity.startedAt+textLength row.identity.finishedAt+
    textLength row.exportScope.discriminator+textLength row.exportScope.groupIds+
    textLength row.exportScope.groupNames+pathLength row.destination+
    textLength row.outcome.code+textLength row.outcome.message+sizes.header

/-- Bytes measured for one item row before it is read. -/
def itemText (sizes : RowSizes) (row : OperationItem) : ℕ :=
  row.state.asPersisted.utf8ByteSize+row.operationId.utf8ByteSize+
    textLength row.identity.storyUuid+textLength row.storyTitle+row.sourceName.utf8ByteSize+
    pathLength row.outputName+pathLength row.archiveRelativePath+
    textLength row.archiveSha256+textLength row.exportSkipCode+
    textLength row.outcome.code+textLength row.outcome.message+sizes.item

/-- Refuse to materialize rows whose total or largest text is over budget. -/
def budget (lengths : List ℕ) (limit : ℕ) : Except StorageError Unit :=
  if limit<lengths.sum || maxRowText<lengths.foldl max 0 then
    .error (.operationInput .resourceLimit)
  else .ok ()

def itemsOf (d : Database) (id : String) : List OperationItem :=
  d.items.filter fun row => row.operationId=id

def header (sizes : RowSizes) (d : Database) (id : String) :
    Except StorageError (Option OperationHeader) := do
  budget ((d.operations.filter fun row => row.identity.id=id).map (headerText sizes)) maxRowText
  return lookup (·.identity.id) id d.operations

/-- An operation with all its items, in row-id order. -/
structure OperationSnapshot where
  /-- The header row. -/
  operation : OperationHeader
  items : List OperationItem
  deriving DecidableEq

/-- Read an operation and every item of it. -/
def snapshot (sizes : RowSizes) (d : Database) (id : String) :
    Except StorageError (Option OperationSnapshot) := do
  match ← header sizes d id with
  | none => return none
  | some operation =>
    budget ((itemsOf d id).map (itemText sizes)) (maxSnapshot-maxRowText)
    return some ⟨operation,(itemsOf d id).mergeSort fun a b => a.identity.id≤b.identity.id⟩

/-- Item counts observed over all sibling rows in one snapshot. -/
structure SiblingCounts where
  items : ℤ
  /-- Items of the operation in a terminal state. -/
  terminal : ℤ
  deriving DecidableEq

/-- Count the items of an operation and those already terminal. -/
def siblingCounts (d : Database) (id : String) : SiblingCounts where
  items := ((itemsOf d id).length : ℤ)
  terminal := (((itemsOf d id).countP fun row => row.state.isTerminal : ℕ) : ℤ)

/-- A targeted coherent view of one operation and possibly one of its items. -/
structure TerminalView where
  /-- The header row. -/
  operation : OperationHeader
  /-- The addressed item, when the command names one and it exists. -/
  item : Option OperationItem
  siblings : SiblingCounts
  deriving DecidableEq

def itemOf (d : Database) (id : String) (item : ℤ) : Option OperationItem :=
  lookup (·.identity.id) item (itemsOf d id)

/-- Read the header, the addressed item and the sibling counts together. -/
def view (sizes : RowSizes) (d : Database) (id : String) (item : Option ℤ) :
    Except StorageError (Option TerminalView) := do
  match ← header sizes d id with
  | none => return none
  | some operation =>
    match item with
    | none => return some ⟨operation,none,siblingCounts d id⟩
    | some item =>
      budget (((itemsOf d id).filter fun row => row.identity.id=item).map (itemText sizes))
        maxRowText
      return some ⟨operation,itemOf d id item,siblingCounts d id⟩

theorem header_ok {sizes : RowSizes} {d : Database} {id : String} {found : Option OperationHeader}
    (hr : header sizes d id=.ok found) : lookup (·.identity.id) id d.operations=found := by
  obtain ⟨u,-,he⟩ := exceptBind_ok.mp hr
  exact Except.ok.inj he

theorem view_some {sizes : RowSizes} {d : Database} {id : String} {item : Option ℤ}
    {v : TerminalView} (hr : view sizes d id item=.ok (some v)) :
    lookup (·.identity.id) id d.operations=some v.operation ∧
      v.item=item.bind (itemOf d id) ∧ v.siblings=siblingCounts d id := by
  obtain ⟨found,hh,hr⟩ := exceptBind_ok.mp hr
  cases found with
  | none => cases hr
  | some operation =>
    cases item with
    | none =>
      cases hr
      exact ⟨header_ok hh,rfl,rfl⟩
    | some item =>
      obtain ⟨u,-,hr⟩ := exceptBind_ok.mp hr
      cases hr
      exact ⟨header_ok hh,rfl,rfl⟩

theorem view_none {sizes : RowSizes} {d : Database} {id : String} {item : Option ℤ}
    (hr : view sizes d id item=.ok none) : lookup (·.identity.id) id d.operations=none := by
  obtain ⟨found,hh,hr⟩ := exceptBind_ok.mp hr
  cases found with
  | none => exact header_ok hh
  | some operation =>
    cases item with
    | none => cases hr
    | some item =>
      obtain ⟨u,-,hr⟩ := exceptBind_ok.mp hr
      cases hr

theorem snapshot_ok {sizes : RowSizes} {d : Database} {id : String}
    {found : Option OperationSnapshot} (hr : snapshot sizes d id=.ok found) :
    lookup (·.identity.id) id d.operations=found.map (·.operation) := by
  obtain ⟨h,hh,hr⟩ := exceptBind_ok.mp hr
  cases h with
  | none =>
    cases hr
    exact header_ok hh
  | some operation =>
    obtain ⟨u,-,hr⟩ := exceptBind_ok.mp hr
    cases hr
    exact header_ok hh

end Librairii.OperationRows
