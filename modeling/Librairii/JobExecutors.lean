import Librairii.JobScheduler
import Librairii.TemporaryScopes

/-!
# Picked files and export plans beside the scheduler

Each offer leaves an entry in a table of its executor before the scheduler takes its start: the
picked paths of an import, the plan of an export. A refused start takes its entry back, the
receipt of a rejected admission removes a plan, an execution takes one path or reads its plan,
and every offer first removes the entries of operations that are terminal in the store.
-/

namespace Librairii.JobExecutors

open RowTables OperationRows OperationPolicy OperationCreation OperationStore JsonText
  TemporaryScopes
open JobScheduler hiding Event step run
open SavedQueryCodec (digitsValue)
open ExportStarts (Start StartEnv maxCommandBytes operationBytes operationInput)
open ExportPreparation (Registry Prepared PreparationError maxPrepared maxPreparedBytes
  takePrepared addAll)

def maxBatches : ℕ := 8

def slotPrefix : String := "native-import/"

def ascii (text : List Char) : List UInt8 := text.map fun c => UInt8.ofNat c.toNat

def slotToken (index : ℕ) : OperationPath := ⟨ascii slotPrefix.toList++ascii (decimalNat index)⟩

/-- Read a machine word with an optional plus sign. -/
def parseUsize (text : List UInt8) : Option ℕ :=
  let digits := if text.head?=some 0x2b then text.tail else text
  if digits=[] then none
  else (digitsValue (digits.map fun b => Char.ofNat b.toNat)).filter fun n => n<2^64

/-- The slot a token names; no other spelling of its number is accepted. -/
def slotIndex (token : OperationPath) : Option ℕ :=
  if (ascii slotPrefix.toList).isPrefixOf token.bytes then
    (parseUsize (token.bytes.drop (ascii slotPrefix.toList).length)).filter fun index =>
      token=slotToken index
  else none

/-- Why picked files are not prepared or not offered. -/
inductive PrepareError where
  | invalid
  | sourceUnavailable
  | busy
  deriving DecidableEq

/-- What preparing picked files reads. -/
structure ImportEnv extends StartEnv where
  /-- A name with its invalid bytes replaced. -/
  toStringLossy : List UInt8 → String
  /-- Size of a file that can be opened. -/
  opened : OperationPath → Option ℤ
  pathSize : ℕ

/-- The last component of a path, unless that is the parent directory. -/
def fileName (path : OperationPath) : Option (List UInt8) :=
  let names := (path.bytes.splitOn 0x2f).filter fun name => name≠[] ∧ name≠[0x2e]
  names.getLast?.filter fun name => name≠[0x2e,0x2e]

/-- What an import retains of picked files, with its start. -/
structure Preparation where
  start : Start
  paths : List OperationPath
  bytes : ℕ

def pickedItem (env : ImportEnv) (index : ℕ) (path : OperationPath) (name : List UInt8) :
    NewItem where
  storyId := 0
  storyUuid := ""
  storyTitle := ""
  sourceName := env.toStringLossy name
  outputName := ⟨[]⟩
  archiveRelativePath := slotToken index
  archiveSha256 := ""
  exportSkipCode := ""
  totalBytes := (env.opened path).getD 0
  planned := none

/-- The items of picked files from a slot on, with the bytes of their paths added up. -/
def pickedItems (env : ImportEnv) : ℕ → ℕ → List OperationPath →
    Except PrepareError (List NewItem×ℕ)
  | _,bytes,[] => .ok ([],bytes)
  | index,bytes,path::paths =>
    let bytes := bytes+env.alloc.octets path.bytes
    if maxCommandBytes<bytes then .error .invalid
    else match fileName path with
    | none => .error .sourceUnavailable
    | some name =>
      if maxInt<(env.opened path).getD 0 then .error .invalid
      else match pickedItems env (index+1) bytes paths with
      | .ok (items,total) => .ok (pickedItem env index path name::items,total)
      | .error e => .error e

def importOperation (id : String) (items : List NewItem) : NewOperation where
  id := id
  kind := .import
  source := none
  destination := none
  items := items

/-- Prepare an import of picked files. -/
def Preparation.new (env : ImportEnv) (id : String) (paths : List OperationPath) :
    Except PrepareError Preparation :=
  if paths.length<1 ∨ 1000<paths.length then .error .invalid
  else match pickedItems env 0 (env.alloc.vector paths.length*env.pathSize) paths with
  | .error e => .error e
  | .ok (items,bytes) =>
    match Start.new env.toStartEnv (importOperation id items) with
    | none => .error .invalid
    | some start =>
      match operationBytes env.alloc start.input with
      | .error _ => .error .invalid
      | .ok retained =>
        if maxCommandBytes<bytes+retained then .error .invalid
        else .ok ⟨start,paths,bytes+retained⟩

/-- An import that was prepared. -/
structure PreparedImport (env : ImportEnv) extends Preparation where
  prepared : Preparation.new env start.input.id paths=.ok toPreparation

/-- The table entry of an import. -/
structure Batch where
  paths : List (Option OperationPath)
  items : List NewItem
  bytes : ℕ

def Preparation.batch (p : Preparation) : Batch := ⟨p.paths.map some,p.start.input.items,p.bytes⟩

/-- A path that was handed out. -/
structure Handed where
  operation : String
  /-- Its slot. -/
  index : ℕ
  item : ℤ
  path : OperationPath
  deriving DecidableEq

/-- The scheduler, the tables of the executors and the prepared exports, with a record of what was
handed over, of the paths that were handed out and of the executions that lacked theirs. -/
structure World where
  scheduler : System
  batches : List (String×Batch)
  plans : List (String×Prepared)
  exports : Registry
  /-- The starts that were handed over. -/
  offered : List Start
  /-- The imports among them, with their paths. -/
  picked : List Preparation
  handed : List Handed
  lacking : List WorkItem

/-- A session on the rows that earlier sessions left. -/
def World.new (r : Runtime) (rows : Database) : World where
  scheduler := System.new r rows
  batches := []
  plans := []
  exports := .new
  offered := []
  picked := []
  handed := []
  lacking := []

def terminal (rows : Database) (id : String) : Bool :=
  (lookup (·.identity.id) id rows.operations).any fun row => isTerminal row.state

/-- Remove the entries of terminal operations, but those whose read got no answer. -/
def prune {α : Type} (unread : String → Bool) (rows : Database) (entries : List (String×α)) :
    List (String×α) :=
  entries.filter fun entry => unread entry.1 || !terminal rows entry.1

/-- The table of an executor has room for an entry under an id. -/
def hasRoom {α : Type} (limit budget : ℕ) (bytesOf : α → ℕ) (entries : List (String×α))
    (id : String) (bytes : ℕ) : Bool :=
  entries.length<limit && (entries.map fun entry => bytesOf entry.2).sum+bytes≤budget &&
    !entries.any fun entry => entry.1=id

def importRoom (w : World) (p : Preparation) : Bool :=
  hasRoom maxBatches maxCommandBytes Batch.bytes w.batches p.start.input.id p.bytes

def exportRoom (w : World) (plan : Prepared) (id : String) : Bool :=
  hasRoom maxPrepared maxPreparedBytes Prepared.bytes w.plans id plan.bytes

def offerImport (contended : Bool) (p : Preparation) (w : World) :
    World×Option (PrepareError×Preparation) :=
  let id := p.start.input.id
  if importRoom w p then
    let batches := w.batches++[(id,p.batch)]
    match tryStart contended p.start w.scheduler.state with
    | .ok state => ({w with
        scheduler := {w.scheduler with state := state}
        batches := batches
        offered := p.start::w.offered
        picked := p::w.picked},none)
    | .error _ =>
      let paths := ((batches.find? fun entry => entry.1=id).map fun entry =>
        entry.2.paths.reduceOption).getD []
      ({w with batches := batches.filter fun entry => entry.1≠id},
        some (.busy,⟨p.start,paths,p.bytes⟩))
  else (w,some (.busy,p))

/-- Why an export is not offered. -/
inductive OfferError where
  | stale
  | resourceLimit
  | preparation (error : PreparationError)
  | compatibilityInvariant
  | queueFull
  deriving DecidableEq

def offerExport (env : StartEnv) (contended : Bool) (preparation : ℕ) (id : String)
    (library : ExportScopes.Library) (intents : List ℤ) (revalidated : Bool) (w : World) :
    World×Except OfferError Unit :=
  match w.exports.prepared.find? fun plan => plan.id=preparation with
  | none => (w,.error .stale)
  | some preview =>
    if exportRoom w preview id then
      let taken := takePrepared w.exports preparation library intents revalidated
      let w := {w with exports := taken.2}
      match taken.1 with
      | .error e => (w,.error (.preparation e))
      | .ok plan =>
        match operationInput env plan id with
        | .error _ => (w,.error .compatibilityInvariant)
        | .ok input =>
          match Start.new env input with
          | none => (w,.error .compatibilityInvariant)
          | some start =>
            let plans := w.plans++[(id,plan)]
            match tryStart contended start w.scheduler.state with
            | .ok state => ({w with
                scheduler := {w.scheduler with state := state}
                plans := plans
                offered := start::w.offered},.ok ())
            | .error _ => ({w with
                plans := plans.filter fun entry => entry.1≠id
                exports := {w.exports with prepared := w.exports.prepared++[plan]}},
                .error .queueFull)
    else (w,.error .resourceLimit)

def offerMetadata (contended : Bool) (start : Start) (w : World) : World :=
  if start.input.kind=.metadataSync then
    match tryStart contended start w.scheduler.state with
    | .ok state => {w with
        scheduler := {w.scheduler with state := state},offered := start::w.offered}
    | .error _ => w
  else w

/-- Read the acknowledgements; a rejected one removes the plan of its export. -/
def observeJobs (w : World) : World :=
  let taken := takeAdmission w.scheduler.state
  let w := {w with scheduler := {w.scheduler with state := taken.2}}
  match taken.1 with
  | some admission =>
    if admission.accepted then w
    else {w with plans := w.plans.filter fun entry => entry.1≠admission.id}
  | none => w

/-- The path of the slot of an item, taken out of its batch. -/
def source (batches : List (String×Batch)) (work : WorkItem) :
    Option (ℕ×OperationPath×List (String×Batch)) := do
  let index ← slotIndex (← work.item.archiveRelativePath)
  let id := work.operation.identity.id
  let entry ← batches.find? fun entry => entry.1=id
  let item ← entry.2.items[index]?
  if item.sourceName≠work.item.sourceName ∨ item.totalBytes≠work.item.progress.total then none
  else
    let path ← (← entry.2.paths[index]?)
    let batch := {entry.2 with paths := entry.2.paths.set index none}
    return (index,path,batches.map fun entry => if entry.1=id then (id,batch) else entry)

/-- The execution of an import without its path. -/
def missingSource : Execution where
  boundary := .beforeCommit
  report := ⟨.failed,0,0,⟨some "stage_failed",some "The file could not be imported."⟩⟩
  resources := false

def missingPlan (work : WorkItem) : Execution where
  boundary := .beforeCommit
  report := ⟨.failed,ExportPlans.historicalStoryId work.item.identity,0,
    ⟨some "export_failed",some "The story archive could not be exported."⟩⟩
  resources := false

/-- Execute a started item: an import takes its path, an export reads its plan. -/
def execute (w : World) (work : WorkItem) : World×Option Execution :=
  match work.operation.kind with
  | .metadataSync => (w,none)
  | .import =>
    match source w.batches work with
    | some (index,path,batches) => ({w with
        batches := batches
        handed := ⟨work.operation.identity.id,index,work.item.identity.id,path⟩::w.handed},none)
    | none => ({w with lacking := work::w.lacking},some missingSource)
  | .export =>
    if w.plans.any fun entry => entry.1=work.operation.identity.id then (w,none)
    else ({w with lacking := work::w.lacking},some (missingPlan work))

/-- What happens in a session of the desktop. -/
inductive Event (env : ImportEnv) where
  /-- Remove the batches of terminal imports. -/
  | pruneImports (unread : String → Bool)
  | offerImport (contended : Bool) (prepared : PreparedImport env)
  /-- Remove the plans of terminal exports. -/
  | pruneExports (unread : String → Bool)
  | offerExport (contended : Bool) (preparation : ℕ) (id : String)
      (library : ExportScopes.Library) (intents : List ℤ) (revalidated : Bool)
  | offerMetadata (contended : Bool) (start : Start)
  | prepare (call : ExportPreparation.Call env.toStartEnv.toScopeEnv)
  | observeJobs
  | cancel (contended : Bool) (id : String)
  | shutdown
  | coordinator (answer : Answer)
  | worker (index : ℕ) (answer : Answer)

/-- One step of a worker. A started item whose token is not cancelled is executed. -/
def workerStep (r : Runtime) (w : World) (index : ℕ) (a : Answer) : World :=
  match w.scheduler.workers[index]? with
  | none => w
  | some (.started work) =>
    if w.scheduler.state.inflight.any fun entry =>
        entry.item=work.item.identity.id && entry.cancelled then
      {w with scheduler := JobScheduler.workerStep r a w.scheduler index (.started work)}
    else
      let executed := execute w work
      let a := {a with execution := executed.2.getD a.execution}
      {executed.1 with
        scheduler := JobScheduler.workerStep r a w.scheduler index (.started work)}
  | some worker =>
    {w with scheduler := JobScheduler.workerStep r a w.scheduler index worker}

def step {env : ImportEnv} (r : Runtime) (w : World) : Event env → World
  | .pruneImports unread => {w with batches := prune unread w.scheduler.rows w.batches}
  | .offerImport contended prepared =>
    (JobExecutors.offerImport contended prepared.toPreparation w).1
  | .pruneExports unread => {w with plans := prune unread w.scheduler.rows w.plans}
  | .offerExport contended preparation id library intents revalidated =>
    (JobExecutors.offerExport env.toStartEnv contended preparation id library intents
      revalidated w).1
  | .offerMetadata contended start => JobExecutors.offerMetadata contended start w
  | .prepare call => {w with exports := ExportPreparation.step w.exports call}
  | .observeJobs => JobExecutors.observeJobs w
  | .cancel contended id =>
    {w with scheduler := JobScheduler.step r w.scheduler (.cancel contended id)}
  | .shutdown => {w with scheduler := JobScheduler.step r w.scheduler .shutdown}
  | .coordinator a => {w with scheduler := coordinatorStep r a w.scheduler}
  | .worker index a => workerStep r w index a

/-- A session of the desktop after a sequence of steps. -/
def run {env : ImportEnv} (r : Runtime) (w : World) (events : List (Event env)) : World :=
  events.foldl (step r) w

end Librairii.JobExecutors
