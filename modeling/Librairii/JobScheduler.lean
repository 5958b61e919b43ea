import Librairii.CompletionOutcomes
import Librairii.ExportStarts
import Librairii.OperationReporting

/-!
# The job scheduler

One coordinator admits starts, reads pending items into a bounded queue and finishes
operations; workers take items from the queue, start, execute, report and release them. Their
critical sections and store calls interleave in any order with those of the handles, and the
store answers a write as its surroundings decide and a read with its rows, or not at all.
-/

namespace Librairii.JobScheduler

open CheckedResults RowTables OperationRows OperationPolicy OperationCreation OperationStore
  OperationReporting CompletionOutcomes
open ExportPlans (ItemReport historicalStoryId)
open ExportStarts (Start)

/-- The bound on worker threads. -/
structure Configuration where
  workers : ℕ
  /-- A configuration has between one and eight workers. -/
  bounded : 1≤workers ∧ workers≤8

/-- Bound on queued items. -/
def Configuration.queueCapacity (config : Configuration) : ℕ := config.workers*2

/-- What stays fixed during a session. -/
structure Runtime where
  config : Configuration
  /-- The compiled program. -/
  session : Session
  generation : ℕ

/-- The acknowledgement of a start. -/
structure Admission where
  id : String
  accepted : Bool
  deriving DecidableEq

/-- Why a handle refuses a command. -/
inductive Refusal where
  | busy
  | closed
  deriving DecidableEq

/-- An item in flight with its operation and its cancellation token. -/
structure InFlight where
  item : ℤ
  operation : String
  cancelled : Bool
  deriving DecidableEq

/-- What the mutex of the scheduler guards. -/
structure State where
  /-- A start that was offered and not yet taken. -/
  ingress : Option Start
  /-- The coordinator admits a start. -/
  admitting : Bool
  /-- An acknowledgement that was not yet read. -/
  admission : Option Admission
  queue : List WorkItem
  inflight : List InFlight
  /-- Number of items the workers hold. -/
  running : ℕ
  stopping : Bool
  done : Bool
  failed : Bool
  ready : Bool
  cancel : Option String

/-- Where the coordinator stands, with the values it has read. -/
inductive Coordinator where
  /-- Before the recovery of the store succeeded. -/
  | startup
  /-- At the head of its loop. -/
  | top
  /-- About to take a start and a cancellation. -/
  | intake
  /-- About to compare a start with the running metadata refresh. -/
  | taken (start : Start) (cancel : Option String) (stopping : Bool)
  /-- Storing a start, or reading it back. -/
  | admitting (start : Start) (at_ : String) (unknown : Bool) (cancel : Option String)
      (stopping : Bool)
  /-- About to acknowledge a start. -/
  | acknowledging (start : Start) (accepted : Bool) (cancel : Option String) (stopping : Bool)
  /-- Storing a cancellation. -/
  | cancelling (cancel : Option String) (stopping : Bool)
  /-- Storing the cancellation of everything. -/
  | cancellingAll
  /-- Saving the progress of running items. -/
  | saving (stopping : Bool)
  /-- About to cancel the tokens of cancelled operations. -/
  | checking (stopping : Bool)
  /-- About to read the operations in flight. -/
  | excluding (stopping : Bool)
  /-- Looking for an operation to finish. -/
  | finding (stopping : Bool) (excluded : List String)
  | reporting (report : Report) (phase : Phase)
  /-- About to read the queue. -/
  | counting (stopping noFinished : Bool)
  /-- Looking for a pending item. -/
  | fetching (stopping noFinished : Bool) (excluded : List ℤ)
  /-- Reading whether the operation of a pending item is cancelled. -/
  | observing (stopping : Bool) (work : WorkItem)
  | queueing (work : WorkItem) (cancelled : Bool)
  /-- About to decide whether the session has drained. -/
  | draining (stopping noFinished empty : Bool)
  /-- Looking once more for an operation to finish. -/
  | verifying
  /-- Cleaning up before the session closes. -/
  | cleaning
  /-- About to close a drained session. -/
  | closing
  /-- Its thread has ended. -/
  | returned

/-- Where a worker stands. -/
inductive Worker where
  /-- Waiting for an item. -/
  | idle
  | starting (work : WorkItem) (at_ : String) (unknown : Bool)
  | started (work : WorkItem)
  | compensating (work : WorkItem) (report : ItemReport)
  | reporting (work : WorkItem) (report : Report) (phase : Phase) (resources : Bool)
  | settling (work : WorkItem) (resources : Bool)
  /-- About to release an item. -/
  | releasing (work : WorkItem)
  /-- Its thread has ended, and may have kept an item. -/
  | returned (kept : Option WorkItem)

def Worker.held : Worker → Option WorkItem
  | .idle => none
  | .starting work _ _ | .started work | .compensating work _ | .reporting work _ _ _
  | .settling work _ | .releasing work => some work
  | .returned kept => kept

/-- The scheduler with its threads and the stored rows. -/
structure System where
  state : State
  /-- A metadata refresh is queued or held. -/
  metadataOwner : Bool
  coordinator : Coordinator
  workers : List Worker
  rows : Database

/-- The items the workers hold. -/
def System.held (s : System) : List WorkItem := s.workers.filterMap Worker.held

/-- A scheduler before its threads run. -/
def System.new (r : Runtime) (rows : Database) : System where
  state := ⟨none,false,none,[],[],0,false,false,false,false,none⟩
  metadataOwner := false
  coordinator := .startup
  workers := List.replicate r.config.workers .idle
  rows := rows

/-- Which durable boundary an execution has reached. -/
inductive Boundary where
  | beforeCommit
  | committed
  | compensating
  deriving DecidableEq

/-- What an executor hands back. -/
structure Execution where
  boundary : Boundary
  report : ItemReport
  resources : Bool
  deriving DecidableEq

def cancelledReport (work : WorkItem) : ItemReport :=
  let texts : String×String×ℤ := match work.operation.kind with
    | .import => ("cancelled","Import cancelled.",0)
    | .export => ("cancelled","Story export cancelled.",historicalStoryId work.item.identity)
    | .metadataSync => ("catalog_cancelled","Official metadata refresh was cancelled.",0)
  { state := .cancelled
    storyId := texts.2.2
    completedBytes := work.item.progress.completed
    outcome := ⟨some texts.1,some texts.2.1⟩ }

/-- The answer of a read of the store. -/
inductive ReadResult (α : Type) where
  | known (value : α)
  | retry
  | rejected

/-- The row of a query that takes the first in its order. -/
def firstBy {α : Type} (before : α → α → Bool) : List α → Option α
  | [] => none
  | row::rows =>
    match firstBy before rows with
    | none => some row
    | some other => some (if before row other then row else other)

def maxExclusions : ℕ := 25

/-- Older operations come first, and those created together in the order of their ids. -/
def olderOperation (a b : OperationHeader) : Bool :=
  a.identity.createdAt<b.identity.createdAt ||
    (a.identity.createdAt=b.identity.createdAt && a.identity.id<b.identity.id)

/-- Items of older operations come first, and those of one operation in the order of their ids. -/
def olderItem (a b : OperationHeader×OperationItem) : Bool :=
  olderOperation a.1 b.1 || (a.1.identity.createdAt=b.1.identity.createdAt &&
    a.1.identity.id=b.1.identity.id && a.2.identity.id<b.2.identity.id)

def pendingItems (d : Database) (excluded : List ℤ) : List (OperationHeader×OperationItem) :=
  d.items.filterMap fun item =>
    (lookup (·.identity.id) item.operationId d.operations).bind fun operation =>
      if !isTerminal operation.state && item.state=.pending &&
          !excluded.contains item.identity.id then
        some (operation,item)
      else none

def nextPending (r : Runtime) (lost : Bool) (excluded : List ℤ) (d : Database) :
    ReadResult (Option WorkItem) :=
  if maxExclusions<excluded.length then .rejected
  else if lost then .retry
  else match firstBy olderItem (pendingItems d excluded) with
    | none => .known none
    | some (operation,item) =>
      match view r.session.sizes d operation.identity.id (some item.identity.id) with
      | .ok (some v) =>
        match v.item with
        | some item => .known (some ⟨v.operation.immutableScope,item⟩)
        | none => .retry
      | _ => .retry

/-- The active operations with all items completed that are not excluded. -/
def finishable (d : Database) (excluded : List String) : List OperationHeader :=
  d.operations.filter fun row => !isTerminal row.state &&
    row.counts.completed=row.counts.total && !excluded.contains row.identity.id

def readyToFinish (lost : Bool) (excluded : List String) (d : Database) :
    ReadResult (Option (OperationScope×TerminalResult)) :=
  if maxExclusions<excluded.length then .rejected
  else if lost then .retry
  else match firstBy olderOperation (finishable d excluded) with
    | none => .known none
    | some row =>
      match terminalOutcome row.kind row.counts.total
          ((itemsOf d row.identity.id).mergeSort fun a b => a.identity.id≤b.identity.id) with
      | .ok result => .known (some (row.immutableScope,result))
      | .error _ => .retry

/-- What a start reads back. -/
inductive StartObservation where
  | pending
  | running
  | interrupted
  deriving DecidableEq

def startReadback (r : Runtime) (lost : Bool) (work : WorkItem) (d : Database) :
    ReadResult StartObservation :=
  if lost then .retry
  else match view r.session.sizes d work.operation.identity.id
      (some work.item.identity.id) with
    | .ok (some v) =>
      match v.item with
      | none => .retry
      | some item =>
        if v.operation.immutableScope≠work.operation ||
            item.immutableScope≠work.item.immutableScope then .retry
        else if v.operation.state=.interrupted then .known .interrupted
        else match item.state with
          | .running => .known .running
          | .pending => .known .pending
          | _ => .retry
    | _ => .retry

/-- Read a creation back; anything but a clear answer is unknown. -/
def creationReadback (r : Runtime) (lost : Bool) (input : NewOperation) (at_ : String)
    (d : Database) : Option Bool :=
  if lost then none
  else match snapshot r.session.sizes d input.id with
    | .error _ => none
    | .ok none => some false
    | .ok (some stored) =>
      if stored.operation.identity.createdAt≠at_ then none
      else match creationMatches r.session.inputs input stored with
        | .ok true => some true
        | _ => none

def cancelled (lost : Bool) (id : String) (d : Database) : ReadResult Bool :=
  if lost then .retry
  else match lookup (·.identity.id) id d.operations with
    | some row => .known row.cancelRequested
    | none => .retry

/-- What the surroundings decide in one step of a thread. -/
structure Answer where
  /-- Surroundings of a write. -/
  call : StoreCall
  /-- Reads that get no answer, by the operation they ask about; the others are named "". -/
  lost : String → Bool
  /-- The time. -/
  now : String
  /-- Surroundings of an attempt to report. -/
  around : Surroundings
  /-- The parts of startup recovery. -/
  cleanup : Except StorageError Unit
  clock : Except StorageError String
  rounds : List RecoveryRound
  /-- A progress that is saved: item, completed and total bytes. -/
  progress : Option (ℤ×ℤ×ℤ)
  /-- What the executor hands back. -/
  execution : Execution
  settled : Bool
  /-- The answer of the cleanup before the session closes. -/
  cleaned : ReadResult Unit

/-- Offer a start; another thread may hold the lock. -/
def tryStart (contended : Bool) (start : Start) (s : State) : Except Refusal State :=
  if contended then .error .busy
  else if s.stopping || s.done then .error .closed
  else if !s.ready || s.admitting || s.ingress.isSome || s.admission.isSome then .error .busy
  else .ok {s with ingress := some start}

def takeAdmission (s : State) : Option Admission×State :=
  (s.admission,{s with admission := none})

def cancelTokens (selected : InFlight → Bool) (s : State) : State :=
  {s with inflight := s.inflight.map fun entry =>
    {entry with cancelled := entry.cancelled || selected entry}}

/-- Request the cancellation of an operation. -/
def cancel (contended : Bool) (id : String) (s : State) : Except Refusal State :=
  if contended then .error .busy
  else if s.stopping || s.done then .error .closed
  else if s.cancel.isSome then .error .busy
  else .ok {cancelTokens (fun entry => entry.operation=id) s with cancel := some id}

/-- Request the end of the session. -/
def shutdown (s : State) : State := {cancelTokens (fun _ => true) s with stopping := true}

def release (s : System) (work : WorkItem) : System :=
  {s with
    metadataOwner := if work.operation.kind=.metadataSync then false else s.metadataOwner
    state := {s.state with
      inflight := s.state.inflight.filter fun entry => entry.item≠work.item.identity.id
      running := s.state.running-1}}

def fail (s : State) : State := {s with done := true,failed := true}

/-- One iteration of a report. An escalation cancels the tokens of its operation. -/
def persist (r : Runtime) (a : Answer) (report : Report) (phase : Phase) (s : System) :
    Phase×System :=
  let next := iteration (lossy r.session r.generation a.around) report ⟨phase,s.rows⟩
  let state := match phase,next.phase with
    | .persisting _ _ _,.reconciling _ _ =>
      cancelTokens (fun entry => entry.operation=(scope report.command).identity.id) s.state
    | _,_ => s.state
  (next.phase,{s with state := state,rows := next.rows})

def finishReport (r : Runtime) (a : Answer) (operation : OperationScope)
    (result : TerminalResult) : Report where
  opened := r.generation
  command := .finish
    { generation := r.generation
      operation := operation
      state := result.state
      outcome := ⟨some result.code,some result.message⟩
      finishedAt := a.now }
  finishedAt := a.now

def completionReport (r : Runtime) (a : Answer) (work : WorkItem) (report : ItemReport) :
    Report where
  opened := r.generation
  command := .completeItem
    { generation := r.generation
      operation := work.operation
      item := work.item.immutableScope
      storyId := report.storyId
      state := report.state
      completedBytes := report.completedBytes
      outcome := report.outcome }
  finishedAt := a.now

def afterCancel (stopping : Bool) : Coordinator :=
  if stopping then .cancellingAll else .saving stopping

def coordinatorStep (r : Runtime) (a : Answer) (s : System) : System :=
  match s.coordinator with
  | .startup =>
    let reply := recoverOperationStartup a.cleanup a.clock a.rounds s.rows
    match reply.1 with
    | some (.ok _) =>
      {s with rows := reply.2,state := {s.state with ready := true},coordinator := .top}
    | none | some (.error .queueFull) | some (.error .profileBusy) => {s with rows := reply.2}
    | some (.error _) => {s with rows := reply.2,state := fail s.state,coordinator := .returned}
  | .top => {s with coordinator := if s.state.done then .returned else .intake}
  | .intake =>
    let state := {s.state with ingress := none,cancel := none}
    match s.state.ingress with
    | some start => {s with
        state := {state with admitting := true}
        coordinator := .taken start s.state.cancel s.state.stopping}
    | none => {s with state := state,coordinator := .cancelling s.state.cancel s.state.stopping}
  | .taken start id stopping =>
    if start.input.kind=.metadataSync ∧ s.metadataOwner=true then
      {s with coordinator := .acknowledging start false id stopping}
    else {s with coordinator := .admitting start a.now false id stopping}
  | .admitting start at_ unknown id stopping =>
    if unknown=true then
      match creationReadback r (a.lost "") start.input at_ s.rows with
      | some true => {s with coordinator := .acknowledging start true id stopping}
      | some false => {s with coordinator := .admitting start at_ false id stopping}
      | none => s
    else
      let reply := createJob r.session a.call start.input at_ s.rows
      let next := match reply.1 with
        | .known => .acknowledging start true id stopping
        | .rejected => .acknowledging start false id stopping
        | .unknown => .admitting start at_ true id stopping
        | .retry => .admitting start at_ false id stopping
      {s with rows := reply.2,coordinator := next}
  | .acknowledging start accepted id stopping => {s with
      state := {s.state with
        admitting := false,admission := some ⟨start.input.id,accepted⟩}
      coordinator := .cancelling id stopping}
  | .cancelling none stopping => {s with coordinator := afterCancel stopping}
  | .cancelling (some id) stopping =>
    let reply := requestCancel a.call id s.rows
    {s with
      rows := reply.2
      coordinator := match reply.1 with
        | .known | .rejected => afterCancel stopping
        | _ => .cancelling (some id) stopping}
  | .cancellingAll =>
    let reply := cancelAll a.call s.rows
    {s with
      rows := reply.2
      coordinator := if reply.1=.known then .saving true else .cancellingAll}
  | .saving stopping =>
    match a.progress with
    | some (item,completed,total) =>
      {s with rows := (saveProgress a.call item completed total s.rows).2}
    | none => {s with coordinator := .checking stopping}
  | .checking stopping => {s with
      state := cancelTokens (fun entry => stopping ||
        match cancelled (a.lost entry.operation) entry.operation s.rows with
        | .known answer => answer
        | _ => false) s.state
      coordinator := .excluding stopping}
  | .excluding stopping =>
    {s with coordinator := .finding stopping (s.state.inflight.map (·.operation))}
  | .finding stopping excluded =>
    {s with coordinator := match readyToFinish (a.lost "") excluded s.rows with
      | .known (some (operation,result)) =>
        .reporting (finishReport r a operation result) (.persisting false 0 0)
      | .known none => .counting stopping true
      | _ => .counting stopping false}
  | .reporting report phase =>
    let after := persist r a report phase s
    {after.2 with coordinator := if after.1.isReturned then .top else .reporting report after.1}
  | .counting stopping noFinished =>
    {s with coordinator :=
      if s.state.queue.length<r.config.queueCapacity then
        .fetching stopping noFinished (s.state.inflight.map (·.item))
      else .draining stopping noFinished false}
  | .fetching stopping noFinished excluded =>
    match nextPending r (a.lost "") excluded s.rows with
    | .known (some work) => {s with
        metadataOwner := s.metadataOwner || work.operation.kind=.metadataSync
        coordinator := .observing stopping work}
    | .known none => {s with coordinator := .draining stopping noFinished true}
    | _ => {s with coordinator := .draining stopping noFinished false}
  | .observing stopping work =>
    match cancelled (a.lost "") work.operation.identity.id s.rows with
    | .known answer => {s with coordinator := .queueing work (stopping || answer)}
    | _ => {s with coordinator := .top}
  | .queueing work answer =>
    if s.state.done then {s with coordinator := .returned}
    else
      let id := work.operation.identity.id
      {s with
        state := {s.state with
          inflight := s.state.inflight++[⟨work.item.identity.id,id,
            answer || s.state.stopping || s.state.cancel=some id⟩]
          queue := s.state.queue++[work]}
        coordinator := .top}
  | .draining stopping noFinished empty =>
    {s with coordinator :=
      if empty && noFinished && s.state.inflight.isEmpty && stopping then .verifying else .top}
  | .verifying =>
    {s with coordinator := match readyToFinish (a.lost "") [] s.rows with
      | .known none => .cleaning
      | _ => .top}
  | .cleaning =>
    match a.cleaned with
    | .known _ => {s with coordinator := .closing}
    | .rejected => {s with state := {s.state with failed := true},coordinator := .closing}
    | .retry => s
  | .closing => {s with state := {s.state with done := true},coordinator := .returned}
  | .returned => s

def beginReport (r : Runtime) (a : Answer) (work : WorkItem) (report : ItemReport)
    (resources : Bool) : Worker :=
  .reporting work (completionReport r a work report) (.persisting false 0 0) resources

def System.setWorker (s : System) (index : ℕ) (worker : Worker) : System :=
  {s with workers := s.workers.set index worker}

def takeItem (a : Answer) (s : System) (index : ℕ) : System :=
  if s.state.done then s.setWorker index (.returned none)
  else match s.state.queue with
    | [] => s
    | work::queue =>
      let state := {s.state with queue := queue}
      if s.state.inflight.any fun entry => entry.item=work.item.identity.id then
        let selected := fun entry : InFlight =>
          s.state.stopping && entry.item=work.item.identity.id
        {s.setWorker index (.starting work a.now false) with
          state := {cancelTokens selected state with running := s.state.running+1}}
      else {s.setWorker index (.returned none) with state := fail state}

/-- The execution of a started item, which is not begun when its token is cancelled. -/
def executionOf (a : Answer) (s : System) (work : WorkItem) : Execution :=
  if s.state.inflight.any fun entry => entry.item=work.item.identity.id && entry.cancelled then
    ⟨.beforeCommit,cancelledReport work,false⟩
  else a.execution

/-- One step of a worker: a critical section, a call of the store or of the executor. -/
def workerStep (r : Runtime) (a : Answer) (s : System) (index : ℕ) (worker : Worker) : System :=
  match worker with
  | .idle => takeItem a s index
  | .starting work at_ unknown =>
    if unknown=true then
      match startReadback r (a.lost "") work s.rows with
      | .known .running => s.setWorker index (.started work)
      | .known .pending => s.setWorker index (.starting work at_ false)
      | .known .interrupted => s.setWorker index (.releasing work)
      | _ => s
    else
      let reply := startItem r.session a.call work at_ s.rows
      let next := match reply.1 with
        | .known => .started work
        | .unknown | .rejected => .starting work at_ true
        | .retry => .starting work at_ false
      {s.setWorker index next with rows := reply.2}
  | .started work =>
    let execution := executionOf a s work
    if execution.boundary=.compensating then
      if execution.resources then s.setWorker index (.compensating work execution.report)
      else {s.setWorker index (.returned (some work)) with state := fail s.state}
    else s.setWorker index (beginReport r a work execution.report execution.resources)
  | .compensating work report =>
    if a.settled then s.setWorker index (beginReport r a work report true) else s
  | .reporting work report phase resources =>
    let after := persist r a report phase s
    after.2.setWorker index
      (if after.1.isReturned then .settling work resources
      else .reporting work report after.1 resources)
  | .settling work resources =>
    if resources && !a.settled then s else s.setWorker index (.releasing work)
  | .releasing work => (release s work).setWorker index .idle
  | .returned _ => s

/-- What happens in a session. -/
inductive Event where
  | tryStart (contended : Bool) (start : Start)
  | takeAdmission
  | cancel (contended : Bool) (id : String)
  | shutdown
  | coordinator (answer : Answer)
  | worker (index : ℕ) (answer : Answer)

/-- The state after a command of a handle; a refused one changes nothing. -/
def accepted (s : System) (state : Except Refusal State) : System :=
  match state with
  | .ok state => {s with state := state}
  | .error _ => s

def step (r : Runtime) (s : System) : Event → System
  | .tryStart contended start => accepted s (tryStart contended start s.state)
  | .takeAdmission => {s with state := (takeAdmission s.state).2}
  | .cancel contended id => accepted s (cancel contended id s.state)
  | .shutdown => {s with state := shutdown s.state}
  | .coordinator a => coordinatorStep r a s
  | .worker index a =>
    match s.workers[index]? with
    | some worker => workerStep r a s index worker
    | none => s

/-- A session after a sequence of steps. -/
def run (r : Runtime) (s : System) (events : List Event) : System := events.foldl (step r) s

end Librairii.JobScheduler
