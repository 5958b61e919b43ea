import Librairii.OperationCreation

/-!
# The job store: admission, transactions, replies and startup recovery

Every call is submitted to the storage worker under surroundings the caller
does not control: admission may refuse it, the transaction may fail, and the
reply may be lost with or without the work having run. Terminal commands are
inspected and written in one transaction body. Startup recovery repeats one
idempotent repair until it is acknowledged or read back as complete.
-/

namespace Librairii.OperationStore

open StorageTransactions RowTables OperationRows OperationPolicy OperationCreation

/-- What is fixed for every call of one compiled program. -/
structure Session where
  sizes : RowSizes
  /-- Third-party and allocator readings of creation inputs. -/
  inputs : InputEnv

/-- The surroundings of one submitted transaction. -/
structure StoreCall where
  /-- What the schema reads outside the operation tables. -/
  schema : SchemaEnv
  /-- Admission error before anything is queued. -/
  refused : Option StorageError
  fault : Fault StorageError
  replyLost : Option (StorageError×Bool)
  /-- Error of the later read that shows a committed command. -/
  viewLost : Option StorageError

/-- What the caller receives for one submission. -/
inductive Submitted (α : Type) where
  | notAdmitted (error : StorageError)
  | lost (error : StorageError)
  | answered (outcome : TransactionOutcome StorageError α)

/-- The reply says the submission had no effect. -/
def Submitted.refused {α : Type} : Submitted α → Bool
  | .notAdmitted _ | .answered (.provenNotCommitted _) => true
  | _ => false

def submit {α : Type} (call : StoreCall) (body : Body α) (d : Database) :
    Submitted α×Database :=
  match call.refused with
  | some error => (.notAdmitted error,d)
  | none =>
    let result := runTransaction call.fault body d
    match call.replyLost with
    | some (error,ran) => (.lost error,if ran=true then result.2 else d)
    | none => (.answered result.1,result.2)

/-- The reply of a job store call. -/
inductive StoreResult where
  /-- The call took effect. -/
  | known
  /-- Nothing was written; the call may be repeated. -/
  | retry
  /-- Only a readback can tell. -/
  | unknown
  /-- The input is refused and nothing was written. -/
  | rejected
  deriving DecidableEq

def writeResult {α : Type} : Submitted α → StoreResult
  | .notAdmitted .queueFull | .notAdmitted .profileBusy => .retry
  | .notAdmitted _ => .rejected
  | .lost _ => .unknown
  | .answered (.committed _) => .known
  | .answered (.provenNotCommitted .snapshotChanged) => .rejected
  | .answered (.provenNotCommitted (.operationInput _)) => .rejected
  | .answered (.provenNotCommitted (.sqlite .constraintViolation)) => .rejected
  | .answered (.provenNotCommitted _) => .retry
  | .answered (.commitUncertain _) => .unknown

def storeWrite {α : Type} (call : StoreCall) (body : Body α) (d : Database) :
    StoreResult×Database :=
  let reply := submit call body d
  (writeResult reply.1,reply.2)

/-- The body of a job creation: one active metadata refresh at a time. -/
def createBody (session : Session) (env : SchemaEnv) (input : NewOperation) (at_ : String) :
    Body Unit := do
  let other ← observe fun d => .ok (input.kind=.metadataSync && d.operations.any fun row =>
    row.kind=.metadataSync && !isTerminal row.state && row.identity.id≠input.id)
  if other=true then throw .snapshotChanged
  else do
    let _ ← create session.sizes session.inputs env input at_
    pure ()

def createJob (session : Session) (call : StoreCall) (input : NewOperation) (at_ : String)
    (d : Database) : StoreResult×Database :=
  match input.validate session.inputs with
  | .error _ => (.rejected,d)
  | .ok _ => storeWrite call (createBody session call.schema input at_) d

/-- The outcome of a creation through the database, past its validation. -/
def createOperation (session : Session) (call : StoreCall) (input : NewOperation)
    (createdAt : String) (d : Database) :
    Except InputError (Submitted OperationSnapshot)×Database :=
  match input.validate session.inputs with
  | .error error => (.error error,d)
  | .ok _ =>
    let reply := submit call (create session.sizes session.inputs call.schema input createdAt) d
    (.ok reply.1,reply.2)

/-- One source item with the scope of its operation. -/
structure WorkItem where
  operation : OperationScope
  item : OperationItem
  deriving DecidableEq

def startOperation (env : SchemaEnv) (id at_ : String) : Body ℕ :=
  updateOperations env (activeOperation id) fun row => {row with
    state := .running
    identity := {row.identity with startedAt := some (row.identity.startedAt.getD at_)}}

def startPending (env : SchemaEnv) (id : String) (item : ℤ) : Body ℕ :=
  updateItems env
    (fun row => row.identity.id=item && row.operationId=id && row.state=.pending)
    fun row => {row with state := .running}

/-- The two guarded statements of a start; any other count stops with `error`. -/
def markRunning (env : SchemaEnv) (error : StorageError) (id : String) (item : ℤ)
    (at_ : String) : Body Unit := do
  let rows ← startOperation env id at_
  if rows≠1 then throw error
  else do
    let rows ← startPending env id item
    if rows≠1 then throw error else pure ()

def startBody (session : Session) (env : SchemaEnv) (work : WorkItem) (at_ : String) :
    Body Unit := do
  match ← observe fun d => view session.sizes d work.operation.identity.id
      (some work.item.identity.id) with
  | none => throw .snapshotChanged
  | some v =>
    if v.operation.immutableScope≠work.operation ||
        v.item.map (·.immutableScope)≠some work.item.immutableScope then throw .snapshotChanged
    else if v.item.any fun item => item.state=.running then pure ()
    else markRunning env .snapshotChanged work.operation.identity.id work.item.identity.id at_

def startItem (session : Session) (call : StoreCall) (work : WorkItem) (at_ : String)
    (d : Database) : StoreResult×Database :=
  storeWrite call (startBody session call.schema work at_) d

/-- Start one item through the database, without the scope guard. -/
def markOperationItemRunning (call : StoreCall) (id : String) (item : ℤ) (at_ : String)
    (d : Database) : Submitted Unit×Database :=
  submit call (markRunning call.schema (.operationInput .invalid) id item at_) d

/-- The progress statement of one running item of an active operation. -/
def progressBody (env : SchemaEnv) (item completed total : ℤ) : Body Unit := do
  let active ← observe fun d => .ok fun id => d.operations.any (activeOperation id)
  let _ ← updateItems env
    (fun row => row.identity.id=item && row.state=.running && row.progress.total=total &&
      row.progress.completed≤completed && active row.operationId)
    fun row => {row with progress := {row.progress with completed := completed}}
  pure ()

def saveProgress (call : StoreCall) (item completed total : ℤ) (d : Database) :
    StoreResult×Database :=
  if completed<0 || total<0 || total<completed then (.rejected,d)
  else storeWrite call (progressBody call.schema item completed total) d

/-- Request cancellation of one active operation. -/
def cancelBody (env : SchemaEnv) (id : String) : Body Unit := do
  let rows ← updateOperations env (activeOperation id)
    fun row => {row with cancelRequested := true}
  if rows≠1 then throw .snapshotChanged else pure ()

def requestCancel (call : StoreCall) (id : String) (d : Database) : StoreResult×Database :=
  storeWrite call (cancelBody call.schema id) d

/-- Request cancellation of every active operation. -/
def cancelAllBody (env : SchemaEnv) : Body Unit := do
  let _ ← updateOperations env (fun row => !isTerminal row.state)
    fun row => {row with cancelRequested := true}
  pure ()

/-- Request cancellation of all operations. -/
def cancelAll (call : StoreCall) (d : Database) : StoreResult×Database :=
  storeWrite call (cancelAllBody call.schema) d

/-- Why an attempt or readback was not admitted. -/
inductive NonAdmission where
  | wrongGeneration
  | invalidCommand
  | queueFull
  | intakeClosed
  | authorityUnavailable
  deriving DecidableEq

/-- Admission errors as the terminal store reports them. -/
def nonAdmission : StorageError → NonAdmission
  | .queueFull => .queueFull
  | .intakeClosed => .intakeClosed
  | _ => .authorityUnavailable

/-- The disposition of one attempt. -/
inductive AttemptDisposition where
  | notAdmitted (reason : NonAdmission)
  | committed (view : Option TerminalView)
  | alreadyMatching (view : TerminalView)
  | provenNotCommitted
  | terminalConflict (view : TerminalView)
  | unknown (reason : UnknownOutcome)
  deriving DecidableEq

def AttemptDisposition.failed : AttemptDisposition → Bool
  | .notAdmitted _ | .provenNotCommitted => true
  | _ => false

/-- The failure reported beside a disposition. -/
inductive Diagnostic where
  | storage (error : StorageError)
  | viewUnavailable
  deriving DecidableEq

/-- The reply of one attempt keeps its command. -/
structure AttemptReply where
  /-- The attempted command. -/
  witness : CommandWitness
  /-- What became of it. -/
  disposition : AttemptDisposition
  /-- The failure observed beside it, if any. -/
  diagnostic : Option Diagnostic
  deriving DecidableEq

/-- The generation the repository was opened with and the validity of the
command are checked before anything is submitted. -/
def refusal (opened : ℕ) (witness : CommandWitness) : Option NonAdmission :=
  if generation witness≠opened then some .wrongGeneration
  else if valid witness=false then some .invalidCommand
  else none

/-- What the body of an attempt did. -/
inductive WorkResult where
  | written
  | observed (observation : Inspection)

/-- Inspect the command and write it only when it is unapplied. -/
def attemptBody (session : Session) (env : SchemaEnv) (witness : CommandWitness) :
    Body WorkResult := do
  let observation ← observe fun d => inspect session.sizes d witness
  match observation with
  | .unapplied _ => do
    write env witness
    pure .written
  | _ => pure (.observed observation)

def attemptObservation : Inspection → AttemptDisposition
  | .matching view => .alreadyMatching view
  | .conflict view => .terminalConflict view
  | .unknown reason => .unknown reason
  | .unapplied _ => .unknown .contradictory

def committedView (session : Session) (call : StoreCall) (witness : CommandWitness)
    (d : Database) : AttemptDisposition×Option Diagnostic :=
  match call.viewLost with
  | some error => (.committed none,some (.storage error))
  | none =>
    match view session.sizes d (scope witness).identity.id (itemId witness) with
    | .ok (some v) => (.committed (some v),none)
    | .ok none => (.committed none,some .viewUnavailable)
    | .error error => (.committed none,some (.storage error))

def attemptReply (session : Session) (call : StoreCall) (witness : CommandWitness)
    (d : Database) : Submitted WorkResult → AttemptDisposition×Option Diagnostic
  | .notAdmitted error => (.notAdmitted (nonAdmission error),some (.storage error))
  | .lost error => (.unknown .unavailable,some (.storage error))
  | .answered (.committed .written) => committedView session call witness d
  | .answered (.committed (.observed observation)) => (attemptObservation observation,none)
  | .answered (.provenNotCommitted error) => (.provenNotCommitted,some (.storage error))
  | .answered (.commitUncertain error) =>
    (.unknown .acknowledgementLost,some (.storage error))

def attempt (session : Session) (opened : ℕ) (call : StoreCall) (witness : CommandWitness)
    (d : Database) : AttemptReply×Database :=
  match refusal opened witness with
  | some reason => (⟨witness,.notAdmitted reason,none⟩,d)
  | none =>
    let reply := submit call (attemptBody session call.schema witness) d
    let observed := attemptReply session call witness reply.2 reply.1
    (⟨witness,observed.1,observed.2⟩,reply.2)

/-- The disposition of one readback. -/
inductive ReadbackDisposition where
  | notAdmitted (reason : NonAdmission)
  | matchesApplied (view : TerminalView)
  | provenNotApplied (view : TerminalView)
  | terminalConflict (view : TerminalView)
  | unknown (reason : UnknownOutcome)
  deriving DecidableEq

def readbackObservation : Except StorageError Inspection → ReadbackDisposition
  | .ok (.unapplied view) => .provenNotApplied view
  | .ok (.matching view) => .matchesApplied view
  | .ok (.conflict view) => .terminalConflict view
  | .ok (.unknown reason) => .unknown reason
  | .error _ => .unknown .unavailable

/-- Read one command back behind every earlier write. -/
def readback (session : Session) (opened : ℕ) (refused lost : Option StorageError)
    (witness : CommandWitness) (d : Database) : ReadbackDisposition :=
  match refusal opened witness with
  | some reason => .notAdmitted reason
  | none =>
    match refused with
    | some error => .notAdmitted (nonAdmission error)
    | none =>
      match lost with
      | some error => readbackObservation (.error error)
      | none => readbackObservation (inspect session.sizes d witness)

def interruptionMessage : OperationKind → String
  | .import =>
    "Import stopped when the application closed. Select the archive again to retry."
  | .metadataSync =>
    "Metadata refresh stopped when the application closed. Start a new refresh to retry."
  | .export =>
    "Export stopped when the application closed. Completed files were preserved; " ++
      "start a new export to retry."

def interruptionCode (cleanupFailed : Bool) : String :=
  if cleanupFailed=true then "interrupted_cleanup_failed" else "interrupted"

/-- An active operation whose counters disagree with its items. -/
def inconsistent (d : Database) : Bool :=
  d.operations.any fun row => !isTerminal row.state &&
    (row.counts.total≠(siblingCounts d row.identity.id).items ||
      row.counts.completed≠(siblingCounts d row.identity.id).terminal)

/-- The repair body of startup: interrupt everything that is still active. -/
def recoverBody (env : SchemaEnv) (cleanupFailed : Bool) (at_ : String) : Body Unit := do
  let bad ← observe fun d => .ok (inconsistent d)
  if bad=true then throw .snapshotChanged
  else do
    let operations ← observe fun d => .ok d.operations
    let _ ← updateItems env
      (fun row => !row.state.isTerminal && operations.any (activeOperation row.operationId))
      fun row => {row with
        state := .cancelled
        outcome := ⟨some (interruptionCode cleanupFailed),
          (lookup (·.identity.id) row.operationId operations).map fun parent =>
            interruptionMessage parent.kind⟩}
    let _ ← updateOperations env (fun row => !isTerminal row.state)
      fun row => {row with
        state := .interrupted
        counts := {row.counts with completed := row.counts.total}
        outcome := ⟨some (interruptionCode cleanupFailed),some (interruptionMessage row.kind)⟩
        identity := {row.identity with finishedAt := some at_}}
    pure ()

/-- No operation is active any more. -/
def allClosed (d : Database) : Bool := !d.operations.any fun row => !isTerminal row.state

/-- One round of the recovery loop: its repair and the barrier read behind it. -/
structure RecoveryRound where
  repair : StoreCall
  /-- Error of the barrier read after an uncertain repair. -/
  barrier : Option StorageError

/-- The recovery loop over the rounds the surroundings allow; it has no result
while every round asks for another one. -/
def recoverRounds (cleanupFailed : Bool) (at_ : String) :
    List RecoveryRound → Database → Option (Except StorageError Unit)×Database
  | [],d => (none,d)
  | round::rounds,d =>
    let reply := submit round.repair (recoverBody round.repair.schema cleanupFailed at_) d
    match reply.1 with
    | .notAdmitted .queueFull => recoverRounds cleanupFailed at_ rounds reply.2
    | .notAdmitted error => (some (.error error),reply.2)
    | .lost error => (some (.error error),reply.2)
    | .answered (.committed _) => (some (.ok ()),reply.2)
    | .answered (.provenNotCommitted error) => (some (.error error),reply.2)
    | .answered (.commitUncertain _) =>
      match round.barrier with
      | some error => (some (.error error),reply.2)
      | none =>
        if allClosed reply.2=true then (some (.ok ()),reply.2)
        else recoverRounds cleanupFailed at_ rounds reply.2

def cleanupFailed : Except StorageError Unit → Bool
  | .ok _ => false
  | .error _ => true

/-- Startup recovery. The temporary cleanup runs first; its error is reported
only after the repair, and recorded in the interruption code. -/
def recoverOperationStartup (cleanup : Except StorageError Unit)
    (clock : Except StorageError String) (rounds : List RecoveryRound) (d : Database) :
    Option (Except StorageError Unit)×Database :=
  match clock with
  | .error error => (some (.error error),d)
  | .ok at_ =>
    match recoverRounds (cleanupFailed cleanup) at_ rounds d with
    | (some (.ok _),after) => (some cleanup,after)
    | other => other

/-- The calls that can change the operation tables. -/
inductive Event where
  | createJob (call : StoreCall) (input : NewOperation) (at_ : String)
  | createOperation (call : StoreCall) (input : NewOperation) (createdAt : String)
  | startItem (call : StoreCall) (work : WorkItem) (at_ : String)
  | markOperationItemRunning (call : StoreCall) (id : String) (item : ℤ) (at_ : String)
  | attempt (opened : ℕ) (call : StoreCall) (witness : CommandWitness)
  | saveProgress (call : StoreCall) (item completed total : ℤ)
  | requestCancel (call : StoreCall) (id : String)
  | cancelAll (call : StoreCall)
  | recoverOperationStartup (cleanup : Except StorageError Unit)
      (clock : Except StorageError String) (rounds : List RecoveryRound)

/-- What an event answers to its caller. -/
inductive Reply where
  | store (result : StoreResult)
  | created (result : Except InputError (Submitted OperationSnapshot))
  | marked (result : Submitted Unit)
  | terminal (reply : AttemptReply)
  | recovered (result : Option (Except StorageError Unit))

/-- Answer one event and rewrite the tables. -/
def step (session : Session) (event : Event) (d : Database) : Reply×Database :=
  match event with
  | .createJob call input at_ => (createJob session call input at_ d).map .store id
  | .createOperation call input createdAt =>
    (createOperation session call input createdAt d).map .created id
  | .startItem call work at_ => (startItem session call work at_ d).map .store id
  | .markOperationItemRunning call id item at_ =>
    (markOperationItemRunning call id item at_ d).map .marked fun d => d
  | .attempt opened call witness => (attempt session opened call witness d).map .terminal id
  | .saveProgress call item completed total =>
    (saveProgress call item completed total d).map .store id
  | .requestCancel call operation => (requestCancel call operation d).map .store id
  | .cancelAll call => (cancelAll call d).map .store id
  | .recoverOperationStartup cleanup clock rounds =>
    (recoverOperationStartup cleanup clock rounds d).map .recovered id

def run (session : Session) (events : List Event) (d : Database) : Database :=
  events.foldl (fun d event => (step session event d).2) d

def emptyTables : Database := ⟨[],[]⟩

/-- The reply says the call had no effect. -/
def Reply.failed : Reply → Bool
  | .store .retry | .store .rejected => true
  | .created (.error _) => true
  | .created (.ok result) => result.refused
  | .marked result => result.refused
  | .terminal reply => reply.disposition.failed
  | _ => false

end Librairii.OperationStore
