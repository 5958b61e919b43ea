import Librairii.CompletionOutcomes
import Librairii.ExportPlans
import Librairii.OperationReporting

/-!
# A running export beside its library

The items of one export are fetched, started, checked three times against the library,
reported and recorded, in any interleaving with removals of stories. The store answers
truthfully, except that it may lose the answer of an attempt or of a readback.
-/

namespace Librairii.ExportRuns

open RowTables OperationRows OperationPolicy OperationStore OperationReporting StoryRows
  ExportPlans CompletionOutcomes

/-- The stories as the schema and the eligibility checks see them. -/
structure Library where
  stories : List ℤ
  /-- Stories joined with their archives. -/
  listed : List Listed
  /-- Stories with a removal in progress. -/
  intents : List ℤ

/-- Delete a story with what refers to it. -/
def Library.remove (l : Library) (story : ℤ) : Library where
  stories := l.stories.filter fun id => id≠story
  listed := l.listed.filter fun row => row.story.id≠story
  intents := l.intents.filter fun id => id≠story

/-- What stays fixed while one export runs. -/
structure Export where
  id : String
  generation : ℕ
  /-- The compiled program. -/
  session : Session
  /-- Engine test for well-formed JSON text. -/
  jsonValid : String → Bool
  jsonArrayLength : String → Option ℕ
  plan : Plan
  /-- Time text of the escalation of an item, or of the finish. -/
  escalatedAt : Option ℤ → String

def Export.schema (e : Export) (l : Library) : SchemaEnv where
  storyExists := fun id => l.stories.contains id
  jsonValid := e.jsonValid
  jsonArrayLength := e.jsonArrayLength

/-- How the store answers one iteration of a report. -/
inductive Answer where
  /-- Every attempt and readback is answered truthfully. -/
  | truthful
  | writeLost (applied : Bool)
  | readLost
  deriving DecidableEq

/-- The answers of a truthful store with lost acknowledgements. -/
def answers (env : SchemaEnv) (opened : ℕ) (answer : Answer) : Answers where
  readback := fun witness d =>
    if answer=.readLost then .unknown .unavailable else truthfulReadback opened witness d
  attempt := fun witness d =>
    match answer with
    | .writeLost applied => (.unknown .acknowledgementLost,
        if applied=true then (truthfulAttempt env opened witness d).2 else d)
    | _ => truthfulAttempt env opened witness d

/-- A terminal command that is being reported. -/
structure Reported where
  command : CommandWitness
  /-- Lost answers while it was unresolved. -/
  faults : ℕ
  /-- Where its reporting stands. -/
  phase : Phase
  deriving DecidableEq

def Reported.new (command : CommandWitness) : Reported := ⟨command,0,.persisting false 0 0⟩

def Reported.next (r : Reported) (env : SchemaEnv) (opened : ℕ) (escalatedAt : String)
    (answer : Answer) (d : Database) : Reported×Database :=
  let s := iteration (answers env opened answer) ⟨opened,r.command,escalatedAt⟩ ⟨r.phase,d⟩
  (⟨r.command,if r.phase.isReturned || answer=.truthful then r.faults else r.faults+1,s.phase⟩,
    s.rows)

/-- Where an item of the export stands in the scheduler. -/
inductive ItemPhase where
  /-- Not in flight. -/
  | waiting
  /-- Read from the store and queued. -/
  | fetched (work : WorkItem)
  /-- Started, with this many eligibility checks passed. -/
  | executing (work : WorkItem) (checks : ℕ)
  | reporting (r : Reported)

def ItemPhase.inFlight : ItemPhase → Bool
  | .waiting => false
  | .reporting r => !r.phase.isReturned
  | _ => true

/-- The stored rows, the library and the scheduler's view of one export. -/
structure System where
  rows : Database
  /-- Stored stories. -/
  library : Library
  items : ℤ → ItemPhase
  finishing : Option Reported

/-- The pending item of an active operation, as the scheduler reads it. -/
def pendingWork (d : Database) (id : String) (item : ℤ) : Option WorkItem :=
  match lookup (·.identity.id) id d.operations,itemOf d id item with
  | some operation,some row =>
    if isTerminal operation.state=false ∧ row.state=.pending then
      some ⟨operation.immutableScope,row⟩
    else none
  | _,_ => none

def completion (e : Export) (work : WorkItem) (r : ItemReport) : CompleteItemCommand where
  generation := e.generation
  operation := work.operation
  item := work.item.immutableScope
  storyId := r.storyId
  state := r.state
  completedBytes := r.completedBytes
  outcome := r.outcome

def reporting (e : Export) (work : WorkItem) (r : ItemReport) : ItemPhase :=
  .reporting (.new (.completeItem (completion e work r)))

/-- A step of one item that writes nothing. -/
inductive Move where
  /-- The scheduler reads the item. -/
  | fetch
  /-- The started item was cancelled before its execution. -/
  | cancelled
  /-- The executor checks the story against the library. -/
  | check
  /-- A file step fails or is cancelled. -/
  | fail (error : ExportFailure)
  | publish
  deriving DecidableEq

/-- The phase a move leads to, where it is possible. -/
def moved (e : Export) (s : System) (item : ℤ) : Move → ItemPhase → Option ItemPhase
  | .fetch,.waiting => (pendingWork s.rows e.id item).map .fetched
  | .cancelled,.executing work 0 => some (reporting e work (cancelledReport work))
  | .check,.executing work checks =>
    if 3≤checks then none
    else match planIndex e.plan work.item.identity.storyUuid with
    | none => some (reporting e work (failed work .snapshotChanged))
    | some index =>
      match eligibility work (checkItem s.library.listed s.library.intents e.plan index) with
      | some r => some (reporting e work r)
      | none => some (.executing work (checks+1))
  | .fail error,.executing work _ => some (reporting e work (failed work error))
  | .publish,.executing work checks =>
    if checks=3 then (plannedStory e.plan work.item.identity.storyUuid).map fun story =>
      reporting e work (exported work story)
    else none
  | _,_ => none

/-- The finish of the operation, when all its items are counted and none is in flight. -/
def readyToFinish (e : Export) (s : System) : Option (OperationScope×TerminalResult) :=
  match lookup (·.identity.id) e.id s.rows.operations with
  | none => none
  | some operation =>
    if isTerminal operation.state=false ∧ operation.counts.completed=operation.counts.total ∧
        ((itemsOf s.rows e.id).any fun row => (s.items row.identity.id).inFlight)=false then
      match terminalOutcome operation.kind operation.counts.total
          ((itemsOf s.rows e.id).mergeSort fun a b => a.identity.id≤b.identity.id) with
      | .ok result => some (operation.immutableScope,result)
      | .error _ => none
    else none

def finishCommand (e : Export) (scope : OperationScope) (result : TerminalResult)
    (finishedAt : String) : FinishCommand where
  generation := e.generation
  operation := scope
  state := result.state
  outcome := ⟨some result.code,some result.message⟩
  finishedAt := finishedAt

/-- What happens beside a running export. -/
inductive Event where
  /-- A removal of a story begins. -/
  | announce (story : ℤ)
  /-- A removal of a story commits. -/
  | remove (story : ℤ)
  /-- An item moves without writing. -/
  | move (item : ℤ) (m : Move)
  | start (item : ℤ) (at_ : String)
  /-- One iteration of the report of an item. -/
  | persist (item : ℤ) (answer : Answer)
  /-- The coordinator finds the operation complete. -/
  | finish (finishedAt : String)
  | persistFinish (answer : Answer)
  deriving DecidableEq

def clearStory (row : OperationItem) : OperationItem :=
  {row with identity := {row.identity with storyId := none}}

def clearReferences (story : ℤ) (d : Database) : Database :=
  {d with items := update (fun row => row.identity.storyId=some story) clearStory d.items}

def System.setItem (s : System) (item : ℤ) (phase : ItemPhase) : System :=
  {s with items := Function.update s.items item phase}

def interruptedOperation (d : Database) (id : String) : Bool :=
  (lookup (·.identity.id) id d.operations).any fun row => row.state=.interrupted

def step (e : Export) (s : System) : Event → System
  | .announce story => {s with library := {s.library with intents := story::s.library.intents}}
  | .remove story => {s with
      library := s.library.remove story
      rows := clearReferences story s.rows}
  | .move item m =>
    match moved e s item m (s.items item) with
    | some phase => s.setItem item phase
    | none => s
  | .start item at_ =>
    match s.items item with
    | .fetched work =>
      match (startBody e.session (e.schema s.library) work at_).run s.rows with
      | .ok (_,rows) => {s.setItem item (.executing work 0) with rows := rows}
      | .error _ =>
        if interruptedOperation s.rows e.id then s.setItem item .waiting else s
    | _ => s
  | .persist item answer =>
    match s.items item with
    | .reporting r =>
      let after := r.next (e.schema s.library) e.generation (e.escalatedAt (some item)) answer
        s.rows
      {s.setItem item (.reporting after.1) with rows := after.2}
    | _ => s
  | .finish finishedAt =>
    match s.finishing,readyToFinish e s with
    | none,some (scope,result) =>
      {s with finishing := some (.new (.finish (finishCommand e scope result finishedAt)))}
    | _,_ => s
  | .persistFinish answer =>
    match s.finishing with
    | some r =>
      let after := r.next (e.schema s.library) e.generation (e.escalatedAt none) answer s.rows
      {s with finishing := some after.1,rows := after.2}
    | none => s

def run (e : Export) (s : System) (events : List Event) : System := events.foldl (step e) s

/-- No report has met three lost answers. -/
def Calm (s : System) : Prop :=
  (∀ item r, s.items item=.reporting r → r.faults<3) ∧
    ∀ r, s.finishing=some r → r.faults<3

def Recorded (c : CompleteItemCommand) (row : OperationItem) : Prop :=
  row.state=c.state ∧ row.progress.completed=c.completedBytes ∧ row.outcome=c.storedOutcome

/-- Removals have not disturbed the export: every report of an item that returned is recorded
exactly, every other one is recorded by its next truthful answer, and nothing is interrupted. -/
structure Undisturbed (e : Export) (s : System) : Prop where
  recorded : ∀ item r c header, s.items item=.reporting r → r.command=.completeItem c →
    r.phase=.returned header → header=none ∧
      ∃ row, itemOf s.rows e.id item=some row ∧ Recorded c row
  /-- A report that has not returned is recorded by its next truthful answer. -/
  recognised : ∀ item r c, s.items item=.reporting r → r.command=.completeItem c →
    r.phase.isReturned=false → ∀ at_,
      (r.next (e.schema s.library) e.generation at_ .truthful s.rows).1.phase=.returned none ∧
      ∃ row, itemOf (r.next (e.schema s.library) e.generation at_ .truthful s.rows).2 e.id
        item=some row ∧ Recorded c row
  uninterrupted : interruptedOperation s.rows e.id=false

/-- What one answered attempt leaves: the rows as they are for a command they record, and the
written rows for one that is unapplied. -/
def Applied (env : SchemaEnv) (witness : CommandWitness) (d after : Database) : Prop :=
  (after=d ∧ ∃ view, storedInspection d witness=.matching view) ∨
    ((write env witness).run d=.ok ((),after) ∧
      ∃ view, storedInspection d witness=.unapplied view)

theorem truthfulAttempt_applied {env : SchemaEnv} {opened : ℕ} {witness : CommandWitness}
    {d after : Database} (hr : refusal opened witness=none) (h : Applied env witness d after) :
    (∃ view, truthfulAttempt env opened witness d=(.alreadyMatching view,after)) ∨
      ∃ view, truthfulAttempt env opened witness d=(.committed view,after) := by
  rcases h with ⟨rfl,view,hv⟩ | ⟨hw,view,hv⟩
  · left
    exact ⟨view,by simp only [truthfulAttempt,hr,hv,attemptObservation]⟩
  · right
    exact ⟨storedView after witness,by simp only [truthfulAttempt,hr,hv,hw]⟩

/-- An attempt of a command that can be applied resolves it, or its acknowledgement is lost. -/
theorem persistWrite_applied {env : SchemaEnv} {opened : ℕ} (report : Report)
    (answer : Answer) {d after : Database} (writes reads : ℕ)
    (hr : refusal opened report.command=none) (h : Applied env report.command d after) :
    persistWrite (answers env opened answer) report writes reads d=⟨.returned none,after⟩ ∨
      (answer≠.truthful ∧ ∃ rows, (rows=d ∨ rows=after) ∧
        persistWrite (answers env opened answer) report writes reads d=
          ⟨afterWrite true writes reads,rows⟩) := by
  cases answer with
  | writeLost applied =>
    right
    refine ⟨Answer.noConfusion,if applied=true then after else d,?_,?_⟩
    · cases applied
      · exact .inl rfl
      · exact .inr rfl
    · have hrows : (truthfulAttempt env opened report.command d).2=after := by
        rcases truthfulAttempt_applied hr h with ⟨view,hv⟩ | ⟨view,hv⟩ <;> rw [hv]
      simp only [persistWrite,answers,hrows]
  | truthful =>
    left
    rcases truthfulAttempt_applied hr h with ⟨view,hv⟩ | ⟨view,hv⟩
    · simp only [persistWrite,answers,hv]
    · simp only [persistWrite,answers,hv]
  | readLost =>
    left
    rcases truthfulAttempt_applied hr h with ⟨view,hv⟩ | ⟨view,hv⟩
    · simp only [persistWrite,answers,hv]
    · simp only [persistWrite,answers,hv]

/-- One iteration of a report that can be applied resolves it, or meets a lost answer. -/
theorem next_applied {r : Reported} {env : SchemaEnv} {opened : ℕ} (escalatedAt : String)
    {unknown : Bool} {writes reads : ℕ} {d after : Database}
    (hphase : r.phase=.persisting unknown writes reads) (hr : refusal opened r.command=none)
    (h : Applied env r.command d after) (answer : Answer) :
    ((r.next env opened escalatedAt answer d).1.phase=.returned none ∧
      (r.next env opened escalatedAt answer d).2=after) ∨
    (answer≠.truthful ∧ (r.next env opened escalatedAt answer d).1.faults=r.faults+1 ∧
      ((r.next env opened escalatedAt answer d).1.phase=afterWrite true writes reads ∨
        (r.next env opened escalatedAt answer d).1.phase=afterRead writes reads) ∧
      ((r.next env opened escalatedAt answer d).2=d ∨
        (r.next env opened escalatedAt answer d).2=after)) := by
  have hwrite := persistWrite_applied ⟨opened,r.command,escalatedAt⟩ answer writes reads hr h
  have hfaults : answer≠.truthful →
      (r.next env opened escalatedAt answer d).1.faults=r.faults+1 := by
    intro ha
    simp [Reported.next,hphase,Phase.isReturned,ha]
  have hnext : iteration (answers env opened answer) ⟨opened,r.command,escalatedAt⟩ ⟨r.phase,d⟩=
      persistWrite (answers env opened answer) ⟨opened,r.command,escalatedAt⟩ writes reads d ∨
      iteration (answers env opened answer) ⟨opened,r.command,escalatedAt⟩ ⟨r.phase,d⟩=
        ⟨.returned none,d⟩ ∧ after=d ∨
      iteration (answers env opened answer) ⟨opened,r.command,escalatedAt⟩ ⟨r.phase,d⟩=
        ⟨afterRead writes reads,d⟩ ∧ answer≠.truthful := by
    rw [iteration,hphase]
    dsimp only
    unfold persistIteration
    by_cases hu : unknown=true
    · rw [if_pos hu]
      by_cases ha : answer=.readLost
      · right
        right
        simp only [answers,ha,if_true]
        exact ⟨trivial,Answer.noConfusion⟩
      · rcases h with ⟨hd,view,hv⟩ | ⟨-,view,hv⟩
        · right
          left
          simp only [answers,if_neg ha,truthfulReadback,hr,hv,readbackObservation]
          exact ⟨trivial,hd⟩
        · left
          simp only [answers,if_neg ha,truthfulReadback,hr,hv,readbackObservation]
    · rw [if_neg hu]
      exact .inl rfl
  rcases hnext with hnext | ⟨hnext,hd⟩ | ⟨hnext,ha⟩
  · rcases hwrite with hwrite | ⟨ha,rows,hrows,hwrite⟩
    · left
      simp only [Reported.next,hnext,hwrite,and_self]
    · right
      refine ⟨ha,hfaults ha,.inl ?_,?_⟩
      · simp only [Reported.next,hnext,hwrite]
      · simpa only [Reported.next,hnext,hwrite] using hrows
  · left
    simp only [Reported.next,hnext,hd,and_self]
  · right
    refine ⟨ha,hfaults ha,.inr ?_,.inl ?_⟩
    · simp only [Reported.next,hnext]
    · simp only [Reported.next,hnext]

theorem next_returned {r : Reported} {env : SchemaEnv} {opened : ℕ} {escalatedAt : String}
    {answer : Answer} {header : Option OperationHeader} {d : Database}
    (h : r.phase=.returned header) : r.next env opened escalatedAt answer d=(r,d) := by
  obtain ⟨command,faults,phase⟩ := r
  cases h
  rfl

end Librairii.ExportRuns
