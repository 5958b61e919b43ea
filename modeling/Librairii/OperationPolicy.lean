import Librairii.OperationRows

/-!
# Terminal commands: inspection and guarded writes

A terminal command names the immutable scope it was issued for. Inspection
compares the whole command with one coherent view and decides whether it is
unapplied, already recorded, in conflict with recorded terminal truth, or not
decidable. A write is a sequence of guarded UPDATE statements; a statement that
does not change exactly the guarded row stops the transaction body.
-/

namespace Librairii.OperationPolicy

open StorageTransactions RowTables OperationRows

/-- Record the outcome of one item. -/
structure CompleteItemCommand where
  /-- Correlation with the authority that issued the command. -/
  generation : ℕ
  operation : OperationScope
  item : ItemScope
  /-- Live story reference to record; zero is stored as NULL. -/
  storyId : ℤ
  state : ItemState
  /-- Final byte count. -/
  completedBytes : ℤ
  /-- Outcome texts; empty texts are stored as NULL. -/
  outcome : RawOutcome
  deriving DecidableEq

/-- Finish an operation whose items are all recorded. -/
structure FinishCommand where
  /-- Correlation with the authority that issued the command. -/
  generation : ℕ
  operation : OperationScope
  state : OperationState
  /-- Error texts; empty texts are stored as NULL. -/
  outcome : RawOutcome
  /-- Exact finish time text. -/
  finishedAt : String
  deriving DecidableEq

/-- Interrupt an operation and cancel its unfinished items. -/
structure InterruptCommand where
  /-- Correlation with the authority that issued the command. -/
  generation : ℕ
  operation : OperationScope
  /-- Exact nonempty reason code. -/
  code : String
  /-- Exact nonempty reason message. -/
  message : String
  /-- Exact finish time text. -/
  finishedAt : String
  deriving DecidableEq

/-- The full immutable identity of a terminal command. -/
inductive CommandWitness where
  | completeItem (command : CompleteItemCommand)
  | finish (command : FinishCommand)
  | interrupt (command : InterruptCommand)
  deriving DecidableEq

def CompleteItemCommand.storedStoryId (command : CompleteItemCommand) : Option ℤ :=
  if command.storyId=0 then none else some command.storyId

def nullIfEmpty (outcome : RawOutcome) : RawOutcome :=
  ⟨outcome.code.filter (·≠""),outcome.message.filter (·≠"")⟩

def CompleteItemCommand.storedOutcome (command : CompleteItemCommand) : RawOutcome :=
  nullIfEmpty command.outcome

def FinishCommand.storedOutcome (command : FinishCommand) : RawOutcome :=
  nullIfEmpty command.outcome

def scope : CommandWitness → OperationScope
  | .completeItem c => c.operation
  | .finish c => c.operation
  | .interrupt c => c.operation

def generation : CommandWitness → ℕ
  | .completeItem c => c.generation
  | .finish c => c.generation
  | .interrupt c => c.generation

def itemId : CommandWitness → Option ℤ
  | .completeItem c => some c.item.id
  | _ => none

/-- Preconditions on the command alone. -/
def valid (witness : CommandWitness) : Bool :=
  if (scope witness).identity.id="" then false
  else match witness with
  | .completeItem c =>
    c.state.isTerminal && c.item.operationId=c.operation.identity.id &&
      0≤c.completedBytes && c.completedBytes≤c.item.totalBytes
  | .finish c => isTerminal c.state && c.state≠.interrupted
  | .interrupt c => c.code≠"" && c.message≠""

/-- Why an observation decides nothing. -/
inductive UnknownOutcome where
  | acknowledgementLost
  | unavailable
  | missing
  | contradictory
  deriving DecidableEq

/-- What one coherent view says about a command. -/
inductive Inspection where
  /-- Positive evidence that the command has not been applied. -/
  | unapplied (view : TerminalView)
  /-- Exactly this command is recorded. -/
  | matching (view : TerminalView)
  /-- Other terminal truth is recorded. -/
  | conflict (view : TerminalView)
  /-- The view cannot decide. -/
  | unknown (reason : UnknownOutcome)
  deriving DecidableEq

/-- Whether the view records exactly this command. A completion needs its own
item with the same immutable scope before the comparison means anything. -/
def recorded (witness : CommandWitness) (view : TerminalView) : Except UnknownOutcome Bool :=
  match witness with
  | .completeItem c =>
    match view.item with
    | none => .error .missing
    | some item =>
      if item.immutableScope≠c.item then .error .contradictory
      else .ok (item.state=c.state && item.identity.storyId=c.storedStoryId &&
        item.progress.completed=c.completedBytes && item.outcome=c.storedOutcome)
  | .finish c =>
    .ok (view.operation.counts.completed=view.operation.counts.total &&
      view.operation.state=c.state && view.operation.outcome=c.storedOutcome &&
      view.operation.identity.finishedAt=some c.finishedAt)
  | .interrupt c =>
    .ok (view.operation.counts.completed=view.operation.counts.total &&
      view.operation.state=.interrupted && view.operation.outcome.code=some c.code &&
      view.operation.outcome.message=some c.message &&
      view.operation.identity.finishedAt=some c.finishedAt)

def coherent (expected : OperationScope) (view : TerminalView) : Bool :=
  view.operation.immutableScope=expected && view.operation.counts.validate &&
    view.siblings.items=view.operation.counts.total &&
    view.siblings.terminal=view.operation.counts.completed

def classify (witness : CommandWitness) (view : TerminalView) : Inspection :=
  if coherent (scope witness) view=false then .unknown .contradictory
  else match recorded witness view with
  | .error reason => .unknown reason
  | .ok true => .matching view
  | .ok false =>
    if isTerminal view.operation.state || view.item.any fun item => item.state.isTerminal then
      .conflict view
    else .unapplied view

def inspect (sizes : RowSizes) (d : Database) (witness : CommandWitness) :
    Except StorageError Inspection := do
  match ← view sizes d (scope witness).identity.id (itemId witness) with
  | none => return .unknown .missing
  | some view => return classify witness view

/-- What the schema checks need from outside the two operation tables. -/
structure SchemaEnv where
  /-- Row ids present in the stories table. -/
  storyExists : ℤ → Bool
  /-- Engine test for well-formed JSON text. -/
  jsonValid : String → Bool
  jsonArrayLength : String → Option ℕ

/-- The engine's text length: characters before the first NUL. -/
def sqlLength (s : String) : ℕ := (s.toList.takeWhile (· ≠ '\x00')).length

/-- The engine's trim removes spaces at both ends. -/
def sqlTrim (s : String) : String :=
  String.ofList (((s.toList.dropWhile (· = ' ')).reverse.dropWhile (· = ' ')).reverse)

/-- A text column that is NULL or has no visible text. -/
def blank (value : Option String) : Bool := value.all fun s => sqlLength (sqlTrim s)=0

/-- A path column that is NULL or holds only spaces before any zero byte. -/
def blankPath (value : Option OperationPath) : Bool :=
  value.all fun p => ((p.bytes.dropWhile (·=0x20)).takeWhile (·≠0)).isEmpty

def operationChecks (env : SchemaEnv) (row : OperationHeader) : Bool :=
  sqlLength row.identity.id=36 && 0≤row.counts.completed && 0≤row.counts.total &&
    row.counts.completed≤row.counts.total && 0≤row.totalBytes &&
    row.exportScope.discriminator.all (["selection","current_query","shelf","shelves",
      "collection","collections","curated_shelf","curated_shelves"].contains ·) &&
    row.exportScope.groupIds.all env.jsonValid && row.exportScope.groupNames.all env.jsonValid

def itemChecks (row : OperationItem) : Bool :=
  0≤row.progress.completed && 0≤row.progress.total &&
    row.progress.completed≤row.progress.total && row.identity.resolvedStoryId.all (0<·) &&
    row.archiveSha256.all (sqlLength ·=64) &&
    row.exportSkipCode.all (["story_marked_broken","story_unavailable"].contains ·)

def storyReference (env : SchemaEnv) (old : Option ℤ) (row : OperationItem) : Bool :=
  row.identity.storyId=old || row.identity.storyId.all env.storyExists

def operationScopeKept (old new : OperationHeader) : Bool :=
  old.kind≠.export || (new.kind=old.kind && new.exportScope=old.exportScope &&
    new.destination=old.destination && new.counts.total=old.counts.total &&
    new.totalBytes=old.totalBytes)

def itemScopeKept (d : Database) (old new : OperationItem) : Bool :=
  (lookup (·.identity.id) old.operationId d.operations).all fun parent =>
    parent.kind≠.export || (new.exportSkipCode=old.exportSkipCode &&
      new.identity.resolvedStoryId=old.identity.resolvedStoryId &&
      new.sourceName=old.sourceName && new.progress.total=old.progress.total &&
      new.identity.storyUuid=old.identity.storyUuid && new.storyTitle=old.storyTitle &&
      new.outputName=old.outputName && new.archiveRelativePath=old.archiveRelativePath &&
      new.archiveSha256=old.archiveSha256)

/-- A transaction body over the operation tables. -/
abbrev Body (α : Type) := Work Database StorageError α

def updateOperations (env : SchemaEnv) (p : OperationHeader → Bool)
    (f : OperationHeader → OperationHeader) : Body ℕ := fun d =>
  if d.operations.all fun row =>
      !p row || (operationScopeKept row (f row) && operationChecks env (f row)) then
    .ok (affected p d.operations,{d with operations := update p f d.operations})
  else .error (.sqlite .constraintViolation)

def updateItems (env : SchemaEnv) (p : OperationItem → Bool)
    (f : OperationItem → OperationItem) : Body ℕ := fun d =>
  if d.items.all fun row =>
      !p row || (itemScopeKept d row (f row) && itemChecks (f row) &&
        storyReference env row.identity.storyId (f row)) then
    .ok (affected p d.items,{d with items := update p f d.items})
  else .error (.sqlite .constraintViolation)

/-- A guarded UPDATE must have changed exactly one row. -/
def exactlyOne (rows : ℕ) : Body Unit :=
  if rows≠1 then throw (.sqlite .queryReturnedNoRows) else pure ()

def nullif (s : String) : Option String := if s="" then none else some s

def activeOperation (id : String) (row : OperationHeader) : Bool :=
  row.identity.id=id && !isTerminal row.state

/-- The guarded UPDATE statements of a terminal command. -/
def write (env : SchemaEnv) (witness : CommandWitness) : Body Unit := do
  let id := (scope witness).identity.id
  match witness with
  | .completeItem c =>
    exactlyOne (← updateItems env
      (fun row => row.identity.id=c.item.id && row.operationId=id && !row.state.isTerminal)
      (fun row => {row with
        identity := {row.identity with storyId := c.storedStoryId}
        state := c.state
        outcome := ⟨nullif (c.outcome.code.getD ""),nullif (c.outcome.message.getD "")⟩
        progress := {row.progress with completed := c.completedBytes}}))
    exactlyOne (← updateOperations env
      (fun row => activeOperation id row && row.counts.completed<row.counts.total)
      (fun row => {row with
        counts := {row.counts with completed := row.counts.completed+1}}))
  | .finish c =>
    exactlyOne (← updateOperations env
      (fun row => activeOperation id row && row.counts.completed=row.counts.total)
      (fun row => {row with
        state := c.state
        outcome := ⟨nullif (c.outcome.code.getD ""),nullif (c.outcome.message.getD "")⟩
        identity := {row.identity with finishedAt := some c.finishedAt}}))
  | .interrupt c =>
    let _ ← updateItems env
      (fun row => row.operationId=id && !row.state.isTerminal)
      (fun row => {row with state := .cancelled,outcome := ⟨some c.code,some c.message⟩})
    exactlyOne (← updateOperations env (activeOperation id)
      (fun row => {row with
        state := .interrupted
        counts := {row.counts with completed := row.counts.total}
        outcome := ⟨some c.code,some c.message⟩
        identity := {row.identity with finishedAt := some c.finishedAt}}))

theorem updateOperations_ok {env : SchemaEnv} {p : OperationHeader → Bool}
    {f : OperationHeader → OperationHeader} {d d' : Database} {n : ℕ}
    (h : (updateOperations env p f).run d=.ok (n,d')) :
    n=affected p d.operations ∧ d'={d with operations := update p f d.operations} := by
  unfold updateOperations StateT.run at h
  dsimp only at h
  split at h
  · cases h
    exact ⟨rfl,rfl⟩
  · cases h

theorem updateItems_ok {env : SchemaEnv} {p : OperationItem → Bool}
    {f : OperationItem → OperationItem} {d d' : Database} {n : ℕ}
    (h : (updateItems env p f).run d=.ok (n,d')) :
    n=affected p d.items ∧ d'={d with items := update p f d.items} := by
  unfold updateItems StateT.run at h
  dsimp only at h
  split at h
  · cases h
    exact ⟨rfl,rfl⟩
  · cases h

theorem updateOperations_run {env : SchemaEnv} {p : OperationHeader → Bool}
    {f : OperationHeader → OperationHeader} {d : Database} (h : ∀ row ∈ d.operations, p row=true →
      operationScopeKept row (f row)=true ∧ operationChecks env (f row)=true) :
    (updateOperations env p f).run d=
      .ok (affected p d.operations,{d with operations := update p f d.operations}) := by
  unfold updateOperations StateT.run
  dsimp only
  rw [if_pos]
  rw [List.all_eq_true]
  intro row hm
  cases hp : p row with
  | false => rfl
  | true =>
    obtain ⟨hs,hc⟩ := h row hm hp
    rw [hs,hc]
    rfl

theorem updateItems_run {env : SchemaEnv} {p : OperationItem → Bool}
    {f : OperationItem → OperationItem} {d : Database}
    (h : ∀ row ∈ d.items, p row=true → itemScopeKept d row (f row)=true ∧
      itemChecks (f row)=true ∧ storyReference env row.identity.storyId (f row)=true) :
    (updateItems env p f).run d=
      .ok (affected p d.items,{d with items := update p f d.items}) := by
  unfold updateItems StateT.run
  dsimp only
  rw [if_pos]
  rw [List.all_eq_true]
  intro row hm
  cases hp : p row with
  | false => rfl
  | true =>
    obtain ⟨hs,hc,hr⟩ := h row hm hp
    rw [hs,hc,hr]
    rfl

/-- The one-row guard passes only for one row and leaves the tables. -/
theorem exactlyOne_ok {rows : ℕ} {d d' : Database} {u : Unit}
    (h : (exactlyOne rows).run d=.ok (u,d')) : rows=1 ∧ d'=d := by
  unfold exactlyOne at h
  split at h
  · exact (throw_ok.mp h).elim
  · next hr =>
    obtain ⟨-,he⟩ := pure_ok.mp h
    exact ⟨not_not.mp hr,he.symm⟩

/-- A completion that commits changed one unfinished item of the operation and
raised the counter of the one active operation row it belongs to. -/
theorem write_completeItem_ok {env : SchemaEnv} {c : CompleteItemCommand} {d d' : Database}
    {u : Unit} (h : (write env (.completeItem c)).run d=.ok (u,d')) :
    ∃ f : OperationItem → OperationItem,
      (∀ row, (f row).identity.id=row.identity.id ∧ (f row).operationId=row.operationId ∧
        (f row).state=c.state) ∧
      affected (fun row => row.identity.id=c.item.id &&
        row.operationId=c.operation.identity.id && !row.state.isTerminal) d.items=1 ∧
      affected (fun row => activeOperation c.operation.identity.id row &&
        row.counts.completed<row.counts.total) d.operations=1 ∧
      d'.items=update (fun row => row.identity.id=c.item.id &&
        row.operationId=c.operation.identity.id && !row.state.isTerminal) f d.items ∧
      d'.operations=update (fun row => activeOperation c.operation.identity.id row &&
        row.counts.completed<row.counts.total) (fun row => {row with
          counts := {row.counts with completed := row.counts.completed+1}}) d.operations := by
  obtain ⟨n,d₁,h1,h⟩ := bind_ok.mp h
  obtain ⟨_,d₂,h2,h⟩ := bind_ok.mp h
  obtain ⟨m,d₃,h3,h⟩ := bind_ok.mp h
  obtain ⟨hn,rfl⟩ := updateItems_ok h1
  obtain ⟨hn1,rfl⟩ := exactlyOne_ok h2
  obtain ⟨hm,rfl⟩ := updateOperations_ok h3
  obtain ⟨hm1,rfl⟩ := exactlyOne_ok h
  refine ⟨_,?_,hn.symm.trans hn1,hm.symm.trans hm1,rfl,rfl⟩
  intro row
  exact ⟨rfl,rfl,rfl⟩

theorem write_finish_ok {env : SchemaEnv} {c : FinishCommand} {d d' : Database}
    {u : Unit} (h : (write env (.finish c)).run d=.ok (u,d')) :
    ∃ f : OperationHeader → OperationHeader,
      (∀ row, (f row).identity.id=row.identity.id ∧ (f row).counts=row.counts ∧
        (f row).state=c.state) ∧
      affected (fun row => activeOperation c.operation.identity.id row &&
        row.counts.completed=row.counts.total) d.operations=1 ∧
      d'.items=d.items ∧
      d'.operations=update (fun row => activeOperation c.operation.identity.id row &&
        row.counts.completed=row.counts.total) f d.operations := by
  obtain ⟨n,d₁,h1,h⟩ := bind_ok.mp h
  obtain ⟨hn,rfl⟩ := updateOperations_ok h1
  obtain ⟨hn1,rfl⟩ := exactlyOne_ok h
  refine ⟨_,?_,hn.symm.trans hn1,rfl,rfl⟩
  intro row
  exact ⟨rfl,rfl,rfl⟩

/-- An interruption that commits cancelled every unfinished item of the
operation and closed its one active row with all items counted. -/
theorem write_interrupt_ok {env : SchemaEnv} {c : InterruptCommand} {d d' : Database}
    {u : Unit} (h : (write env (.interrupt c)).run d=.ok (u,d')) :
    affected (activeOperation c.operation.identity.id) d.operations=1 ∧
      d'.items=update
        (fun row => row.operationId=c.operation.identity.id && !row.state.isTerminal)
        (fun row => {row with state := .cancelled,outcome := ⟨some c.code,some c.message⟩})
        d.items ∧
      d'.operations=update (activeOperation c.operation.identity.id)
        (fun row => {row with
          state := .interrupted
          counts := {row.counts with completed := row.counts.total}
          outcome := ⟨some c.code,some c.message⟩
          identity := {row.identity with finishedAt := some c.finishedAt}}) d.operations := by
  obtain ⟨n,d₁,h1,h⟩ := bind_ok.mp h
  obtain ⟨m,d₂,h2,h⟩ := bind_ok.mp h
  obtain ⟨hn,rfl⟩ := updateItems_ok h1
  obtain ⟨hm,rfl⟩ := updateOperations_ok h2
  obtain ⟨hm1,rfl⟩ := exactlyOne_ok h
  exact ⟨hm.symm.trans hm1,rfl,rfl⟩

theorem activeOperation_true {id : String} {row : OperationHeader}
    (h : activeOperation id row=true) : row.identity.id=id ∧ isTerminal row.state=false := by
  unfold activeOperation at h
  simp only [Bool.and_eq_true,decide_eq_true_eq,Bool.not_eq_true'] at h
  exact h

/-- The engine keeps primary keys unique and every stored row within its checks. -/
structure SchemaValid (env : SchemaEnv) (d : Database) : Prop where
  /-- Operation ids are unique. -/
  keys : (d.operations.map (·.identity.id)).Nodup
  /-- Every operation row passes its CHECK constraints. -/
  operations : ∀ row ∈ d.operations, operationChecks env row=true
  items : ∀ row ∈ d.items, itemChecks row=true

theorem write_interrupt_run {env : SchemaEnv} {c : InterruptCommand} {d : Database}
    (hd : SchemaValid env d)
    (hone : affected (activeOperation c.operation.identity.id) d.operations=1) :
    ∃ written, (write env (.interrupt c)).run d=.ok ((),written) := by
  have hlast : ∀ d' : Database, (exactlyOne (affected
      (activeOperation c.operation.identity.id) d.operations)).run d'=.ok ((),d') := by
    intro d'
    rw [hone]
    rfl
  refine ⟨_,bind_ok.mpr ⟨_,_,updateItems_run ?_,bind_ok.mpr
    ⟨_,_,updateOperations_run ?_,hlast _⟩⟩⟩
  · intro row hm _
    refine ⟨?_,hd.items row hm,?_⟩
    · simp only [itemScopeKept,decide_true,Bool.and_self,Bool.or_true]
      cases lookup (·.identity.id) row.operationId d.operations <;> rfl
    · simp only [storyReference,decide_true,Bool.true_or]
  · intro row hm _
    have hc := hd.operations row hm
    constructor
    · simp only [operationScopeKept,decide_true,Bool.and_self,Bool.or_true]
    · simp only [operationChecks,Bool.and_eq_true,decide_eq_true_eq] at hc ⊢
      obtain ⟨⟨⟨⟨⟨⟨⟨h1,h2⟩,h3⟩,h4⟩,h5⟩,h6⟩,h7⟩,h8⟩ := hc
      exact ⟨⟨⟨⟨⟨⟨⟨h1,h3⟩,h3⟩,le_refl _⟩,h5⟩,h6⟩,h7⟩,h8⟩

end Librairii.OperationPolicy
