import Librairii.OperationPolicy

/-!
# The pure operation policy

The core decides every transition of an operation on typed states alone. A returned
candidate is not an acknowledgement. An operation in memory is its header with its
items; a step asks the policy and carries the candidate into it.
-/

namespace Librairii.OperationTransitions

open CheckedResults RowTables OperationRows OperationPolicy

/-- Why the policy refuses a transition. -/
inductive OperationPolicyError where
  | inactiveOperation
  | invalidTransition
  | invalidCounts
  | incompleteOperation
  | invalidInterruption
  deriving DecidableEq

/-- A terminal operation takes no transition. -/
def requireActive (state : OperationState) : Except OperationPolicyError Unit :=
  if isTerminal state=true then .error .inactiveOperation else .ok ()

/-- The stored counters must be ordered and nonnegative. -/
def validateCounts (counts : Counts) : Except OperationPolicyError Unit :=
  if counts.validate=true then .ok () else .error .invalidCounts

/-- Start an operation. -/
def markRunning (state : OperationState) : Except OperationPolicyError OperationState := do
  requireActive state
  return .running

def markItemRunning (state : ItemState) : Except OperationPolicyError ItemState :=
  if state≠.pending then .error .invalidTransition else .ok .running

/-- The state of an item and the counters of its operation after a completion. -/
structure CompletionCandidate where
  itemState : ItemState
  /-- Counters that include the item. -/
  counts : Counts
  deriving DecidableEq

def completeItem (parent : OperationState) (current : ItemState) (counts : Counts)
    (terminal : ItemState) : Except OperationPolicyError CompletionCandidate := do
  requireActive parent
  validateCounts counts
  if current.isTerminal || !terminal.isTerminal then throw .invalidTransition
  if counts.completed=counts.total then throw .invalidCounts
  return ⟨terminal,{counts with completed := counts.completed+1}⟩

def finish (current : OperationState) (counts : Counts) (target : OperationState) :
    Except OperationPolicyError OperationState := do
  requireActive current
  validateCounts counts
  if !isTerminal target || target=.interrupted then throw .invalidTransition
  if counts.completed≠counts.total then throw .incompleteOperation
  return target

/-- What the policy sees of an item. -/
structure ItemRecord where
  /-- Row id and story references. -/
  identity : StoredItemIdentity
  state : ItemState
  progress : Progress
  outcome : RawOutcome
  deriving DecidableEq

/-- An interrupted operation with all its items. -/
structure InterruptionCandidate where
  state : OperationState
  /-- Counters of the operation. -/
  counts : Counts
  /-- Every item, the unfinished ones cancelled. -/
  items : List ItemRecord
  /-- Why the operation was interrupted. -/
  reason : RawOutcome
  deriving DecidableEq

def cancelUnfinished (reason : RawOutcome) (item : ItemRecord) : ItemRecord :=
  if item.state.isTerminal then item else {item with state := .cancelled,outcome := reason}

def interrupt (current : OperationState) (counts : Counts) (items : List ItemRecord)
    (reason : RawOutcome) : Except OperationPolicyError InterruptionCandidate := do
  requireActive current
  validateCounts counts
  if reason.code.getD ""="" || reason.message.getD ""="" then throw .invalidInterruption
  if (items.length : ℤ)≠counts.total ||
      ((items.countP fun item => item.state.isTerminal : ℕ) : ℤ)≠counts.completed then
    throw .invalidCounts
  validateCounts ⟨items.length,items.length⟩
  return ⟨.interrupted,⟨items.length,items.length⟩,items.map (cancelUnfinished reason),reason⟩

def record (row : OperationItem) : ItemRecord :=
  ⟨row.identity,row.state,row.progress,row.outcome⟩

/-- An item with a new record. -/
def encode (row : OperationItem) (item : ItemRecord) : OperationItem :=
  {row with
    identity := item.identity
    state := item.state
    progress := item.progress
    outcome := item.outcome}

/-- An item after its completion: the candidate's state with what the command reports. -/
def completedItem (c : CompleteItemCommand) (state : ItemState) (row : OperationItem) :
    OperationItem :=
  {row with
    identity := {row.identity with storyId := c.storedStoryId}
    state := state
    outcome := c.storedOutcome
    progress := {row.progress with completed := c.completedBytes}}

/-- Carry a terminal command into the operation where the policy accepts it. -/
def commandStep (s : OperationSnapshot) :
    CommandWitness → Except OperationPolicyError OperationSnapshot
  | .completeItem c =>
    match lookup (·.identity.id) c.item.id s.items with
    | none => .error .invalidTransition
    | some item => do
      let candidate ← completeItem s.operation.state item.state s.operation.counts c.state
      return ⟨{s.operation with counts := candidate.counts},
        update (fun row => row.identity.id=c.item.id) (completedItem c candidate.itemState)
          s.items⟩
  | .finish c => do
    let state ← finish s.operation.state s.operation.counts c.state
    return {s with operation := {s.operation with
      state := state
      outcome := c.storedOutcome
      identity := {s.operation.identity with finishedAt := some c.finishedAt}}}
  | .interrupt c => do
    let candidate ← interrupt s.operation.state s.operation.counts (s.items.map record)
      ⟨some c.code,some c.message⟩
    return ⟨{s.operation with
      state := candidate.state
      counts := candidate.counts
      outcome := candidate.reason
      identity := {s.operation.identity with finishedAt := some c.finishedAt}},
      List.zipWith encode s.items candidate.items⟩

/-- Start one item of the operation where the policy accepts it. The first start is kept. -/
def startStep (s : OperationSnapshot) (item : ℤ) (at_ : String) :
    Except OperationPolicyError OperationSnapshot :=
  match lookup (·.identity.id) item s.items with
  | none => .error .invalidTransition
  | some row => do
    let state ← markRunning s.operation.state
    let itemState ← markItemRunning row.state
    return ⟨{s.operation with
      state := state
      identity := {s.operation.identity with
        startedAt := some (s.operation.identity.startedAt.getD at_)}},
      update (fun row => row.identity.id=item) (fun row => {row with state := itemState})
        s.items⟩

theorem requireActive_ok {state : OperationState} {u : Unit} :
    requireActive state=.ok u ↔ isTerminal state=false := by
  unfold requireActive
  cases isTerminal state <;> simp

/-- Only valid counters pass. -/
theorem validateCounts_ok {counts : Counts} {u : Unit} :
    validateCounts counts=.ok u ↔ counts.validate=true := by
  unfold validateCounts
  cases counts.validate <;> simp

/-- What the policy requires of a completion, and what it returns. -/
theorem completeItem_ok {parent : OperationState} {current terminal : ItemState}
    {counts : Counts} {candidate : CompletionCandidate} :
    completeItem parent current counts terminal=.ok candidate ↔
      isTerminal parent=false ∧ counts.validate=true ∧ current.isTerminal=false ∧
        terminal.isTerminal=true ∧ counts.completed≠counts.total ∧
        candidate=⟨terminal,{counts with completed := counts.completed+1}⟩ := by
  unfold completeItem requireActive validateCounts
  cases isTerminal parent <;> cases counts.validate <;> cases current.isTerminal <;>
    cases terminal.isTerminal <;> by_cases hc : counts.completed=counts.total <;>
    simp [hc,bind,Except.bind,pure,Except.pure,throw,throwThe,MonadExceptOf.throw,eq_comm]

theorem finish_ok {current target state : OperationState} {counts : Counts} :
    finish current counts target=.ok state ↔
      isTerminal current=false ∧ counts.validate=true ∧ isTerminal target=true ∧
        target≠.interrupted ∧ counts.completed=counts.total ∧ state=target := by
  unfold finish requireActive validateCounts
  cases isTerminal current <;> cases counts.validate <;> cases isTerminal target <;>
    by_cases ht : target=.interrupted <;> by_cases hc : counts.completed=counts.total <;>
    simp [ht,hc,bind,Except.bind,pure,Except.pure,throw,throwThe,MonadExceptOf.throw,eq_comm]

theorem interrupt_ok {current : OperationState} {counts : Counts} {items : List ItemRecord}
    {reason : RawOutcome} {candidate : InterruptionCandidate} :
    interrupt current counts items reason=.ok candidate ↔
      isTerminal current=false ∧ counts.validate=true ∧ reason.code.getD ""≠"" ∧
        reason.message.getD ""≠"" ∧ (items.length : ℤ)=counts.total ∧
        ((items.countP fun item => item.state.isTerminal : ℕ) : ℤ)=counts.completed ∧
        candidate=⟨.interrupted,⟨items.length,items.length⟩,
          items.map (cancelUnfinished reason),reason⟩ := by
  have hself : (Counts.validate ⟨items.length,items.length⟩)=true := by
    simp [Counts.validate]
  unfold interrupt requireActive
  rw [show validateCounts ⟨items.length,items.length⟩=.ok () from validateCounts_ok.mpr hself]
  unfold validateCounts
  cases isTerminal current <;> cases counts.validate <;>
    by_cases h1 : reason.code.getD ""="" <;> by_cases h2 : reason.message.getD ""="" <;>
    by_cases h3 : (items.length : ℤ)=counts.total <;>
    by_cases h4 : ((items.countP fun item => item.state.isTerminal : ℕ) : ℤ)=counts.completed <;>
    simp [h1,h2,h3,h4,bind,Except.bind,pure,Except.pure,throw,throwThe,MonadExceptOf.throw,
      eq_comm]

theorem interrupted_items (reason : RawOutcome) (rows : List OperationItem) :
    List.zipWith encode rows ((rows.map record).map (cancelUnfinished reason))=
      update (fun row => !row.state.isTerminal)
        (fun row => {row with state := .cancelled,outcome := reason}) rows := by
  induction rows with
  | nil => rfl
  | cons row rows ih =>
    have hrow : encode row (cancelUnfinished reason (record row))=
        if (!row.state.isTerminal)=true then
          {row with state := .cancelled,outcome := reason} else row := by
      cases ht : row.state.isTerminal <;> simp [cancelUnfinished,record,encode,ht]
    rw [update,List.map_cons,List.map_cons,List.map_cons,List.zipWith_cons_cons,ih,hrow]
    rfl

theorem commandStep_completeItem {s s' : OperationSnapshot} {c : CompleteItemCommand} :
    commandStep s (.completeItem c)=.ok s' ↔
      ∃ item, lookup (·.identity.id) c.item.id s.items=some item ∧
        isTerminal s.operation.state=false ∧ s.operation.counts.validate=true ∧
        item.state.isTerminal=false ∧ c.state.isTerminal=true ∧
        s.operation.counts.completed≠s.operation.counts.total ∧
        s'=⟨{s.operation with counts := {s.operation.counts with
            completed := s.operation.counts.completed+1}},
          update (fun row => row.identity.id=c.item.id) (completedItem c c.state) s.items⟩ := by
  cases hl : lookup (·.identity.id) c.item.id s.items with
  | none => simp [commandStep,hl]
  | some item =>
    constructor
    · intro h
      simp only [commandStep,hl] at h
      obtain ⟨candidate,hc,h⟩ := exceptBind_ok.mp h
      obtain ⟨hactive,hcounts,hitem,hterminal,hopen,rfl⟩ := completeItem_ok.mp hc
      cases h
      exact ⟨item,rfl,hactive,hcounts,hitem,hterminal,hopen,rfl⟩
    · rintro ⟨found,hfound,hactive,hcounts,hitem,hterminal,hopen,rfl⟩
      cases hfound
      simp only [commandStep,hl]
      exact exceptBind_ok.mpr ⟨_,completeItem_ok.mpr
        ⟨hactive,hcounts,hitem,hterminal,hopen,rfl⟩,rfl⟩

theorem commandStep_finish {s s' : OperationSnapshot} {c : FinishCommand} :
    commandStep s (.finish c)=.ok s' ↔
      isTerminal s.operation.state=false ∧ s.operation.counts.validate=true ∧
        isTerminal c.state=true ∧ c.state≠.interrupted ∧
        s.operation.counts.completed=s.operation.counts.total ∧
        s'={s with operation := {s.operation with
          state := c.state
          outcome := c.storedOutcome
          identity := {s.operation.identity with finishedAt := some c.finishedAt}}} := by
  unfold commandStep
  constructor
  · intro h
    obtain ⟨state,hs,h⟩ := exceptBind_ok.mp h
    obtain ⟨hactive,hcounts,hterminal,hother,hdone,rfl⟩ := finish_ok.mp hs
    cases h
    exact ⟨hactive,hcounts,hterminal,hother,hdone,rfl⟩
  · rintro ⟨hactive,hcounts,hterminal,hother,hdone,rfl⟩
    exact exceptBind_ok.mpr ⟨_,finish_ok.mpr ⟨hactive,hcounts,hterminal,hother,hdone,rfl⟩,rfl⟩

/-- An interruption steps exactly where the operation is active, its counters are those of
its items and a reason is given. -/
theorem commandStep_interrupt {s s' : OperationSnapshot} {c : InterruptCommand} :
    commandStep s (.interrupt c)=.ok s' ↔
      isTerminal s.operation.state=false ∧ s.operation.counts.validate=true ∧
        c.code≠"" ∧ c.message≠"" ∧ (s.items.length : ℤ)=s.operation.counts.total ∧
        ((s.items.countP fun item => item.state.isTerminal : ℕ) : ℤ)=
          s.operation.counts.completed ∧
        s'=⟨{s.operation with
          state := .interrupted
          counts := ⟨s.items.length,s.items.length⟩
          outcome := ⟨some c.code,some c.message⟩
          identity := {s.operation.identity with finishedAt := some c.finishedAt}},
          update (fun row => !row.state.isTerminal)
            (fun row => {row with state := .cancelled,outcome := ⟨some c.code,some c.message⟩})
            s.items⟩ := by
  have hcount : (s.items.map record).countP (fun item => item.state.isTerminal)=
      s.items.countP fun item => item.state.isTerminal := by
    rw [List.countP_map]
    rfl
  unfold commandStep
  constructor
  · intro h
    obtain ⟨candidate,hs,h⟩ := exceptBind_ok.mp h
    obtain ⟨hactive,hcounts,hcode,hmessage,htotal,hdone,rfl⟩ := interrupt_ok.mp hs
    rw [List.length_map] at htotal
    rw [hcount] at hdone
    cases h
    refine ⟨hactive,hcounts,hcode,hmessage,htotal,hdone,?_⟩
    simp only [List.length_map,interrupted_items]
  · rintro ⟨hactive,hcounts,hcode,hmessage,htotal,hdone,rfl⟩
    refine exceptBind_ok.mpr ⟨_,interrupt_ok.mpr ⟨hactive,hcounts,hcode,hmessage,?_,?_,rfl⟩,?_⟩
    · rw [List.length_map,htotal]
    · rw [hcount,hdone]
    · simp only [List.length_map,interrupted_items]
      rfl

theorem startStep_ok {s s' : OperationSnapshot} {item : ℤ} {at_ : String} :
    startStep s item at_=.ok s' ↔
      ∃ row, lookup (·.identity.id) item s.items=some row ∧
        isTerminal s.operation.state=false ∧ row.state=.pending ∧
        s'=⟨{s.operation with
          state := .running
          identity := {s.operation.identity with
            startedAt := some (s.operation.identity.startedAt.getD at_)}},
          update (fun row => row.identity.id=item) (fun row => {row with state := .running})
            s.items⟩ := by
  cases hl : lookup (·.identity.id) item s.items with
  | none => simp [startStep,hl]
  | some row =>
    constructor
    · intro h
      simp only [startStep,hl] at h
      obtain ⟨state,hs,h⟩ := exceptBind_ok.mp h
      obtain ⟨u,hactive,hs⟩ := exceptBind_ok.mp hs
      cases hs
      obtain ⟨itemState,hi,h⟩ := exceptBind_ok.mp h
      unfold markItemRunning at hi
      split_ifs at hi with hpending
      cases hi
      cases h
      exact ⟨row,rfl,requireActive_ok.mp hactive,not_not.mp hpending,rfl⟩
    · rintro ⟨found,hfound,hactive,hpending,rfl⟩
      cases hfound
      simp only [startStep,hl]
      refine exceptBind_ok.mpr ⟨.running,exceptBind_ok.mpr
        ⟨(),requireActive_ok.mpr hactive,rfl⟩,exceptBind_ok.mpr ⟨.running,?_,rfl⟩⟩
      rw [markItemRunning,if_neg (not_not.mpr hpending)]

end Librairii.OperationTransitions
