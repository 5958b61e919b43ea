import Librairii.OperationAccounting
import Librairii.OperationTransitions

/-!
# The guarded statements refine the pure policy

The same transitions are decided twice: by the core on typed states, and by conditional
statements on stored rows. On a coherent stored operation the statements accept a command
exactly when the policy accepts it and the command addresses the stored scope with values
the schema admits; they then write the policy's result, and otherwise nothing. A start
of an item that already runs is acknowledged without a write.
-/

namespace Librairii.PolicyRefinement

open CheckedResults StorageTransactions RowTables OperationRows OperationPolicy
  OperationCreation OperationStore OperationAccounting
open OperationTransitions hiding markRunning

/-- A stored operation whose counters are those of its items, in valid tables. -/
structure Coherent (env : SchemaEnv) (d : Database) (o : OperationHeader) : Prop where
  /-- Operation keys and CHECK constraints hold. -/
  schema : SchemaValid env d
  itemKeys : (d.items.map (·.identity.id)).Nodup
  stored : o ∈ d.operations
  /-- The header shows the counts over its items. -/
  counts : o.counts=trueCounts d o.identity.id

/-- The stored operation in memory. -/
def loaded (d : Database) (o : OperationHeader) : OperationSnapshot :=
  ⟨o,itemsOf d o.identity.id⟩

/-- The rows with an operation of memory written over its stored rows. -/
def storeSnapshot (d : Database) (s : OperationSnapshot) : Database where
  operations := update (fun row => row.identity.id=s.operation.identity.id)
    (fun _ => s.operation) d.operations
  items := update (fun row => row.operationId=s.operation.identity.id)
    (fun row => (lookup (·.identity.id) row.identity.id s.items).getD row) d.items

/-- The rows a terminal command is accepted with: what inspection and write leave when the
command is admitted, found unapplied and written. -/
def accepted (session : Session) (opened : ℕ) (env : SchemaEnv) (witness : CommandWitness)
    (d : Database) : Option Database :=
  match refusal opened witness with
  | some _ => none
  | none =>
    match (attemptBody session env witness).run d with
    | .ok (.written,after) => some after
    | _ => none

def acceptedStart (session : Session) (env : SchemaEnv) (work : WorkItem) (at_ : String)
    (d : Database) : Option Database :=
  match (startBody session env work at_).run d with
  | .ok (_,after) => some after
  | .error _ => none

/-- A submission that nothing disturbs. -/
def Quiet (call : StoreCall) : Prop :=
  call.refused=none ∧ call.fault=.quiet ∧ call.replyLost=none

/-- What a command must satisfy beside the policy: it is issued under the opened generation
for the stored scopes, its rows can be read, its bytes fit the item and its story reference
is kept or stored. -/
def Addressed (session : Session) (opened : ℕ) (env : SchemaEnv) (d : Database)
    (o : OperationHeader) (witness : CommandWitness) : Prop :=
  generation witness=opened ∧ scope witness=o.immutableScope ∧
    (∃ v, view session.sizes d o.identity.id (itemId witness)=.ok v) ∧
    match witness with
    | .completeItem c => ∃ row ∈ itemsOf d o.identity.id, row.immutableScope=c.item ∧
        0≤c.completedBytes ∧ c.completedBytes≤row.progress.total ∧
        (c.storedStoryId=row.identity.storyId ∨ c.storedStoryId.all env.storyExists=true)
    | _ => True

/-- Valid counters are ordered and nonnegative. -/
theorem validate_iff {counts : Counts} : counts.validate=true ↔
    0≤counts.total ∧ 0≤counts.completed ∧ counts.completed≤counts.total := by
  simp only [Counts.validate,Bool.not_eq_true',Bool.or_eq_false_iff,decide_eq_false_iff_not,
    not_lt,and_assoc]

section Coherence

variable {env : SchemaEnv} {d : Database} {o : OperationHeader}

theorem Coherent.found (h : Coherent env d o) :
    lookup (·.identity.id) o.identity.id d.operations=some o :=
  lookup_of_mem h.schema.keys h.stored

theorem Coherent.unique (h : Coherent env d o) {row : OperationHeader}
    (hm : row ∈ d.operations) (hid : row.identity.id=o.identity.id) : row=o :=
  List.inj_on_of_nodup_map h.schema.keys hm h.stored hid

/-- Items of one operation have unique ids. -/
theorem Coherent.keys (h : Coherent env d o) :
    ((itemsOf d o.identity.id).map (·.identity.id)).Nodup :=
  h.itemKeys.sublist (List.filter_sublist.map _)

theorem Coherent.item (h : Coherent env d o) {row : OperationItem}
    (hm : row ∈ itemsOf d o.identity.id) :
    lookup (·.identity.id) row.identity.id (itemsOf d o.identity.id)=some row :=
  lookup_of_mem h.keys hm

theorem Coherent.validate (h : Coherent env d o) : o.counts.validate=true := by
  have hle : (itemsOf d o.identity.id).countP (fun row => row.state.isTerminal)≤
      (itemsOf d o.identity.id).length := List.countP_le_length
  rw [h.counts,validate_iff]
  simp only [trueCounts,siblingCounts]
  omega

theorem Coherent.open (h : Coherent env d o) {row : OperationItem}
    (hm : row ∈ itemsOf d o.identity.id) (ht : row.state.isTerminal=false) :
    o.counts.completed<o.counts.total := by
  have hlt : (itemsOf d o.identity.id).countP (fun row => row.state.isTerminal)<
      (itemsOf d o.identity.id).length := by
    rw [Nat.lt_iff_le_and_ne]
    refine ⟨List.countP_le_length,?_⟩
    intro he
    have := List.countP_eq_length.mp he row hm
    rw [ht] at this
    cases this
  rw [h.counts]
  simp only [trueCounts,siblingCounts]
  omega

/-- A readable operation is read with its items and their counts. -/
theorem Coherent.viewed (h : Coherent env d o) {sizes : RowSizes} {item : Option ℤ}
    {v : Option TerminalView} (hv : view sizes d o.identity.id item=.ok v) :
    v=some ⟨o,item.bind (itemOf d o.identity.id),siblingCounts d o.identity.id⟩ := by
  cases v with
  | none =>
    have hnone := view_none hv
    rw [h.found] at hnone
    cases hnone
  | some v =>
    obtain ⟨ho,hi,hs⟩ := view_some hv
    rw [h.found] at ho
    obtain ⟨operation,found,siblings⟩ := v
    cases ho
    dsimp only at hi hs
    rw [hi,hs]

/-- The operation's scope is all that coherence with a command asks of the view. -/
theorem Coherent.coherent_iff (h : Coherent env d o) (expected : OperationScope)
    (item : Option OperationItem) :
    coherent expected ⟨o,item,siblingCounts d o.identity.id⟩=true ↔
      o.immutableScope=expected := by
  have hc := h.counts
  simp only [coherent,h.validate,Bool.and_true,Bool.and_eq_true,decide_eq_true_eq]
  constructor
  · rintro ⟨⟨hs,_⟩,_⟩
    exact hs
  · intro hs
    rw [hc]
    exact ⟨⟨hs,rfl⟩,rfl⟩

theorem Coherent.store_operations (h : Coherent env d o) {p : OperationHeader → Bool}
    {f : OperationHeader → OperationHeader} (hp : p o=true)
    (hid : ∀ row, p row=true → row.identity.id=o.identity.id) :
    update p f d.operations=
      update (fun row => row.identity.id=o.identity.id) (fun _ => f o) d.operations := by
  apply List.map_congr_left
  intro row hm
  by_cases heq : row.identity.id=o.identity.id
  · have hrow := h.unique hm heq
    subst hrow
    rw [if_pos hp,if_pos (decide_eq_true rfl)]
  · have hno : ¬p row=true := fun hsel => heq (hid row hsel)
    rw [if_neg hno,if_neg (by simpa using heq)]

theorem Coherent.store_items (h : Coherent env d o) {q : OperationItem → Bool}
    {g : OperationItem → OperationItem} (hg : ∀ row, (g row).identity.id=row.identity.id) :
    update (fun row => row.operationId=o.identity.id)
        (fun row => (lookup (·.identity.id) row.identity.id
          (update q g (itemsOf d o.identity.id))).getD row) d.items=
      update (fun row => row.operationId=o.identity.id && q row) g d.items := by
  apply List.map_congr_left
  intro row hm
  by_cases hown : row.operationId=o.identity.id
  · have hmem : row ∈ itemsOf d o.identity.id :=
      List.mem_filter.mpr ⟨hm,decide_eq_true hown⟩
    have hnew : (lookup (·.identity.id) row.identity.id
        (update q g (itemsOf d o.identity.id))).getD row=if q row=true then g row else row := by
      rw [lookup_update hg,h.item hmem,Option.map_some,Option.getD_some]
    simp [hown,hnew]
  · simp [hown]

/-- Exactly one row is selected by a guard that fixes the operation's id and holds of it. -/
theorem Coherent.affected_one (h : Coherent env d o) {p : OperationHeader → Bool} (hp : p o=true)
    (hid : ∀ row, p row=true → row.identity.id=o.identity.id) : affected p d.operations=1 := by
  have hle := affected_le_one h.schema.keys hid
  have hpos : 0<affected p d.operations := List.countP_pos_iff.mpr ⟨o,h.stored,hp⟩
  omega

theorem Coherent.affected_item (h : Coherent env d o) {p : OperationItem → Bool}
    {row : OperationItem} (hm : row ∈ d.items) (hp : p row=true)
    (hid : ∀ other, p other=true → other.identity.id=row.identity.id) : affected p d.items=1 := by
  have hle := affected_le_one h.itemKeys hid
  have hpos : 0<affected p d.items := List.countP_pos_iff.mpr ⟨row,hm,hp⟩
  omega

end Coherence

theorem classify_unapplied {witness : CommandWitness} {v w : TerminalView} :
    classify witness v=.unapplied w ↔ v=w ∧ coherent (scope witness) v=true ∧
      recorded witness v=.ok false ∧ isTerminal v.operation.state=false ∧
      v.item.any (fun item => item.state.isTerminal)=false := by
  unfold classify
  cases hc : coherent (scope witness) v with
  | false => simp
  | true =>
    cases hr : recorded witness v with
    | error e => simp
    | ok b =>
      cases b with
      | true => simp
      | false =>
        cases isTerminal v.operation.state <;>
          cases v.item.any (fun item => item.state.isTerminal) <;> simp

theorem nullif_getD (value : Option String) : nullif (value.getD "")=value.filter (·≠"") := by
  cases value with
  | none => rfl
  | some s => by_cases hs : s="" <;> simp [nullif,hs,Option.filter]

theorem exactlyOne_run {rows : ℕ} (h : rows=1) (d : Database) :
    (exactlyOne rows).run d=.ok ((),d) := by
  rw [h]
  rfl

theorem updateItems_checked {env : SchemaEnv} {p : OperationItem → Bool}
    {f : OperationItem → OperationItem} {d d' : Database} {n : ℕ}
    (h : (updateItems env p f).run d=.ok (n,d')) {row : OperationItem} (hm : row ∈ d.items)
    (hp : p row=true) :
    itemChecks (f row)=true ∧ storyReference env row.identity.storyId (f row)=true := by
  unfold updateItems StateT.run at h
  dsimp only at h
  split at h
  · next hall =>
    have hrow := List.all_eq_true.mp hall row hm
    rw [hp] at hrow
    simp only [Bool.not_true,Bool.false_or,Bool.and_eq_true] at hrow
    exact ⟨hrow.1.2,hrow.2⟩
  · cases h

theorem Coherent.completed {env : SchemaEnv} {d : Database} {o : OperationHeader}
    (h : Coherent env d o) {c : CompleteItemCommand} {row : OperationItem}
    (hm : row ∈ itemsOf d o.identity.id) (hid : row.identity.id=c.item.id)
    (hactive : isTerminal o.state=false) (hopen : row.state.isTerminal=false)
    (hscope : c.operation.identity.id=o.identity.id) :
    storeSnapshot d ⟨{o with counts := {o.counts with completed := o.counts.completed+1}},
        update (fun row => row.identity.id=c.item.id) (completedItem c c.state)
          (itemsOf d o.identity.id)⟩=
      { operations := update (fun row => activeOperation c.operation.identity.id row &&
          row.counts.completed<row.counts.total)
          (fun row => {row with counts := {row.counts with completed := row.counts.completed+1}})
          d.operations
        items := update (fun row => row.identity.id=c.item.id &&
            row.operationId=c.operation.identity.id && !row.state.isTerminal)
          (fun row => {row with
            identity := {row.identity with storyId := c.storedStoryId}
            state := c.state
            outcome := ⟨nullif (c.outcome.code.getD ""),nullif (c.outcome.message.getD "")⟩
            progress := {row.progress with completed := c.completedBytes}}) d.items } := by
  have hlt := h.open hm hopen
  have hsel : (activeOperation c.operation.identity.id o &&
      decide (o.counts.completed<o.counts.total))=true := by
    simp [activeOperation,hscope,hactive,hlt]
  have hops := h.store_operations (p:=fun row => activeOperation c.operation.identity.id row &&
    row.counts.completed<row.counts.total) (f:=fun row => {row with
      counts := {row.counts with completed := row.counts.completed+1}}) hsel (by
        intro other hother
        simp only [activeOperation,Bool.and_eq_true,decide_eq_true_eq] at hother
        exact hother.1.1.trans hscope)
  have hitems := h.store_items (q:=fun row => row.identity.id=c.item.id)
    (g:=completedItem c c.state) (fun _ => rfl)
  have hset : (fun row : OperationItem => ({row with
      identity := {row.identity with storyId := c.storedStoryId}
      state := c.state
      outcome := ⟨nullif (c.outcome.code.getD ""),nullif (c.outcome.message.getD "")⟩
      progress := {row.progress with completed := c.completedBytes}} : OperationItem))=
      completedItem c c.state := by
    funext other
    rw [nullif_getD,nullif_getD]
    rfl
  rw [storeSnapshot,hops,hset]
  refine Database.mk.injEq .. ▸ ⟨rfl,?_⟩
  dsimp only
  rw [hitems]
  apply update_congr
  intro other hother
  by_cases hsame : other.identity.id=c.item.id
  · have heq : other=row := List.inj_on_of_nodup_map h.itemKeys hother
      (List.mem_filter.mp hm).1 (hsame.trans hid.symm)
    have hown := of_decide_eq_true (List.mem_filter.mp hm).2
    rw [heq]
    simp [hopen,hscope,hid,hown]
  · simp [hsame]

section Writes

variable {env : SchemaEnv} {d : Database} {o : OperationHeader}

theorem Coherent.store_kept (h : Coherent env d o) :
    update (fun row => row.operationId=o.identity.id)
      (fun row => (lookup (·.identity.id) row.identity.id
        (itemsOf d o.identity.id)).getD row) d.items=d.items := by
  have hnone := h.store_items (q:=fun _ => false) (g:=id) (fun _ => rfl)
  rw [←update_none] at hnone
  simp only [Bool.and_false] at hnone
  rwa [←update_none] at hnone

variable {c : FinishCommand}

theorem Coherent.finished (h : Coherent env d o) (hactive : isTerminal o.state=false)
    (hdone : o.counts.completed=o.counts.total) (hscope : c.operation.identity.id=o.identity.id) :
    storeSnapshot d {loaded d o with operation := {o with
        state := c.state
        outcome := c.storedOutcome
        identity := {o.identity with finishedAt := some c.finishedAt}}}=
      { d with
        operations := update (fun row => activeOperation c.operation.identity.id row &&
            row.counts.completed=row.counts.total)
          (fun row => {row with
            state := c.state
            outcome := ⟨nullif (c.outcome.code.getD ""),nullif (c.outcome.message.getD "")⟩
            identity := {row.identity with finishedAt := some c.finishedAt}}) d.operations } := by
  have hsel : (activeOperation c.operation.identity.id o &&
      decide (o.counts.completed=o.counts.total))=true := by
    simp [activeOperation,hscope,hactive,hdone]
  have hops := h.store_operations (p:=fun row => activeOperation c.operation.identity.id row &&
    row.counts.completed=row.counts.total) (f:=fun row => {row with
      state := c.state
      outcome := ⟨nullif (c.outcome.code.getD ""),nullif (c.outcome.message.getD "")⟩
      identity := {row.identity with finishedAt := some c.finishedAt}}) hsel (by
        intro other hother
        simp only [activeOperation,Bool.and_eq_true,decide_eq_true_eq] at hother
        exact hother.1.1.trans hscope)
  rw [hops,nullif_getD,nullif_getD]
  refine Database.mk.injEq .. ▸ ⟨rfl,?_⟩
  exact h.store_kept

theorem Coherent.interrupted (h : Coherent env d o) {c : InterruptCommand}
    (hactive : isTerminal o.state=false) (hscope : c.operation.identity.id=o.identity.id) :
    storeSnapshot d ⟨{o with
        state := .interrupted
        counts := ⟨(itemsOf d o.identity.id).length,(itemsOf d o.identity.id).length⟩
        outcome := ⟨some c.code,some c.message⟩
        identity := {o.identity with finishedAt := some c.finishedAt}},
        update (fun row => !row.state.isTerminal)
          (fun row => {row with state := .cancelled,outcome := ⟨some c.code,some c.message⟩})
          (itemsOf d o.identity.id)⟩=
      { operations := update (activeOperation c.operation.identity.id)
          (fun row => {row with
            state := .interrupted
            counts := {row.counts with completed := row.counts.total}
            outcome := ⟨some c.code,some c.message⟩
            identity := {row.identity with finishedAt := some c.finishedAt}}) d.operations
        items := update (fun row => row.operationId=c.operation.identity.id &&
            !row.state.isTerminal)
          (fun row => {row with state := .cancelled,outcome := ⟨some c.code,some c.message⟩})
          d.items } := by
  have hsel : activeOperation c.operation.identity.id o=true := by
    simp [activeOperation,hscope,hactive]
  have hops := h.store_operations (p:=activeOperation c.operation.identity.id)
    (f:=fun row => {row with
      state := .interrupted
      counts := {row.counts with completed := row.counts.total}
      outcome := ⟨some c.code,some c.message⟩
      identity := {row.identity with finishedAt := some c.finishedAt}}) hsel (by
        intro other hother
        simp only [activeOperation,Bool.and_eq_true,decide_eq_true_eq] at hother
        exact hother.1.trans hscope)
  have hitems := h.store_items (q:=fun row => !row.state.isTerminal)
    (g:=fun row => {row with state := .cancelled,outcome := ⟨some c.code,some c.message⟩})
    (fun _ => rfl)
  have hcounts : o.counts=⟨o.counts.completed,((itemsOf d o.identity.id).length : ℤ)⟩ := by
    rw [h.counts]
    rfl
  rw [hops,hscope]
  refine Database.mk.injEq .. ▸ ⟨?_,hitems⟩
  dsimp only
  rw [hcounts]

theorem Coherent.started (h : Coherent env d o) {item : ℤ} {at_ : String}
    {row : OperationItem} (hm : row ∈ itemsOf d o.identity.id) (hid : row.identity.id=item)
    (hactive : isTerminal o.state=false) (hpending : row.state=.pending) :
    storeSnapshot d ⟨{o with
        state := .running
        identity := {o.identity with startedAt := some (o.identity.startedAt.getD at_)}},
        update (fun row => row.identity.id=item) (fun row => {row with state := .running})
          (itemsOf d o.identity.id)⟩=
      { operations := update (activeOperation o.identity.id) (fun row => {row with
          state := .running
          identity := {row.identity with
            startedAt := some (row.identity.startedAt.getD at_)}}) d.operations
        items := update (fun row => row.identity.id=item && row.operationId=o.identity.id &&
          row.state=.pending) (fun row => {row with state := .running}) d.items } := by
  have hsel : activeOperation o.identity.id o=true := by
    simp [activeOperation,hactive]
  have hops := h.store_operations (p:=activeOperation o.identity.id) (f:=fun row => {row with
    state := .running
    identity := {row.identity with startedAt := some (row.identity.startedAt.getD at_)}})
    hsel (by
      intro other hother
      exact (activeOperation_true hother).1)
  have hitems := h.store_items (q:=fun row => row.identity.id=item)
    (g:=fun row => {row with state := .running}) (fun _ => rfl)
  rw [hops]
  refine Database.mk.injEq .. ▸ ⟨rfl,?_⟩
  dsimp only
  rw [hitems]
  apply update_congr
  intro other hother
  by_cases hsame : other.identity.id=item
  · have heq : other=row := List.inj_on_of_nodup_map h.itemKeys hother
      (List.mem_filter.mp hm).1 (hsame.trans hid.symm)
    have hown := of_decide_eq_true (List.mem_filter.mp hm).2
    rw [heq]
    simp [hpending,hid,hown]
  · simp [hsame]

/-- A command is accepted exactly when it is admitted, its view is coherent with it, not
recorded and open, and its statements are carried out. -/
theorem Coherent.accepted_iff (h : Coherent env d o) {session : Session} {opened : ℕ}
    {witness : CommandWitness} {after : Database}
    (hid : (scope witness).identity.id=o.identity.id) :
    accepted session opened env witness d=some after ↔
      generation witness=opened ∧ valid witness=true ∧
        (∃ v, view session.sizes d o.identity.id (itemId witness)=.ok v) ∧
        o.immutableScope=scope witness ∧
        recorded witness ⟨o,(itemId witness).bind (itemOf d o.identity.id),
          siblingCounts d o.identity.id⟩=.ok false ∧
        isTerminal o.state=false ∧
        ((itemId witness).bind (itemOf d o.identity.id)).any
          (fun item => item.state.isTerminal)=false ∧
        (write env witness).run d=.ok ((),after) := by
  have hrefusal : refusal opened witness=none ↔
      generation witness=opened ∧ valid witness=true := by
    unfold refusal
    by_cases hg : generation witness=opened <;> cases hv : valid witness <;> simp [hg]
  constructor
  · intro ha
    unfold accepted at ha
    split at ha
    · cases ha
    next hnone =>
    split at ha
    · next found hrun =>
      cases ha
      obtain ⟨hg,hv⟩ := hrefusal.mp hnone
      obtain ⟨observation,d₁,h1,hrun⟩ := bind_ok.mp hrun
      obtain ⟨ho,rfl⟩ := observe_ok.mp h1
      obtain ⟨found,hview,hclass⟩ := exceptBind_ok.mp ho
      rw [hid] at hview
      have hfound := h.viewed hview
      subst hfound
      have hclass : classify witness _=observation := Except.ok.inj hclass
      cases observation with
      | unapplied v =>
        obtain ⟨rfl,hc,hr,hactive,hopen⟩ := classify_unapplied.mp hclass
        obtain ⟨_,d₂,h2,hend⟩ := bind_ok.mp hrun
        obtain ⟨-,rfl⟩ := pure_ok.mp hend
        exact ⟨hg,hv,⟨_,hview⟩,(h.coherent_iff _ _).mp hc,hr,hactive,hopen,h2⟩
      | matching v | conflict v | unknown reason =>
        obtain ⟨hne,-⟩ := pure_ok.mp hrun
        cases hne
    · cases ha
  · rintro ⟨hg,hv,⟨found,hview⟩,hscope,hr,hactive,hopen,hwrite⟩
    have hfound := h.viewed hview
    subst hfound
    have hinspect : inspect session.sizes d witness=.ok (.unapplied
        ⟨o,(itemId witness).bind (itemOf d o.identity.id),siblingCounts d o.identity.id⟩) := by
      have hclass := classify_unapplied.mpr
        ⟨rfl,(h.coherent_iff _ _).mpr hscope,hr,hactive,hopen⟩
      refine exceptBind_ok.mpr ⟨some ⟨o,_,_⟩,?_,congrArg Except.ok hclass⟩
      rw [hid,hview]
    have hbody : (attemptBody session env witness).run d=.ok (.written,after) :=
      bind_ok.mpr ⟨_,d,observe_ok.mpr ⟨hinspect,rfl⟩,
        bind_ok.mpr ⟨(),after,hwrite,pure_ok.mpr ⟨rfl,rfl⟩⟩⟩
    simp only [accepted,hrefusal.mpr ⟨hg,hv⟩,hbody]

theorem Coherent.named (h : Coherent env d o) : o.identity.id≠"" := by
  intro hempty
  have hc := h.schema.operations o h.stored
  simp only [operationChecks,Bool.and_eq_true,decide_eq_true_eq] at hc
  have hlen := hc.1.1.1.1.1.1.1
  rw [hempty] at hlen
  exact absurd hlen (by decide)

theorem Coherent.addressed_item (h : Coherent env d o) {item : ItemScope}
    {row : OperationItem} (hm : row ∈ itemsOf d o.identity.id)
    (hitem : row.immutableScope=item) : itemOf d o.identity.id item.id=some row := by
  have hfound := h.item hm
  rw [←hitem]
  exact hfound

/-- The statements of a completion are carried out exactly for bytes within the item and a
story reference that is kept or stored. -/
theorem Coherent.write_completeItem (h : Coherent env d o) {c : CompleteItemCommand}
    {row : OperationItem} {after : Database} (hm : row ∈ itemsOf d o.identity.id)
    (hid : row.identity.id=c.item.id) (hscope : c.operation.identity.id=o.identity.id)
    (hactive : isTerminal o.state=false) (hopen : row.state.isTerminal=false) :
    (write env (.completeItem c)).run d=.ok ((),after) ↔
      (0≤c.completedBytes ∧ c.completedBytes≤row.progress.total ∧
        (c.storedStoryId=row.identity.storyId ∨
          c.storedStoryId.all env.storyExists=true)) ∧
      after=storeSnapshot d
        ⟨{o with counts := {o.counts with completed := o.counts.completed+1}},
          update (fun row => row.identity.id=c.item.id) (completedItem c c.state)
            (itemsOf d o.identity.id)⟩ := by
  obtain ⟨hmem,hown⟩ := List.mem_filter.mp hm
  have hown := of_decide_eq_true hown
  have hsel : (decide (row.identity.id=c.item.id) &&
      decide (row.operationId=c.operation.identity.id) && !row.state.isTerminal)=true := by
    simp [hid,hown,hscope,hopen]
  have hsole : ∀ other ∈ d.items, (decide (other.identity.id=c.item.id) &&
      decide (other.operationId=c.operation.identity.id) && !other.state.isTerminal)=true →
      other=row := by
    intro other hother hp
    simp only [Bool.and_eq_true,decide_eq_true_eq] at hp
    exact List.inj_on_of_nodup_map h.itemKeys hother hmem (hp.1.1.trans hid.symm)
  rw [h.completed hm hid hactive hopen hscope]
  constructor
  · intro hrun
    obtain ⟨n,d₁,h1,hrun⟩ := bind_ok.mp hrun
    obtain ⟨_,d₂,h2,hrun⟩ := bind_ok.mp hrun
    obtain ⟨m,d₃,h3,hrun⟩ := bind_ok.mp hrun
    obtain ⟨hchecks,hstory⟩ := updateItems_checked h1 hmem hsel
    obtain ⟨-,rfl⟩ := updateItems_ok h1
    obtain ⟨-,rfl⟩ := exactlyOne_ok h2
    obtain ⟨-,rfl⟩ := updateOperations_ok h3
    obtain ⟨-,rfl⟩ := exactlyOne_ok hrun
    simp only [itemChecks,Bool.and_eq_true,decide_eq_true_eq] at hchecks
    simp only [storyReference,Bool.or_eq_true,decide_eq_true_eq] at hstory
    exact ⟨⟨hchecks.1.1.1.1.1,hchecks.1.1.1.2,hstory⟩,rfl⟩
  · rintro ⟨⟨hlow,hhigh,hstory⟩,rfl⟩
    have hone := h.affected_item (p:=fun row => row.identity.id=c.item.id &&
        row.operationId=c.operation.identity.id && !row.state.isTerminal) hmem hsel (by
      intro other hp
      simp only [Bool.and_eq_true,decide_eq_true_eq] at hp
      exact hp.1.1.trans hid.symm)
    have hsolo := h.affected_one (p:=fun row => activeOperation c.operation.identity.id row &&
        row.counts.completed<row.counts.total)
      (by simp [activeOperation,hscope,hactive,h.open hm hopen]) (by
        intro other hp
        simp only [activeOperation,Bool.and_eq_true,decide_eq_true_eq] at hp
        exact hp.1.1.trans hscope)
    refine bind_ok.mpr ⟨_,_,updateItems_run ?_,bind_ok.mpr ⟨(),_,exactlyOne_run hone _,
      bind_ok.mpr ⟨_,_,updateOperations_run ?_,exactlyOne_run hsolo _⟩⟩⟩
    · intro other hother hp
      have heq := hsole other hother hp
      subst heq
      have hc := h.schema.items other hother
      simp only [itemChecks,Bool.and_eq_true,decide_eq_true_eq] at hc
      refine ⟨?_,?_,?_⟩
      · simp only [itemScopeKept,decide_true,Bool.and_self,Bool.or_true]
        cases lookup (·.identity.id) other.operationId d.operations <;> rfl
      · simp only [itemChecks,Bool.and_eq_true,decide_eq_true_eq]
        exact ⟨⟨⟨⟨⟨hlow,hc.1.1.1.1.2⟩,hhigh⟩,hc.1.1.2⟩,hc.1.2⟩,hc.2⟩
      · simp only [storyReference,Bool.or_eq_true,decide_eq_true_eq]
        exact hstory
    · intro other hother hp
      have hc := h.schema.operations other hother
      simp only [activeOperation,Bool.and_eq_true,decide_eq_true_eq] at hp
      constructor
      · simp only [operationScopeKept,decide_true,Bool.and_self,Bool.or_true]
      · simp only [operationChecks,Bool.and_eq_true,decide_eq_true_eq] at hc ⊢
        obtain ⟨⟨⟨⟨⟨⟨⟨h1,h2⟩,h3⟩,h4⟩,h5⟩,h6⟩,h7⟩,h8⟩ := hc
        exact ⟨⟨⟨⟨⟨⟨⟨h1,by omega⟩,h3⟩,by omega⟩,h5⟩,h6⟩,h7⟩,h8⟩

theorem Coherent.write_finish (h : Coherent env d o) {after : Database}
    (hscope : c.operation.identity.id=o.identity.id) (hactive : isTerminal o.state=false) :
    (write env (.finish c)).run d=.ok ((),after) ↔ o.counts.completed=o.counts.total ∧
      after=storeSnapshot d {loaded d o with operation := {o with
        state := c.state
        outcome := c.storedOutcome
        identity := {o.identity with finishedAt := some c.finishedAt}}} := by
  constructor
  · intro hrun
    obtain ⟨n,d₁,h1,hrun⟩ := bind_ok.mp hrun
    obtain ⟨hn,rfl⟩ := updateOperations_ok h1
    obtain ⟨hone,rfl⟩ := exactlyOne_ok hrun
    obtain ⟨row,hm,hp⟩ := exists_of_affected_one (hn.symm.trans hone)
    simp only [activeOperation,Bool.and_eq_true,decide_eq_true_eq] at hp
    have heq := h.unique hm (hp.1.1.trans hscope)
    have hdone : o.counts.completed=o.counts.total := heq ▸ hp.2
    exact ⟨hdone,(h.finished hactive hdone hscope).symm⟩
  · rintro ⟨hdone,rfl⟩
    rw [h.finished hactive hdone hscope]
    have hsolo := h.affected_one (p:=fun row => activeOperation c.operation.identity.id row &&
        row.counts.completed=row.counts.total)
      (by simp [activeOperation,hscope,hactive,hdone]) (by
        intro other hp
        simp only [activeOperation,Bool.and_eq_true,decide_eq_true_eq] at hp
        exact hp.1.1.trans hscope)
    refine bind_ok.mpr ⟨_,_,updateOperations_run ?_,exactlyOne_run hsolo _⟩
    intro other hother _
    have hc := h.schema.operations other hother
    constructor
    · simp only [operationScopeKept,decide_true,Bool.and_self,Bool.or_true]
    · exact hc

variable {after : Database}

theorem Coherent.write_interrupt (h : Coherent env d o) {c : InterruptCommand}
    (hscope : c.operation.identity.id=o.identity.id) (hactive : isTerminal o.state=false) :
    (write env (.interrupt c)).run d=.ok ((),after) ↔
      after=storeSnapshot d ⟨{o with
        state := .interrupted
        counts := ⟨(itemsOf d o.identity.id).length,(itemsOf d o.identity.id).length⟩
        outcome := ⟨some c.code,some c.message⟩
        identity := {o.identity with finishedAt := some c.finishedAt}},
        update (fun row => !row.state.isTerminal)
          (fun row => {row with state := .cancelled,outcome := ⟨some c.code,some c.message⟩})
          (itemsOf d o.identity.id)⟩ := by
  have hsolo := h.affected_one (p:=activeOperation c.operation.identity.id)
    (by simp [activeOperation,hscope,hactive])
    (fun other hp => (activeOperation_true hp).1.trans hscope)
  obtain ⟨written,hwritten⟩ := write_interrupt_run h.schema hsolo
  obtain ⟨-,hitems,hops⟩ := write_interrupt_ok hwritten
  obtain ⟨operations,items⟩ := written
  dsimp only at hitems hops
  subst hitems hops
  rw [h.interrupted hactive hscope,hwritten]
  simp only [Except.ok.injEq,Prod.mk.injEq,true_and]
  exact eq_comm

/-- The statements of a start are carried out exactly for a pending item of the active
operation. -/
theorem Coherent.start_iff (h : Coherent env d o) {error : StorageError} {item : ℤ}
    {at_ : String} {after : Database} :
    (markRunning env error o.identity.id item at_).run d=.ok ((),after) ↔
      ∃ s, startStep (loaded d o) item at_=.ok s ∧ after=storeSnapshot d s := by
  constructor
  · intro hrun
    obtain ⟨n,d₁,h1,hrun⟩ := bind_ok.mp hrun
    obtain ⟨hn,rfl⟩ := updateOperations_ok h1
    split_ifs at hrun with hone
    · exact (throw_ok.mp hrun).elim
    obtain ⟨m,d₂,h2,hrun⟩ := bind_ok.mp hrun
    obtain ⟨hm,rfl⟩ := updateItems_ok h2
    split_ifs at hrun with htwo
    · exact (throw_ok.mp hrun).elim
    obtain ⟨-,rfl⟩ := pure_ok.mp hrun
    obtain ⟨row,hrow,hp⟩ := exists_of_affected_one (hn.symm.trans (not_not.mp hone))
    obtain ⟨hsame,hactive⟩ := activeOperation_true hp
    rw [h.unique hrow hsame] at hactive
    obtain ⟨found,hfound,hq⟩ := exists_of_affected_one (hm.symm.trans (not_not.mp htwo))
    simp only [Bool.and_eq_true,decide_eq_true_eq] at hq
    obtain ⟨⟨hid,hown⟩,hpending⟩ := hq
    have hmem : found ∈ itemsOf d o.identity.id :=
      List.mem_filter.mpr ⟨hfound,decide_eq_true hown⟩
    refine ⟨_,startStep_ok.mpr ⟨found,?_,hactive,hpending,rfl⟩,?_⟩
    · rw [←hid]
      exact h.item hmem
    · exact (h.started hmem hid hactive hpending).symm
  · rintro ⟨s,hs,rfl⟩
    obtain ⟨row,hl,hactive,hpending,rfl⟩ := startStep_ok.mp hs
    have hactive : isTerminal o.state=false := hactive
    obtain ⟨hmem,hid⟩ := lookup_mem hl
    have hown := of_decide_eq_true (List.mem_filter.mp hmem).2
    have hstarted := @Coherent.started env d o h item at_ row hmem hid hactive hpending
    have hsolo := h.affected_one (p:=activeOperation o.identity.id)
      (by simp [activeOperation,hactive]) (fun other hp => (activeOperation_true hp).1)
    have hone := h.affected_item (p:=fun row => row.identity.id=item &&
        row.operationId=o.identity.id && row.state=.pending) (List.mem_filter.mp hmem).1
      (by simp [hid,hown,hpending]) (by
        intro other hp
        simp only [Bool.and_eq_true,decide_eq_true_eq] at hp
        exact hp.1.1.trans hid.symm)
    refine bind_ok.mpr ⟨_,_,updateOperations_run ?_,?_⟩
    · intro other hother _
      have hc := h.schema.operations other hother
      constructor
      · simp only [operationScopeKept,decide_true,Bool.and_self,Bool.or_true]
      · exact hc
    rw [if_neg (not_not.mpr hsolo)]
    refine bind_ok.mpr ⟨_,_,updateItems_run ?_,?_⟩
    · intro other hother _
      refine ⟨?_,h.schema.items other hother,?_⟩
      · simp only [itemScopeKept,decide_true,Bool.and_self,Bool.or_true]
        cases lookup (·.identity.id) other.operationId (update _ _ d.operations) <;> rfl
      · simp only [storyReference,decide_true,Bool.true_or]
    rw [if_neg (not_not.mpr hone)]
    exact pure_ok.mpr ⟨rfl,hstarted.symm⟩

theorem Coherent.accepted_completeItem (h : Coherent env d o) {session : Session} {opened : ℕ}
    {c : CompleteItemCommand} {after : Database} (hid : c.operation.identity.id=o.identity.id) :
    accepted session opened env (.completeItem c) d=some after ↔
      Addressed session opened env d o (.completeItem c) ∧
        ∃ s, commandStep (loaded d o) (.completeItem c)=.ok s ∧ after=storeSnapshot d s := by
  rw [@Coherent.accepted_iff env d o h session opened (.completeItem c) after hid]
  constructor
  · rintro ⟨hg,hv,hread,hscope,hrec,hactive,hopen,hwrite⟩
    simp only [itemId,Option.bind_some] at hrec hopen
    cases hl : itemOf d o.identity.id c.item.id with
    | none => simp [recorded,hl] at hrec
    | some row =>
      simp only [recorded,hl] at hrec
      split_ifs at hrec with hitem
      rw [not_not] at hitem
      rw [hl,Option.any_some] at hopen
      obtain ⟨hmem,hrow⟩ := lookup_mem hl
      have hterminal : c.state.isTerminal=true := by
        have hname : c.operation.identity.id≠"" := hid ▸ h.named
        simp only [valid,scope,hname,if_false,Bool.and_eq_true] at hv
        exact hv.1.1.1
      obtain ⟨hvalues,rfl⟩ := (h.write_completeItem hmem hrow hid hactive hopen).mp hwrite
      exact ⟨⟨hg,hscope.symm,hread,row,hmem,hitem,hvalues⟩,_,commandStep_completeItem.mpr
        ⟨row,hl,hactive,h.validate,hopen,hterminal,(h.open hmem hopen).ne,rfl⟩,rfl⟩
  · rintro ⟨⟨hg,hscope,hread,row,hmem,hitem,hlow,hhigh,hstory⟩,s,hstep,rfl⟩
    have hl := h.addressed_item hmem hitem
    have hrow : row.identity.id=c.item.id := (lookup_mem hl).2
    obtain ⟨found,hfound,hactive,-,hopen,hterminal,-,rfl⟩ :=
      commandStep_completeItem.mp hstep
    have heq : row=found := Option.some.inj (hl.symm.trans hfound)
    subst heq
    have hown := of_decide_eq_true (List.mem_filter.mp hmem).2
    have hne : row.state≠c.state := by
      intro hsame
      rw [hsame,hterminal] at hopen
      cases hopen
    refine ⟨hg,?_,hread,hscope.symm,?_,hactive,?_,?_⟩
    · have hparent : c.item.operationId=c.operation.identity.id := by
        rw [←hitem,hid]
        exact hown
      have hbytes : c.completedBytes≤c.item.totalBytes := by
        rw [←hitem]
        exact hhigh
      have hname : c.operation.identity.id≠"" := hid ▸ h.named
      simp [valid,scope,hname,hterminal,hparent,hlow,hbytes]
    · simp [itemId,recorded,hl,hitem,hne]
    · simp [itemId,hl,hopen]
    · exact (h.write_completeItem hmem hrow hid hactive hopen).mpr ⟨⟨hlow,hhigh,hstory⟩,rfl⟩

theorem Coherent.accepted_finish (h : Coherent env d o) {session : Session}
    {opened : ℕ} {after : Database} (hid : c.operation.identity.id=o.identity.id) :
    accepted session opened env (.finish c) d=some after ↔
      Addressed session opened env d o (.finish c) ∧
        ∃ s, commandStep (loaded d o) (.finish c)=.ok s ∧ after=storeSnapshot d s := by
  have hname : c.operation.identity.id≠"" := hid ▸ h.named
  have hvalid : valid (.finish c)=true ↔ isTerminal c.state=true ∧ c.state≠.interrupted := by
    simp [valid,scope,hname]
  rw [@Coherent.accepted_iff env d o h session opened (.finish c) after hid,hvalid]
  constructor
  · rintro ⟨hg,⟨hterminal,hother⟩,hread,hscope,-,hactive,-,hwrite⟩
    obtain ⟨hdone,rfl⟩ := (h.write_finish hid hactive).mp hwrite
    exact ⟨⟨hg,hscope.symm,hread,trivial⟩,_,commandStep_finish.mpr
      ⟨hactive,h.validate,hterminal,hother,hdone,rfl⟩,rfl⟩
  · rintro ⟨⟨hg,hscope,hread,-⟩,s,hstep,rfl⟩
    obtain ⟨hactive,-,hterminal,hother,hdone,rfl⟩ := commandStep_finish.mp hstep
    have hactive : isTerminal o.state=false := hactive
    have hne : o.state≠c.state := by
      intro hsame
      rw [hsame,hterminal] at hactive
      cases hactive
    refine ⟨hg,⟨hterminal,hother⟩,hread,hscope.symm,?_,hactive,rfl,?_⟩
    · simp [recorded,hne]
    · exact (h.write_finish hid hactive).mpr ⟨hdone,rfl⟩

theorem Coherent.accepted_interrupt (h : Coherent env d o) {session : Session} {opened : ℕ}
    {c : InterruptCommand} {after : Database} (hid : c.operation.identity.id=o.identity.id) :
    accepted session opened env (.interrupt c) d=some after ↔
      Addressed session opened env d o (.interrupt c) ∧
        ∃ s, commandStep (loaded d o) (.interrupt c)=.ok s ∧ after=storeSnapshot d s := by
  have hname : c.operation.identity.id≠"" := hid ▸ h.named
  have hvalid : valid (.interrupt c)=true ↔ c.code≠"" ∧ c.message≠"" := by
    simp [valid,scope,hname]
  rw [@Coherent.accepted_iff env d o h session opened (.interrupt c) after hid,hvalid]
  constructor
  · rintro ⟨hg,⟨hcode,hmessage⟩,hread,hscope,-,hactive,-,hwrite⟩
    have hafter := (h.write_interrupt hid hactive).mp hwrite
    refine ⟨⟨hg,hscope.symm,hread,trivial⟩,_,commandStep_interrupt.mpr
      ⟨hactive,h.validate,hcode,hmessage,?_,?_,rfl⟩,hafter⟩
    · exact (congrArg Counts.total h.counts).symm
    · exact (congrArg Counts.completed h.counts).symm
  · rintro ⟨⟨hg,hscope,hread,-⟩,s,hstep,rfl⟩
    obtain ⟨hactive,-,hcode,hmessage,-,-,rfl⟩ := commandStep_interrupt.mp hstep
    have hactive : isTerminal o.state=false := hactive
    have hne : o.state≠.interrupted := by
      intro hsame
      rw [hsame] at hactive
      cases hactive
    refine ⟨hg,⟨hcode,hmessage⟩,hread,hscope.symm,?_,hactive,rfl,?_⟩
    · simp [recorded,hne]
    · exact (h.write_interrupt hid hactive).mpr rfl

theorem Coherent.accepted_command (h : Coherent env d o) {session : Session} {opened : ℕ}
    {witness : CommandWitness} (hid : (scope witness).identity.id=o.identity.id) :
    accepted session opened env witness d=some after ↔
      Addressed session opened env d o witness ∧
        ∃ s, commandStep (loaded d o) witness=.ok s ∧ after=storeSnapshot d s := by
  cases witness with
  | completeItem c => exact h.accepted_completeItem hid
  | finish c => exact h.accepted_finish hid
  | interrupt c => exact h.accepted_interrupt hid

/-- A start is acknowledged exactly for a stored item in scope that already runs, or that
the policy starts. -/
theorem Coherent.accepted_start (h : Coherent env d o) {session : Session} {work : WorkItem}
    {at_ : String} (hid : work.operation.identity.id=o.identity.id) :
    acceptedStart session env work at_ d=some after ↔
      (∃ v, view session.sizes d o.identity.id (some work.item.identity.id)=.ok v) ∧
        work.operation=o.immutableScope ∧
        ∃ row ∈ itemsOf d o.identity.id, row.immutableScope=work.item.immutableScope ∧
          ((row.state=.running ∧ after=d) ∨
            ∃ s, startStep (loaded d o) row.identity.id at_=.ok s ∧ after=storeSnapshot d s) := by
  have hrun : acceptedStart session env work at_ d=some after ↔
      (startBody session env work at_).run d=.ok ((),after) := by
    unfold acceptedStart
    cases (startBody session env work at_).run d with
    | error e => simp
    | ok result => simp [Prod.ext_iff]
  rw [hrun]
  constructor
  · intro hbody
    obtain ⟨found,d₁,h1,hbody⟩ := bind_ok.mp hbody
    obtain ⟨hview,rfl⟩ := observe_ok.mp h1
    rw [hid] at hview
    have hfound := h.viewed hview
    subst hfound
    dsimp only at hbody
    split_ifs at hbody with hscope hrunning
    · exact (throw_ok.mp hbody).elim
    all_goals
      simp only [Option.bind_some,Bool.or_eq_true,decide_eq_true_eq,not_or,not_not] at hscope
      obtain ⟨hop,hitem⟩ := hscope
      cases hl : itemOf d o.identity.id work.item.identity.id with
      | none => simp [hl] at hitem
      | some row => ?_
      rw [hl] at hitem
      have hitem : row.immutableScope=work.item.immutableScope := Option.some.inj hitem
      obtain ⟨hmem,hrow⟩ := lookup_mem hl
      refine ⟨⟨_,hview⟩,hop.symm,row,hmem,hitem,?_⟩
    · obtain ⟨-,rfl⟩ := pure_ok.mp hbody
      rw [Option.bind_some,hl,Option.any_some] at hrunning
      exact .inl ⟨of_decide_eq_true hrunning,rfl⟩
    · rw [hid] at hbody
      rw [hrow]
      exact .inr (h.start_iff.mp hbody)
  · rintro ⟨⟨found,hview⟩,hop,row,hmem,hitem,hstep⟩
    have hfound := h.viewed hview
    subst hfound
    have hrow : row.identity.id=work.item.identity.id := congrArg ItemScope.id hitem
    have hl := h.addressed_item hmem hitem
    refine bind_ok.mpr ⟨_,d,observe_ok.mpr ⟨by rw [hid]; exact hview,rfl⟩,?_⟩
    have hl : itemOf d o.identity.id work.item.identity.id=some row := hl
    simp only [Option.bind_some,hl,Option.map_some,hitem,hop,ne_eq,not_true,decide_false,
      Bool.or_self,Bool.false_eq_true,if_false,Option.any_some]
    rcases hstep with ⟨hrunning,rfl⟩ | ⟨s,hs,rfl⟩
    · rw [if_pos (decide_eq_true hrunning)]
      exact pure_ok.mpr ⟨rfl,rfl⟩
    · obtain ⟨found,hfound,-,hpending,-⟩ := startStep_ok.mp hs
      have heq : row=found := Option.some.inj ((h.item hmem).symm.trans hfound)
      subst heq
      rw [if_neg (by simp [hpending])]
      rw [hrow] at hs
      exact h.start_iff.mpr ⟨s,hs,rfl⟩

end Writes

variable (session : Session)

theorem attempt_rows (opened : ℕ) (call : StoreCall) (witness : CommandWitness) (d : Database) :
    (attempt session opened call witness d).2=d ∨
      accepted session opened call.schema witness d=
        some (attempt session opened call witness d).2 := by
  cases hr : refusal opened witness with
  | some reason => exact .inl (by simp only [attempt,hr])
  | none =>
    have heq : (attempt session opened call witness d).2=
        (submit call (attemptBody session call.schema witness) d).2 := by
      simp only [attempt,hr]
    by_cases hc : (submit call (attemptBody session call.schema witness) d).2=d
    · exact .inl (heq.trans hc)
    right
    obtain ⟨result,hrun⟩ := submit_changed hc
    rw [heq]
    obtain ⟨observation,d₁,h1,hbody⟩ := bind_ok.mp hrun
    obtain ⟨-,rfl⟩ := observe_ok.mp h1
    cases observation with
    | unapplied v =>
      obtain ⟨_,d₂,h2,hend⟩ := bind_ok.mp hbody
      obtain ⟨rfl,-⟩ := pure_ok.mp hend
      simp only [accepted,hr,hrun]
    | matching v | conflict v | unknown reason =>
      obtain ⟨-,hsame⟩ := pure_ok.mp hbody
      exact absurd hsame.symm hc

/-- Where nothing disturbs the submission, an attempt leaves the rows its command is
accepted with, and otherwise the rows as they were. -/
theorem attempt_quiet (opened : ℕ) {call : StoreCall} (hq : Quiet call) (witness : CommandWitness)
    (d : Database) :
    (attempt session opened call witness d).2=
      (accepted session opened call.schema witness d).getD d := by
  rcases attempt_rows session opened call witness d with hsame | hchanged
  · cases ha : accepted session opened call.schema witness d with
    | none => exact hsame
    | some after =>
      unfold accepted at ha
      split at ha
      · cases ha
      next hr =>
      split at ha
      · next found hrun =>
        cases ha
        simp only [attempt,hr,submit,hq.1,hq.2.1,hq.2.2,runTransaction,hrun,Option.getD_some]
      · cases ha
  · rw [hchanged,Option.getD_some]

theorem start_rows (call : StoreCall) (work : WorkItem) (at_ : String) (d : Database) :
    (startItem session call work at_ d).2=d ∨
      acceptedStart session call.schema work at_ d=some (startItem session call work at_ d).2 := by
  by_cases hc : (submit call (startBody session call.schema work at_) d).2=d
  · exact .inl hc
  obtain ⟨u,hrun⟩ := submit_changed hc
  right
  simp only [acceptedStart,hrun]
  rfl

/-- On a coherent stored operation the guarded statements accept a command exactly when the
policy does and the command is addressed with values the schema admits; the rows are then the
policy's result, and else unchanged. A start is accepted as the policy does, or acknowledged
without a write for an item that already runs. -/
theorem guarded_writes_refine {env : SchemaEnv} {d : Database} {o : OperationHeader}
    (h : Coherent env d o) (session : Session) :
    (∀ opened witness, (scope witness).identity.id=o.identity.id →
      (∀ after, accepted session opened env witness d=some after ↔
        Addressed session opened env d o witness ∧
          ∃ s, commandStep (loaded d o) witness=.ok s ∧ after=storeSnapshot d s) ∧
      ∀ call, call.schema=env →
        ((attempt session opened call witness d).2=d ∨
          accepted session opened env witness d=
            some (attempt session opened call witness d).2) ∧
        (Quiet call → (attempt session opened call witness d).2=
          (accepted session opened env witness d).getD d)) ∧
    (∀ work at_, work.operation.identity.id=o.identity.id →
      (∀ after, acceptedStart session env work at_ d=some after ↔
        (∃ v, view session.sizes d o.identity.id (some work.item.identity.id)=.ok v) ∧
          work.operation=o.immutableScope ∧
          ∃ row ∈ itemsOf d o.identity.id, row.immutableScope=work.item.immutableScope ∧
            ((row.state=.running ∧ after=d) ∨
              ∃ s, startStep (loaded d o) row.identity.id at_=.ok s ∧
                after=storeSnapshot d s)) ∧
      ∀ call, call.schema=env → (startItem session call work at_ d).2=d ∨
        acceptedStart session env work at_ d=some (startItem session call work at_ d).2) ∧
    ∀ error item at_ after,
      (OperationStore.markRunning env error o.identity.id item at_).run d=.ok ((),after) ↔
        ∃ s, startStep (loaded d o) item at_=.ok s ∧ after=storeSnapshot d s := by
  refine ⟨?_,?_,fun error item at_ after => h.start_iff⟩
  · intro opened witness hid
    refine ⟨fun after => h.accepted_command hid,?_⟩
    rintro call rfl
    exact ⟨attempt_rows session opened call witness d,
      fun hq => attempt_quiet session opened hq witness d⟩
  · intro work at_ hid
    refine ⟨fun after => h.accepted_start hid,?_⟩
    rintro call rfl
    exact start_rows session call work at_ d

section Example

/-- A schema environment without stories and JSON texts. -/
def emptySchema : SchemaEnv := ⟨fun _ => false,fun _ => true,fun _ => none⟩

def plainSession : Session :=
  ⟨⟨0,0⟩,⟨fun _ => true,fun _ => .ok 0,fun _ => "",fun _ => ""⟩⟩

def importOperation : OperationHeader where
  identity := ⟨"aaaaaaaa-0000-4000-8000-000000000001","2026-01-01",some "2026-01-01",none⟩
  kind := .import
  state := .running
  exportScope := ⟨none,none,none⟩
  destination := none
  counts := ⟨0,1⟩
  totalBytes := 10
  cancelRequested := false
  outcome := ⟨none,none⟩

def importItem : OperationItem where
  operationId := "aaaaaaaa-0000-4000-8000-000000000001"
  identity := ⟨1,none,none,none⟩
  storyTitle := none
  sourceName := "story.zip"
  outputName := none
  archiveRelativePath := none
  archiveSha256 := none
  exportSkipCode := none
  state := .running
  progress := ⟨0,10⟩
  outcome := ⟨none,none⟩

/-- The tables with this operation. -/
def importRows : Database := ⟨[importOperation],[importItem]⟩

def importCompletion (bytes : ℤ) : CompleteItemCommand where
  generation := 0
  operation := importOperation.immutableScope
  item := importItem.immutableScope
  storyId := 0
  state := .succeeded
  completedBytes := bytes
  outcome := ⟨some "",none⟩

theorem importRows_coherent : Coherent emptySchema importRows importOperation :=
  ⟨⟨by decide +kernel,by decide +kernel,by decide +kernel⟩,by decide +kernel,
    List.mem_singleton.mpr rfl,by decide +kernel⟩

/-- The policy completes an item beyond its bytes and the statements refuse it; the policy
refuses to start a running item and the statements acknowledge it. -/
theorem statements_differ_from_policy :
    Coherent emptySchema importRows importOperation ∧
      (∃ s, commandStep (loaded importRows importOperation)
        (.completeItem (importCompletion 11))=.ok s) ∧
      accepted plainSession 0 emptySchema (.completeItem (importCompletion 11)) importRows=none ∧
      startStep (loaded importRows importOperation) 1 "2026-01-02"=.error .invalidTransition ∧
      acceptedStart plainSession emptySchema ⟨importOperation.immutableScope,importItem⟩
        "2026-01-02" importRows=some importRows := by
  refine ⟨importRows_coherent,⟨_,commandStep_completeItem.mpr ⟨importItem,by decide +kernel,
    by decide,by decide,by decide,by decide,by decide,rfl⟩⟩,?_,by decide +kernel,?_⟩
  · rw [Option.eq_none_iff_forall_ne_some]
    intro after hafter
    obtain ⟨⟨-,-,-,row,hmem,-,-,hbytes,-⟩,-⟩ :=
      (importRows_coherent.accepted_completeItem rfl).mp hafter
    have hrow : row ∈ [importItem] := (List.mem_filter.mp hmem).1
    rw [List.mem_singleton.mp hrow] at hbytes
    exact absurd hbytes (by decide)
  · refine (importRows_coherent.accepted_start rfl).mpr
      ⟨⟨some ⟨importOperation,some importItem,⟨1,0⟩⟩,by decide +kernel⟩,rfl,importItem,
        by decide +kernel,rfl,.inl ⟨rfl,rfl⟩⟩

/-- The completion of all ten bytes writes what the policy returns. -/
theorem import_completed :
    ∃ s, commandStep (loaded importRows importOperation)
        (.completeItem (importCompletion 10))=.ok s ∧
      accepted plainSession 0 emptySchema (.completeItem (importCompletion 10)) importRows=
        some (storeSnapshot importRows s) := by
  refine ⟨_,commandStep_completeItem.mpr ⟨importItem,by decide +kernel,
    by decide,by decide,by decide,by decide,by decide,rfl⟩,?_⟩
  refine (((guarded_writes_refine importRows_coherent plainSession).1 0
    (.completeItem (importCompletion 10)) rfl).1 _).mpr ⟨⟨rfl,rfl,
      ⟨some ⟨importOperation,some importItem,⟨1,0⟩⟩,by decide +kernel⟩,importItem,
      by decide +kernel,rfl,by decide,by decide,.inl rfl⟩,_,commandStep_completeItem.mpr
        ⟨importItem,by decide +kernel,by decide,by decide,by decide,by decide,by decide,rfl⟩,rfl⟩

end Example

end Librairii.PolicyRefinement
