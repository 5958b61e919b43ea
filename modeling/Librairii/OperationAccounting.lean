import Librairii.OperationStore

/-!
# Exactly-once accounting of the operation tables

The counters of every operation equal the counts over its items, and a terminal
operation has only terminal items. Each guarded statement keeps this together
with the terminal rows themselves, so it holds after every run of calls under
any surroundings, and a command that was written once is never written again.
-/

namespace Librairii.OperationAccounting

open CheckedResults StorageTransactions RowTables OperationRows OperationPolicy OperationCreation
  OperationStore

/-- The counters a header must show for the stored items. -/
def trueCounts (d : Database) (id : String) : Counts :=
  ⟨(siblingCounts d id).terminal,(siblingCounts d id).items⟩

/-- The tables account for every item exactly once. -/
structure Accounted (d : Database) : Prop where
  operationKeys : (d.operations.map (·.identity.id)).Nodup
  itemKeys : (d.items.map (·.identity.id)).Nodup
  /-- Every item belongs to a stored operation. -/
  parents : ∀ item ∈ d.items,
    (lookup (·.identity.id) item.operationId d.operations).isSome=true
  counts : ∀ row ∈ d.operations, row.counts=trueCounts d row.identity.id
  /-- A terminal operation has completed all its items. -/
  closed : ∀ row ∈ d.operations, isTerminal row.state=true →
    row.counts.completed=row.counts.total

/-- Terminal rows are found unchanged. -/
structure Frozen (d d' : Database) : Prop where
  /-- A terminal operation row is kept as it is. -/
  operations : ∀ id row, lookup (·.identity.id) id d.operations=some row →
    isTerminal row.state=true → lookup (·.identity.id) id d'.operations=some row
  items : ∀ id row, lookup (·.identity.id) id d.items=some row →
    row.state.isTerminal=true → lookup (·.identity.id) id d'.items=some row

theorem Frozen.refl (d : Database) : Frozen d d :=
  ⟨fun _ _ h _ => h,fun _ _ h _ => h⟩

theorem Frozen.trans (a b c : Database) (h : Frozen a b) (h' : Frozen b c) : Frozen a c := by
  constructor
  · intro id row hr ht
    exact h'.operations id row (h.operations id row hr ht) ht
  · intro id row hr ht
    exact h'.items id row (h.items id row hr ht) ht

theorem accounted_emptyTables : Accounted emptyTables := by
  constructor
  · exact List.nodup_nil
  · exact List.nodup_nil
  · intro item hm
    exact absurd hm List.not_mem_nil
  · intro row hm
    exact absurd hm List.not_mem_nil
  · intro row hm
    exact absurd hm List.not_mem_nil

/-- Completed items never exceed the items of an accounted operation, and both
counters are nonnegative. -/
theorem Accounted.bounded {d : Database} (h : Accounted d) {row : OperationHeader}
    (hm : row ∈ d.operations) : 0≤row.counts.completed ∧ row.counts.completed≤row.counts.total := by
  have hc := h.counts row hm
  have hl : (itemsOf d row.identity.id).countP (fun item => item.state.isTerminal)≤
      (itemsOf d row.identity.id).length := List.countP_le_length
  rw [hc]
  constructor
  · exact Int.natCast_nonneg _
  · exact Int.ofNat_le.mpr hl

theorem Accounted.items_terminal {d : Database} (h : Accounted d) {row : OperationHeader}
    (hm : row ∈ d.operations) (ht : isTerminal row.state=true) {item : OperationItem}
    (hi : item ∈ d.items) (ho : item.operationId=row.identity.id) : item.state.isTerminal=true := by
  have hc := h.closed row hm ht
  rw [h.counts row hm] at hc
  have hn : (itemsOf d row.identity.id).countP (fun item => item.state.isTerminal)=
      (itemsOf d row.identity.id).length := Int.ofNat_inj.mp hc
  have hmem : item ∈ itemsOf d row.identity.id :=
    List.mem_filter.mpr ⟨hi,decide_eq_true ho⟩
  exact List.countP_eq_length.mp hn item hmem

theorem unselected_item {p : OperationItem → Bool}
    (hp : ∀ row, p row=true → row.state.isTerminal=false) {row : OperationItem}
    (ht : row.state.isTerminal=true) : p row=false := by
  cases hq : p row with
  | false => rfl
  | true =>
    have hf := hp row hq
    rw [ht] at hf
    cases hf

theorem unselected_operation {p : OperationHeader → Bool}
    (hp : ∀ row, p row=true → isTerminal row.state=false) {row : OperationHeader}
    (ht : isTerminal row.state=true) : p row=false := by
  cases hq : p row with
  | false => rfl
  | true =>
    have hf := hp row hq
    rw [ht] at hf
    cases hf

/-- A relation between tables that every update of the store establishes under a schema. -/
structure Respected (env : SchemaEnv) (R : Database → Database → Prop) : Prop where
  /-- Unchanged tables are related. -/
  refl : ∀ d, R d d
  /-- Related tables stay related. -/
  trans : ∀ a b c, R a b → R b c → R a c
  /-- Active operations may be updated outside their scopes. -/
  operations : ∀ {p : OperationHeader → Bool} {f : OperationHeader → OperationHeader},
    (∀ row, (f row).immutableScope=row.immutableScope) →
    (∀ row, p row=true → isTerminal row.state=false) → Keeps R (updateOperations env p f)
  /-- Unfinished items may be updated outside their scopes. -/
  items : ∀ {p : OperationItem → Bool} {f : OperationItem → OperationItem},
    (∀ row, (f row).immutableScope=row.immutableScope) →
    (∀ row, p row=true → row.state.isTerminal=false) → Keeps R (updateItems env p f)

namespace Respected

variable {env : SchemaEnv} {R : Database → Database → Prop} (hr : Respected env R)

include hr

theorem exactlyOne (rows : ℕ) : Keeps R (OperationPolicy.exactlyOne rows) := by
  unfold OperationPolicy.exactlyOne
  exact Keeps.ite (Keeps.throw _) (Keeps.pure hr.refl _)

/-- Every terminal command respects the relation. -/
theorem write (witness : CommandWitness) : Keeps R (OperationPolicy.write env witness) := by
  unfold OperationPolicy.write
  cases witness with
  | completeItem c =>
    refine Keeps.bind hr.trans (hr.items (fun _ => rfl) ?_) fun n =>
      Keeps.bind hr.trans (hr.exactlyOne n) fun _ =>
      Keeps.bind hr.trans (hr.operations (fun _ => rfl) ?_) hr.exactlyOne
    · intro row hp
      simp only [Bool.and_eq_true,Bool.not_eq_true'] at hp
      exact hp.2
    · intro row hp
      exact (activeOperation_true ((Bool.and_eq_true _ _).mp hp).1).2
  | finish c =>
    refine Keeps.bind hr.trans (hr.operations (fun _ => rfl) ?_) hr.exactlyOne
    intro row hp
    exact (activeOperation_true ((Bool.and_eq_true _ _).mp hp).1).2
  | interrupt c =>
    refine Keeps.bind hr.trans (hr.items (fun _ => rfl) ?_) fun _ =>
      Keeps.bind hr.trans (hr.operations (fun _ => rfl) ?_) hr.exactlyOne
    · intro row hp
      simp only [Bool.and_eq_true,Bool.not_eq_true'] at hp
      exact hp.2
    · intro row hp
      exact (activeOperation_true hp).2

theorem attemptBody (session : Session) (witness : CommandWitness) :
    Keeps R (OperationStore.attemptBody session env witness) := by
  refine Keeps.bind hr.trans (Keeps.observe hr.refl _) fun observation => ?_
  cases observation with
  | unapplied view =>
    exact Keeps.bind hr.trans (hr.write witness) fun _ => Keeps.pure hr.refl _
  | matching view => exact Keeps.pure hr.refl _
  | conflict view => exact Keeps.pure hr.refl _
  | unknown reason => exact Keeps.pure hr.refl _

theorem markRunning (error : StorageError) (id : String) (item : ℤ)
    (at_ : String) : Keeps R (OperationStore.markRunning env error id item at_) := by
  refine Keeps.bind hr.trans
    (hr.operations (fun _ => rfl) fun _ hp => (activeOperation_true hp).2) fun n =>
    Keeps.ite (Keeps.throw _) (Keeps.bind hr.trans (hr.items (fun _ => rfl) ?_) fun m =>
      Keeps.ite (Keeps.throw _) (Keeps.pure hr.refl _))
  intro row hp
  simp only [Bool.and_eq_true,decide_eq_true_eq] at hp
  rw [hp.2]
  rfl

theorem startBody (session : Session) (work : WorkItem) (at_ : String) :
    Keeps R (OperationStore.startBody session env work at_) := by
  refine Keeps.bind hr.trans (Keeps.observe hr.refl _) fun found => ?_
  cases found with
  | none => exact Keeps.throw _
  | some v =>
    exact Keeps.ite (Keeps.throw _)
      (Keeps.ite (Keeps.pure hr.refl _) (hr.markRunning _ _ _ _))

theorem progressBody (item completed total : ℤ) :
    Keeps R (OperationStore.progressBody env item completed total) := by
  refine Keeps.bind hr.trans (Keeps.observe hr.refl _) fun active =>
    Keeps.bind hr.trans (hr.items (fun _ => rfl) ?_) fun _ => Keeps.pure hr.refl _
  intro row hp
  simp only [Bool.and_eq_true,decide_eq_true_eq] at hp
  rw [hp.1.1.1.2]
  rfl

/-- Requesting cancellation respects the relation. -/
theorem cancelBody (id : String) : Keeps R (OperationStore.cancelBody env id) :=
  Keeps.bind hr.trans
    (hr.operations (fun _ => rfl) fun _ hp => (activeOperation_true hp).2) fun _ =>
    Keeps.ite (Keeps.throw _) (Keeps.pure hr.refl _)

/-- Requesting cancellation of everything respects the relation. -/
theorem cancelAllBody : Keeps R (OperationStore.cancelAllBody env) := by
  refine Keeps.bind hr.trans (hr.operations (fun _ => rfl) ?_) fun _ => Keeps.pure hr.refl _
  intro row hp
  simpa only [Bool.not_eq_true'] using hp

/-- Startup repair respects the relation. -/
theorem recoverBody (cleanupFailed : Bool) (at_ : String) :
    Keeps R (OperationStore.recoverBody env cleanupFailed at_) := by
  refine Keeps.bind hr.trans (Keeps.observe hr.refl _) fun bad =>
    Keeps.ite (Keeps.throw _) (Keeps.bind hr.trans (Keeps.observe hr.refl _)
      fun operations => Keeps.bind hr.trans (hr.items (fun _ => rfl) ?_) fun _ =>
      Keeps.bind hr.trans (hr.operations (fun _ => rfl) ?_) fun _ => Keeps.pure hr.refl _)
  · intro row hp
    simp only [Bool.and_eq_true,Bool.not_eq_true'] at hp
    exact hp.1
  · intro row hp
    simpa only [Bool.not_eq_true'] using hp

end Respected

/-- A relation that updates under every schema and creations establish. -/
structure Followed (R : Database → Database → Prop) : Prop where
  /-- Every update establishes it. -/
  respected : ∀ env, Respected env R
  /-- Every creation establishes it. -/
  create : ∀ (sizes : RowSizes) (inputs : InputEnv) (env : SchemaEnv) (input : NewOperation)
    (createdAt : String), Keeps R (create sizes inputs env input createdAt)

theorem Followed.refl {R : Database → Database → Prop} (hr : Followed R) (d : Database) : R d d :=
  (hr.respected ⟨fun _ => false,fun _ => false,fun _ => none⟩).refl d

theorem Followed.trans {R : Database → Database → Prop} (hr : Followed R) (a b c : Database) :
    R a b → R b c → R a c :=
  (hr.respected ⟨fun _ => false,fun _ => false,fun _ => none⟩).trans a b c

theorem Followed.createBody {R : Database → Database → Prop} (hr : Followed R)
    (session : Session) (env : SchemaEnv) (input : NewOperation) (at_ : String) :
    Keeps R (OperationStore.createBody session env input at_) :=
  Keeps.bind hr.trans (Keeps.observe hr.refl _) fun _ =>
    Keeps.ite (Keeps.throw _) (Keeps.bind hr.trans (hr.create _ _ _ _ _) fun _ =>
      Keeps.pure hr.refl _)

theorem respected_frozen (env : SchemaEnv) : Respected env Frozen where
  refl := Frozen.refl
  trans := Frozen.trans
  operations {p f} hf hp := by
    intro d n d' h
    obtain ⟨-,rfl⟩ := updateOperations_ok h
    have hkey : ∀ row, (f row).identity.id=row.identity.id := fun row =>
      congrArg (fun s : OperationScope => s.identity.id) (hf row)
    constructor
    · intro id row hr ht
      exact lookup_update_kept hkey hr (unselected_operation hp ht)
    · intro id row hr _
      exact hr
  items {p f} hf hp := by
    intro d n d' h
    obtain ⟨-,rfl⟩ := updateItems_ok h
    have hkey : ∀ row, (f row).identity.id=row.identity.id := fun row =>
      congrArg ItemScope.id (hf row)
    constructor
    · intro id row hr _
      exact hr
    · intro id row hr ht
      exact lookup_update_kept hkey hr (unselected_item hp ht)

theorem followed_frozen : Followed Frozen where
  respected := respected_frozen
  create sizes inputs env input createdAt := by
    intro d stored d' h
    rcases create_ok h with rfl | ⟨total,rows,-,ho,hi,-⟩
    · exact Frozen.refl _
    constructor
    · intro id row hr _
      rw [ho]
      exact lookup_append hr _
    · intro id row hr _
      rw [hi]
      exact lookup_append hr _

section Updates

variable {d d' : Database} {p : OperationItem → Bool} {f : OperationItem → OperationItem}
variable {q : OperationHeader → Bool} {g : OperationHeader → OperationHeader}

theorem itemsOf_update (hi : d'.items=update p f d.items)
    (hf : ∀ row, (f row).operationId=row.operationId) (id : String) :
    itemsOf d' id=update p f (itemsOf d id) := by
  have hq : ∀ row, decide ((f row).operationId=id)=decide (row.operationId=id) := by
    intro row
    rw [hf row]
  rw [itemsOf,hi,filter_update hq,itemsOf]

theorem trueCounts_same (hi : d'.items=update p f d.items)
    (hf : ∀ row, (f row).operationId=row.operationId)
    (ht : ∀ row, p row=true → (f row).state.isTerminal=row.state.isTerminal) (id : String) :
    trueCounts d' id=trueCounts d id := by
  have hc : (update p f (itemsOf d id)).countP (fun row => row.state.isTerminal)=
      (itemsOf d id).countP fun row => row.state.isTerminal :=
    countP_update_same fun row _ hp => ht row hp
  simp only [trueCounts,siblingCounts,itemsOf_update hi hf,hc,length_update]

theorem trueCounts_gain (hi : d'.items=update p f d.items)
    (hf : ∀ row, (f row).operationId=row.operationId)
    (ht : ∀ row, p row=true → row.state.isTerminal=false ∧ (f row).state.isTerminal=true)
    (id : String) : trueCounts d' id=
      ⟨(trueCounts d id).completed+affected p (itemsOf d id),(trueCounts d id).total⟩ := by
  have hc : (update p f (itemsOf d id)).countP (fun row => row.state.isTerminal)=
      (itemsOf d id).countP (fun row => row.state.isTerminal)+affected p (itemsOf d id) :=
    countP_update_gain fun row _ hp => ht row hp
  simp only [trueCounts,siblingCounts,itemsOf_update hi hf,hc,length_update,Int.natCast_add]

theorem trueCounts_closed (hi : d'.items=update p f d.items)
    (hf : ∀ row, (f row).operationId=row.operationId)
    (ht : ∀ row, p row=true → (f row).state.isTerminal=true) {id : String}
    (hp : ∀ row, row.operationId=id → row.state.isTerminal=false → p row=true) :
    trueCounts d' id=⟨(trueCounts d id).total,(trueCounts d id).total⟩ := by
  have hall : ∀ row ∈ update p f (itemsOf d id), row.state.isTerminal=true := by
    intro row hm
    rcases mem_update.mp hm with ⟨hr,hn⟩ | ⟨old,-,hs,rfl⟩
    · cases hc : row.state.isTerminal with
      | true => rfl
      | false =>
        have ho := of_decide_eq_true (List.mem_filter.mp hr).2
        rw [hp row ho hc] at hn
        cases hn
    · exact ht old hs
  have hc := List.countP_eq_length.mpr hall
  simp only [trueCounts,siblingCounts,itemsOf_update hi hf,hc,length_update]

/-- Updates of both tables stay accounted for when every header then shows the
true counts and every closed header is complete. -/
theorem Accounted.updates (h : Accounted d) (hi : d'.items=update p f d.items)
    (ho : d'.operations=update q g d.operations)
    (hf : ∀ row, (f row).identity.id=row.identity.id ∧ (f row).operationId=row.operationId)
    (hg : ∀ row, (g row).identity.id=row.identity.id) (hc : ∀ row ∈ d.operations,
      (if q row=true then g row else row).counts=trueCounts d' row.identity.id)
    (ht : ∀ row ∈ d.operations, q row=true → isTerminal (g row).state=true →
      (g row).counts.completed=(g row).counts.total) : Accounted d' := by
  constructor
  · rw [ho,update_keys hg]
    exact h.operationKeys
  · rw [hi,update_keys fun row => (hf row).1]
    exact h.itemKeys
  · intro item hm
    have hp : ∃ old ∈ d.items, item.operationId=old.operationId := by
      rw [hi] at hm
      rcases mem_update.mp hm with ⟨hr,-⟩ | ⟨old,hr,-,rfl⟩
      · exact ⟨item,hr,rfl⟩
      · exact ⟨old,hr,(hf old).2⟩
    obtain ⟨old,hr,he⟩ := hp
    rw [ho,lookup_update hg,he,Option.isSome_map]
    exact h.parents old hr
  · intro row hm
    rw [ho] at hm
    rcases mem_update.mp hm with ⟨hr,hn⟩ | ⟨old,hr,hs,rfl⟩
    · have hk := hc row hr
      rw [hn,if_neg Bool.false_ne_true] at hk
      exact hk
    · have hk := hc old hr
      rw [hs,if_pos rfl] at hk
      rw [hk,hg old]
  · intro row hm hterm
    rw [ho] at hm
    rcases mem_update.mp hm with ⟨hr,-⟩ | ⟨old,hr,hs,rfl⟩
    · exact h.closed row hr hterm
    · exact ht old hr hs hterm

end Updates

variable {n : ℕ}

/-- An update of headers that keeps ids and counters, and closes only complete
operations, stays accounted for. -/
theorem accounted_updateOperations {env : SchemaEnv} {q : OperationHeader → Bool}
    {g : OperationHeader → OperationHeader} {d d' : Database} (h : Accounted d)
    (hr : (updateOperations env q g).run d=.ok (n,d'))
    (hg : ∀ row, (g row).identity.id=row.identity.id ∧ (g row).counts=row.counts)
    (ht : ∀ row ∈ d.operations, q row=true → isTerminal (g row).state=true →
      row.counts.completed=row.counts.total) : Accounted d' := by
  obtain ⟨-,rfl⟩ := updateOperations_ok hr
  refine h.updates (p:=fun _ => false) (f:=id) (update_none _ _) rfl
    (fun _ => ⟨rfl,rfl⟩) (fun row => (hg row).1) ?_ ?_
  · intro row hm
    have hk : (if q row=true then g row else row).counts=row.counts := by
      split
      · exact (hg row).2
      · rfl
    exact hk.trans (h.counts row hm)
  · intro row hm hs hterm
    rw [(hg row).2]
    exact ht row hm hs hterm

theorem accounted_updateItems {env : SchemaEnv} {p : OperationItem → Bool}
    {f : OperationItem → OperationItem} {d d' : Database} (h : Accounted d)
    (hr : (updateItems env p f).run d=.ok (n,d'))
    (hf : ∀ row, (f row).identity.id=row.identity.id ∧ (f row).operationId=row.operationId)
    (ht : ∀ row, p row=true → (f row).state.isTerminal=row.state.isTerminal) : Accounted d' := by
  obtain ⟨-,rfl⟩ := updateItems_ok hr
  refine h.updates (q:=fun _ => false) (g:=id) rfl (update_none _ _) hf (fun _ => rfl) ?_ ?_
  · intro row hm
    rw [if_neg Bool.false_ne_true,
      trueCounts_same (d:=d) rfl (fun r => (hf r).2) ht row.identity.id]
    exact h.counts row hm
  · intro row _ hs
    cases hs

variable {u : Unit}

/-- A committed completion stays accounted for: one item becomes terminal and
the counter of its one operation rises by one. -/
theorem accounted_completeItem {env : SchemaEnv} {c : CompleteItemCommand} {d d' : Database}
    (h : Accounted d) (hv : c.state.isTerminal=true)
    (hr : (write env (.completeItem c)).run d=.ok (u,d')) : Accounted d' := by
  obtain ⟨f,hf,hn,hm,hi,ho⟩ := write_completeItem_ok hr
  have hsel : ∀ row : OperationItem, (decide (row.identity.id=c.item.id) &&
      decide (row.operationId=c.operation.identity.id) && !row.state.isTerminal)=true →
      row.operationId=c.operation.identity.id ∧ row.state.isTerminal=false := by
    intro row hp
    simp only [Bool.and_eq_true,decide_eq_true_eq,Bool.not_eq_true'] at hp
    exact ⟨hp.1.2,hp.2⟩
  have hgain := trueCounts_gain hi (fun row => (hf row).2.1) fun row hp =>
    ⟨(hsel row hp).2,(hf row).2.2.symm ▸ hv⟩
  obtain ⟨parent,hpm,hps⟩ := exists_of_affected_one hm
  simp only [activeOperation,Bool.and_eq_true,decide_eq_true_eq,Bool.not_eq_true'] at hps
  refine h.updates hi ho (fun row => ⟨(hf row).1,(hf row).2.1⟩) (fun _ => rfl) ?_ ?_
  · intro row hrow
    have hk := h.counts row hrow
    by_cases hid : row.identity.id=c.operation.identity.id
    · have hsame : row=parent :=
        List.inj_on_of_nodup_map h.operationKeys hrow hpm (hid.trans hps.1.1.symm)
      have hone : affected (fun item : OperationItem => decide (item.identity.id=c.item.id) &&
          decide (item.operationId=c.operation.identity.id) && !item.state.isTerminal)
          (itemsOf d row.identity.id)=1 := by
        rw [itemsOf,affected_filter fun item hp =>
          decide_eq_true ((hsel item hp).1.trans hid.symm)]
        exact hn
      have hq : (activeOperation c.operation.identity.id row &&
          decide (row.counts.completed<row.counts.total))=true := by
        rw [hsame]
        simp only [activeOperation,hps.1.1,hps.1.2,hps.2,decide_true,Bool.not_false,
          Bool.and_self]
      rw [hq,if_pos rfl,hgain,hone,hk]
      rfl
    · have hzero : affected (fun item : OperationItem => decide (item.identity.id=c.item.id) &&
          decide (item.operationId=c.operation.identity.id) && !item.state.isTerminal)
          (itemsOf d row.identity.id)=0 := by
        rw [affected,List.countP_eq_zero]
        intro item him hp
        have hown := of_decide_eq_true (List.mem_filter.mp him).2
        exact hid (hown.symm.trans (hsel item hp).1)
      have hq : (activeOperation c.operation.identity.id row &&
          decide (row.counts.completed<row.counts.total))=false := by
        simp only [activeOperation,hid,decide_false,Bool.false_and]
      rw [hq,if_neg Bool.false_ne_true,hgain,hzero,hk]
      rfl
  · intro row _ hq hterm
    have hact := (activeOperation_true ((Bool.and_eq_true _ _).mp hq).1).2
    have hbad : isTerminal row.state=true := hterm
    rw [hact] at hbad
    cases hbad

theorem Accounted.closing {d d' : Database} (h : Accounted d) (S : String → Bool)
    {f : OperationItem → OperationItem} {g : OperationHeader → OperationHeader}
    (hi : d'.items=update (fun row => !row.state.isTerminal && S row.operationId) f d.items)
    (ho : d'.operations=update (fun row => !isTerminal row.state && S row.identity.id) g
      d.operations)
    (hf : ∀ row, (f row).identity.id=row.identity.id ∧ (f row).operationId=row.operationId ∧
      (f row).state.isTerminal=true) (hg : ∀ row, (g row).identity.id=row.identity.id ∧
      (g row).counts=⟨row.counts.total,row.counts.total⟩) : Accounted d' := by
  refine h.updates hi ho (fun row => ⟨(hf row).1,(hf row).2.1⟩) (fun row => (hg row).1) ?_ ?_
  · intro row hm
    have hk := h.counts row hm
    by_cases hs : S row.identity.id=true
    · have hopen : ∀ item : OperationItem, item.operationId=row.identity.id →
          item.state.isTerminal=false →
          (!item.state.isTerminal && S item.operationId)=true := by
        intro item hown hopen
        simp only [hopen,hown,hs,Bool.not_false,Bool.and_self]
      have hclosed := trueCounts_closed hi (fun item => (hf item).2.1)
        (fun item _ => (hf item).2.2) hopen
      cases ht : isTerminal row.state with
      | true =>
        have hfull := h.closed row hm ht
        rw [Bool.not_true,Bool.false_and,if_neg Bool.false_ne_true,hclosed,←hk]
        rcases hc : row.counts with ⟨completed,total⟩
        rw [hc] at hfull
        rw [show completed=total from hfull]
      | false =>
        rw [hs,Bool.not_false,Bool.true_and,if_pos rfl,(hg row).2,hclosed,hk]
    · have hs' : S row.identity.id=false := Bool.eq_false_iff.mpr hs
      have hq : ∀ item : OperationItem, (!item.state.isTerminal && S item.operationId)=true →
          decide (item.operationId=row.identity.id)=false := by
        intro item hp
        apply decide_eq_false
        intro he
        rw [he,hs',Bool.and_false] at hp
        cases hp
      have hsame : itemsOf d' row.identity.id=itemsOf d row.identity.id := by
        rw [itemsOf_update hi fun item => (hf item).2.1]
        exact update_filter_disjoint hq d.items
      rw [hs',Bool.and_false,if_neg Bool.false_ne_true,hk]
      simp only [trueCounts,siblingCounts,hsame]
  · intro row _ _ _
    rw [(hg row).2]

variable {witness : CommandWitness}

theorem accounted_write {env : SchemaEnv} {d d' : Database} (h : Accounted d)
    (hv : valid witness=true) (hr : (write env witness).run d=.ok (u,d')) : Accounted d' := by
  unfold valid at hv
  split_ifs at hv with hid
  cases witness with
  | completeItem c =>
    simp only [Bool.and_eq_true] at hv
    exact accounted_completeItem h hv.1.1.1 hr
  | finish c =>
    obtain ⟨f,hf,-,hi,ho⟩ := write_finish_ok hr
    refine h.updates (p:=fun _ => false) (f:=id) (hi.trans (update_none _ _)) ho
      (fun _ => ⟨rfl,rfl⟩) (fun row => (hf row).1) ?_ ?_
    · intro row hm
      have hk : trueCounts d' row.identity.id=trueCounts d row.identity.id := by
        simp only [trueCounts,siblingCounts,itemsOf,hi]
      rw [hk,←h.counts row hm]
      split
      · exact (hf row).2.1
      · rfl
    · intro row hm hq _
      rw [(hf row).2.1]
      exact of_decide_eq_true ((Bool.and_eq_true _ _).mp hq).2
  | interrupt c =>
    obtain ⟨-,hi,ho⟩ := write_interrupt_ok hr
    refine h.closing (fun id => decide (id=c.operation.identity.id))
      (hi.trans (update_congr ?_)) (ho.trans (update_congr ?_)) ?_ ?_
    · intro row _
      exact Bool.and_comm _ _
    · intro row _
      exact Bool.and_comm _ _
    · intro row
      exact ⟨rfl,rfl,rfl⟩
    · intro row
      exact ⟨rfl,rfl⟩

variable {session : Session}

theorem accounted_attemptBody {env : SchemaEnv} {d d' : Database} {result : WorkResult}
    (h : Accounted d) (hv : valid witness=true)
    (hr : (attemptBody session env witness).run d=.ok (result,d')) : Accounted d' := by
  obtain ⟨observation,d₁,h1,hr⟩ := bind_ok.mp hr
  obtain ⟨-,rfl⟩ := observe_ok.mp h1
  cases observation with
  | unapplied view =>
    obtain ⟨_,d₂,h2,hr⟩ := bind_ok.mp hr
    obtain ⟨-,rfl⟩ := pure_ok.mp hr
    exact accounted_write h hv h2
  | matching view | conflict view | unknown reason =>
    obtain ⟨-,rfl⟩ := pure_ok.mp hr
    exact h

theorem accounted_markRunning {env : SchemaEnv} {error : StorageError} {id at_ : String}
    {item : ℤ} {d d' : Database} (h : Accounted d)
    (hr : (markRunning env error id item at_).run d=.ok (u,d')) : Accounted d' := by
  obtain ⟨n,d₁,h1,hr⟩ := bind_ok.mp hr
  split at hr
  · exact (throw_ok.mp hr).elim
  obtain ⟨m,d₂,h2,hr⟩ := bind_ok.mp hr
  split at hr
  · exact (throw_ok.mp hr).elim
  obtain ⟨-,rfl⟩ := pure_ok.mp hr
  have hop : Accounted d₁ := by
    refine accounted_updateOperations h h1 (fun _ => ⟨rfl,rfl⟩) ?_
    intro row _ _ hterm
    exact absurd hterm Bool.false_ne_true
  refine accounted_updateItems hop h2 (fun _ => ⟨rfl,rfl⟩) ?_
  intro row hp
  simp only [Bool.and_eq_true,decide_eq_true_eq] at hp
  rw [hp.2]
  rfl

theorem accounted_startBody {env : SchemaEnv} {work : WorkItem} {at_ : String} {d d' : Database}
    (h : Accounted d) (hr : (startBody session env work at_).run d=.ok (u,d')) : Accounted d' := by
  obtain ⟨found,d₁,h1,hr⟩ := bind_ok.mp hr
  obtain ⟨-,rfl⟩ := observe_ok.mp h1
  cases found with
  | none => exact (throw_ok.mp hr).elim
  | some v =>
    dsimp only at hr
    split at hr
    · exact (throw_ok.mp hr).elim
    split at hr
    · obtain ⟨-,rfl⟩ := pure_ok.mp hr
      exact h
    · exact accounted_markRunning h hr

theorem accounted_progressBody {env : SchemaEnv} {item completed total : ℤ}
    {d d' : Database} (h : Accounted d)
    (hr : (progressBody env item completed total).run d=.ok (u,d')) : Accounted d' := by
  obtain ⟨active,d₁,h1,hr⟩ := bind_ok.mp hr
  obtain ⟨-,rfl⟩ := observe_ok.mp h1
  obtain ⟨n,d₂,h2,hr⟩ := bind_ok.mp hr
  obtain ⟨-,rfl⟩ := pure_ok.mp hr
  exact accounted_updateItems h h2 (fun _ => ⟨rfl,rfl⟩) fun _ _ => rfl

/-- A cancellation request keeps every state and counter. -/
theorem accounted_cancelUpdate {env : SchemaEnv} {q : OperationHeader → Bool}
    {d d' : Database} (h : Accounted d)
    (hr : (updateOperations env q fun row => {row with cancelRequested := true}).run d=
      .ok (n,d')) : Accounted d' := by
  refine accounted_updateOperations h hr (fun _ => ⟨rfl,rfl⟩) ?_
  intro row hm _ hterm
  exact h.closed row hm hterm

theorem accounted_cancelBody {env : SchemaEnv} {id : String} {d d' : Database} (h : Accounted d)
    (hr : (cancelBody env id).run d=.ok (u,d')) : Accounted d' := by
  obtain ⟨n,d₁,h1,hr⟩ := bind_ok.mp hr
  split at hr
  · exact (throw_ok.mp hr).elim
  obtain ⟨-,rfl⟩ := pure_ok.mp hr
  exact accounted_cancelUpdate h h1

theorem accounted_cancelAllBody {env : SchemaEnv} {d d' : Database} (h : Accounted d)
    (hr : (cancelAllBody env).run d=.ok (u,d')) : Accounted d' := by
  obtain ⟨n,d₁,h1,hr⟩ := bind_ok.mp hr
  obtain ⟨-,rfl⟩ := pure_ok.mp hr
  exact accounted_cancelUpdate h h1

theorem accounted_recoverBody {env : SchemaEnv} {cleanupFailed : Bool} {at_ : String}
    {d d' : Database} (h : Accounted d) (hr : (recoverBody env cleanupFailed at_).run d=.ok
    (u,d')) :
    Accounted d' := by
  obtain ⟨bad,d₁,h1,hr⟩ := bind_ok.mp hr
  obtain ⟨-,rfl⟩ := observe_ok.mp h1
  split at hr
  · exact (throw_ok.mp hr).elim
  obtain ⟨operations,d₂,h2,hr⟩ := bind_ok.mp hr
  obtain ⟨ho,rfl⟩ := observe_ok.mp h2
  obtain ⟨n,d₃,h3,hr⟩ := bind_ok.mp hr
  obtain ⟨m,d₄,h4,hr⟩ := bind_ok.mp hr
  obtain ⟨-,rfl⟩ := pure_ok.mp hr
  obtain ⟨-,rfl⟩ := updateItems_ok h3
  obtain ⟨-,rfl⟩ := updateOperations_ok h4
  have he : d.operations=operations := Except.ok.inj ho
  refine h.closing (fun id => operations.any (activeOperation id)) rfl
    (update_congr ?_) ?_ ?_
  · intro row hm
    cases ht : isTerminal row.state with
    | true => rfl
    | false =>
      have hs : operations.any (activeOperation row.identity.id)=true := by
        rw [List.any_eq_true]
        refine ⟨row,he ▸ hm,?_⟩
        simp only [activeOperation,decide_true,ht,Bool.not_false,Bool.and_self]
      rw [hs,Bool.not_false,Bool.true_and]
  · intro row
    exact ⟨rfl,rfl,rfl⟩
  · intro row
    exact ⟨rfl,rfl⟩

variable {sizes : RowSizes}

/-- A creation stays accounted for: its header counts the items planned
terminal among exactly the items it inserts. -/
theorem accounted_create {inputs : InputEnv} {env : SchemaEnv} {input : NewOperation}
    {createdAt : String} {d d' : Database} {stored : OperationSnapshot} (h : Accounted d)
    (hr : (create sizes inputs env input createdAt).run d=.ok (stored,d')) : Accounted d' := by
  rcases create_ok hr with rfl | ⟨total,rows,hfree,ho,hi,hl,hown,hterm,hnd⟩
  · exact h
  have hnew : ∀ row ∈ d.operations, row.identity.id≠input.id := lookup_none.mp hfree
  have hitems : ∀ id, itemsOf d' id=itemsOf d id++rows.filter fun row => row.operationId=id := by
    intro id
    rw [itemsOf,hi,List.filter_append,itemsOf]
  have hnone : itemsOf d input.id=[] := by
    rw [itemsOf,List.filter_eq_nil_iff]
    intro item hm hp
    have hk := h.parents item hm
    rw [of_decide_eq_true hp,hfree] at hk
    cases hk
  have hall : rows.filter (fun row => row.operationId=input.id)=rows := by
    rw [List.filter_eq_self]
    intro row hm
    exact decide_eq_true (hown row hm)
  have hkeep : ∀ row ∈ d.operations, trueCounts d' row.identity.id=
      trueCounts d row.identity.id := by
    intro row hm
    have hz : rows.filter (fun r => r.operationId=row.identity.id)=[] := by
      rw [List.filter_eq_nil_iff]
      intro r hrm hp
      exact hnew row hm ((of_decide_eq_true hp).symm.trans (hown r hrm))
    simp only [trueCounts,siblingCounts,hitems,hz,List.append_nil]
  constructor
  · rw [ho,List.map_append,List.nodup_append]
    refine ⟨h.operationKeys,List.nodup_singleton _,?_⟩
    intro a ha b hb hab
    obtain ⟨row,hm,rfl⟩ := List.mem_map.mp ha
    rw [List.map_singleton,List.mem_singleton] at hb
    exact hnew row hm (hab.trans hb)
  · exact hnd h.itemKeys
  · intro item hm
    rw [hi] at hm
    rw [ho,lookup,List.find?_append,Option.isSome_or]
    rcases List.mem_append.mp hm with hm | hm
    · have hk := h.parents item hm
      rw [lookup] at hk
      rw [hk,Bool.true_or]
    · have hk : (List.find? (fun row : OperationHeader =>
          decide (row.identity.id=item.operationId))
          [newHeader inputs input total createdAt]).isSome=true := by
        rw [List.find?_isSome]
        exact ⟨_,List.mem_singleton_self _,decide_eq_true (hown item hm).symm⟩
      rw [hk,Bool.or_true]
  · intro row hm
    rw [ho] at hm
    rcases List.mem_append.mp hm with hm | hm
    · rw [hkeep row hm]
      exact h.counts row hm
    · rw [List.mem_singleton] at hm
      subst hm
      have hid : (newHeader inputs input total createdAt).identity.id=input.id := rfl
      simp only [hid,trueCounts,siblingCounts,hitems,hnone,hall,List.nil_append,hterm,hl]
      rfl
  · intro row hm hclosed
    rw [ho] at hm
    rcases List.mem_append.mp hm with hm | hm
    · exact h.closed row hm hclosed
    · rw [List.mem_singleton] at hm
      subst hm
      cases hclosed

theorem accounted_createBody {env : SchemaEnv} {input : NewOperation} {at_ : String}
    {d d' : Database} (h : Accounted d)
    (hr : (createBody session env input at_).run d=.ok (u,d')) : Accounted d' := by
  obtain ⟨other,d₁,h1,hr⟩ := bind_ok.mp hr
  obtain ⟨-,rfl⟩ := observe_ok.mp h1
  split at hr
  · exact (throw_ok.mp hr).elim
  obtain ⟨stored,d₂,h2,hr⟩ := bind_ok.mp hr
  obtain ⟨-,rfl⟩ := pure_ok.mp hr
  exact accounted_create h h2

section Submissions

variable {α : Type} {body : Body α}

theorem submit_keeps {R : Database → Database → Prop} (hr : ∀ d, R d d) (hb : Keeps R body)
    (call : StoreCall) (d : Database) : R d (submit call body d).2 := by
  have hk : R d (runTransaction call.fault body d).2 := hb.runTransaction hr call.fault d
  unfold submit
  cases call.refused with
  | some error => exact hr d
  | none =>
    cases call.replyLost with
    | none => exact hk
    | some lost =>
      dsimp only
      split
      · exact hk
      · exact hr d

theorem submit_preserves {I : Database → Prop} (hb : ∀ d a d', I d → body.run d=.ok (a,d') → I d')
    (call : StoreCall) {d : Database} (hi : I d) : I (submit call body d).2 :=
  submit_keeps (R:=fun d d' => I d → I d') (fun _ h => h)
    (fun d a d' h hs => hb d a d' hs h) call d hi

theorem submit_refused {call : StoreCall} {d : Database}
    (h : (submit call body d).1.refused=true) : (submit call body d).2=d := by
  unfold submit at h ⊢
  cases hc : call.refused with
  | some e => rfl
  | none =>
    rw [hc] at h
    cases hl : call.replyLost with
    | some lost =>
      rw [hl] at h
      cases h
    | none =>
      rw [hl] at h
      cases ho : (runTransaction call.fault body d).1 with
      | provenNotCommitted error => exact runTransaction_provenNotCommitted (Prod.ext ho rfl)
      | committed value =>
        dsimp only at h
        rw [ho] at h
        cases h
      | commitUncertain error =>
        dsimp only at h
        rw [ho] at h
        cases h

theorem submit_changed {call : StoreCall} {d : Database} (h : (submit call body d).2≠d) :
    ∃ a, body.run d=.ok (a,(submit call body d).2) := by
  have hk : (runTransaction call.fault body d).2=d ∨
      ∃ a, body.run d=.ok (a,(runTransaction call.fault body d).2) := by
    rcases runTransaction_cases call.fault body d with
      ⟨a,w,hw,he⟩ | ⟨e,he⟩ | ⟨e,he⟩ | ⟨e,a,w,hw,he⟩
    · exact .inr ⟨a,by rw [he]; exact hw⟩
    · exact .inl (by rw [he])
    · exact .inl (by rw [he])
    · exact .inr ⟨a,by rw [he]; exact hw⟩
  unfold submit at h ⊢
  cases hc : call.refused with
  | some e =>
    rw [hc] at h
    exact absurd rfl h
  | none =>
    rw [hc] at h
    cases hl : call.replyLost with
    | none =>
      rw [hl] at h
      rcases hk with hk | hk
      · exact absurd hk h
      · exact hk
    | some lost =>
      rw [hl] at h
      dsimp only at h ⊢
      split at h
      · next hr =>
        rw [if_pos hr]
        rcases hk with hk | hk
        · exact absurd hk h
        · exact hk
      · exact absurd rfl h

end Submissions

theorem attempt_submits (session : Session) (opened : ℕ) (call : StoreCall)
    (witness : CommandWitness) (d : Database) :
    (attempt session opened call witness d).2=d ∨ (valid witness=true ∧
      (attempt session opened call witness d).2=
        (submit call (attemptBody session call.schema witness) d).2) := by
  cases hr : refusal opened witness with
  | some reason =>
    left
    simp only [attempt,hr]
  | none =>
    right
    constructor
    · cases hv : valid witness with
      | true => rfl
      | false =>
        rw [refusal,hv] at hr
        split_ifs at hr with _ hf
        exact absurd rfl hf
    · simp only [attempt,hr]

theorem Followed.recoverRounds {R : Database → Database → Prop} (hr : Followed R)
    (cleanupFailed : Bool) (at_ : String) (rounds : List RecoveryRound) (d : Database) :
    R d (OperationStore.recoverRounds cleanupFailed at_ rounds d).2 := by
  induction rounds generalizing d with
  | nil => exact hr.refl d
  | cons round rounds ih =>
    have hs : R d (submit round.repair
        (OperationStore.recoverBody round.repair.schema cleanupFailed at_) d).2 :=
      submit_keeps hr.refl ((hr.respected _).recoverBody _ _) round.repair d
    rw [OperationStore.recoverRounds]
    split
    · exact hr.trans _ _ _ hs (ih _)
    · exact hs
    · exact hs
    · exact hs
    · exact hs
    · split
      · exact hs
      · split
        · exact hs
        · exact hr.trans _ _ _ hs (ih _)

theorem accounted_recoverRounds (cleanupFailed : Bool) (at_ : String) (rounds : List RecoveryRound)
    {d : Database} (h : Accounted d) : Accounted (recoverRounds cleanupFailed at_ rounds d).2 := by
  induction rounds generalizing d with
  | nil => exact h
  | cons round rounds ih =>
    have hs : Accounted (submit round.repair
        (recoverBody round.repair.schema cleanupFailed at_) d).2 :=
      submit_preserves (fun _ _ _ hi hr => accounted_recoverBody hi hr) round.repair h
    rw [recoverRounds]
    split
    · exact ih hs
    · exact hs
    · exact hs
    · exact hs
    · exact hs
    · split
      · exact hs
      · split
        · exact hs
        · exact ih hs

theorem recoverOperationStartup_rows (cleanup : Except StorageError Unit)
    (clock : Except StorageError String) (rounds : List RecoveryRound) (d : Database) :
    (recoverOperationStartup cleanup clock rounds d).2=d ∨ ∃ failed at_,
      (recoverOperationStartup cleanup clock rounds d).2=(recoverRounds failed at_ rounds d).2 := by
  cases clock with
  | error e => exact .inl rfl
  | ok at_ =>
    right
    refine ⟨cleanupFailed cleanup,at_,?_⟩
    unfold recoverOperationStartup
    dsimp only
    split
    · next he => rw [he]
    · rfl

/-- Every event respects the relation. -/
theorem Followed.step {R : Database → Database → Prop} (hr : Followed R) (session : Session)
    (event : Event) (d : Database) : R d (OperationStore.step session event d).2 := by
  cases event with
  | createJob call input at_ =>
    change R d (createJob session call input at_ d).2
    unfold createJob
    split
    · exact hr.refl d
    · exact submit_keeps hr.refl (hr.createBody _ _ _ _) call d
  | createOperation call input createdAt =>
    change R d (createOperation session call input createdAt d).2
    unfold createOperation
    split
    · exact hr.refl d
    · exact submit_keeps hr.refl (hr.create _ _ _ _ _) call d
  | startItem call work at_ =>
    exact submit_keeps hr.refl ((hr.respected _).startBody _ _ _) call d
  | markOperationItemRunning call id item at_ =>
    exact submit_keeps hr.refl ((hr.respected _).markRunning _ _ _ _) call d
  | attempt opened call witness =>
    change R d (attempt session opened call witness d).2
    rcases attempt_submits session opened call witness d with he | ⟨-,he⟩
    · rw [he]
      exact hr.refl d
    · rw [he]
      exact submit_keeps hr.refl ((hr.respected _).attemptBody _ _) call d
  | saveProgress call item completed total =>
    change R d (saveProgress call item completed total d).2
    unfold saveProgress
    split
    · exact hr.refl d
    · exact submit_keeps hr.refl ((hr.respected _).progressBody _ _ _) call d
  | requestCancel call id => exact submit_keeps hr.refl ((hr.respected _).cancelBody _) call d
  | cancelAll call => exact submit_keeps hr.refl (hr.respected _).cancelAllBody call d
  | recoverOperationStartup cleanup clock rounds =>
    change R d (recoverOperationStartup cleanup clock rounds d).2
    rcases recoverOperationStartup_rows cleanup clock rounds d with he | ⟨failed,at_,he⟩
    · rw [he]
      exact hr.refl d
    · rw [he]
      exact hr.recoverRounds failed at_ rounds d

theorem accounted_step (session : Session) (event : Event) {d : Database}
    (h : Accounted d) : Accounted (step session event d).2 := by
  cases event with
  | createJob call input at_ =>
    change Accounted (createJob session call input at_ d).2
    unfold createJob
    split
    · exact h
    · exact submit_preserves (fun _ _ _ hi hr => accounted_createBody hi hr) call h
  | createOperation call input createdAt =>
    change Accounted (createOperation session call input createdAt d).2
    unfold createOperation
    split
    · exact h
    · exact submit_preserves (fun _ _ _ hi hr => accounted_create hi hr) call h
  | startItem call work at_ =>
    exact submit_preserves (fun _ _ _ hi hr => accounted_startBody hi hr) call h
  | markOperationItemRunning call id item at_ =>
    exact submit_preserves (fun _ _ _ hi hr => accounted_markRunning hi hr) call h
  | attempt opened call witness =>
    change Accounted (attempt session opened call witness d).2
    rcases attempt_submits session opened call witness d with he | ⟨hv,he⟩
    · rw [he]
      exact h
    · rw [he]
      exact submit_preserves (fun _ _ _ hi hr => accounted_attemptBody hi hv hr) call h
  | saveProgress call item completed total =>
    change Accounted (saveProgress call item completed total d).2
    unfold saveProgress
    split
    · exact h
    · exact submit_preserves (fun _ _ _ hi hr => accounted_progressBody hi hr) call h
  | requestCancel call id =>
    exact submit_preserves (fun _ _ _ hi hr => accounted_cancelBody hi hr) call h
  | cancelAll call =>
    exact submit_preserves (fun _ _ _ hi hr => accounted_cancelAllBody hi hr) call h
  | recoverOperationStartup cleanup clock rounds =>
    change Accounted (recoverOperationStartup cleanup clock rounds d).2
    rcases recoverOperationStartup_rows cleanup clock rounds d with he | ⟨failed,at_,he⟩
    · rw [he]
      exact h
    · rw [he]
      exact accounted_recoverRounds failed at_ rounds h

theorem frozen_run (session : Session) (events : List Event) (d : Database) :
    Frozen d (run session events d) := by
  induction events generalizing d with
  | nil => exact Frozen.refl d
  | cons event events ih =>
    exact Frozen.trans _ _ _ (followed_frozen.step session event d) (ih _)

theorem accounted_run (session : Session) (events : List Event) {d : Database}
    (h : Accounted d) : Accounted (run session events d) := by
  induction events generalizing d with
  | nil => exact h
  | cons event events ih => exact ih (accounted_step session event h)

theorem writeResult_refused {α : Type} {reply : Submitted α}
    (h : (Reply.store (writeResult reply)).failed=true) : reply.refused=true := by
  cases reply with
  | notAdmitted error => rfl
  | lost error => cases h
  | answered outcome =>
    cases outcome with
    | committed value => cases h
    | provenNotCommitted error => rfl
    | commitUncertain error => cases h

theorem committedView_failed (session : Session) (call : StoreCall) (witness : CommandWitness)
    (d : Database) : (committedView session call witness d).1.failed=false := by
  unfold committedView
  split
  · rfl
  · split <;> rfl

theorem attemptReply_refused {call : StoreCall} {witness : CommandWitness} {d : Database}
    {reply : Submitted WorkResult}
    (h : (attemptReply session call witness d reply).1.failed=true) : reply.refused=true := by
  cases reply with
  | notAdmitted error => rfl
  | lost error => cases h
  | answered outcome =>
    cases outcome with
    | provenNotCommitted error => rfl
    | commitUncertain error => cases h
    | committed result =>
      cases result with
      | written =>
        have hf := committedView_failed session call witness d
        rw [show (committedView session call witness d).1.failed=true from h] at hf
        cases hf
      | observed observation => cases observation <;> cases h

/-- An event that reports no effect left the tables. -/
theorem failed_step (session : Session) (event : Event) (d : Database)
    (h : (step session event d).1.failed=true) : (step session event d).2=d := by
  cases event with
  | createJob call input at_ =>
    change (Reply.store (createJob session call input at_ d).1).failed=true at h
    change (createJob session call input at_ d).2=d
    unfold createJob at h ⊢
    split
    · rfl
    · next hv =>
      rw [hv] at h
      exact submit_refused (writeResult_refused h)
  | createOperation call input createdAt =>
    change (Reply.created (createOperation session call input createdAt d).1).failed=true at h
    change (createOperation session call input createdAt d).2=d
    unfold createOperation at h ⊢
    split
    · rfl
    · next hv =>
      rw [hv] at h
      exact submit_refused h
  | startItem call work at_ => exact submit_refused (writeResult_refused h)
  | markOperationItemRunning call id item at_ => exact submit_refused h
  | attempt opened call witness =>
    change (attempt session opened call witness d).1.disposition.failed=true at h
    change (attempt session opened call witness d).2=d
    cases hr : refusal opened witness with
    | some reason => simp only [attempt,hr]
    | none =>
      simp only [attempt,hr] at h ⊢
      exact submit_refused (attemptReply_refused h)
  | saveProgress call item completed total =>
    change (Reply.store (saveProgress call item completed total d).1).failed=true at h
    change (saveProgress call item completed total d).2=d
    unfold saveProgress at h ⊢
    split
    · rfl
    · next hv =>
      rw [if_neg hv] at h
      exact submit_refused (writeResult_refused h)
  | requestCancel call id => exact submit_refused (writeResult_refused h)
  | cancelAll call => exact submit_refused (writeResult_refused h)
  | recoverOperationStartup cleanup clock rounds => cases h

/-- The rows record a command's target as closed, by this or another command. -/
def Settled (d : Database) : CommandWitness → Prop
  | .completeItem c => ∃ row, lookup (·.identity.id) c.item.id d.items=some row ∧
      row.operationId=c.operation.identity.id ∧ row.state.isTerminal=true
  | witness => ∃ row, lookup (·.identity.id) (scope witness).identity.id d.operations=some row ∧
      isTerminal row.state=true

theorem Settled.later {d d' : Database} {witness : CommandWitness} (h : Settled d witness)
    (hf : Frozen d d') : Settled d' witness := by
  cases witness with
  | completeItem c =>
    obtain ⟨row,hr,ho,ht⟩ := h
    exact ⟨row,hf.items _ row hr ht,ho,ht⟩
  | finish c =>
    obtain ⟨row,hr,ht⟩ := h
    exact ⟨row,hf.operations _ row hr ht,ht⟩
  | interrupt c =>
    obtain ⟨row,hr,ht⟩ := h
    exact ⟨row,hf.operations _ row hr ht,ht⟩

theorem inspect_unapplied {d : Database} {v : TerminalView}
    (h : inspect sizes d witness=.ok (.unapplied v)) :
    view sizes d (scope witness).identity.id (itemId witness)=.ok (some v) ∧
      isTerminal v.operation.state=false ∧
      v.item.any (fun item => item.state.isTerminal)=false := by
  obtain ⟨found,hv,h⟩ := exceptBind_ok.mp h
  cases found with
  | none => cases h
  | some w =>
    have hc : classify witness w=.unapplied v := Except.ok.inj h
    unfold classify at hc
    split at hc
    · cases hc
    split at hc
    · cases hc
    · cases hc
    · split at hc
      · cases hc
      · next hn =>
        have he : w=v := Inspection.unapplied.inj hc
        rw [Bool.or_eq_true,not_or,Bool.not_eq_true,Bool.not_eq_true] at hn
        rw [←he]
        exact ⟨hv,hn.1,hn.2⟩

theorem Settled.not_unapplied {d : Database} (h : Settled d witness) (v : TerminalView) :
    inspect sizes d witness≠.ok (.unapplied v) := by
  intro hu
  obtain ⟨hv,ho,hi⟩ := inspect_unapplied hu
  obtain ⟨hop,hitem,-⟩ := view_some hv
  cases witness with
  | completeItem c =>
    obtain ⟨row,hr,hown,ht⟩ := h
    have hfound : itemOf d c.operation.identity.id c.item.id=some row :=
      lookup_filter hr (decide_eq_true hown)
    have hshow : v.item=some row := hitem.trans hfound
    rw [hshow,Option.any_some,ht] at hi
    cases hi
  | finish c =>
    obtain ⟨row,hr,ht⟩ := h
    have he : row=v.operation := Option.some.inj (hr.symm.trans hop)
    rw [←he,ht] at ho
    cases ho
  | interrupt c =>
    obtain ⟨row,hr,ht⟩ := h
    have he : row=v.operation := Option.some.inj (hr.symm.trans hop)
    rw [←he,ht] at ho
    cases ho

theorem settled_write {env : SchemaEnv} {d d' : Database} (h : Accounted d)
    (hv : valid witness=true) (hr : (write env witness).run d=.ok (u,d')) : Settled d' witness := by
  have hd := accounted_write h hv hr
  unfold valid at hv
  split_ifs at hv with hid
  cases witness with
  | completeItem c =>
    simp only [Bool.and_eq_true] at hv
    obtain ⟨f,hf,hn,-,hi,-⟩ := write_completeItem_ok hr
    obtain ⟨row,hm,hp⟩ := exists_of_affected_one hn
    have hsel := hp
    simp only [Bool.and_eq_true,decide_eq_true_eq,Bool.not_eq_true'] at hsel
    have hnew : f row ∈ d'.items := hi ▸ mem_update.mpr (.inr ⟨row,hm,hp,rfl⟩)
    have hl := lookup_of_mem hd.itemKeys hnew
    rw [(hf row).1,hsel.1.1] at hl
    exact ⟨f row,hl,(hf row).2.1.trans hsel.1.2,(hf row).2.2.symm ▸ hv.1.1.1⟩
  | finish c =>
    simp only [Bool.and_eq_true] at hv
    obtain ⟨f,hf,hn,hi,ho⟩ := write_finish_ok hr
    obtain ⟨row,hm,hp⟩ := exists_of_affected_one hn
    have hsel := hp
    simp only [activeOperation,Bool.and_eq_true,decide_eq_true_eq] at hsel
    have hnew : f row ∈ d'.operations := ho ▸ mem_update.mpr (.inr ⟨row,hm,hp,rfl⟩)
    have hl := lookup_of_mem hd.operationKeys hnew
    rw [(hf row).1,hsel.1.1] at hl
    exact ⟨f row,hl,(hf row).2.2.symm ▸ hv.1⟩
  | interrupt c =>
    obtain ⟨hn,hi,ho⟩ := write_interrupt_ok hr
    obtain ⟨row,hm,hp⟩ := exists_of_affected_one hn
    have hsel := hp
    simp only [activeOperation,Bool.and_eq_true,decide_eq_true_eq] at hsel
    have hnew := (congrArg (_ ∈ ·) ho).mpr (mem_update.mpr (.inr ⟨row,hm,hp,rfl⟩))
    have hl := lookup_of_mem hd.operationKeys hnew
    dsimp only at hl
    rw [hsel.1] at hl
    exact ⟨_,hl,rfl⟩

theorem attempt_changed {opened : ℕ} {call : StoreCall} {witness : CommandWitness} {d : Database}
    (h : Accounted d) (hc : (attempt session opened call witness d).2≠d) :
    (∃ v, inspect session.sizes d witness=.ok (.unapplied v)) ∧
      Settled (attempt session opened call witness d).2 witness := by
  rcases attempt_submits session opened call witness d with he | ⟨hv,he⟩
  · exact absurd he hc
  rw [he] at hc ⊢
  obtain ⟨result,hr⟩ := submit_changed hc
  obtain ⟨observation,d₁,h1,hr⟩ := bind_ok.mp hr
  obtain ⟨ho,rfl⟩ := observe_ok.mp h1
  cases observation with
  | unapplied v =>
    obtain ⟨_,d₂,h2,hr⟩ := bind_ok.mp hr
    obtain ⟨-,hd⟩ := pure_ok.mp hr
    rw [←hd]
    exact ⟨⟨v,ho⟩,settled_write h hv h2⟩
  | matching v | conflict v | unknown reason =>
    obtain ⟨-,hd⟩ := pure_ok.mp hr
    exact absurd hd.symm hc

theorem Settled.attempt_unchanged {witness : CommandWitness} {d : Database} (h : Settled d witness)
    (ha : Accounted d) (opened : ℕ)
    (call : StoreCall) : (attempt session opened call witness d).2=d := by
  by_contra hc
  obtain ⟨⟨v,hv⟩,-⟩ := attempt_changed ha hc
  exact h.not_unapplied v hv

/-- Over every run of calls under any surroundings, every operation accounts for
its items exactly once, terminal rows never change, a reported failure left all
rows, only an unapplied command is written, and no command is written twice. -/
theorem exactly_once_accounting (session : Session) (events : List Event) :
    (∀ row ∈ (run session events emptyTables).operations,
      row.counts.completed=
        (siblingCounts (run session events emptyTables) row.identity.id).terminal ∧
      row.counts.completed≤row.counts.total ∧
      row.counts.total=(siblingCounts (run session events emptyTables) row.identity.id).items ∧
      (isTerminal row.state=true → ∀ item ∈ itemsOf (run session events emptyTables)
        row.identity.id, item.state.isTerminal=true)) ∧
    (∀ later, Frozen (run session events emptyTables)
      (run session later (run session events emptyTables))) ∧
    (∀ event, (step session event (run session events emptyTables)).1.failed=true →
      (step session event (run session events emptyTables)).2=
        run session events emptyTables) ∧
    (∀ opened call witness,
      (attempt session opened call witness (run session events emptyTables)).2≠
        run session events emptyTables →
      (∃ v, inspect session.sizes (run session events emptyTables) witness=
        .ok (.unapplied v)) ∧
      ∀ later reopened recalled,
        (attempt session reopened recalled witness (run session later
          (attempt session opened call witness (run session events emptyTables)).2)).2=
        run session later
          (attempt session opened call witness (run session events emptyTables)).2) := by
  have ha : Accounted (run session events emptyTables) :=
    accounted_run session events accounted_emptyTables
  refine ⟨?_,fun later => frozen_run session later _,fun event => failed_step session event _,?_⟩
  · intro row hm
    have hc := ha.counts row hm
    refine ⟨?_,(ha.bounded hm).2,?_,?_⟩
    · rw [hc]
      rfl
    · rw [hc]
      rfl
    · intro ht item hi
      obtain ⟨him,hown⟩ := List.mem_filter.mp hi
      exact ha.items_terminal hm ht him (of_decide_eq_true hown)
  · intro opened call witness hc
    obtain ⟨hu,hs⟩ := attempt_changed ha hc
    refine ⟨hu,?_⟩
    intro later reopened recalled
    have hb := accounted_step session (.attempt opened call witness) ha
    have hf := frozen_run session later
      (attempt session opened call witness (run session events emptyTables)).2
    exact (hs.later hf).attempt_unchanged (accounted_run session later hb) reopened recalled

end Librairii.OperationAccounting
