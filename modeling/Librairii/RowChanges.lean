import Librairii.OperationAccounting

/-!
# What the calls of the job store do to single rows

Every call but a creation rewrites the stored rows in place. It keeps the immutable columns,
leaves terminal rows as they are, makes no item pending again and no item running but the one
it starts. A creation keeps every row and appends those of one operation under a free id.
-/

namespace Librairii.RowChanges

open CheckedResults StorageTransactions RowTables OperationRows OperationPolicy OperationCreation
  OperationStore OperationAccounting

/-- What a call does to an operation row when it may close some operations. -/
structure HeaderChange (closes : String → Prop) (row row' : OperationHeader) : Prop where
  /-- The immutable columns are kept. -/
  scope : row'.immutableScope=row.immutableScope
  /-- A terminal row is kept. -/
  closed : isTerminal row.state=true → row'=row
  /-- No operation becomes terminal but one that the call may close. -/
  active : isTerminal row'.state=true → isTerminal row.state=true ∨ closes row.identity.id

/-- What a call does to an item row when it may start one item. -/
structure ItemChange (started : Option ℤ) (row row' : OperationItem) : Prop where
  /-- The immutable columns are kept. -/
  scope : row'.immutableScope=row.immutableScope
  /-- A terminal row is kept. -/
  closed : row.state.isTerminal=true → row'=row
  pending : row'.state=.pending → row.state=.pending
  running : row'.state=.running → row.state=.running ∨ started=some row.identity.id

/-- Rows rewritten in place by calls that may close some operations and start one item. -/
structure RowsChange (closes : String → Prop) (started : Option ℤ) (d d' : Database) :
    Prop where
  /-- Operation rows in their order. -/
  operations : List.Forall₂ (HeaderChange closes) d.operations d'.operations
  /-- Item rows in their order. -/
  items : List.Forall₂ (ItemChange started) d.items d'.items

variable {closes : String → Prop}

theorem HeaderChange.refl (row : OperationHeader) : HeaderChange closes row row :=
  ⟨rfl,fun _ => rfl,.inl⟩

theorem ItemChange.refl (started : Option ℤ) (row : OperationItem) : ItemChange started row row :=
  ⟨rfl,fun _ => rfl,id,fun h => .inl h⟩

theorem ItemChange.id {started : Option ℤ} {row row' : OperationItem}
    (h : ItemChange started row row') : row'.identity.id=row.identity.id :=
  congrArg ItemScope.id h.scope

theorem HeaderChange.id {row row' : OperationHeader} (h : HeaderChange closes row row') :
    row'.identity.id=row.identity.id :=
  congrArg (fun s : OperationScope => s.identity.id) h.scope

theorem HeaderChange.trans {a b c : OperationHeader} (h : HeaderChange closes a b)
    (h' : HeaderChange closes b c) : HeaderChange closes a c := by
  constructor
  · exact h'.scope.trans h.scope
  · intro ht
    have hb := h.closed ht
    subst hb
    exact h'.closed ht
  · intro ht
    rcases h'.active ht with hb | hb
    · exact h.active hb
    · exact .inr (h.id ▸ hb)

theorem ItemChange.trans {started : Option ℤ} {a b c : OperationItem}
    (h : ItemChange started a b) (h' : ItemChange started b c) : ItemChange started a c := by
  constructor
  · exact h'.scope.trans h.scope
  · intro ht
    have hb := h.closed ht
    subst hb
    exact h'.closed ht
  · intro hp
    exact h.pending (h'.pending hp)
  · intro hr
    rcases h'.running hr with hb | hb
    · exact h.running hb
    · exact .inr (hb.trans (congrArg some h.id))

theorem RowsChange.refl (started : Option ℤ) (d : Database) : RowsChange closes started d d :=
  ⟨List.forall₂_same.mpr fun row _ => .refl row,List.forall₂_same.mpr fun row _ => .refl _ row⟩

theorem forall₂_trans {α : Type} {R : α → α → Prop} (ht : ∀ a b c, R a b → R b c → R a c)
    {as bs : List α} (h : List.Forall₂ R as bs) : ∀ {cs}, List.Forall₂ R bs cs →
      List.Forall₂ R as cs := by
  induction h with
  | nil =>
    intro cs h'
    exact h'
  | cons hab _ ih =>
    intro cs h'
    cases h' with
    | cons hbc htail => exact .cons (ht _ _ _ hab hbc) (ih htail)

theorem RowsChange.trans {started : Option ℤ} (a b c : Database) (h : RowsChange closes started a b)
    (h' : RowsChange closes started b c) : RowsChange closes started a c :=
  ⟨forall₂_trans (fun _ _ _ hab hbc => hab.trans hbc) h.operations h'.operations,
    forall₂_trans (fun _ _ _ hab hbc => hab.trans hbc) h.items h'.items⟩

theorem forall₂_update {α : Type} {R : α → α → Prop} (hr : ∀ a, R a a) {p : α → Bool} {f : α → α}
    (hf : ∀ a, p a=true → R a (f a)) (rows : List α) : List.Forall₂ R rows (update p f rows) := by
  induction rows with
  | nil => exact .nil
  | cons row rows ih =>
    refine .cons ?_ ih
    change R row (if p row=true then f row else row)
    by_cases hp : p row=true
    · rw [if_pos hp]
      exact hf row hp
    · rw [if_neg hp]
      exact hr row

variable {started : Option ℤ} {env : SchemaEnv}

theorem changes_updateOperations {p : OperationHeader → Bool}
    {f : OperationHeader → OperationHeader} (hf : ∀ row, (f row).immutableScope=row.immutableScope)
    (hp : ∀ row, p row=true → isTerminal row.state=false)
    (hc : ∀ row, p row=true → isTerminal (f row).state=true → closes row.identity.id) :
    Keeps (RowsChange closes started) (updateOperations env p f) := by
  intro d n d' h
  obtain ⟨-,rfl⟩ := updateOperations_ok h
  have hsame : RowsChange closes started d d := .refl started d
  refine ⟨forall₂_update HeaderChange.refl ?_ _,hsame.items⟩
  intro row hrow
  refine ⟨hf row,?_,fun ht => .inr (hc row hrow ht)⟩
  intro ht
  rw [hp row hrow] at ht
  cases ht

theorem changes_updateItems {p : OperationItem → Bool} {f : OperationItem → OperationItem}
    (hf : ∀ row, (f row).immutableScope=row.immutableScope)
    (hp : ∀ row, p row=true → row.state.isTerminal=false)
    (hpending : ∀ row, p row=true → (f row).state=.pending → row.state=.pending)
    (hrunning : ∀ row, p row=true → (f row).state=.running →
      row.state=.running ∨ started=some row.identity.id) :
    Keeps (RowsChange closes started) (updateItems env p f) := by
  intro d n d' h
  obtain ⟨-,rfl⟩ := updateItems_ok h
  have hsame : RowsChange closes started d d := .refl started d
  refine ⟨hsame.operations,forall₂_update (.refl started) ?_ _⟩
  intro row hrow
  refine ⟨hf row,?_,hpending row hrow,hrunning row hrow⟩
  intro ht
  rw [hp row hrow] at ht
  cases ht

/-- The one-row guard leaves the tables. -/
theorem changes_exactlyOne (rows : ℕ) : Keeps (RowsChange closes started) (exactlyOne rows) := by
  intro d u d' h
  rw [(exactlyOne_ok h).2]
  exact .refl started d

theorem terminal_settled {state : ItemState} (h : state.isTerminal=true) :
    state≠.pending ∧ state≠.running := by
  cases state <;> simp_all [ItemState.isTerminal]

theorem valid_completion {c : CompleteItemCommand} (h : valid (.completeItem c)=true) :
    c.state.isTerminal=true := by
  unfold valid at h
  split at h
  · cases h
  · simp only [Bool.and_eq_true] at h
    exact h.1.1.1

theorem changes_write {witness : CommandWitness} (hv : valid witness=true)
    (hcloses : closes (scope witness).identity.id) :
    Keeps (RowsChange closes started) (write env witness) := by
  unfold write
  cases witness with
  | completeItem c =>
    have hc := terminal_settled (valid_completion hv)
    refine Keeps.bind RowsChange.trans (changes_updateItems (fun _ => rfl) ?_
      (fun _ _ h => absurd h hc.1) fun _ _ h => absurd h hc.2) fun n =>
      Keeps.bind RowsChange.trans (changes_exactlyOne n) fun _ =>
      Keeps.bind RowsChange.trans (changes_updateOperations (fun _ => rfl) ?_ ?_)
        changes_exactlyOne
    · intro row hp
      simp only [Bool.and_eq_true,Bool.not_eq_true'] at hp
      exact hp.2
    · intro row hp
      exact (activeOperation_true ((Bool.and_eq_true _ _).mp hp).1).2
    · intro row hp _
      rw [(activeOperation_true ((Bool.and_eq_true _ _).mp hp).1).1]
      exact hcloses
  | finish c =>
    refine Keeps.bind RowsChange.trans (changes_updateOperations (fun _ => rfl) ?_ ?_)
      changes_exactlyOne
    · intro row hp
      exact (activeOperation_true ((Bool.and_eq_true _ _).mp hp).1).2
    · intro row hp _
      rw [(activeOperation_true ((Bool.and_eq_true _ _).mp hp).1).1]
      exact hcloses
  | interrupt c =>
    refine Keeps.bind RowsChange.trans (changes_updateItems (fun _ => rfl) ?_
      (fun _ _ h => nomatch h) fun _ _ h => nomatch h) fun _ =>
      Keeps.bind RowsChange.trans (changes_updateOperations (fun _ => rfl) ?_ ?_)
        changes_exactlyOne
    · intro row hp
      simp only [Bool.and_eq_true,Bool.not_eq_true'] at hp
      exact hp.2
    · intro row hp
      exact (activeOperation_true hp).2
    · intro row hp _
      rw [(activeOperation_true hp).1]
      exact hcloses

theorem changes_attemptBody {session : Session} {witness : CommandWitness}
    (hv : valid witness=true) (hcloses : closes (scope witness).identity.id) :
    Keeps (RowsChange closes started) (attemptBody session env witness) := by
  refine Keeps.bind RowsChange.trans (Keeps.observe (RowsChange.refl started) _)
    fun observation => ?_
  cases observation with
  | unapplied view =>
    exact Keeps.bind RowsChange.trans (changes_write hv hcloses) fun _ =>
      Keeps.pure (RowsChange.refl started) _
  | matching view => exact Keeps.pure (RowsChange.refl started) _
  | conflict view => exact Keeps.pure (RowsChange.refl started) _
  | unknown reason => exact Keeps.pure (RowsChange.refl started) _

theorem changes_attempt (session : Session) (opened : ℕ) (call : StoreCall)
    {witness : CommandWitness} (hcloses : closes (scope witness).identity.id) (d : Database) :
    RowsChange closes started d (attempt session opened call witness d).2 := by
  rcases attempt_submits session opened call witness d with he | ⟨hv,he⟩
  · rw [he]
    exact .refl started d
  · rw [he]
    exact submit_keeps (RowsChange.refl started) (changes_attemptBody hv hcloses) call d

theorem changes_markRunning (error : StorageError) (id : String) (item : ℤ) (at_ : String) :
    Keeps (RowsChange closes (some item)) (markRunning env error id item at_) := by
  refine Keeps.bind RowsChange.trans (changes_updateOperations (fun _ => rfl)
    (fun _ hp => (activeOperation_true hp).2) fun _ _ ht => nomatch ht) fun n =>
    Keeps.ite (Keeps.throw _) (Keeps.bind RowsChange.trans
      (changes_updateItems (fun _ => rfl) ?_ (fun _ _ h => nomatch h) ?_) fun m =>
      Keeps.ite (Keeps.throw _) (Keeps.pure (RowsChange.refl _) _))
  · intro row hp
    simp only [Bool.and_eq_true,decide_eq_true_eq] at hp
    rw [hp.2]
    rfl
  · intro row hp _
    simp only [Bool.and_eq_true,decide_eq_true_eq] at hp
    exact .inr (congrArg some hp.1.1.symm)

theorem changes_startItem (session : Session) (call : StoreCall) (work : WorkItem) (at_ : String)
    (d : Database) :
    RowsChange closes (some work.item.identity.id) d (startItem session call work at_ d).2 := by
  refine submit_keeps (RowsChange.refl _) ?_ call d
  refine Keeps.bind RowsChange.trans (Keeps.observe (RowsChange.refl _) _) fun found => ?_
  cases found with
  | none => exact Keeps.throw _
  | some v =>
    exact Keeps.ite (Keeps.throw _)
      (Keeps.ite (Keeps.pure (RowsChange.refl _) _) (changes_markRunning _ _ _ _))

theorem changes_progressBody (item completed total : ℤ) :
    Keeps (RowsChange closes started) (progressBody env item completed total) := by
  refine Keeps.bind RowsChange.trans (Keeps.observe (RowsChange.refl started) _) fun active =>
    Keeps.bind RowsChange.trans (changes_updateItems (fun _ => rfl) ?_ ?_ ?_) fun _ =>
    Keeps.pure (RowsChange.refl started) _
  · intro row hp
    simp only [Bool.and_eq_true,decide_eq_true_eq] at hp
    rw [hp.1.1.1.2]
    rfl
  · intro row _ h
    exact h
  · intro row _ h
    exact .inl h

theorem changes_saveProgress (call : StoreCall) (item completed total : ℤ) (d : Database) :
    RowsChange closes started d (saveProgress call item completed total d).2 := by
  unfold saveProgress
  split
  · exact .refl started d
  · exact submit_keeps (RowsChange.refl started) (changes_progressBody _ _ _) call d

theorem changes_cancelBody (id : String) : Keeps (RowsChange closes started) (cancelBody env id) :=
  Keeps.bind RowsChange.trans
    (changes_updateOperations (fun _ => rfl) (fun _ hp => (activeOperation_true hp).2)
      fun _ hp ht => absurd ht ((activeOperation_true hp).2 ▸ Bool.false_ne_true)) fun _ =>
    Keeps.ite (Keeps.throw _) (Keeps.pure (RowsChange.refl started) _)

theorem changes_requestCancel (call : StoreCall) (id : String) (d : Database) :
    RowsChange closes started d (requestCancel call id d).2 :=
  submit_keeps (RowsChange.refl started) (changes_cancelBody id) call d

theorem changes_cancelAllBody : Keeps (RowsChange closes started) (cancelAllBody env) := by
  have hactive : ∀ row : OperationHeader, (!isTerminal row.state)=true →
      isTerminal row.state=false := fun row hp => by simpa only [Bool.not_eq_true'] using hp
  exact Keeps.bind RowsChange.trans (changes_updateOperations (fun _ => rfl) hactive
    fun row hp ht => absurd ht (hactive row hp ▸ Bool.false_ne_true)) fun _ =>
    Keeps.pure (RowsChange.refl started) _

theorem changes_cancelAll (call : StoreCall) (d : Database) :
    RowsChange closes started d (cancelAll call d).2 :=
  submit_keeps (RowsChange.refl started) changes_cancelAllBody call d

theorem changes_recoverBody (hcloses : ∀ id, closes id) (failed : Bool) (at_ : String) :
    Keeps (RowsChange closes started) (recoverBody env failed at_) := by
  have hr : ∀ d, RowsChange closes started d d := RowsChange.refl started
  refine Keeps.bind RowsChange.trans (Keeps.observe hr _) fun bad =>
    Keeps.ite (Keeps.throw _) (Keeps.bind RowsChange.trans (Keeps.observe hr _)
      fun operations => Keeps.bind RowsChange.trans (changes_updateItems (fun _ => rfl) ?_
        (fun _ _ h => nomatch h) fun _ _ h => nomatch h) fun _ =>
      Keeps.bind RowsChange.trans (changes_updateOperations (fun _ => rfl) ?_
        fun row _ _ => hcloses row.identity.id) fun _ => Keeps.pure hr _)
  · intro row hp
    simp only [Bool.and_eq_true,Bool.not_eq_true'] at hp
    exact hp.1
  · intro row hp
    simpa only [Bool.not_eq_true'] using hp

theorem changes_recoverRounds (hcloses : ∀ id, closes id) (failed : Bool) (at_ : String)
    (rounds : List RecoveryRound) (d : Database) :
    RowsChange closes started d (recoverRounds failed at_ rounds d).2 := by
  induction rounds generalizing d with
  | nil => exact .refl started d
  | cons round rounds ih =>
    have hs : RowsChange closes started d (submit round.repair
        (recoverBody round.repair.schema failed at_) d).2 :=
      submit_keeps (RowsChange.refl started) (changes_recoverBody hcloses _ _) round.repair d
    rw [recoverRounds]
    split
    · exact hs.trans _ _ _ (ih _)
    · exact hs
    · exact hs
    · exact hs
    · exact hs
    · split
      · exact hs
      · split
        · exact hs
        · exact hs.trans _ _ _ (ih _)

theorem changes_recoverOperationStartup (hcloses : ∀ id, closes id)
    (cleanup : Except StorageError Unit) (clock : Except StorageError String)
    (rounds : List RecoveryRound) (d : Database) :
    RowsChange closes started d (recoverOperationStartup cleanup clock rounds d).2 := by
  rcases recoverOperationStartup_rows cleanup clock rounds d with he | ⟨failed,at_,he⟩
  · rw [he]
    exact .refl started d
  · rw [he]
    exact changes_recoverRounds hcloses failed at_ rounds d

/-- A committed repair leaves no active operation. -/
theorem recoverBody_closed {failed : Bool} {at_ : String} {d d' : Database} {u : Unit}
    (h : (recoverBody env failed at_).run d=.ok (u,d')) : allClosed d'=true := by
  obtain ⟨bad,d₁,h1,h⟩ := bind_ok.mp h
  obtain ⟨-,rfl⟩ := observe_ok.mp h1
  split at h
  · exact (throw_ok.mp h).elim
  obtain ⟨operations,d₂,h2,h⟩ := bind_ok.mp h
  obtain ⟨-,rfl⟩ := observe_ok.mp h2
  obtain ⟨n,d₃,h3,h⟩ := bind_ok.mp h
  obtain ⟨m,d₄,h4,h⟩ := bind_ok.mp h
  obtain ⟨-,rfl⟩ := pure_ok.mp h
  obtain ⟨-,rfl⟩ := updateItems_ok h3
  obtain ⟨-,rfl⟩ := updateOperations_ok h4
  rw [allClosed,Bool.not_eq_true',List.any_eq_false]
  intro row hm
  rcases mem_update.mp hm with ⟨_,hp⟩ | ⟨old,_,_,rfl⟩
  · rw [hp]
    exact Bool.false_ne_true
  · exact Bool.false_ne_true

theorem submit_committed {α : Type} {body : Body α} {call : StoreCall} {d : Database} {a : α}
    (h : (submit call body d).1=.answered (.committed a)) :
    body.run d=.ok (a,(submit call body d).2) := by
  unfold submit at h ⊢
  cases hc : call.refused with
  | some e =>
    rw [hc] at h
    cases h
  | none =>
    rw [hc] at h
    cases hl : call.replyLost with
    | some lost =>
      rw [hl] at h
      cases h
    | none =>
      rw [hl] at h
      have ho : (runTransaction call.fault body d).1=.committed a := Submitted.answered.inj h
      rcases runTransaction_cases call.fault body d with
        ⟨b,w,hw,he⟩ | ⟨e,he⟩ | ⟨e,he⟩ | ⟨e,b,w,hw,he⟩
      · rw [he] at ho ⊢
        cases ho
        exact hw
      all_goals
        rw [he] at ho
        cases ho

theorem recoverRounds_closed {failed : Bool} {at_ : String} {rounds : List RecoveryRound}
    {d : Database} (h : (recoverRounds failed at_ rounds d).1=some (.ok ())) :
    allClosed (recoverRounds failed at_ rounds d).2=true := by
  induction rounds generalizing d with
  | nil => cases h
  | cons round rounds ih =>
    rw [recoverRounds] at h ⊢
    split at h
    · exact ih h
    · cases h
    · cases h
    · next hr => exact recoverBody_closed (submit_committed hr)
    · cases h
    · split at h
      · cases h
      · split at h
        · next hc =>
          rw [if_pos hc]
          exact hc
        · next hc =>
          rw [if_neg hc]
          exact ih h

theorem recovered_closed {cleanup : Except StorageError Unit} {clock : Except StorageError String}
    {rounds : List RecoveryRound} {d : Database}
    (h : (recoverOperationStartup cleanup clock rounds d).1=some (.ok ())) :
    allClosed (recoverOperationStartup cleanup clock rounds d).2=true := by
  unfold recoverOperationStartup at h ⊢
  cases clock with
  | error e => cases h
  | ok at_ =>
    dsimp only at h ⊢
    split at h
    · next u after he =>
      have hc := recoverRounds_closed (congrArg Prod.fst he)
      rw [he] at hc
      exact hc
    · next he => exact (he () _ (Prod.ext h rfl)).elim

section Creation

def assigned (row : OperationItem) (id : ℤ) : OperationItem :=
  {row with identity := {row.identity with id := id}}

/-- A creation appended one operation with its items. -/
structure Created (inputs : InputEnv) (input : NewOperation) (d d' : Database) : Prop where
  free : ∀ row ∈ d.operations, row.identity.id≠input.id
  /-- The operation row is appended. -/
  operations : ∃ total createdAt,
    d'.operations=d.operations++[newHeader inputs input total createdAt]
  items : ∃ rows, d'.items=d.items++rows ∧
    List.Forall₂ (fun item row => ∃ id, row=assigned (newItemRow input.id item) id) input.items rows
  /-- Row ids stay unique. -/
  keys : (d.items.map (·.identity.id)).Nodup → (d'.items.map (·.identity.id)).Nodup

theorem insertItems_rows {id : String} {items : List NewItem} {d d' : Database} {u : Unit}
    (h : (insertItems env id items).run d=.ok (u,d')) :
    ∃ rows, d'={d with items := d.items++rows} ∧
      List.Forall₂ (fun item row => ∃ key, row=assigned (newItemRow id item) key) items rows := by
  induction items generalizing d u with
  | nil =>
    obtain ⟨-,rfl⟩ := pure_ok.mp h
    exact ⟨[],by rw [List.append_nil],.nil⟩
  | cons item items ih =>
    obtain ⟨_,d₁,h1,h⟩ := bind_ok.mp h
    have he := insertItem_ok h1
    obtain ⟨rows,hd,hrows⟩ := ih h
    refine ⟨assigned (newItemRow id item) (nextRowId d.items)::rows,?_,.cons ⟨_,rfl⟩ hrows⟩
    rw [hd,he]
    simp only [assigned,List.append_assoc,List.singleton_append]

/-- A creation leaves the tables or appends its operation. -/
theorem create_rows {sizes : RowSizes} {inputs : InputEnv} {input : NewOperation}
    {createdAt : String} {d d' : Database} {stored : OperationSnapshot}
    (h : (create sizes inputs env input createdAt).run d=.ok (stored,d')) :
    d'=d ∨ Created inputs input d d' := by
  obtain ⟨total,-,-,⟨he,-⟩ | ⟨hfree,hi,-⟩⟩ := create_cases h
  · exact .inl he
  · obtain ⟨-,-,-,-,-,hkeys⟩ := insertItems_ok hi
    obtain ⟨rows,rfl,hrows⟩ := insertItems_rows hi
    exact .inr ⟨lookup_none.mp hfree,⟨total,createdAt,rfl⟩,⟨rows,rfl,hrows⟩,hkeys⟩

def metadataFree (input : NewOperation) (d : Database) : Prop :=
  input.kind=.metadataSync → ∀ row ∈ d.operations, row.kind=.metadataSync →
    row.identity.id≠input.id → isTerminal row.state=true

/-- A job creation leaves the tables or appends its operation, beside no other active
metadata refresh when it is one. -/
theorem createBody_rows {session : Session} {input : NewOperation} {at_ : String}
    {d d' : Database} {u : Unit} (h : (createBody session env input at_).run d=.ok (u,d')) :
    d'=d ∨ Created session.inputs input d d' ∧ metadataFree input d := by
  obtain ⟨other,d₁,h1,h⟩ := bind_ok.mp h
  obtain ⟨hother,rfl⟩ := observe_ok.mp h1
  split at h
  · exact (throw_ok.mp h).elim
  next ho =>
  obtain ⟨stored,d₂,h2,h⟩ := bind_ok.mp h
  obtain ⟨-,rfl⟩ := pure_ok.mp h
  rcases create_rows h2 with he | hc
  · exact .inl he
  refine .inr ⟨hc,?_⟩
  intro hkind row hm hrow hne
  have hfalse := Bool.not_eq_true _ ▸ ho
  rw [←Except.ok.inj hother,decide_eq_true hkind,Bool.true_and,List.any_eq_false] at hfalse
  have hnot := hfalse row hm
  simp only [hrow,decide_true,Bool.true_and,hne,ne_eq,not_false_eq_true,Bool.and_true,
    Bool.not_eq_true',Bool.not_eq_false] at hnot
  exact hnot

/-- Storing a job leaves the tables or appends its operation; an answer that asks for another
attempt or rejects the job left them. -/
theorem createJob_rows (session : Session) (call : StoreCall) (input : NewOperation) (at_ : String)
    (d : Database) :
    (createJob session call input at_ d).2=d ∨
      (Created session.inputs input d (createJob session call input at_ d).2 ∧
        metadataFree input d) ∧
      (createJob session call input at_ d).1≠.retry ∧
      (createJob session call input at_ d).1≠.rejected := by
  by_cases hsame : (createJob session call input at_ d).2=d
  · exact .inl hsame
  right
  have hfailed := mt (failed_step session (.createJob call input at_) d) hsame
  refine ⟨?_,?_,?_⟩
  · unfold createJob at hsame ⊢
    split
    · next hv =>
      rw [hv] at hsame
      exact absurd rfl hsame
    · next hv =>
      rw [hv] at hsame
      obtain ⟨u,hu⟩ := submit_changed hsame
      rcases createBody_rows hu with he | hc
      · exact absurd he hsame
      · exact hc
  · intro h
    exact hfailed (congrArg (fun r => (Reply.store r).failed) h)
  · intro h
    exact hfailed (congrArg (fun r => (Reply.store r).failed) h)

end Creation

end Librairii.RowChanges
