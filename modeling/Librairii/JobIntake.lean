import Librairii.JobRows

/-!
# Starts between their offer and their receipt

A start is taken from the ingress, decided by the coordinator and acknowledged. Until it is
admitted its operation is not stored, an acknowledged acceptance means that it is, and before its
acknowledgement nothing closes it. Every active operation of a session that has recovered
belongs to a start of the session and has its kind and its items.
-/

namespace Librairii.JobIntake

open StorageTransactions RowTables OperationRows OperationPolicy OperationCreation OperationStore
  OperationAccounting
  OperationReporting RowChanges JobDispatch JobRows
open JobScheduler hiding Event step run
open ExportStarts (Start)

/-- A start that is neither admitted nor rejected. -/
def Undecided (s : System) (start : Start) : Prop :=
  s.state.ingress=some start ∨ deciding s.coordinator=some start

/-- The start of the coordinator whose operation cannot be stored yet. -/
def unstored : Coordinator → Option Start
  | .taken start _ _ | .admitting start _ false _ _ | .acknowledging start false _ _ => some start
  | _ => none

/-- The stored items of an operation are those of its start, in their order. -/
def Matches (start : Start) (d : Database) : Prop :=
  List.Forall₂ (fun item row => row.operationId=start.input.id ∧
    row.immutableScope=
      (assigned (newItemRow start.input.id item) row.identity.id).immutableScope)
    start.input.items (itemsOf d start.input.id)

/-- What is known of the starts of a session. -/
structure Intake (offered : List Start) (s : System) : Prop where
  /-- Every start has its own id. -/
  keys : (offered.map (·.input.id)).Nodup
  /-- What is taken in was offered. -/
  undecided : ∀ start, Undecided s start → start ∈ offered
  /-- While a start is decided nothing else is taken in or acknowledged. -/
  single : deciding s.coordinator≠none →
    s.state.admitting=true ∧ s.state.ingress=none ∧ s.state.admission=none
  /-- While a start waits nothing is acknowledged. -/
  receipt : s.state.ingress≠none → s.state.admission=none
  /-- Before its admission an operation is not stored. -/
  fresh : ∀ start, s.state.ingress=some start ∨ unstored s.coordinator=some start →
    lookup (·.identity.id) start.input.id s.rows.operations=none
  stored : ∀ start id stopping, s.coordinator=.acknowledging start true id stopping →
    ∃ row, lookup (·.identity.id) start.input.id s.rows.operations=some row
  /-- An operation with the receipt of a rejection is not stored. -/
  refused : ∀ id, s.state.admission=some ⟨id,false⟩ →
    lookup (·.identity.id) id s.rows.operations=none
  /-- No item in the hands of the scheduler belongs to an undecided start. -/
  apart : ∀ start, Undecided s start → ∀ work ∈ works s,
    work.operation.identity.id≠start.input.id
  active : ∀ start, Undecided s start → ∀ row,
    lookup (·.identity.id) start.input.id s.rows.operations=some row →
      isTerminal row.state=false
  /-- The operation of a start has its kind and its items. -/
  rows : ∀ start ∈ offered, ∀ row,
    lookup (·.identity.id) start.input.id s.rows.operations=some row →
      row.kind=start.input.kind ∧ Matches start s.rows
  /-- Once the store has recovered every active operation belongs to a start. -/
  known : s.state.ready=true → ∀ row ∈ s.rows.operations, isTerminal row.state=false →
    ∃ start ∈ offered, start.input.id=row.identity.id

/-- An id that belongs neither to a start of the session nor to a stored operation. -/
def Fresh (offered : List Start) (s : System) (id : String) : Prop :=
  (∀ start ∈ offered, start.input.id≠id) ∧ ∀ row ∈ s.rows.operations, row.identity.id≠id

variable {r : Runtime} {s : System} {offered : List Start}

theorem itemsOf_related {R : OperationItem → OperationItem → Prop}
    (hkey : ∀ a b, R a b → b.operationId=a.operationId) {rows rows' : List OperationItem}
    (h : List.Forall₂ R rows rows') (id : String) :
    List.Forall₂ R (rows.filter fun row => row.operationId=id)
      (rows'.filter fun row => row.operationId=id) := by
  induction h with
  | nil => exact .nil
  | @cons a b rows rows' hab _ ih =>
    by_cases hid : a.operationId=id
    · have hid' : b.operationId=id := (hkey a b hab).trans hid
      rw [List.filter_cons_of_pos (by simpa using hid),
        List.filter_cons_of_pos (by simpa using hid')]
      exact .cons hab ih
    · have hid' : b.operationId≠id := fun he => hid ((hkey a b hab).symm.trans he)
      rw [List.filter_cons_of_neg (by simpa using hid),
        List.filter_cons_of_neg (by simpa using hid')]
      exact ih

variable {start : Start} {d d' : Database}

theorem matches_changes {closes : String → Prop} {started : Option ℤ} (hm : Matches start d)
    (h : RowsChange closes started d d') : Matches start d' := by
  have hitems := itemsOf_related (fun a b hr => congrArg ItemScope.operationId hr.scope) h.items
    start.input.id
  unfold Matches at hm ⊢
  change List.Forall₂ (ItemChange started) (itemsOf d start.input.id)
    (itemsOf d' start.input.id) at hitems
  generalize itemsOf d start.input.id=before at hm hitems
  generalize itemsOf d' start.input.id=after at hitems ⊢
  generalize start.input.items=items at hm ⊢
  induction hm generalizing after with
  | nil =>
    cases hitems
    exact .nil
  | @cons item row items rows hrow _ ih =>
    cases hitems with
    | @cons _ row' _ rows' hchange htail =>
      refine .cons ⟨?_,?_⟩ (ih rows' htail)
      · exact (congrArg ItemScope.operationId hchange.scope).trans hrow.1
      · rw [hchange.scope,hrow.2,hchange.id]

theorem created_own {id : String} {items : List NewItem} {rows : List OperationItem}
    (h : List.Forall₂ (fun item row => ∃ key, row=assigned (newItemRow id item) key) items rows) :
    ∀ row ∈ rows, row.operationId=id := by
  induction h with
  | nil =>
    intro row hrow
    cases hrow
  | cons hfirst _ ih =>
    intro row hrow
    rcases List.mem_cons.mp hrow with rfl | htail
    · obtain ⟨key,rfl⟩ := hfirst
      rfl
    · exact ih row htail

variable {inputs : InputEnv}

theorem matches_created (hd : Accounted d) (h : Created inputs start.input d d') :
    Matches start d' := by
  obtain ⟨rows,hitems,hrows⟩ := h.items
  have hnone : itemsOf d start.input.id=[] := by
    rw [itemsOf,List.filter_eq_nil_iff]
    intro item hitem hown
    obtain ⟨parent,hparent⟩ := Option.isSome_iff_exists.mp (hd.parents item hitem)
    obtain ⟨hmem,hkey⟩ := lookup_mem hparent
    exact h.free parent hmem (hkey.trans (of_decide_eq_true hown))
  have hall : rows.filter (fun row => row.operationId=start.input.id)=rows := by
    rw [List.filter_eq_self]
    intro row hrow
    exact decide_eq_true (created_own hrows row hrow)
  unfold Matches
  rw [itemsOf,hitems,List.filter_append,←itemsOf,hnone,List.nil_append,hall]
  refine hrows.imp ?_
  rintro item row ⟨id,rfl⟩
  exact ⟨rfl,rfl⟩

variable {input : NewOperation}

theorem matches_beside (hm : Matches start d) (h : Created inputs input d d')
    (hne : input.id≠start.input.id) : Matches start d' := by
  obtain ⟨rows,hitems,hrows⟩ := h.items
  have hnone : rows.filter (fun row => row.operationId=start.input.id)=[] := by
    rw [List.filter_eq_nil_iff]
    intro row hrow hown
    exact hne ((created_own hrows row hrow).symm.trans (of_decide_eq_true hown))
  unfold Matches
  rw [itemsOf,hitems,List.filter_append,hnone,List.append_nil]
  exact hm

theorem Intake.closing (h : Intake offered s) (ht : Tracked r s) (hu : Undecided s start)
    {row : OperationHeader}
    (hrow : lookup (·.identity.id) start.input.id s.rows.operations=some row) :
    ¬JobRows.closing s start.input.id := by
  have hingress : deciding s.coordinator=none → False := by
    intro hnone
    rcases hu with hin | hde
    · rw [h.fresh start (.inl hin)] at hrow
      cases hrow
    · rw [hnone] at hde
      cases hde
  rintro (hc | ⟨report,phase,hc,-⟩ | ⟨work,report,phase,resources,hmem,hid⟩)
  · exact hingress (by rw [hc]; rfl)
  · exact hingress (by rw [hc]; rfl)
  · obtain ⟨-,a,result,rfl⟩ := ht.workers _ hmem
    have hheld : work ∈ s.held := List.mem_filterMap.mpr ⟨_,hmem,rfl⟩
    exact h.apart start hu work
      (List.mem_append_right _ (List.mem_append_right _ hheld)) hid

/-- Rows rewritten in place keep what is known of the starts. -/
theorem Intake.changes (h : Intake offered s) (ht : Tracked r s) {started : Option ℤ}
    (hd : RowsChange (JobRows.closing s) started s.rows d') :
    Intake offered {s with rows := d'} := by
  have hback := fun {id : String} {row' : OperationHeader}
      (hrow' : lookup (·.identity.id) id d'.operations=some row') =>
    lookup_related_back (fun _ _ hr => hr.id) hd.operations row' hrow'
  have hnone : ∀ {id : String}, lookup (·.identity.id) id s.rows.operations=none →
      lookup (·.identity.id) id d'.operations=none := by
    intro id hid
    cases hrow' : lookup (·.identity.id) id d'.operations with
    | none => rfl
    | some row' =>
      obtain ⟨row,hrow,-⟩ := hback hrow'
      rw [hid] at hrow
      cases hrow
  constructor
  · exact h.keys
  · exact h.undecided
  · exact h.single
  · exact h.receipt
  · intro start hstart
    exact hnone (h.fresh start hstart)
  · intro start id stopping hc
    obtain ⟨row,hrow⟩ := h.stored start id stopping hc
    obtain ⟨row',hrow',-⟩ := (changes_later hd).operations _ row hrow
    exact ⟨row',hrow'⟩
  · intro id hid
    exact hnone (h.refused id hid)
  · exact h.apart
  · intro start hu row' hrow'
    obtain ⟨row,hrow,hr⟩ := hback hrow'
    cases hterminal : isTerminal row'.state with
    | false => rfl
    | true =>
      rcases hr.active hterminal with hold | hcloses
      · rw [h.active start hu row hrow] at hold
        cases hold
      · rw [(lookup_mem hrow).2] at hcloses
        exact absurd hcloses (h.closing ht hu hrow)
  · intro start hstart row' hrow'
    obtain ⟨row,hrow,hr⟩ := hback hrow'
    obtain ⟨hkind,hmatches⟩ := h.rows start hstart row hrow
    have hsame : row'.kind=row.kind := congrArg OperationScope.kind hr.scope
    exact ⟨hsame.trans hkind,matches_changes hmatches hd⟩
  · intro hready row' hrow' hactive
    obtain ⟨row,hrow,hr⟩ := related_mem hd.operations row' hrow'
    have hbefore : isTerminal row.state=false := by
      cases hterminal : isTerminal row.state with
      | false => rfl
      | true =>
        rw [hr.closed hterminal,hterminal] at hactive
        cases hactive
    obtain ⟨start,hstart,hid⟩ := h.known hready row hrow hbefore
    exact ⟨start,hstart,hid.trans hr.id.symm⟩

/-- A step that takes nothing in and decides nothing keeps what is known of the starts. -/
theorem Intake.frame (h : Intake offered s) {s' : System} (hrows : s'.rows=s.rows)
    (hcoordinator : deciding s'.coordinator=none ∨ s'.coordinator=s.coordinator)
    (hingress : s'.state.ingress=s.state.ingress)
    (hadmission : s'.state.admission=s.state.admission ∨ s'.state.admission=none)
    (hadmitting : s'.state.admitting=s.state.admitting) (hready : s'.state.ready=s.state.ready)
    (hworks : ∀ start, Undecided s start → ∀ work ∈ works s', work ∈ works s ∨
      work.operation.identity.id≠start.input.id) : Intake offered s' := by
  have hold : ∀ {start}, Undecided s' start → Undecided s start := by
    rintro start (hin | hde)
    · exact .inl (hingress.symm.trans hin)
    · rcases hcoordinator with hc | hc
      · rw [hc] at hde
        cases hde
      · exact .inr (hc ▸ hde)
  have hun : ∀ {start}, unstored s'.coordinator=some start →
      unstored s.coordinator=some start := by
    intro start hun
    rcases hcoordinator with hc | hc
    · revert hun hc
      cases s'.coordinator with
      | admitting _ _ unknown _ _ => exact fun _ hc => nomatch hc
      | acknowledging _ accepted _ _ => exact fun _ hc => nomatch hc
      | taken _ _ _ => exact fun _ hc => nomatch hc
      | _ => exact fun hun _ => nomatch hun
    · exact hc ▸ hun
  constructor
  · exact h.keys
  · intro start hu
    exact h.undecided start (hold hu)
  · intro hde
    rcases hcoordinator with hc | hc
    · exact absurd hc hde
    · obtain ⟨h1,h2,h3⟩ := h.single (hc ▸ hde)
      refine ⟨hadmitting.trans h1,hingress.trans h2,?_⟩
      rcases hadmission with ha | ha
      · exact ha.trans h3
      · exact ha
  · intro hin
    rcases hadmission with ha | ha
    · exact ha.trans (h.receipt (hingress ▸ hin))
    · exact ha
  · intro start hstart
    rw [hrows]
    rcases hstart with hin | hde
    · exact h.fresh start (.inl (hingress.symm.trans hin))
    · exact h.fresh start (.inr (hun hde))
  · intro start id stopping hc'
    rw [hrows]
    rcases hcoordinator with hc | hc
    · rw [hc'] at hc
      cases hc
    · exact h.stored start id stopping (hc.symm.trans hc')
  · intro id hid
    rw [hrows]
    rcases hadmission with ha | ha
    · exact h.refused id (ha.symm.trans hid)
    · rw [ha] at hid
      cases hid
  · intro start hu work hwork
    rcases hworks start (hold hu) work hwork with hmem | hne
    · exact h.apart start (hold hu) work hmem
    · exact hne
  · intro start hu
    rw [hrows]
    exact h.active start (hold hu)
  · rw [hrows]
    exact h.rows
  · rw [hrows,hready]
    exact h.known

theorem Intake.workerStep (h : Intake offered s) (ht : Tracked r s) (a : Answer) {index : ℕ}
    {worker : Worker} (hworker : s.workers[index]?=some worker) :
    Intake offered (workerStep r a s index worker) := by
  have hrows := h.changes ht (workerStep_rows (r:=r) a hworker)
  obtain ⟨hready,hingress,hadmission,hadmitting⟩ := workerStep_intake (r:=r) a s index worker
  obtain ⟨hcoordinator,-⟩ := workerStep_frame (r:=r) a s index worker
  refine hrows.frame rfl (.inr hcoordinator) hingress (.inl hadmission) hadmitting hready ?_
  intro start _ work hwork
  exact .inl (workerStep_works a hworker work hwork)

theorem Intake.tryStart (h : Intake offered s) (ht : Tracked r s) {contended : Bool} {state : State}
    (hfresh : Fresh offered s start.input.id) (hok : tryStart contended start s.state=.ok state) :
    Intake (start::offered) {s with state := state} := by
  obtain ⟨rfl,hready,hadmitting,hingress,hadmission,-⟩ := tryStart_ok hok
  have hnone : deciding s.coordinator=none := by
    by_contra hde
    rw [(h.single hde).1] at hadmitting
    cases hadmitting
  have hlookup : lookup (·.identity.id) start.input.id s.rows.operations=none :=
    lookup_none.mpr hfresh.2
  have hundecided : ∀ other, Undecided {s with state := {s.state with ingress := some start}}
    other →
      other=start := by
    rintro other (hin | hde)
    · exact (Option.some.inj hin).symm
    · rw [hnone] at hde
      cases hde
  constructor
  · rw [List.map_cons,List.nodup_cons]
    refine ⟨?_,h.keys⟩
    intro hmem
    obtain ⟨other,hother,hid⟩ := List.mem_map.mp hmem
    exact hfresh.1 other hother hid
  · intro other hu
    rw [hundecided other hu]
    exact List.mem_cons_self
  · intro hde
    exact absurd hnone hde
  · intro _
    exact hadmission
  · intro other hother
    rcases hother with hin | hun
    · rw [←Option.some.inj hin]
      exact hlookup
    · exact h.fresh other (.inr hun)
  · exact h.stored
  · exact h.refused
  · intro other hu work hwork hid
    obtain ⟨row,hrow,-⟩ := (ht.known work hwork).operation
    rw [hid,hundecided other hu,hlookup] at hrow
    cases hrow
  · intro other hu row hrow
    rw [hundecided other hu] at hrow
    rw [hlookup] at hrow
    cases hrow
  · intro other hother row hrow
    rcases List.mem_cons.mp hother with rfl | hold
    · rw [hlookup] at hrow
      cases hrow
    · exact h.rows other hold row hrow
  · intro hr row hrow hactive
    obtain ⟨other,hother,hid⟩ := h.known hr row hrow hactive
    exact ⟨other,List.mem_cons_of_mem _ hother,hid⟩

/-- Rows that hold no active operation are known when the session becomes ready. -/
theorem Intake.recovered (h : Intake offered s) (hclosed : allClosed s.rows=true) :
    Intake offered {s with state := {s.state with ready := true}} := by
  refine ⟨h.keys,h.undecided,h.single,h.receipt,h.fresh,h.stored,h.refused,h.apart,h.active,
    h.rows,?_⟩
  intro _ row hrow hactive
  rw [allClosed,Bool.not_eq_true',List.any_eq_false] at hclosed
  have hnot := hclosed row hrow
  rw [hactive] at hnot
  exact absurd rfl hnot

theorem Intake.take (h : Intake offered s) (hingress : s.state.ingress=some start) :
    Intake offered {s with
      state := {s.state with ingress := none,cancel := none,admitting := true}
      coordinator := .taken start s.state.cancel s.state.stopping} := by
  have hold : ∀ {other : Start}, other=start → s.state.ingress=some other := by
    rintro other rfl
    exact hingress
  have hundecided : ∀ {other : Start}, Undecided {s with
      state := {s.state with ingress := none,cancel := none,admitting := true}
      coordinator := .taken start s.state.cancel s.state.stopping} other → other=start := by
    rintro other (hin | hde)
    · cases hin
    · exact (Option.some.inj hde).symm
  have hworks : ∀ {c : Coordinator} {state : State}, waiting c=none →
      state.queue=s.state.queue →
      ∀ work ∈ works {s with state := state,coordinator := c}, work ∈ works s := by
    intro c state hw hq work hwork
    unfold works worksBy at hwork ⊢
    rw [hw,hq] at hwork
    exact List.mem_append_right _ hwork
  constructor
  · exact h.keys
  · intro other hu
    exact h.undecided other (.inl (hold (hundecided hu)))
  · intro _
    exact ⟨rfl,rfl,h.receipt (by rw [hingress]; exact fun he => nomatch he)⟩
  · intro hin
    exact absurd rfl hin
  · intro other hother
    rcases hother with hin | hun
    · cases hin
    · exact h.fresh other (.inl (hold (Option.some.inj hun).symm))
  · intro other id stopping he
    cases he
  · exact h.refused
  · intro other hu work hwork
    have hmem := hworks (c:=.taken start s.state.cancel s.state.stopping) rfl rfl work hwork
    exact h.apart other (.inl (hold (hundecided hu))) work hmem
  · intro other hu
    exact h.active other (.inl (hold (hundecided hu)))
  · exact h.rows
  · exact h.known

/-- A start that goes on being decided. -/
theorem Intake.decide (h : Intake offered s) (hc : deciding s.coordinator=some start)
    {next : Coordinator} (hnext : deciding next=some start) (hfresh : unstored next=some start →
      lookup (·.identity.id) start.input.id s.rows.operations=none)
    (hstored : ∀ id stopping, next=.acknowledging start true id stopping →
      ∃ row, lookup (·.identity.id) start.input.id s.rows.operations=some row) :
    Intake offered {s with coordinator := next} := by
  have hwaiting : waiting next=none := by
    cases next <;> first | rfl | cases hnext
  have hsame : ∀ {other : Start}, Undecided {s with coordinator := next} other →
      Undecided s other := by
    rintro other (hin | hde)
    · exact .inl hin
    · exact .inr (hc.trans (hnext.symm.trans hde))
  have hunstored : ∀ {other : Start}, unstored next=some other → other=start := by
    intro other hun
    have hde : deciding next=some other := by
      cases next with
      | admitting _ _ unknown _ _ => cases unknown <;> first | exact hun | cases hun
      | acknowledging _ accepted _ _ => cases accepted <;> first | exact hun | cases hun
      | taken _ _ _ => exact hun
      | _ => cases hun
    exact Option.some.inj (hde.symm.trans hnext)
  constructor
  · exact h.keys
  · intro other hu
    exact h.undecided other (hsame hu)
  · intro _
    exact h.single (by rw [hc]; exact fun he => nomatch he)
  · exact h.receipt
  · intro other hother
    rcases hother with hin | hun
    · exact h.fresh other (.inl hin)
    · have he := hunstored hun
      subst he
      exact hfresh hun
  · intro other id stopping he
    have hown : deciding next=some other := congrArg deciding he
    have hsame := Option.some.inj (hown.symm.trans hnext)
    subst hsame
    exact hstored id stopping he
  · exact h.refused
  · intro other hu work hwork
    refine h.apart other (hsame hu) work ?_
    unfold works worksBy at hwork ⊢
    rw [hwaiting] at hwork
    exact List.mem_append_right _ hwork
  · intro other hu
    exact h.active other (hsame hu)
  · exact h.rows
  · exact h.known

theorem Intake.acknowledge (h : Intake offered s) {accepted stopping : Bool} {id : Option String}
    (hc : s.coordinator=.acknowledging start accepted id stopping) :
    Intake offered {s with
      state := {s.state with admitting := false,admission := some ⟨start.input.id,accepted⟩}
      coordinator := .cancelling id stopping} := by
  obtain ⟨-,hingress,-⟩ := h.single (by rw [hc]; exact fun he => nomatch he)
  have hnone : ∀ other, ¬Undecided {s with
      state := {s.state with admitting := false,admission := some ⟨start.input.id,accepted⟩}
      coordinator := .cancelling id stopping} other := by
    rintro other (hin | hde)
    · rw [hingress] at hin
      cases hin
    · cases hde
  constructor
  · exact h.keys
  · intro other hu
    exact absurd hu (hnone other)
  · intro hde
    exact absurd rfl hde
  · intro hin
    exact absurd hingress hin
  · intro other hother
    rcases hother with hin | hun
    · rw [hingress] at hin
      cases hin
    · cases hun
  · intro other id' stopping' he
    cases he
  · intro id' he
    have hadmission := Option.some.inj he
    have haccepted : accepted=false := congrArg Admission.accepted hadmission
    have hid : start.input.id=id' := congrArg Admission.id hadmission
    subst haccepted
    rw [←hid]
    exact h.fresh start (.inr (by rw [hc]; rfl))
  · intro other hu
    exact absurd hu (hnone other)
  · intro other hu
    exact absurd hu (hnone other)
  · exact h.rows
  · exact h.known

theorem create_stored {sizes : RowSizes} {env : SchemaEnv} {createdAt : String}
    {found : OperationSnapshot}
    (h : (create sizes inputs env input createdAt).run d=.ok (found,d')) :
    ∃ row, lookup (·.identity.id) input.id d'.operations=some row := by
  obtain ⟨total,-,-,⟨rfl,hexisting,-⟩ | ⟨-,-,hagain⟩⟩ := create_cases h
  · exact ⟨_,snapshot_ok hexisting⟩
  · exact ⟨_,snapshot_ok hagain⟩

variable {at_ : String}

theorem createJob_stored {session : Session} {call : StoreCall}
    (h : (createJob session call input at_ d).1=.known) :
    ∃ row, lookup (·.identity.id) input.id (createJob session call input at_ d).2.operations=
      some row := by
  unfold createJob at h ⊢
  split at h
  · cases h
  · obtain ⟨u,hu⟩ := writeResult_known h
    obtain ⟨other,d₁,h1,hrun⟩ := bind_ok.mp (submit_committed hu)
    obtain ⟨-,rfl⟩ := observe_ok.mp h1
    split at hrun
    · exact (throw_ok.mp hrun).elim
    obtain ⟨found,d₂,h2,hrun⟩ := bind_ok.mp hrun
    obtain ⟨-,hd⟩ := pure_ok.mp hrun
    rw [hd] at h2
    exact create_stored h2

theorem creationReadback_stored {lost : Bool} (h : creationReadback r lost input at_ d=some true) :
    ∃ row, lookup (·.identity.id) input.id d.operations=some row := by
  unfold creationReadback at h
  split at h
  · cases h
  split at h
  · cases h
  · cases h
  · next stored hs => exact ⟨_,snapshot_ok hs⟩

theorem creationReadback_free {lost : Bool} (h : creationReadback r lost input at_ d=some false) :
    lookup (·.identity.id) input.id d.operations=none := by
  unfold creationReadback at h
  split at h
  · cases h
  split at h
  · cases h
  · next hs => exact snapshot_ok hs
  · split at h
    · cases h
    · split at h <;> cases h

theorem Intake.created (h : Intake offered s) (ht : Tracked r s) {id : Option String}
    {stopping : Bool} (hc : s.coordinator=.admitting start at_ false id stopping)
    (hcreated : Created r.session.inputs start.input s.rows d') (unknown : Bool) :
    Intake offered {s with
      rows := d'
      coordinator := if unknown=true then .admitting start at_ true id stopping
        else .acknowledging start true id stopping} := by
  have hde : deciding s.coordinator=some start := by rw [hc]; rfl
  have hoffered := h.undecided start (.inr hde)
  obtain ⟨hadmitting,hingress,hadmission⟩ := h.single (by rw [hde]; exact fun he => nomatch he)
  obtain ⟨total,createdAt,hoperations⟩ := hcreated.operations
  have hnone := lookup_none.mpr hcreated.free
  have hown : lookup (·.identity.id) start.input.id d'.operations=
      some (newHeader r.session.inputs start.input total createdAt) := by
    rw [hoperations,lookup,List.find?_append]
    rw [lookup] at hnone
    rw [hnone,Option.none_or,List.find?_singleton]
    exact if_pos (decide_eq_true rfl)
  have hback : ∀ {other : Start} {row : OperationHeader}, other.input.id≠start.input.id →
      lookup (·.identity.id) other.input.id d'.operations=some row →
      lookup (·.identity.id) other.input.id s.rows.operations=some row := by
    intro other row hne hrow
    rw [hoperations,lookup,List.find?_append] at hrow
    have hlast : List.find? (fun row : OperationHeader => row.identity.id=other.input.id)
        [newHeader r.session.inputs start.input total createdAt]=none := by
      rw [List.find?_singleton]
      refine if_neg fun he => ?_
      exact hne (of_decide_eq_true he).symm
    rw [hlast,Option.or_none] at hrow
    exact hrow
  have hsame : ∀ {other : Start}, other ∈ offered → other.input.id=start.input.id →
      other=start := by
    intro other hother hid
    exact List.inj_on_of_nodup_map h.keys hother hoffered hid
  generalize hn : (if unknown=true then Coordinator.admitting start at_ true id stopping
    else .acknowledging start true id stopping)=next
  have hplace : deciding next=some start ∧ unstored next=none ∧ waiting next=none := by
    rw [←hn]
    split <;> exact ⟨rfl,rfl,rfl⟩
  have hundecided : ∀ {other : Start}, Undecided {s with rows := d',coordinator := next} other →
      other=start := by
    rintro other (hin | hother)
    · rw [hingress] at hin
      cases hin
    · exact Option.some.inj (hother.symm.trans hplace.1)
  constructor
  · exact h.keys
  · intro other hu
    rw [hundecided hu]
    exact hoffered
  · intro _
    exact ⟨hadmitting,hingress,hadmission⟩
  · exact h.receipt
  · intro other hother
    rcases hother with hin | hun
    · rw [hingress] at hin
      cases hin
    · rw [hplace.2.1] at hun
      cases hun
  · intro other id' stopping' he
    have hown' : deciding next=some other := congrArg deciding he
    rw [hplace.1] at hown'
    rw [←Option.some.inj hown']
    exact ⟨_,hown⟩
  · intro id' he
    rw [hadmission] at he
    cases he
  · intro other hu work hwork
    refine h.apart other (.inr (hundecided hu ▸ hde)) work ?_
    unfold works worksBy at hwork ⊢
    rw [hplace.2.2] at hwork
    exact List.mem_append_right _ hwork
  · intro other hu row hrow
    rw [hundecided hu,hown] at hrow
    cases hrow
    rfl
  · intro other hother row hrow
    by_cases hid : other.input.id=start.input.id
    · have he := hsame hother hid
      subst he
      rw [hown] at hrow
      cases hrow
      exact ⟨rfl,matches_created ht.accounted hcreated⟩
    · obtain ⟨hkind,hmatches⟩ := h.rows other hother row (hback hid hrow)
      exact ⟨hkind,matches_beside hmatches hcreated (Ne.symm hid)⟩
  · intro hready row hrow hactive
    have hmem : row ∈ s.rows.operations++
        [newHeader r.session.inputs start.input total createdAt] := hoperations ▸ hrow
    rcases List.mem_append.mp hmem with hold | hnew
    · exact h.known hready row hold hactive
    · rw [List.mem_singleton.mp hnew]
      exact ⟨start,hoffered,rfl⟩

theorem Intake.coordinatorStep (h : Intake offered s) (ht : Tracked r s) (a : Answer) :
    Intake offered (coordinatorStep r a s) := by
  have hframe : ∀ {d' : Database} {s' : System}, Intake offered {s with rows := d'} →
      s'.rows=d' → deciding s'.coordinator=none → s'.state.ingress=s.state.ingress →
      s'.state.admission=s.state.admission → s'.state.admitting=s.state.admitting →
      s'.state.ready=s.state.ready → (∀ work ∈ works s', work ∈ works s) →
      Intake offered s' := by
    intro d' s' hrows h1 h2 h3 h4 h5 h6 h7
    exact hrows.frame h1 (.inl h2) h3 (.inl h4) h5 h6 fun _ _ work hwork => .inl (h7 work hwork)
  by_cases hde : deciding s.coordinator=none
  · by_cases hstartup : s.coordinator=.startup
    · have hrows : RowsChange (JobRows.closing s) none s.rows
          (recoverOperationStartup a.cleanup a.clock a.rounds s.rows).2 :=
        changes_recoverOperationStartup (fun _ => .inl hstartup) a.cleanup a.clock a.rounds s.rows
      have hchanged := h.changes ht hrows
      have hworks : ∀ {c : Coordinator} {state : State} {d' : Database}, waiting c=none →
          state.queue=s.state.queue →
          ∀ work ∈ works {s with state := state,coordinator := c,rows := d'}, work ∈ works s := by
        intro c state d' hw hq work hwork
        unfold works worksBy at hwork ⊢
        rw [hw,hq] at hwork
        exact List.mem_append_right _ hwork
      unfold JobScheduler.coordinatorStep
      rw [hstartup]
      dsimp only
      split
      · next hrecovered =>
        have hclosed := recovered_closed hrecovered
        have hready := hchanged.recovered hclosed
        exact hready.frame rfl (.inl rfl) rfl (.inl rfl) rfl rfl fun _ _ work hwork =>
          .inl (List.mem_append_right _ hwork)
      · exact hframe hchanged rfl rfl rfl rfl rfl rfl (hworks rfl rfl)
      · exact hframe hchanged rfl rfl rfl rfl rfl rfl (hworks rfl rfl)
      · exact hframe hchanged rfl rfl rfl rfl rfl rfl (hworks rfl rfl)
      · exact hframe hchanged rfl rfl rfl rfl rfl rfl (hworks rfl rfl)
    by_cases hintake : s.coordinator=.intake
    · unfold JobScheduler.coordinatorStep
      rw [hintake]
      dsimp only
      split
      · next start hingress => exact h.take hingress
      · next hingress =>
        refine h.frame rfl (.inl rfl) hingress.symm (.inl rfl) rfl rfl ?_
        intro _ _ work hwork
        exact .inl (List.mem_append_right _ hwork)
    · have hpassing := coordinatorStep_passing (r:=r) a hde hstartup hintake
      obtain ⟨hingress,hadmission,hadmitting,hready⟩ := hpassing.intake
      rcases coordinatorStep_rows (r:=r) a s with hrows | ⟨_,start,at_,id,stopping,-,hc,-⟩
      · refine (h.changes ht hrows).frame rfl (.inl hpassing.place) hingress (.inl hadmission)
          hadmitting hready ?_
        intro start hu work hwork
        rcases coordinatorStep_works ht.accounted a work hwork with hmem | hknown
        · exact .inl hmem
        · right
          intro hid
          obtain ⟨row,hrow,-⟩ := hknown.operation
          have hin : s.state.ingress=some start := by
            rcases hu with hin | hother
            · exact hin
            · exact nomatch hother.symm.trans hde
          rw [hid,h.fresh start (.inl hin)] at hrow
          cases hrow
      · rw [hc] at hde
        cases hde
  · unfold JobScheduler.coordinatorStep
    cases hc : s.coordinator with
    | taken start id stopping =>
      have hdeciding : deciding s.coordinator=some start := by rw [hc]; rfl
      have hfresh := h.fresh start (.inr (by rw [hc]; rfl))
      dsimp only
      split
      · exact h.decide hdeciding rfl (fun _ => hfresh) fun _ _ he => nomatch he
      · exact h.decide hdeciding rfl (fun _ => hfresh) fun _ _ he => nomatch he
    | admitting start at_ unknown id stopping =>
      have hdeciding : deciding s.coordinator=some start := by rw [hc]; rfl
      cases unknown with
      | true =>
        dsimp only
        rw [if_pos rfl]
        split
        · next hread =>
          refine h.decide hdeciding rfl (fun he => nomatch he) fun _ _ _ => ?_
          exact creationReadback_stored hread
        · next hread =>
          refine h.decide hdeciding rfl (fun _ => ?_) fun _ _ he => nomatch he
          exact creationReadback_free hread
        · exact h
      | false =>
        have hfresh := h.fresh start (.inr (by rw [hc]; rfl))
        dsimp only
        rw [if_neg Bool.false_ne_true]
        rcases createJob_rows r.session a.call start.input at_ s.rows with
          hsame | ⟨⟨hcreated,-⟩,hretry,hrejected⟩
        · rw [hsame]
          cases hreply : (createJob r.session a.call start.input at_ s.rows).1 with
          | known =>
            refine h.decide hdeciding rfl (fun he => nomatch he) fun _ _ _ => ?_
            have hstored := createJob_stored hreply
            rw [hsame] at hstored
            exact hstored
          | retry => exact h.decide hdeciding rfl (fun _ => hfresh) fun _ _ he => nomatch he
          | unknown =>
            exact h.decide hdeciding rfl (fun he => nomatch he) fun _ _ he => nomatch he
          | rejected => exact h.decide hdeciding rfl (fun _ => hfresh) fun _ _ he => nomatch he
        · cases hreply : (createJob r.session a.call start.input at_ s.rows).1 with
          | known => exact h.created ht hc hcreated false
          | retry => exact absurd hreply hretry
          | unknown => exact h.created ht hc hcreated true
          | rejected => exact absurd hreply hrejected
    | acknowledging start accepted id stopping => exact h.acknowledge hc
    | _ =>
      rw [hc] at hde
      exact absurd rfl hde

theorem coordinatorStep_intake (a : Answer) (s : System) :
    ((coordinatorStep r a s).state.ingress=s.state.ingress ∧
      deciding (coordinatorStep r a s).coordinator=deciding s.coordinator ∧
      (coordinatorStep r a s).state.admission=s.state.admission) ∨
    (∃ start, s.coordinator=.intake ∧ s.state.ingress=some start ∧
      (coordinatorStep r a s).state.ingress=none ∧
      deciding (coordinatorStep r a s).coordinator=some start ∧
      (coordinatorStep r a s).state.admission=s.state.admission) ∨
    ∃ start accepted id stopping, s.coordinator=.acknowledging start accepted id stopping ∧
      (coordinatorStep r a s).state.ingress=s.state.ingress ∧
      deciding (coordinatorStep r a s).coordinator=none ∧
      (coordinatorStep r a s).state.admission=some ⟨start.input.id,accepted⟩ := by
  by_cases hpassing : deciding s.coordinator=none ∧ s.coordinator≠.startup ∧ s.coordinator≠.intake
  · obtain ⟨hde,hstartup,hintake⟩ := hpassing
    have hpassed := coordinatorStep_passing (r:=r) a hde hstartup hintake
    obtain ⟨hingress,hadmission,-,-⟩ := hpassed.intake
    exact .inl ⟨hingress,hpassed.place.trans hde.symm,hadmission⟩
  unfold coordinatorStep
  cases hc : s.coordinator with
  | startup =>
    left
    dsimp only
    split <;> exact ⟨rfl,rfl,rfl⟩
  | intake =>
    dsimp only
    split
    · next start hingress => exact .inr (.inl ⟨start,rfl,hingress,rfl,rfl,rfl⟩)
    · next hingress => exact .inl ⟨hingress.symm,rfl,rfl⟩
  | taken start id stopping =>
    left
    dsimp only
    split <;> exact ⟨rfl,rfl,rfl⟩
  | admitting start at_ unknown id stopping =>
    left
    dsimp only
    split
    · split
      · exact ⟨rfl,rfl,rfl⟩
      · exact ⟨rfl,rfl,rfl⟩
      · exact ⟨rfl,congrArg deciding hc,rfl⟩
    · refine ⟨rfl,?_,rfl⟩
      dsimp only
      split <;> rfl
  | acknowledging start accepted id stopping =>
    exact .inr (.inr ⟨start,accepted,id,stopping,rfl,rfl,rfl,rfl⟩)
  | _ =>
    rw [hc] at hpassing
    exact absurd ⟨rfl,(fun he => nomatch he),fun he => nomatch he⟩ hpassing

theorem coordinatorStep_undecided (a : Answer) (h : Undecided (coordinatorStep r a s) start) :
    Undecided s start := by
  rcases coordinatorStep_intake (r:=r) a s with
    ⟨hingress,hde,-⟩ | ⟨other,-,hbefore,hingress,hde,-⟩ | ⟨other,accepted,id,stopping,-,hingress,hde,-⟩
  · rcases h with hin | hin
    · exact .inl (hingress.symm.trans hin)
    · exact .inr (hde.symm.trans hin)
  · rcases h with hin | hin
    · rw [hingress] at hin
      cases hin
    · exact .inl (hbefore.trans (hde.symm.trans hin))
  · rcases h with hin | hin
    · exact .inl (hingress.symm.trans hin)
    · rw [hde] at hin
      cases hin

/-- An undecided start stays so, or is stored, or has the receipt of its rejection. -/
theorem coordinatorStep_decided (h : Intake offered s) (a : Answer)
    (hu : Undecided s start) : Undecided (coordinatorStep r a s) start ∨
      (∃ row, lookup (·.identity.id) start.input.id (coordinatorStep r a s).rows.operations=
        some row) ∨
      ∃ id stopping, s.coordinator=.acknowledging start false id stopping ∧
        (coordinatorStep r a s).state.admission=some ⟨start.input.id,false⟩ := by
  rcases coordinatorStep_intake (r:=r) a s with
    ⟨hingress,hde,-⟩ | ⟨other,hc,hbefore,-,hde,-⟩ | ⟨other,accepted,id,stopping,hc,-,-,hadmission⟩
  · left
    rcases hu with hin | hin
    · exact .inl (hingress.trans hin)
    · exact .inr (hde.trans hin)
  · left
    rcases hu with hin | hin
    · exact .inr (hde.trans (hbefore.symm.trans hin))
    · rw [hc] at hin
      cases hin
  · right
    have hother : other=start := by
      rcases hu with hin | hin
      · have hnone := (h.single (by rw [hc]; exact fun he => nomatch he)).2.1
        rw [hnone] at hin
        cases hin
      · rw [hc] at hin
        exact Option.some.inj hin
    subst hother
    cases accepted with
    | true =>
      left
      obtain ⟨row,hrow⟩ := h.stored other id stopping hc
      obtain ⟨row',hrow',-⟩ := (step_later r s (.coordinator a)).operations _ row hrow
      exact ⟨row',hrow'⟩
    | false => exact .inr ⟨id,stopping,hc,hadmission⟩

/-- A command of a handle that takes nothing in keeps what is known of the starts. -/
theorem Intake.command (h : Intake offered s) {state : State}
    (hingress : state.ingress=s.state.ingress)
    (hadmission : state.admission=s.state.admission ∨ state.admission=none)
    (hadmitting : state.admitting=s.state.admitting) (hready : state.ready=s.state.ready)
    (hqueue : state.queue=s.state.queue) : Intake offered {s with state := state} := by
  refine h.frame rfl (.inr rfl) hingress hadmission hadmitting hready ?_
  intro _ _ work hwork
  left
  unfold works worksBy at hwork ⊢
  rw [hqueue] at hwork
  exact hwork

theorem new_intake (r : Runtime) (rows : Database) : Intake [] (System.new r rows) := by
  refine ⟨List.nodup_nil,?_,fun he => absurd rfl he,fun he => absurd rfl he,?_,
    (fun _ _ _ he => nomatch he),(fun _ he => nomatch he),?_,?_,(fun _ hs => nomatch hs),
    (fun he => nomatch he)⟩
  all_goals
    rintro start (he | he) <;> cases he

end Librairii.JobIntake
