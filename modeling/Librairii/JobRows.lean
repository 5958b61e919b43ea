import Librairii.JobDispatch
import Librairii.RowChanges
import Librairii.TemporaryScopes

/-!
# The rows behind the scheduler

A step of a session rewrites the stored rows in place or appends those of the operation that is
being admitted. What was read of an item therefore stays true of its row until it is released,
a started item is not pending, and an item that was reported is terminal.
-/

namespace Librairii.JobRows

open StorageTransactions RowTables OperationRows OperationPolicy OperationCreation
  OperationStore OperationAccounting OperationReporting RowChanges JobDispatch
open JobScheduler hiding Event step run
open ExportStarts (Start)
open TemporaryScopes (itemOf_some)

/-- Rows that are found keep their immutable columns, and terminal rows are kept. -/
structure Later (d d' : Database) : Prop where
  operations : ∀ id row, lookup (·.identity.id) id d.operations=some row →
    ∃ row', lookup (·.identity.id) id d'.operations=some row' ∧
      row'.immutableScope=row.immutableScope ∧ (isTerminal row.state=true → row'=row)
  /-- Items are found again, and none becomes pending. -/
  items : ∀ id row, lookup (·.identity.id) id d.items=some row →
    ∃ row', lookup (·.identity.id) id d'.items=some row' ∧
      row'.immutableScope=row.immutableScope ∧ (row.state.isTerminal=true → row'=row) ∧
      (row'.state=.pending → row.state=.pending)

variable {α : Type} {R : α → α → Prop} {rows' rows : List α}

theorem lookup_related {κ : Type} [DecidableEq κ] {key : α → κ} {k : κ}
    (hkey : ∀ a b, R a b → key b=key a) (h : List.Forall₂ R rows rows') :
    ∀ row, lookup key k rows=some row → ∃ row', lookup key k rows'=some row' ∧ R row row' := by
  induction h with
  | nil =>
    intro row hrow
    cases hrow
  | @cons a b rows rows' hab _ ih =>
    intro row hrow
    unfold lookup at hrow ih ⊢
    rw [List.find?_cons] at hrow ⊢
    rw [hkey a b hab]
    by_cases hk : key a=k
    · rw [decide_eq_true hk] at hrow ⊢
      exact ⟨b,rfl,Option.some.inj hrow ▸ hab⟩
    · rw [decide_eq_false hk] at hrow ⊢
      exact ih row hrow

theorem lookup_related_back {κ : Type} [DecidableEq κ] {key : α → κ} {k : κ}
    (hkey : ∀ a b, R a b → key b=key a) (h : List.Forall₂ R rows rows') :
    ∀ row', lookup key k rows'=some row' → ∃ row, lookup key k rows=some row ∧ R row row' := by
  intro row' hrow'
  have hback : List.Forall₂ (fun b a => R a b) rows' rows := h.flip
  exact lookup_related (R:=fun b a => R a b) (fun b a hr => (hkey a b hr).symm) hback row' hrow'

theorem related_mem (h : List.Forall₂ R rows rows') : ∀ row' ∈ rows', ∃ row ∈ rows, R row row' := by
  induction h with
  | nil =>
    intro row' hrow'
    cases hrow'
  | @cons a b rows rows' hab _ ih =>
    intro row' hrow'
    rcases List.mem_cons.mp hrow' with rfl | htail
    · exact ⟨a,List.mem_cons_self,hab⟩
    · obtain ⟨row,hrow,hr⟩ := ih row' htail
      exact ⟨row,List.mem_cons_of_mem _ hrow,hr⟩

variable {d' : Database}

/-- Rows rewritten in place are found again. -/
theorem changes_later {closes : String → Prop} {started : Option ℤ} {d : Database}
    (h : RowsChange closes started d d') : Later d d' := by
  constructor
  · intro id row hrow
    obtain ⟨row',hrow',hr⟩ := lookup_related (fun _ _ hr => hr.id) h.operations row hrow
    exact ⟨row',hrow',hr.scope,hr.closed⟩
  · intro id row hrow
    obtain ⟨row',hrow',hr⟩ := lookup_related (fun _ _ hr => hr.id) h.items row hrow
    exact ⟨row',hrow',hr.scope,hr.closed,hr.pending⟩

/-- Rows are found again beside those of a new operation. -/
theorem created_later {inputs : InputEnv} {input : NewOperation} {d : Database}
    (h : Created inputs input d d') : Later d d' := by
  obtain ⟨total,createdAt,ho⟩ := h.operations
  obtain ⟨rows,hi,-⟩ := h.items
  constructor
  · intro id row hrow
    rw [ho]
    exact ⟨row,lookup_append hrow _,rfl,fun _ => rfl⟩
  · intro id row hrow
    rw [hi]
    exact ⟨row,lookup_append hrow _,rfl,fun _ => rfl,fun hp => hp⟩

theorem iteration_attempts (session : Session) (opened : ℕ) (around : Surroundings)
    (report : Report) (s : Reporting) :
    (iteration (lossy session opened around) report s).rows=s.rows ∨
    ∃ witness, (witness=report.command ∨ witness=report.interruption) ∧
      (iteration (lossy session opened around) report s).rows=
        (attempt session opened around.call witness s.rows).2 := by
  have hpersist : ∀ writes reads,
      (persistWrite (lossy session opened around) report writes reads s.rows).rows=
        (attempt session opened around.call report.command s.rows).2 := by
    intro writes reads
    unfold persistWrite
    dsimp only
    split
    · rfl
    · rfl
    · split <;> rfl
    · rfl
    · rfl
  have hreconcile : ∀ attempts,
      (reconcileWrite (lossy session opened around) report attempts s.rows).rows=
        (attempt session opened around.call report.interruption s.rows).2 := by
    intro attempts
    unfold reconcileWrite
    dsimp only
    split
    · rfl
    · rfl
    · rfl
    · rfl
    · split <;> rfl
    · rfl
  unfold iteration
  split
  · unfold persistIteration
    split
    · split
      · exact .inl rfl
      · exact .inr ⟨_,.inl rfl,hpersist _ _⟩
      · split <;> exact .inl rfl
      · exact .inl rfl
    · exact .inr ⟨_,.inl rfl,hpersist _ _⟩
  · unfold reconcileIteration
    split
    · split
      · exact .inl rfl
      · exact .inr ⟨_,.inr rfl,hreconcile _⟩
      · split <;> exact .inl rfl
      · exact .inl rfl
    · exact .inr ⟨_,.inr rfl,hreconcile _⟩
  · exact .inl rfl

theorem settled_matching {d : Database} {witness : CommandWitness} {v : TerminalView}
    (hd : Accounted d) (hv : valid witness=true)
    (h : storedInspection d witness=.matching v) : Settled d witness := by
  have hstored := (storedInspection_view (congrArg observedView h)).1
  have hrow := (storedView_row hstored).1
  have hitem : v.item=(itemId witness).bind (itemOf d (scope witness).identity.id) := by
    unfold storedView at hstored
    obtain ⟨operation,-,rfl⟩ := Option.map_eq_some_iff.mp hstored
    rfl
  have hrecorded : recorded witness v=.ok true := by
    rw [storedInspection,hstored] at h
    dsimp only at h
    unfold classify at h
    split at h
    · cases h
    split at h
    · cases h
    · next hr => exact hr
    · split at h <;> cases h
  unfold valid at hv
  split_ifs at hv
  cases witness with
  | completeItem c =>
    unfold recorded at hrecorded
    dsimp only at hrecorded
    split at hrecorded
    · cases hrecorded
    next item hfound =>
    obtain ⟨hscope,hrecorded⟩ := CheckedResults.checked_ok.mp hrecorded
    have hstate := Except.ok.inj hrecorded
    simp only [Bool.and_eq_true,decide_eq_true_eq] at hstate hv
    obtain ⟨hl,hown⟩ := itemOf_some hd (hitem.symm.trans hfound)
    exact ⟨item,hl,hown,hstate.1.1.1.symm ▸ hv.1.1.1⟩
  | finish c =>
    have hstate := Except.ok.inj hrecorded
    simp only [Bool.and_eq_true,decide_eq_true_eq] at hstate hv
    exact ⟨v.operation,hrow,hstate.1.1.2.symm ▸ hv.1⟩
  | interrupt c =>
    have hstate := Except.ok.inj hrecorded
    simp only [Bool.and_eq_true,decide_eq_true_eq] at hstate
    exact ⟨v.operation,hrow,hstate.1.1.1.2.symm ▸ rfl⟩

theorem attempt_answer {session : Session} {opened : ℕ} {call : StoreCall}
    {witness : CommandWitness} {d : Database} (h : Accounted d) :
    match (attempt session opened call witness d).1.disposition with
    | .committed _ | .alreadyMatching _ => Settled (attempt session opened call witness d).2 witness
    | .terminalConflict v => storedView (attempt session opened call witness d).2 witness=some v
    | _ => True := by
  unfold attempt
  cases hr : refusal opened witness with
  | some reason => exact trivial
  | none =>
    have hv := (refusal_none hr).2
    dsimp only
    cases hs : (submit call (attemptBody session call.schema witness) d).1 with
    | notAdmitted e => exact trivial
    | lost e => exact trivial
    | answered outcome =>
      cases outcome with
      | provenNotCommitted e => exact trivial
      | commitUncertain e => exact trivial
      | committed result =>
        obtain ⟨observation,d₁,h1,hrun⟩ := bind_ok.mp (submit_committed hs)
        obtain ⟨ho,rfl⟩ := observe_ok.mp h1
        cases observation with
        | unapplied v =>
          obtain ⟨_,d₂,h2,hrun⟩ := bind_ok.mp hrun
          obtain ⟨rfl,hd⟩ := pure_ok.mp hrun
          have hsettled := settled_write h hv h2
          rw [hd] at hsettled
          simp only [attemptReply,committedView]
          split
          · next heq => exact hsettled
          · next heq => exact hsettled
          · next heq =>
            exfalso
            revert heq
            split
            · exact fun heq => nomatch heq
            · split <;> exact fun heq => nomatch heq
          · exact trivial
        | matching v =>
          obtain ⟨rfl,hd⟩ := pure_ok.mp hrun
          have hsame : (submit call (attemptBody session call.schema witness) d).2=d := hd.symm
          rw [hsame]
          exact settled_matching h hv (inspect_stored ho).symm
        | conflict v =>
          obtain ⟨rfl,hd⟩ := pure_ok.mp hrun
          have hsame : (submit call (attemptBody session call.schema witness) d).2=d := hd.symm
          rw [hsame]
          exact (storedInspection_view (congrArg observedView (inspect_stored ho).symm)).1
        | unknown reason =>
          obtain ⟨rfl,hd⟩ := pure_ok.mp hrun
          exact trivial

theorem readback_answer {session : Session} {opened : ℕ} {refused lost : Option StorageError}
    {witness : CommandWitness} {d : Database} (h : Accounted d) :
    match readback session opened refused lost witness d with
    | .matchesApplied _ => Settled d witness
    | .terminalConflict v => storedView d witness=some v
    | _ => True := by
  unfold readback
  cases hr : refusal opened witness with
  | some reason => exact trivial
  | none =>
    cases refused with
    | some e => exact trivial
    | none =>
      cases lost with
      | some e => exact trivial
      | none =>
        dsimp only
        cases ho : inspect session.sizes d witness with
        | error e => exact trivial
        | ok observation =>
          have hstored := inspect_stored ho
          cases observation with
          | unapplied v => exact trivial
          | matching v => exact settled_matching h (refusal_none hr).2 hstored.symm
          | conflict v => exact (storedInspection_view (congrArg observedView hstored.symm)).1
          | unknown reason => exact trivial

/-- The rows record a reported command, or a terminal operation. -/
def Reported (d : Database) (report : Report) : Prop :=
  Settled d report.command ∨ Settled d report.interruption

theorem reported_interrupted {d : Database} {report : Report} {witness : CommandWitness}
    {v : TerminalView} {header : OperationHeader} (hscope : scope witness=scope report.command)
    (h : storedView d witness=some v) (hi : interrupted v=some header) : Reported d report := by
  have hrow := (storedView_row h).1
  unfold interrupted at hi
  split at hi
  · next hstate =>
    right
    refine ⟨v.operation,?_,hstate ▸ rfl⟩
    rw [scope_interruption,←hscope]
    exact hrow
  · cases hi

section Reports

variable {session : Session} {opened : ℕ} {around : Surroundings} {report : Report} {d : Database}

theorem persistWrite_returned (h : Accounted d) {writes reads : ℕ}
    (hreturned : (persistWrite (lossy session opened around) report writes reads
    d).phase.isReturned=
      true) :
    Reported (persistWrite (lossy session opened around) report writes reads d).rows report := by
  have hanswer := @attempt_answer session opened around.call report.command d h
  have hafter : ∀ unknown, (afterWrite unknown writes reads).isReturned≠true := by
    intro unknown
    unfold afterWrite
    split <;> exact Bool.false_ne_true
  unfold persistWrite at hreturned ⊢
  dsimp only [lossy] at hreturned ⊢
  split at hreturned
  · next hd =>
    rw [hd] at hanswer
    exact .inl hanswer
  · next hd =>
    rw [hd] at hanswer
    exact .inl hanswer
  · next v hd =>
    rw [hd] at hanswer
    dsimp only at hanswer
    cases hi : interrupted v with
    | none =>
      rw [hi] at hreturned
      exact absurd hreturned (hafter false)
    | some header => exact reported_interrupted rfl hanswer hi
  · exact absurd hreturned (hafter true)
  · exact absurd hreturned (hafter false)

theorem reconcileWrite_returned (h : Accounted d) {attempts : ℕ}
    (hreturned : (reconcileWrite (lossy session opened around) report attempts d).phase.isReturned=
      true) :
    Reported (reconcileWrite (lossy session opened around) report attempts d).rows report := by
  have hanswer := @attempt_answer session opened around.call report.interruption d h
  unfold reconcileWrite at hreturned ⊢
  dsimp only [lossy] at hreturned ⊢
  split at hreturned
  · next hd =>
    rw [hd] at hanswer
    exact .inr hanswer
  · next hd =>
    rw [hd] at hanswer
    exact .inr hanswer
  · cases hreturned
  · cases hreturned
  · next v hd =>
    rw [hd] at hanswer
    dsimp only at hanswer
    cases hi : interrupted v with
    | none =>
      rw [hi] at hreturned
      cases hreturned
    | some header => exact reported_interrupted (scope_interruption report) hanswer hi
  · cases hreturned

theorem readback_interrupted (h : Accounted d) {witness : CommandWitness}
    (hscope : scope witness=scope report.command) {v : TerminalView} {header : OperationHeader}
    (hread : readback session opened around.readRefused around.readLost witness d=
      .terminalConflict v) (hi : interrupted v=some header) : Reported d report := by
  have hanswer := @readback_answer session opened around.readRefused around.readLost
    witness d h
  rw [hread] at hanswer
  exact reported_interrupted hscope hanswer hi

theorem iteration_returned {s : Reporting} (h : Accounted s.rows) (hs : s.phase.isReturned=false)
    (hreturned : (iteration (lossy session opened around) report s).phase.isReturned=true) :
    Reported (iteration (lossy session opened around) report s).rows report := by
  have hafter : ∀ writes reads, (afterRead writes reads).isReturned≠true := by
    intro writes reads
    unfold afterRead
    split <;> exact Bool.false_ne_true
  unfold iteration at hreturned ⊢
  cases hp : s.phase with
  | persisting unknown writes reads =>
    rw [hp] at hreturned
    dsimp only at hreturned ⊢
    unfold persistIteration at hreturned ⊢
    cases unknown with
    | false => exact persistWrite_returned h hreturned
    | true =>
      rw [if_pos rfl] at hreturned ⊢
      have hanswer := @readback_answer session opened around.readRefused around.readLost
        report.command s.rows h
      dsimp only [lossy] at hreturned ⊢
      split at hreturned
      · next hread =>
        rw [hread] at hanswer
        exact .inl hanswer
      · exact persistWrite_returned h hreturned
      · next v hread =>
        cases hi : interrupted v with
        | none =>
          rw [hi] at hreturned
          exact absurd hreturned (hafter writes reads)
        | some header => exact readback_interrupted h rfl hread hi
      · exact absurd hreturned (hafter writes reads)
  | reconciling unknown attempts =>
    rw [hp] at hreturned
    dsimp only at hreturned ⊢
    unfold reconcileIteration at hreturned ⊢
    cases unknown with
    | false => exact reconcileWrite_returned h hreturned
    | true =>
      rw [if_pos rfl] at hreturned ⊢
      have hanswer := @readback_answer session opened around.readRefused around.readLost
        report.interruption s.rows h
      dsimp only [lossy] at hreturned ⊢
      split at hreturned
      · next hread =>
        rw [hread] at hanswer
        exact .inr hanswer
      · exact reconcileWrite_returned h hreturned
      · next v hread =>
        cases hi : interrupted v with
        | none =>
          rw [hi] at hreturned
          cases hreturned
        | some header => exact readback_interrupted h (scope_interruption report) hread hi
      · cases hreturned
  | returned outcome =>
    rw [hp] at hs
    cases hs

end Reports

variable {r : Runtime} {s : System}

/-- The operations that a step may close: those that are reported, and at startup all. -/
def closing (s : System) (id : String) : Prop :=
  s.coordinator=.startup ∨
  (∃ report phase, s.coordinator=.reporting report phase ∧
    (scope report.command).identity.id=id) ∨
  ∃ work report phase resources, .reporting work report phase resources ∈ s.workers ∧
    (scope report.command).identity.id=id

def starting (s : System) : JobScheduler.Event → Option ℤ
  | .worker index _ =>
    match s.workers[index]? with
    | some (.starting work _ false) => some work.item.identity.id
    | _ => none
  | _ => none

/-- A step rewrites the rows in place, or appends those of the start that is being admitted. -/
def RowStep (r : Runtime) (s : System) (event : JobScheduler.Event) (d' : Database) : Prop :=
  RowsChange (closing s) (starting s event) s.rows d' ∨
  ∃ a start at_ id stopping, event=.coordinator a ∧
    s.coordinator=.admitting start at_ false id stopping ∧
    Created r.session.inputs start.input s.rows d' ∧ metadataFree start.input s.rows

variable (a : Answer)

theorem persist_rows {closes : String → Prop} {started : Option ℤ} (report : Report) (phase : Phase)
    (s : System) (hcloses : closes (scope report.command).identity.id) :
    RowsChange closes started s.rows (persist r a report phase s).2.rows := by
  change RowsChange closes started s.rows
    (iteration (lossy r.session r.generation a.around) report ⟨phase,s.rows⟩).rows
  rcases iteration_attempts r.session r.generation a.around report ⟨phase,s.rows⟩ with
    he | ⟨witness,hwitness,he⟩
  · rw [he]
    exact .refl started s.rows
  · rw [he]
    apply changes_attempt
    rcases hwitness with rfl | rfl
    · exact hcloses
    · rw [scope_interruption]
      exact hcloses

theorem coordinatorStep_rows (s : System) :
    RowStep r s (.coordinator a) (coordinatorStep r a s).rows := by
  have hsame : ∀ {d' : Database}, d'=s.rows → RowStep r s (.coordinator a) d' := by
    intro d' hd
    rw [hd]
    exact .inl (.refl none s.rows)
  unfold JobScheduler.coordinatorStep
  cases hc : s.coordinator with
  | startup =>
    have hrecover : RowStep r s (.coordinator a)
        (recoverOperationStartup a.cleanup a.clock a.rounds s.rows).2 :=
      .inl (changes_recoverOperationStartup (fun _ => .inl hc) a.cleanup a.clock a.rounds s.rows)
    dsimp only
    split <;> exact hrecover
  | top => exact hsame rfl
  | intake =>
    dsimp only
    split <;> exact hsame rfl
  | taken start id stopping =>
    dsimp only
    split <;> exact hsame rfl
  | admitting start at_ unknown id stopping =>
    cases unknown with
    | true =>
      dsimp only
      rw [if_pos rfl]
      split <;> exact hsame rfl
    | false =>
      dsimp only
      rw [if_neg Bool.false_ne_true]
      rcases createJob_rows r.session a.call start.input at_ s.rows with he | ⟨hcreated,-⟩
      · exact hsame he
      · exact .inr ⟨a,start,at_,id,stopping,rfl,hc,hcreated⟩
  | acknowledging start accepted id stopping => exact hsame rfl
  | cancelling id stopping =>
    cases id with
    | none => exact hsame rfl
    | some id => exact .inl (changes_requestCancel a.call id s.rows)
  | cancellingAll => exact .inl (changes_cancelAll a.call s.rows)
  | saving stopping =>
    dsimp only
    split
    · exact .inl (changes_saveProgress a.call _ _ _ s.rows)
    · exact hsame rfl
  | checking stopping => exact hsame rfl
  | excluding stopping => exact hsame rfl
  | finding stopping excluded => exact hsame rfl
  | reporting report phase =>
    exact .inl (persist_rows a report phase s (.inr (.inl ⟨report,phase,hc,rfl⟩)))
  | counting stopping noFinished => exact hsame rfl
  | fetching stopping noFinished excluded =>
    dsimp only
    split <;> exact hsame rfl
  | observing stopping work =>
    dsimp only
    split <;> exact hsame rfl
  | queueing work answer =>
    dsimp only
    split <;> exact hsame rfl
  | draining stopping noFinished empty => exact hsame rfl
  | verifying => exact hsame rfl
  | cleaning =>
    dsimp only
    split <;> exact hsame rfl
  | closing => exact hsame rfl
  | returned => exact hsame rfl

variable {worker : Worker} {index : ℕ}

theorem workerStep_rows (hworker : s.workers[index]?=some worker) :
    RowsChange (closing s) (starting s (.worker index a)) s.rows
      (workerStep r a s index worker).rows := by
  have hsame : ∀ {d' : Database}, d'=s.rows →
      RowsChange (closing s) (starting s (.worker index a)) s.rows d' := by
    intro d' hd
    rw [hd]
    exact .refl _ s.rows
  unfold JobScheduler.workerStep
  cases worker with
  | idle =>
    apply hsame
    dsimp only
    unfold takeItem
    split
    · rfl
    split
    · rfl
    · dsimp only
      split <;> rfl
  | starting work at_ unknown =>
    cases unknown with
    | true =>
      dsimp only
      rw [if_pos rfl]
      split <;> exact hsame rfl
    | false =>
      dsimp only
      rw [if_neg Bool.false_ne_true]
      have hstarting : starting s (.worker index a)=some work.item.identity.id := by
        rw [starting,hworker]
      rw [hstarting]
      exact changes_startItem r.session a.call work at_ s.rows
  | started work =>
    dsimp only
    split
    · split <;> exact hsame rfl
    · exact hsame rfl
  | compensating work report =>
    dsimp only
    split <;> exact hsame rfl
  | reporting work report phase resources =>
    have hmem := List.mem_of_getElem? hworker
    exact persist_rows a report phase s
      (.inr (.inr ⟨work,report,phase,resources,hmem,rfl⟩))
  | settling work resources =>
    dsimp only
    split <;> exact hsame rfl
  | releasing work => exact hsame rfl
  | returned kept => exact hsame rfl

/-- Every step rewrites the rows in place or appends those of the start that is admitted. -/
theorem step_rows (r : Runtime) (s : System) (event : JobScheduler.Event) :
    RowStep r s event (JobScheduler.step r s event).rows := by
  have hsame : ∀ {d' : Database}, d'=s.rows → RowStep r s event d' := by
    intro d' hd
    rw [hd]
    exact .inl (.refl _ s.rows)
  cases event with
  | tryStart contended start =>
    apply hsame
    change (accepted s _).rows=s.rows
    unfold accepted
    split <;> rfl
  | takeAdmission => exact hsame rfl
  | cancel contended id =>
    apply hsame
    change (accepted s _).rows=s.rows
    unfold accepted
    split <;> rfl
  | shutdown => exact hsame rfl
  | coordinator a => exact coordinatorStep_rows a s
  | worker index a =>
    cases hworker : s.workers[index]? with
    | none =>
      apply hsame
      simp only [JobScheduler.step,hworker]
    | some worker =>
      have hrows := workerStep_rows (r:=r) a hworker
      simp only [JobScheduler.step,hworker]
      exact .inl hrows

theorem step_later (r : Runtime) (s : System) (event : JobScheduler.Event) :
    Later s.rows (JobScheduler.step r s event).rows := by
  rcases step_rows r s event with h | ⟨a,start,at_,id,stopping,-,-,h,-⟩
  · exact changes_later h
  · exact created_later h

theorem step_accounted (h : Accounted s.rows) (event : JobScheduler.Event) :
    Accounted (JobScheduler.step r s event).rows := by
  have hstore : ∀ storeEvent, Accounted (OperationStore.step r.session storeEvent s.rows).2 :=
    fun storeEvent => accounted_step r.session storeEvent h
  have hpersist : ∀ a report phase, Accounted (persist r a report phase s).2.rows := by
    intro a report phase
    change Accounted
      (iteration (lossy r.session r.generation a.around) report ⟨phase,s.rows⟩).rows
    rcases iteration_attempts r.session r.generation a.around report ⟨phase,s.rows⟩ with
      he | ⟨witness,-,he⟩
    · rw [he]
      exact h
    · rw [he]
      exact hstore (.attempt r.generation a.around.call witness)
  cases event with
  | tryStart contended start =>
    change Accounted (accepted s _).rows
    unfold accepted
    split <;> exact h
  | takeAdmission => exact h
  | cancel contended id =>
    change Accounted (accepted s _).rows
    unfold accepted
    split <;> exact h
  | shutdown => exact h
  | coordinator a =>
    change Accounted (coordinatorStep r a s).rows
    unfold coordinatorStep
    cases s.coordinator with
    | startup =>
      have hrecover := hstore (.recoverOperationStartup a.cleanup a.clock a.rounds)
      dsimp only
      split <;> exact hrecover
    | admitting start at_ unknown id stopping =>
      dsimp only
      split
      · split <;> exact h
      · exact hstore (.createJob a.call start.input at_)
    | cancelling id stopping =>
      cases id with
      | none => exact h
      | some id => exact hstore (.requestCancel a.call id)
    | cancellingAll => exact hstore (.cancelAll a.call)
    | saving stopping =>
      dsimp only
      split
      · exact hstore (.saveProgress a.call _ _ _)
      · exact h
    | reporting report phase => exact hpersist a report phase
    | _ =>
      dsimp only
      first
      | exact h
      | (split <;> exact h)
  | worker index a =>
    cases hworker : s.workers[index]? with
    | none =>
      simp only [JobScheduler.step,hworker]
      exact h
    | some worker =>
      simp only [JobScheduler.step,hworker]
      unfold workerStep
      cases worker with
      | idle =>
        dsimp only
        unfold takeItem
        split
        · exact h
        split
        · exact h
        · dsimp only
          split <;> exact h
      | starting work at_ unknown =>
        dsimp only
        split
        · split <;> exact h
        · exact hstore (.startItem a.call work at_)
      | started work =>
        dsimp only
        split
        · split <;> exact h
        · exact h
      | reporting work report phase resources => exact hpersist a report phase
      | compensating work report =>
        dsimp only
        split <;> exact h
      | settling work resources =>
        dsimp only
        split <;> exact h
      | releasing work => exact h
      | returned kept => exact h

/-- The item the coordinator has read and not yet queued. -/
def waiting : Coordinator → Option WorkItem
  | .observing _ work | .queueing work _ => some work
  | _ => none

/-- The item of a worker that has not executed it. -/
def unexecuted : Worker → Option WorkItem
  | .starting work _ _ | .started work => some work
  | _ => none

/-- The items that are read or queued, and those that some places of the workers hold. -/
def worksBy (place : Worker → Option WorkItem) (s : System) : List WorkItem :=
  (waiting s.coordinator).toList++(s.state.queue++s.workers.filterMap place)

/-- The items between their read and their release. -/
def works (s : System) : List WorkItem := worksBy Worker.held s

/-- The rows an item was read from are still there. -/
structure Known (d : Database) (work : WorkItem) : Prop where
  /-- Its operation is stored with the columns that were read. -/
  operation : ∃ row, lookup (·.identity.id) work.operation.identity.id d.operations=some row ∧
    row.immutableScope=work.operation
  /-- It is stored with the columns that were read. -/
  item : ∃ row, lookup (·.identity.id) work.item.identity.id d.items=some row ∧
    row.immutableScope=work.item.immutableScope ∧
    row.operationId=work.operation.identity.id

/-- The row of an item has a state. -/
def Found (accepts : ItemState → Prop) (d : Database) (item : ℤ) : Prop :=
  ∃ row, lookup (·.identity.id) item d.items=some row ∧ accepts row.state

/-- An item is no longer pending. -/
def Begun : Database → ℤ → Prop := Found fun state => state≠.pending

/-- An item is terminal. -/
def Closed : Database → ℤ → Prop := Found fun state => state.isTerminal=true

variable {work : WorkItem}

theorem Known.later {d : Database} (h : Known d work) (hd : Later d d') : Known d' work := by
  obtain ⟨row,hrow,hscope⟩ := h.operation
  obtain ⟨item,hitem,hitemScope,hown⟩ := h.item
  obtain ⟨row',hrow',hs,-⟩ := hd.operations _ row hrow
  obtain ⟨item',hitem',hi,-⟩ := hd.items _ item hitem
  have hparent : item'.operationId=item.operationId := congrArg ItemScope.operationId hi
  exact ⟨⟨row',hrow',hs.trans hscope⟩,
    ⟨item',hitem',hi.trans hitemScope,hparent.trans hown⟩⟩

variable {item : ℤ}

theorem begun_later {d : Database} (h : Begun d item) (hd : Later d d') : Begun d' item := by
  obtain ⟨row,hrow,hstate⟩ := h
  obtain ⟨row',hrow',-,-,hpending⟩ := hd.items _ row hrow
  exact ⟨row',hrow',mt hpending hstate⟩

/-- A terminal item stays so. -/
theorem closed_later {d : Database} (h : Closed d item) (hd : Later d d') : Closed d' item := by
  obtain ⟨row,hrow,hstate⟩ := h
  obtain ⟨row',hrow',-,hsame,-⟩ := hd.items _ row hrow
  have he := hsame hstate
  subst he
  exact ⟨row',hrow',hstate⟩

def Achieved (r : Runtime) (d : Database) : Worker → Prop
  | .started work => Begun d work.item.identity.id
  | .reporting work report phase _ =>
      phase.isReturned=false ∧ ∃ a result, report=completionReport r a work result
  | .settling work _ | .releasing work => Closed d work.item.identity.id
  | _ => True

theorem Achieved.later {d : Database} (h : Achieved r d worker) (hd : Later d d') :
    Achieved r d' worker := by
  cases worker with
  | started work => exact begun_later h hd
  | reporting work report phase resources => exact h
  | settling work resources => exact closed_later h hd
  | releasing work => exact closed_later h hd
  | _ => exact trivial

/-- What is known of the rows in a state of the scheduler. -/
structure Tracked (r : Runtime) (s : System) : Prop where
  accounted : Accounted s.rows
  /-- The rows of every item between its read and its release are known. -/
  known : ∀ work ∈ works s, Known s.rows work
  workers : ∀ worker ∈ s.workers, Achieved r s.rows worker
  /-- Before the store has recovered nothing is taken in. -/
  quiet : s.state.ready=false → (s.coordinator=.startup ∨ s.coordinator=.returned) ∧
    s.state.inflight=[] ∧ s.state.ingress=none ∧ s.state.admission=none
  /-- The store recovers before the session is ready. -/
  startup : s.coordinator=.startup → s.state.ready=false
  /-- An operation that is being finished is stored. -/
  finishing : ∀ report phase, s.coordinator=.reporting report phase →
    ∃ row, lookup (·.identity.id) (scope report.command).identity.id s.rows.operations=some row

theorem writeResult_known {reply : Submitted α} (h : writeResult reply=.known) :
    ∃ a, reply=.answered (.committed a) := by
  unfold writeResult at h
  split at h
  all_goals first | exact ⟨_,rfl⟩ | cases h

theorem markRunning_begun {env : SchemaEnv} {error : StorageError} {id at_ : String} {d : Database}
    {u : Unit} (hd : Accounted d')
    (h : (OperationStore.markRunning env error id item at_).run d=.ok (u,d')) : Begun d' item := by
  obtain ⟨n,d₁,h1,h⟩ := bind_ok.mp h
  split at h
  · exact (throw_ok.mp h).elim
  obtain ⟨m,d₂,h2,h⟩ := bind_ok.mp h
  split at h
  · exact (throw_ok.mp h).elim
  next hone =>
  obtain ⟨-,rfl⟩ := pure_ok.mp h
  obtain ⟨hm,rfl⟩ := updateItems_ok h2
  rw [not_not] at hone
  obtain ⟨row,hrow,hp⟩ := exists_of_affected_one (hm.symm.trans hone)
  have hselected := hp
  simp only [Bool.and_eq_true,decide_eq_true_eq] at hselected
  have hl := lookup_of_mem hd.itemKeys (mem_update.mpr (.inr ⟨row,hrow,hp,rfl⟩))
  dsimp only at hl
  rw [hselected.1.1] at hl
  exact ⟨_,hl,fun hpending => nomatch hpending⟩

theorem startItem_begun {session : Session} {call : StoreCall} {at_ : String} {d : Database}
    (h : Accounted d) (hknown : (startItem session call work at_ d).1=.known) :
    Begun (startItem session call work at_ d).2 work.item.identity.id := by
  have hd : Accounted (startItem session call work at_ d).2 :=
    accounted_step session (.startItem call work at_) h
  obtain ⟨u,hu⟩ := writeResult_known hknown
  change Begun (submit call (startBody session call.schema work at_) d).2 _
  change Accounted (submit call (startBody session call.schema work at_) d).2 at hd
  generalize hafter : (submit call (startBody session call.schema work at_) d).2=d' at hd ⊢
  have hcommitted := submit_committed hu
  rw [hafter] at hcommitted
  obtain ⟨found,d₁,h1,hrun⟩ := bind_ok.mp hcommitted
  obtain ⟨hview,rfl⟩ := observe_ok.mp h1
  cases found with
  | none => exact (throw_ok.mp hrun).elim
  | some v =>
    dsimp only at hrun
    split at hrun
    · exact (throw_ok.mp hrun).elim
    split at hrun
    · next hrunning =>
      obtain ⟨-,rfl⟩ := pure_ok.mp hrun
      obtain ⟨item,hitem,hstate⟩ := (Option.any_eq_true _ _).mp hrunning
      obtain ⟨-,hshown,-⟩ := view_some hview
      obtain ⟨hl,-⟩ := itemOf_some h (hshown.symm.trans hitem)
      refine ⟨item,hl,?_⟩
      rw [of_decide_eq_true hstate]
      exact fun hpending => nomatch hpending
    · exact markRunning_begun hd hrun

variable {lost : Bool}

theorem readback_begun {d : Database} (h : Accounted d)
    (hread : startReadback r lost work d=.known .running) : Begun d work.item.identity.id := by
  unfold startReadback at hread
  split at hread
  · cases hread
  split at hread
  · next v hview =>
    obtain ⟨-,hshown,-⟩ := view_some hview
    split at hread
    · cases hread
    next item hitem =>
    obtain ⟨hl,-⟩ := itemOf_some h (hshown.symm.trans hitem)
    split at hread
    · cases hread
    split at hread
    · cases hread
    split at hread
    · next hstate =>
      refine ⟨item,hl,?_⟩
      rw [hstate]
      exact fun hpending => nomatch hpending
    · cases hread
    · cases hread
  · cases hread

theorem readback_closed {d : Database} (h : Accounted d)
    (hread : startReadback r lost work d=.known .interrupted) : Closed d work.item.identity.id := by
  unfold startReadback at hread
  split at hread
  · cases hread
  split at hread
  · next v hview =>
    obtain ⟨hoperation,hshown,-⟩ := view_some hview
    split at hread
    · cases hread
    next item hitem =>
    obtain ⟨hl,hown⟩ := itemOf_some h (hshown.symm.trans hitem)
    split at hread
    · cases hread
    split at hread
    · next hstate =>
      obtain ⟨hmem,hkey⟩ := lookup_mem hoperation
      exact ⟨item,hl,h.items_terminal hmem (hstate ▸ rfl) (lookup_mem hl).1
        (hown.trans hkey.symm)⟩
    split at hread
    · cases hread
    · cases hread
    · cases hread
  · cases hread

theorem reported_closed {a : Answer} {result : ExportPlans.ItemReport} {d : Database}
    (h : Accounted d) (hknown : Known d work)
    (hreported : Reported d (completionReport r a work result)) :
    Closed d work.item.identity.id := by
  rcases hreported with ⟨row,hrow,-,hstate⟩ | ⟨row,hrow,hstate⟩
  · exact ⟨row,hrow,hstate⟩
  · obtain ⟨item,hitem,-,hown⟩ := hknown.item
    obtain ⟨hmem,hkey⟩ := lookup_mem hrow
    exact ⟨item,hitem,h.items_terminal hmem hstate (lookup_mem hitem).1 (hown.trans hkey.symm)⟩

theorem nextPending_known {excluded : List ℤ} {d : Database} (h : Accounted d)
    (hread : nextPending r lost excluded d=.known (some work)) : Known d work := by
  obtain ⟨operation,item,hmem,hscope,hitem⟩ := nextPending_found hread
  obtain ⟨-,hparent,-⟩ := pendingItems_found hmem
  obtain ⟨hoperation,hkey⟩ := lookup_mem hparent
  obtain ⟨hl,hown⟩ := itemOf_some h hitem
  have hid : work.operation.identity.id=operation.identity.id := by
    rw [hscope]
    rfl
  have hkeyed : work.item.identity.id=item.identity.id := (lookup_mem hitem).2
  constructor
  · rw [hid,hkey]
    exact ⟨operation,hparent,hscope.symm⟩
  · rw [hkeyed]
    exact ⟨work.item,hl,rfl,hown.trans hid.symm⟩

theorem held_set {place : Worker → Option WorkItem} {workers : List Worker} {next : Worker}
    (h : work ∈ (workers.set index next).filterMap place) :
    work ∈ workers.filterMap place ∨ place next=some work := by
  obtain ⟨worker,hworker,hheld⟩ := List.mem_filterMap.mp h
  rcases List.mem_or_eq_of_mem_set hworker with hmem | he
  · exact .inl (List.mem_filterMap.mpr ⟨worker,hmem,hheld⟩)
  · exact .inr (he ▸ hheld)

theorem coordinatorStep_workers (s : System) : (coordinatorStep r a s).workers=s.workers := by
  unfold coordinatorStep
  cases s.coordinator with
  | cancelling id stopping => cases id <;> rfl
  | admitting start at_ unknown id stopping =>
    dsimp only
    split
    · split <;> rfl
    · rfl
  | _ =>
    first
    | rfl
    | (dsimp only; split <;> rfl)

theorem coordinatorStep_worksBy (place : Worker → Option WorkItem) (a : Answer) :
    ∀ work ∈ worksBy place (coordinatorStep r a s), work ∈ worksBy place s ∨
      ∃ excluded, nextPending r (a.lost "") excluded s.rows=.known (some work) := by
  have hkeep : ∀ {s' : System}, s'.workers=s.workers → s'.state.queue=s.state.queue →
      (waiting s'.coordinator=none ∨ waiting s'.coordinator=waiting s.coordinator) →
      ∀ work ∈ worksBy place s', work ∈ worksBy place s ∨
        ∃ excluded, nextPending r (a.lost "") excluded s.rows=.known (some work) := by
    intro s' hworkers hqueue hwaiting work hwork
    left
    unfold worksBy at hwork ⊢
    rw [hqueue,hworkers] at hwork
    rcases List.mem_append.mp hwork with hwork | hwork
    · rcases hwaiting with hw | hw
      · rw [hw] at hwork
        cases hwork
      · rw [hw] at hwork
        exact List.mem_append_left _ hwork
    · exact List.mem_append_right _ hwork
  unfold coordinatorStep
  cases hc : s.coordinator with
  | startup =>
    dsimp only
    split <;> exact hkeep rfl rfl (.inl rfl)
  | top =>
    refine hkeep rfl rfl (.inl ?_)
    dsimp only
    split <;> rfl
  | intake =>
    dsimp only
    split <;> exact hkeep rfl rfl (.inl rfl)
  | taken start id stopping =>
    dsimp only
    split <;> exact hkeep rfl rfl (.inl rfl)
  | admitting start at_ unknown id stopping =>
    dsimp only
    split
    · split
      · exact hkeep rfl rfl (.inl rfl)
      · exact hkeep rfl rfl (.inl rfl)
      · exact hkeep rfl rfl (.inr rfl)
    · refine hkeep rfl rfl (.inl ?_)
      dsimp only
      split <;> rfl
  | acknowledging start accepted id stopping => exact hkeep rfl rfl (.inl rfl)
  | cancelling id stopping =>
    cases id with
    | none =>
      refine hkeep rfl rfl (.inl ?_)
      cases stopping <;> rfl
    | some id =>
      refine hkeep rfl rfl (.inl ?_)
      dsimp only
      split
      · cases stopping <;> rfl
      · cases stopping <;> rfl
      · rfl
  | cancellingAll =>
    refine hkeep rfl rfl (.inl ?_)
    dsimp only
    split <;> rfl
  | saving stopping =>
    dsimp only
    split <;> exact hkeep rfl rfl (.inl rfl)
  | checking stopping => exact hkeep rfl rfl (.inl rfl)
  | excluding stopping => exact hkeep rfl rfl (.inl rfl)
  | finding stopping excluded =>
    refine hkeep rfl rfl (.inl ?_)
    dsimp only
    split <;> rfl
  | reporting report phase =>
    obtain ⟨-,hworkers,-,hstate⟩ := persist_frame (r:=r) a report phase s
    have hqueue : (persist r a report phase s).2.state.queue=s.state.queue := by
      rcases hstate with he | ⟨selected,he⟩
      · rw [he]
      · rw [he]
        rfl
    refine hkeep hworkers hqueue (.inl ?_)
    dsimp only
    split <;> rfl
  | counting stopping noFinished =>
    refine hkeep rfl rfl (.inl ?_)
    dsimp only
    split <;> rfl
  | fetching stopping noFinished excluded =>
    dsimp only
    split
    · next fetched hread =>
      intro work hwork
      rcases List.mem_append.mp hwork with hfetched | hwork
      · rw [waiting,Option.toList_some,List.mem_singleton] at hfetched
        rw [hfetched]
        exact .inr ⟨excluded,hread⟩
      · exact .inl (List.mem_append_right _ hwork)
    · exact hkeep rfl rfl (.inl rfl)
    · exact hkeep rfl rfl (.inl rfl)
  | observing stopping work =>
    dsimp only
    split
    · exact hkeep rfl rfl (.inr (by rw [hc]; rfl))
    · exact hkeep rfl rfl (.inl rfl)
  | queueing work answer =>
    dsimp only
    split
    · exact hkeep rfl rfl (.inl rfl)
    · intro other hother
      left
      have hmem : other ∈ s.state.queue++[work] ∨ other ∈ s.workers.filterMap place :=
        List.mem_append.mp hother
      unfold worksBy
      rw [hc]
      rcases hmem with hmem | hmem
      · rcases List.mem_append.mp hmem with hmem | hmem
        · exact List.mem_append_right _ (List.mem_append_left _ hmem)
        · exact List.mem_append_left _ hmem
      · exact List.mem_append_right _ (List.mem_append_right _ hmem)
  | draining stopping noFinished empty =>
    refine hkeep rfl rfl (.inl ?_)
    dsimp only
    split <;> rfl
  | verifying =>
    refine hkeep rfl rfl (.inl ?_)
    dsimp only
    split <;> rfl
  | cleaning =>
    dsimp only
    split
    · exact hkeep rfl rfl (.inl rfl)
    · exact hkeep rfl rfl (.inl rfl)
    · exact hkeep rfl rfl (.inr rfl)
  | closing => exact hkeep rfl rfl (.inl rfl)
  | returned => exact hkeep rfl rfl (.inr rfl)

theorem coordinatorStep_works (h : Accounted s.rows) (a : Answer) :
    ∀ work ∈ works (coordinatorStep r a s), work ∈ works s ∨ Known s.rows work := by
  intro work hwork
  rcases coordinatorStep_worksBy Worker.held a work hwork with hold | ⟨excluded,hread⟩
  · exact .inl hold
  · exact .inr (nextPending_known h hread)

/-- A worker goes on with its item, after executing it at most once, or has released it. -/
def Follows (worker next : Worker) : Prop :=
  (next.held=none ∨ next.held=worker.held) ∧
    (unexecuted next=none ∨ unexecuted next=unexecuted worker)

theorem workerStep_moves (s : System) (index : ℕ) (worker : Worker) :
    ((workerStep r a s index worker).workers=s.workers ∧
      (workerStep r a s index worker).state.queue=s.state.queue ∧
      ∀ work, worker≠.started work) ∨
    (∃ next, (workerStep r a s index worker).workers=s.workers.set index next ∧
      (workerStep r a s index worker).state.queue=s.state.queue ∧ Follows worker next ∧
      (∀ work, worker=.started work → unexecuted next=none)) ∨
    ∃ work queue next, s.state.queue=work::queue ∧
      (workerStep r a s index worker).workers=s.workers.set index next ∧
      (workerStep r a s index worker).state.queue=queue ∧
      (next=.starting work a.now false ∨ next=.returned none) ∧ worker=.idle := by
  unfold workerStep
  cases worker with
  | idle =>
    dsimp only
    unfold takeItem
    split
    · exact .inr (.inl ⟨.returned none,rfl,rfl,⟨.inl rfl,.inl rfl⟩,fun _ he => nomatch he⟩)
    split
    · exact .inl ⟨rfl,rfl,fun _ he => nomatch he⟩
    next work queue hqueue =>
    dsimp only
    split
    · exact .inr (.inr ⟨work,queue,.starting work a.now false,hqueue,rfl,rfl,.inl rfl,rfl⟩)
    · exact .inr (.inr ⟨work,queue,.returned none,hqueue,rfl,rfl,.inr rfl,rfl⟩)
  | starting work at_ unknown =>
    dsimp only
    split
    · split
      · exact .inr (.inl ⟨.started work,rfl,rfl,⟨.inr rfl,.inr rfl⟩,fun _ he => nomatch he⟩)
      · exact .inr (.inl ⟨.starting work at_ false,rfl,rfl,⟨.inr rfl,.inr rfl⟩,
          fun _ he => nomatch he⟩)
      · exact .inr (.inl ⟨.releasing work,rfl,rfl,⟨.inr rfl,.inl rfl⟩,fun _ he => nomatch he⟩)
      · exact .inl ⟨rfl,rfl,fun _ he => nomatch he⟩
    · refine .inr (.inl ⟨_,rfl,rfl,?_,fun _ he => nomatch he⟩)
      cases (startItem r.session a.call work at_ s.rows).1 <;> exact ⟨.inr rfl,.inr rfl⟩
  | started work =>
    dsimp only
    split
    · split
      · exact .inr (.inl ⟨.compensating work (executionOf a s work).report,rfl,rfl,
          ⟨.inr rfl,.inl rfl⟩,fun _ _ => rfl⟩)
      · exact .inr (.inl ⟨.returned (some work),rfl,rfl,⟨.inr rfl,.inl rfl⟩,fun _ _ => rfl⟩)
    · exact .inr (.inl ⟨_,rfl,rfl,⟨.inr rfl,.inl rfl⟩,fun _ _ => rfl⟩)
  | compensating work report =>
    dsimp only
    split
    · exact .inr (.inl ⟨_,rfl,rfl,⟨.inr rfl,.inl rfl⟩,fun _ he => nomatch he⟩)
    · exact .inl ⟨rfl,rfl,fun _ he => nomatch he⟩
  | reporting work report phase resources =>
    obtain ⟨-,hworkers,-,hstate⟩ := persist_frame (r:=r) a report phase s
    have hqueue : (persist r a report phase s).2.state.queue=s.state.queue := by
      rcases hstate with he | ⟨selected,he⟩
      · rw [he]
      · rw [he]
        rfl
    have hset : ∀ next, ((persist r a report phase s).2.setWorker index next).workers=
        s.workers.set index next := fun next =>
      congrArg (fun workers : List Worker => workers.set index next) hworkers
    dsimp only
    refine .inr (.inl ⟨_,hset _,hqueue,?_,fun _ he => nomatch he⟩)
    split <;> exact ⟨.inr rfl,.inl rfl⟩
  | settling work resources =>
    dsimp only
    split
    · exact .inl ⟨rfl,rfl,fun _ he => nomatch he⟩
    · exact .inr (.inl ⟨.releasing work,rfl,rfl,⟨.inr rfl,.inl rfl⟩,fun _ he => nomatch he⟩)
  | releasing work => exact .inr (.inl ⟨.idle,rfl,rfl,⟨.inl rfl,.inl rfl⟩,fun _ he => nomatch he⟩)
  | returned kept => exact .inl ⟨rfl,rfl,fun _ he => nomatch he⟩

theorem workerStep_worksBy {place : Worker → Option WorkItem}
    (hfollows : ∀ {worker next}, Follows worker next → place next=none ∨ place next=place worker)
    (hstarting : ∀ work at_, place (.starting work at_ false)=some work)
    (hreturned : place (.returned none)=none) (a : Answer) (hworker : s.workers[index]?=some worker)
    :
    ∀ work ∈ worksBy place (workerStep r a s index worker), work ∈ worksBy place s := by
  obtain ⟨hcoordinator,-⟩ := workerStep_frame (r:=r) a s index worker
  intro work hwork
  unfold worksBy at hwork ⊢
  rw [hcoordinator] at hwork
  rcases List.mem_append.mp hwork with hwork | hwork
  · exact List.mem_append_left _ hwork
  apply List.mem_append_right
  rcases workerStep_moves (r:=r) a s index worker with
    ⟨hworkers,hqueue,-⟩ | ⟨next,hworkers,hqueue,hnext,-⟩ |
    ⟨taken,queue,next,hbefore,hworkers,hqueue,hnext,-⟩
  · rw [hworkers,hqueue] at hwork
    exact hwork
  · rw [hworkers,hqueue] at hwork
    rcases List.mem_append.mp hwork with hwork | hwork
    · exact List.mem_append_left _ hwork
    apply List.mem_append_right
    rcases held_set hwork with hwork | hwork
    · exact hwork
    rcases hfollows hnext with he | he
    · rw [he] at hwork
      cases hwork
    · exact List.mem_filterMap.mpr
        ⟨worker,List.mem_of_getElem? hworker,he.symm.trans hwork⟩
  · rw [hworkers,hqueue] at hwork
    rw [hbefore]
    rcases List.mem_append.mp hwork with hwork | hwork
    · exact List.mem_append_left _ (List.mem_cons_of_mem _ hwork)
    rcases held_set hwork with hwork | hwork
    · exact List.mem_append_right _ hwork
    rcases hnext with he | he
    · rw [he,hstarting] at hwork
      rw [←Option.some.inj hwork]
      exact List.mem_append_left _ List.mem_cons_self
    · rw [he,hreturned] at hwork
      cases hwork

/-- A worker adds nothing to the items between their read and their release. -/
theorem workerStep_works (hworker : s.workers[index]?=some worker) :
    ∀ work ∈ works (workerStep r a s index worker), work ∈ works s :=
  workerStep_worksBy (fun h => h.1) (fun _ _ => rfl) rfl a hworker

theorem workerStep_achieved (h : Accounted s.rows) (a : Answer)
    (hknown : ∀ work, worker.held=some work → Known s.rows work)
    (hachieved : Achieved r s.rows worker) (hafter : Accounted (workerStep r a s index worker).rows)
    (hlater : Later s.rows (workerStep r a s index worker).rows) :
    ∀ other ∈ (workerStep r a s index worker).workers,
      other ∈ s.workers ∨ Achieved r (workerStep r a s index worker).rows other := by
  have hset : ∀ {s' : System} {next : Worker} {d : Database},
      s'.workers=s.workers.set index next → Achieved r d next →
      ∀ other ∈ s'.workers, other ∈ s.workers ∨ Achieved r d other := by
    intro s' next d hworkers hnext other hother
    rw [hworkers] at hother
    rcases List.mem_or_eq_of_mem_set hother with hmem | he
    · exact .inl hmem
    · exact .inr (he ▸ hnext)
  unfold workerStep at hafter hlater ⊢
  cases worker with
  | idle =>
    dsimp only
    unfold takeItem
    split
    · exact hset rfl trivial
    split
    · exact fun other hother => .inl hother
    · dsimp only
      split
      · exact hset rfl trivial
      · exact hset rfl trivial
  | starting work at_ unknown =>
    dsimp only at hafter hlater ⊢
    split
    · split
      · next hread => exact hset rfl (readback_begun h hread)
      · exact hset rfl trivial
      · next hread => exact hset rfl (readback_closed h hread)
      · exact fun other hother => .inl hother
    · refine hset rfl ?_
      cases hreply : (startItem r.session a.call work at_ s.rows).1 with
      | known => exact startItem_begun h hreply
      | retry => exact trivial
      | unknown => exact trivial
      | rejected => exact trivial
  | started work =>
    dsimp only
    split
    · split
      · exact hset rfl trivial
      · exact hset rfl trivial
    · exact hset rfl ⟨rfl,a,_,rfl⟩
  | compensating work report =>
    dsimp only
    split
    · exact hset rfl ⟨rfl,a,_,rfl⟩
    · exact fun other hother => .inl hother
  | reporting work report phase resources =>
    obtain ⟨-,hworkers,-,-⟩ := persist_frame (r:=r) a report phase s
    have hset' : ∀ next, ((persist r a report phase s).2.setWorker index next).workers=
        s.workers.set index next := fun next =>
      congrArg (fun workers : List Worker => workers.set index next) hworkers
    refine hset (hset' _) ?_
    obtain ⟨hphase,b,result,he⟩ := hachieved
    dsimp only at hafter hlater ⊢
    cases hreturned : (persist r a report phase s).1.isReturned with
    | false => exact ⟨hreturned,b,result,he⟩
    | true =>
      have hreported := iteration_returned (s:=⟨phase,s.rows⟩) h hphase hreturned
      rw [if_pos rfl]
      rw [he] at hreported hafter hlater ⊢
      exact reported_closed hafter ((hknown work rfl).later hlater) hreported
  | settling work resources =>
    dsimp only
    split
    · exact fun other hother => .inl hother
    · exact hset rfl hachieved
  | releasing work => exact hset rfl trivial
  | returned kept => exact fun other hother => .inl hother

theorem workerStep_intake (s : System) (index : ℕ) (worker : Worker) :
    (workerStep r a s index worker).state.ready=s.state.ready ∧
    (workerStep r a s index worker).state.ingress=s.state.ingress ∧
    (workerStep r a s index worker).state.admission=s.state.admission ∧
    (workerStep r a s index worker).state.admitting=s.state.admitting := by
  unfold workerStep
  cases worker with
  | idle =>
    dsimp only
    unfold takeItem
    split
    · exact ⟨rfl,rfl,rfl,rfl⟩
    split
    · exact ⟨rfl,rfl,rfl,rfl⟩
    · dsimp only
      split <;> exact ⟨rfl,rfl,rfl,rfl⟩
  | starting work at_ unknown =>
    dsimp only
    split
    · split <;> exact ⟨rfl,rfl,rfl,rfl⟩
    · exact ⟨rfl,rfl,rfl,rfl⟩
  | started work =>
    dsimp only
    split
    · split <;> exact ⟨rfl,rfl,rfl,rfl⟩
    · exact ⟨rfl,rfl,rfl,rfl⟩
  | compensating work report =>
    dsimp only
    split <;> exact ⟨rfl,rfl,rfl,rfl⟩
  | reporting work report phase resources =>
    obtain ⟨-,-,-,hstate⟩ := persist_frame (r:=r) a report phase s
    change (persist r a report phase s).2.state.ready=_ ∧
      (persist r a report phase s).2.state.ingress=_ ∧
      (persist r a report phase s).2.state.admission=_ ∧
      (persist r a report phase s).2.state.admitting=_
    rcases hstate with he | ⟨selected,he⟩
    · rw [he]
      exact ⟨rfl,rfl,rfl,rfl⟩
    · rw [he]
      exact ⟨rfl,rfl,rfl,rfl⟩
  | settling work resources =>
    dsimp only
    split <;> exact ⟨rfl,rfl,rfl,rfl⟩
  | releasing work => exact ⟨rfl,rfl,rfl,rfl⟩
  | returned kept => exact ⟨rfl,rfl,rfl,rfl⟩

theorem coordinatorStep_ready (a : Answer) (h : s.state.ready=true) :
    (coordinatorStep r a s).state.ready=true := by
  unfold coordinatorStep
  cases s.coordinator with
  | startup =>
    dsimp only
    split <;> first | exact h | rfl
  | admitting start at_ unknown id stopping =>
    dsimp only
    split
    · split <;> exact h
    · exact h
  | cancelling id stopping => cases id <;> exact h
  | reporting report phase =>
    obtain ⟨-,-,-,hstate⟩ := persist_frame (r:=r) a report phase s
    change (persist r a report phase s).2.state.ready=true
    rcases hstate with he | ⟨selected,he⟩
    · rw [he]
      exact h
    · rw [he]
      exact h
  | _ =>
    first
    | exact h
    | (dsimp only; split <;> exact h)

/-- Before the store has recovered the coordinator takes nothing in. -/
theorem coordinatorStep_quiet (h : Tracked r s) (a : Answer)
    (hready : (coordinatorStep r a s).state.ready=false) :
    ((coordinatorStep r a s).coordinator=.startup ∨
      (coordinatorStep r a s).coordinator=.returned) ∧
    (coordinatorStep r a s).state.inflight=[] ∧ (coordinatorStep r a s).state.ingress=none ∧
    (coordinatorStep r a s).state.admission=none := by
  have hbefore : s.state.ready=false := by
    cases hr : s.state.ready with
    | false => rfl
    | true => exact absurd (coordinatorStep_ready a hr) (by rw [hready]; exact Bool.false_ne_true)
  obtain ⟨hc,hquiet⟩ := h.quiet hbefore
  unfold coordinatorStep at hready ⊢
  rcases hc with hc | hc
  · rw [hc] at hready ⊢
    dsimp only at hready ⊢
    split at hready
    · cases hready
    · exact ⟨.inl rfl,hquiet⟩
    · exact ⟨.inl rfl,hquiet⟩
    · exact ⟨.inl rfl,hquiet⟩
    · exact ⟨.inr rfl,hquiet⟩
  · rw [hc]
    exact ⟨.inr hc,hquiet⟩

/-- The start the coordinator is about to decide. -/
def deciding : Coordinator → Option Start
  | .taken start _ _ | .admitting start _ _ _ _ | .acknowledging start _ _ _ => some start
  | _ => none

/-- The coordinator neither starts nor decides a start nor reports. -/
def plain : Coordinator → Bool
  | .startup | .taken _ _ _ | .admitting _ _ _ _ _ | .acknowledging _ _ _ _
  | .reporting _ _ => false
  | _ => true

/-- A step of the coordinator away from what is taken in. -/
structure Passing (s s' : System) : Prop where
  /-- No start is being decided. -/
  place : deciding s'.coordinator=none
  /-- The store has recovered. -/
  begun : s'.coordinator≠.startup
  /-- What is taken in and acknowledged stays. -/
  intake : s'.state.ingress=s.state.ingress ∧ s'.state.admission=s.state.admission ∧
    s'.state.admitting=s.state.admitting ∧ s'.state.ready=s.state.ready
  /-- A report that begins is about a stored operation. -/
  reporting : ∀ report phase, s'.coordinator=.reporting report phase →
    (∃ phase, s.coordinator=.reporting report phase) ∨
    ∃ row ∈ s.rows.operations, row.identity.id=(scope report.command).identity.id

theorem readyToFinish_found {excluded : List String} {d : Database} {operation : OperationScope}
    {result : CompletionOutcomes.TerminalResult}
    (h : readyToFinish lost excluded d=.known (some (operation,result))) :
    ∃ row ∈ d.operations, row.identity.id=operation.identity.id := by
  unfold readyToFinish at h
  split at h
  · cases h
  split at h
  · cases h
  split at h
  · cases h
  next row hfirst =>
  split at h
  · cases h
    exact ⟨row,(List.mem_filter.mp (firstBy_mem hfirst)).1,rfl⟩
  · cases h

theorem coordinatorStep_passing (hplace : deciding s.coordinator=none)
    (hstartup : s.coordinator≠.startup) (hintake : s.coordinator≠.intake) :
    Passing s (coordinatorStep r a s) := by
  have hpass : ∀ {s' : System}, s'.state.ingress=s.state.ingress →
      s'.state.admission=s.state.admission → s'.state.admitting=s.state.admitting →
      s'.state.ready=s.state.ready → plain s'.coordinator=true → Passing s s' := by
    intro s' h1 h2 h3 h4 hp
    refine ⟨?_,?_,⟨h1,h2,h3,h4⟩,?_⟩
    · revert hp
      cases s'.coordinator <;> simp [plain,deciding]
    · intro he
      rw [he] at hp
      cases hp
    · intro report phase he
      rw [he] at hp
      cases hp
  have hafter : ∀ {stopping : Bool}, plain (afterCancel stopping)=true := by
    intro stopping
    cases stopping <;> rfl
  unfold coordinatorStep
  cases hc : s.coordinator with
  | startup => exact absurd hc hstartup
  | intake => exact absurd hc hintake
  | taken start id stopping =>
    rw [hc] at hplace
    cases hplace
  | admitting start at_ unknown id stopping =>
    rw [hc] at hplace
    cases hplace
  | acknowledging start accepted id stopping =>
    rw [hc] at hplace
    cases hplace
  | top =>
    dsimp only
    split <;> exact hpass rfl rfl rfl rfl rfl
  | cancelling id stopping =>
    cases id with
    | none => exact hpass rfl rfl rfl rfl hafter
    | some id =>
      dsimp only
      split
      · exact hpass rfl rfl rfl rfl hafter
      · exact hpass rfl rfl rfl rfl hafter
      · exact hpass rfl rfl rfl rfl rfl
  | cancellingAll =>
    dsimp only
    split <;> exact hpass rfl rfl rfl rfl rfl
  | saving stopping =>
    dsimp only
    split <;> exact hpass rfl rfl rfl rfl rfl
  | checking stopping => exact hpass rfl rfl rfl rfl rfl
  | excluding stopping => exact hpass rfl rfl rfl rfl rfl
  | finding stopping excluded =>
    dsimp only
    split
    · next operation result hread =>
      refine ⟨rfl,(fun he => nomatch he),⟨rfl,rfl,rfl,rfl⟩,?_⟩
      intro report phase he
      cases he
      exact .inr (readyToFinish_found hread)
    · exact hpass rfl rfl rfl rfl rfl
    · exact hpass rfl rfl rfl rfl rfl
  | reporting report phase =>
    obtain ⟨-,-,-,hstate⟩ := persist_frame (r:=r) a report phase s
    have hintake' : (persist r a report phase s).2.state.ingress=s.state.ingress ∧
        (persist r a report phase s).2.state.admission=s.state.admission ∧
        (persist r a report phase s).2.state.admitting=s.state.admitting ∧
        (persist r a report phase s).2.state.ready=s.state.ready := by
      rcases hstate with he | ⟨selected,he⟩
      · rw [he]
        exact ⟨rfl,rfl,rfl,rfl⟩
      · rw [he]
        exact ⟨rfl,rfl,rfl,rfl⟩
    dsimp only
    split
    · exact hpass hintake'.1 hintake'.2.1 hintake'.2.2.1 hintake'.2.2.2 rfl
    · refine ⟨rfl,(fun he => nomatch he),hintake',?_⟩
      intro other phase' he
      cases he
      exact .inl ⟨phase,hc⟩
  | counting stopping noFinished =>
    dsimp only
    split <;> exact hpass rfl rfl rfl rfl rfl
  | fetching stopping noFinished excluded =>
    dsimp only
    split <;> exact hpass rfl rfl rfl rfl rfl
  | observing stopping work =>
    dsimp only
    split <;> exact hpass rfl rfl rfl rfl rfl
  | queueing work answer =>
    dsimp only
    split <;> exact hpass rfl rfl rfl rfl rfl
  | draining stopping noFinished empty =>
    dsimp only
    split <;> exact hpass rfl rfl rfl rfl rfl
  | verifying =>
    dsimp only
    split <;> exact hpass rfl rfl rfl rfl rfl
  | cleaning =>
    dsimp only
    split
    · exact hpass rfl rfl rfl rfl rfl
    · exact hpass rfl rfl rfl rfl rfl
    · exact hpass rfl rfl rfl rfl (congrArg plain hc)
  | closing => exact hpass rfl rfl rfl rfl rfl
  | returned => exact hpass rfl rfl rfl rfl (congrArg plain hc)

theorem coordinatorStep_deciding (h : deciding s.coordinator≠none ∨ s.coordinator=.intake) :
    (coordinatorStep r a s).coordinator≠.startup ∧
      ∀ report phase, (coordinatorStep r a s).coordinator≠.reporting report phase := by
  have hcancelling : ∀ {c : Coordinator}, (deciding c≠none ∨ ∃ id stopping, c=.cancelling id
    stopping) →
      c≠.startup ∧ ∀ report phase, c≠.reporting report phase := by
    intro c hc
    constructor
    · rintro rfl
      rcases hc with hc | ⟨id,stopping,hc⟩
      · exact hc rfl
      · cases hc
    · rintro report phase rfl
      rcases hc with hc | ⟨id,stopping,hc⟩
      · exact hc rfl
      · cases hc
  have hsome : ∀ {start : Start}, (some start : Option Start)≠none := fun he => nomatch he
  unfold coordinatorStep
  cases hc : s.coordinator with
  | intake =>
    dsimp only
    split
    · exact hcancelling (.inl hsome)
    · exact hcancelling (.inr ⟨_,_,rfl⟩)
  | taken start id stopping =>
    dsimp only
    split <;> exact hcancelling (.inl hsome)
  | admitting start at_ unknown id stopping =>
    dsimp only
    split
    · split
      · exact hcancelling (.inl hsome)
      · exact hcancelling (.inl hsome)
      · refine hcancelling (.inl ?_)
        rw [hc]
        exact hsome
    · dsimp only
      split <;> exact hcancelling (.inl hsome)
  | acknowledging start accepted id stopping => exact hcancelling (.inr ⟨_,_,rfl⟩)
  | _ =>
    rw [hc] at h
    rcases h with h | h
    · exact absurd rfl h
    · cases h

theorem coordinatorStep_startup (h : Tracked r s) (a : Answer)
    (hstartup : (coordinatorStep r a s).coordinator=.startup) :
    (coordinatorStep r a s).state.ready=false := by
  by_cases hdeciding : deciding s.coordinator≠none ∨ s.coordinator=.intake
  · exact absurd hstartup (coordinatorStep_deciding a hdeciding).1
  rw [not_or,not_not] at hdeciding
  by_cases hc : s.coordinator=.startup
  · unfold coordinatorStep at hstartup ⊢
    rw [hc] at hstartup ⊢
    dsimp only at hstartup ⊢
    split at hstartup
    · cases hstartup
    · exact h.startup hc
    · exact h.startup hc
    · exact h.startup hc
    · cases hstartup
  · exact absurd hstartup (coordinatorStep_passing a hdeciding.1 hc hdeciding.2).begun

theorem coordinatorStep_finishing (h : Tracked r s) (a : Answer)
    (hlater : Later s.rows (coordinatorStep r a s).rows) (report : Report) (phase : Phase)
    (hreporting : (coordinatorStep r a s).coordinator=.reporting report phase) :
    ∃ row, lookup (·.identity.id) (scope report.command).identity.id
      (coordinatorStep r a s).rows.operations=some row := by
  by_cases hdeciding : deciding s.coordinator≠none ∨ s.coordinator=.intake
  · exact absurd hreporting ((coordinatorStep_deciding a hdeciding).2 report phase)
  rw [not_or,not_not] at hdeciding
  by_cases hc : s.coordinator=.startup
  · unfold coordinatorStep at hreporting
    rw [hc] at hreporting
    dsimp only at hreporting
    split at hreporting <;> cases hreporting
  have hpassing := coordinatorStep_passing (r:=r) a hdeciding.1 hc hdeciding.2
  have hfound : ∃ row, lookup (·.identity.id) (scope report.command).identity.id
      s.rows.operations=some row := by
    rcases hpassing.reporting report phase hreporting with ⟨phase',hc⟩ | ⟨row,hmem,hkey⟩
    · exact h.finishing report phase' hc
    · rw [←hkey]
      exact ⟨row,lookup_of_mem h.accounted.operationKeys hmem⟩
  obtain ⟨row,hrow⟩ := hfound
  obtain ⟨row',hrow',-⟩ := hlater.operations _ row hrow
  exact ⟨row',hrow'⟩

theorem step_tracked (h : Tracked r s) (event : JobScheduler.Event) :
    Tracked r (JobScheduler.step r s event) := by
  have haccounted := step_accounted (r:=r) h.accounted event
  have hlater := step_later r s event
  have hcommand : ∀ {command : Except Refusal State},
      (∀ state, command=.ok state → state.queue=s.state.queue ∧
        (s.state.ready=false → state.ready=false →
          state.inflight=[] ∧ state.ingress=none ∧ state.admission=none) ∧
        state.ready=s.state.ready) →
      Tracked r (accepted s command) := by
    intro command hok
    cases command with
    | error refusal => exact h
    | ok state =>
      obtain ⟨hqueue,hquiet,hsame⟩ := hok state rfl
      have hready : state.ready=false → s.state.ready=false := hsame.symm.trans
      constructor
      · exact h.accounted
      · intro work hwork
        change work ∈ (waiting s.coordinator).toList++(state.queue++s.held) at hwork
        rw [hqueue] at hwork
        exact h.known work hwork
      · exact h.workers
      · intro hr
        exact ⟨(h.quiet (hready hr)).1,hquiet (hready hr) hr⟩
      · intro hc
        exact hsame.trans (h.startup hc)
      · exact h.finishing
  cases event with
  | tryStart contended start =>
    apply hcommand
    intro state hok
    obtain ⟨rfl,hready,-⟩ := tryStart_ok hok
    refine ⟨rfl,?_,rfl⟩
    intro hr _
    rw [hready] at hr
    cases hr
  | takeAdmission =>
    have hok := @hcommand (.ok (takeAdmission s.state).2)
    apply hok
    intro state he
    cases he
    refine ⟨rfl,?_,rfl⟩
    intro hr _
    exact ⟨(h.quiet hr).2.1,(h.quiet hr).2.2.1,rfl⟩
  | cancel contended id =>
    apply hcommand
    intro state hok
    rw [cancel_ok hok]
    refine ⟨rfl,?_,rfl⟩
    intro hr _
    exact ⟨cancelTokens_empty (h.quiet hr).2.1,(h.quiet hr).2.2⟩
  | shutdown =>
    have hok := @hcommand (.ok (shutdown s.state))
    apply hok
    intro state he
    cases he
    refine ⟨rfl,?_,rfl⟩
    intro hr _
    exact ⟨cancelTokens_empty (h.quiet hr).2.1,(h.quiet hr).2.2⟩
  | coordinator a =>
    constructor
    · exact haccounted
    · intro work hwork
      rcases coordinatorStep_works h.accounted a work hwork with hold | hknown
      · exact (h.known work hold).later hlater
      · exact hknown.later hlater
    · intro worker hworker
      change worker ∈ (coordinatorStep r a s).workers at hworker
      rw [coordinatorStep_workers] at hworker
      exact (h.workers worker hworker).later hlater
    · exact coordinatorStep_quiet h a
    · exact coordinatorStep_startup h a
    · exact coordinatorStep_finishing h a hlater
  | worker index a =>
    cases hworker : s.workers[index]? with
    | none =>
      simp only [JobScheduler.step,hworker]
      exact h
    | some worker =>
      simp only [JobScheduler.step,hworker] at haccounted hlater ⊢
      have hmem := List.mem_of_getElem? hworker
      have hown : ∀ work, worker.held=some work → work ∈ s.held := fun work hwork =>
        List.mem_filterMap.mpr ⟨worker,hmem,hwork⟩
      constructor
      · exact haccounted
      · intro work hwork
        exact (h.known work (workerStep_works a hworker work hwork)).later hlater
      · intro other hother
        have hachieved := workerStep_achieved h.accounted a (fun work hwork => h.known work
          (List.mem_append_right _ (List.mem_append_right _ (hown work hwork))))
          (h.workers worker hmem) haccounted hlater other hother
        rcases hachieved with hold | hnew
        · exact (h.workers other hold).later hlater
        · exact hnew
      · obtain ⟨hready,hingress,hadmission,-⟩ := workerStep_intake (r:=r) a s index worker
        obtain ⟨hc,-,hinflight,-⟩ := workerStep_frame (r:=r) a s index worker
        intro hr
        obtain ⟨hplace,hnone,hin,had⟩ := h.quiet (hready.symm.trans hr)
        rw [hc,hingress,hadmission]
        refine ⟨hplace,?_,hin,had⟩
        rw [List.eq_nil_iff_forall_not_mem]
        intro entry hentry
        obtain ⟨old,hold,-⟩ := hinflight entry hentry
        rw [hnone] at hold
        cases hold
      · obtain ⟨hready,-⟩ := workerStep_intake (r:=r) a s index worker
        obtain ⟨hc,-⟩ := workerStep_frame (r:=r) a s index worker
        rw [hc,hready]
        exact h.startup
      · obtain ⟨hc,-⟩ := workerStep_frame (r:=r) a s index worker
        intro report phase hreporting
        obtain ⟨row,hrow⟩ := h.finishing report phase (hc.symm.trans hreporting)
        obtain ⟨row',hrow',-⟩ := hlater.operations _ row hrow
        exact ⟨row',hrow'⟩

theorem step_session (r : Runtime) (s : System) (event : JobScheduler.Event)
    (h : Exact r s ∧ Place r s ∧ Tracked r s) :
    Exact r (JobScheduler.step r s event) ∧ Place r (JobScheduler.step r s event) ∧
      Tracked r (JobScheduler.step r s event) := by
  obtain ⟨hexact,hplace⟩ := step_dispatched r s event ⟨h.1,h.2.1⟩
  exact ⟨hexact,hplace,step_tracked h.2.2 event⟩

theorem new_session (r : Runtime) {rows : Database} (h : Accounted rows) :
    Exact r (System.new r rows) ∧ Place r (System.new r rows) ∧ Tracked r (System.new r rows) := by
  obtain ⟨hexact,hplace⟩ := new_dispatched r rows
  refine ⟨hexact,hplace,h,?_,?_,fun _ => ⟨.inl rfl,rfl,rfl,rfl⟩,fun _ => rfl,
    fun _ _ he => nomatch he⟩
  · intro work hwork
    have hheld := (hexact.empty rfl).2
    change work ∈ [] ++ ([] ++ (System.new r rows).held) at hwork
    rw [hheld] at hwork
    cases hwork
  · intro worker hworker
    rw [List.eq_of_mem_replicate hworker]
    exact trivial

end Librairii.JobRows
