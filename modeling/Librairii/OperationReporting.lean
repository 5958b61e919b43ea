import Librairii.OperationStore

/-!
# Durable reporting: bounded retries, then an interruption until it is answered

Reporting a terminal command makes three attempts. An unknown attempt is read
back before another write, three unresolved readbacks or attempts escalate to an
interruption of the whole operation, and that interruption is repeated without a
bound. Once the store answers truthfully, reporting returns exactly when the
command is still its own and recorded, or the operation can be interrupted or
already is. A recorded terminal result other than an interruption keeps the
escalated loop running for ever.
-/

namespace Librairii.OperationReporting

open CheckedResults StorageTransactions RowTables OperationRows OperationPolicy OperationStore

/-- What one loop iteration is answered for a readback and for an attempt. -/
structure Answers where
  readback : CommandWitness → Database → ReadbackDisposition
  /-- Answer of an attempt and the rows it leaves. -/
  attempt : CommandWitness → Database → AttemptDisposition×Database

/-- Where the reporting of one command stands. -/
inductive Phase where
  /-- Retrying the command itself. -/
  | persisting (unknown : Bool) (writes reads : ℕ)
  /-- Retrying the interruption it escalated to. -/
  | reconciling (unknown : Bool) (attempts : ℕ)
  | returned (header : Option OperationHeader)
  deriving DecidableEq

/-- A phase with the stored rows. -/
structure Reporting where
  phase : Phase
  rows : Database
  deriving DecidableEq

/-- What stays fixed while one command is reported. -/
structure Report where
  /-- Generation of the store. -/
  opened : ℕ
  command : CommandWitness
  /-- Time text of the escalation. -/
  finishedAt : String
  deriving DecidableEq

def interrupted (view : TerminalView) : Option OperationHeader :=
  if view.operation.state=.interrupted then some view.operation else none

def Report.interruptCommand (report : Report) : InterruptCommand where
  generation := report.opened
  operation := scope report.command
  code := "persistence_failed"
  message := "Operation progress could not be saved."
  finishedAt := report.finishedAt

def Report.interruption (report : Report) : CommandWitness := .interrupt report.interruptCommand

/-- Escalate after the third attempt, otherwise keep persisting. -/
def afterWrite (unknown : Bool) (writes reads : ℕ) : Phase :=
  if 3≤writes+1 then .reconciling false 0 else .persisting unknown (writes+1) reads

/-- Escalate after the third unresolved readback, otherwise keep reading. -/
def afterRead (writes reads : ℕ) : Phase :=
  if 3≤reads+1 then .reconciling false 0 else .persisting true writes (reads+1)

/-- One attempt of the command itself. -/
def persistWrite (answers : Answers) (report : Report) (writes reads : ℕ) (d : Database) :
    Reporting :=
  let reply := answers.attempt report.command d
  match reply.1 with
  | .committed _ | .alreadyMatching _ => ⟨.returned none,reply.2⟩
  | .terminalConflict view =>
    match interrupted view with
    | some header => ⟨.returned (some header),reply.2⟩
    | none => ⟨afterWrite false writes reads,reply.2⟩
  | .unknown _ => ⟨afterWrite true writes reads,reply.2⟩
  | _ => ⟨afterWrite false writes reads,reply.2⟩

def persistIteration (answers : Answers) (report : Report) (unknown : Bool)
    (writes reads : ℕ) (d : Database) : Reporting :=
  if unknown=true then
    match answers.readback report.command d with
    | .matchesApplied _ => ⟨.returned none,d⟩
    | .provenNotApplied _ => persistWrite answers report writes reads d
    | .terminalConflict view =>
      match interrupted view with
      | some header => ⟨.returned (some header),d⟩
      | none => ⟨afterRead writes reads,d⟩
    | _ => ⟨afterRead writes reads,d⟩
  else persistWrite answers report writes reads d

/-- One attempt of the interruption. -/
def reconcileWrite (answers : Answers) (report : Report) (attempts : ℕ) (d : Database) :
    Reporting :=
  let reply := answers.attempt report.interruption d
  match reply.1 with
  | .committed (some view) | .alreadyMatching view =>
    ⟨.returned (some view.operation),reply.2⟩
  | .committed none | .unknown _ => ⟨.reconciling true (attempts+1),reply.2⟩
  | .terminalConflict view =>
    match interrupted view with
    | some header => ⟨.returned (some header),reply.2⟩
    | none => ⟨.reconciling false (attempts+1),reply.2⟩
  | _ => ⟨.reconciling false (attempts+1),reply.2⟩

def reconcileIteration (answers : Answers) (report : Report) (unknown : Bool)
    (attempts : ℕ) (d : Database) : Reporting :=
  if unknown=true then
    match answers.readback report.interruption d with
    | .matchesApplied view => ⟨.returned (some view.operation),d⟩
    | .provenNotApplied _ => reconcileWrite answers report attempts d
    | .terminalConflict view =>
      match interrupted view with
      | some header => ⟨.returned (some header),d⟩
      | none => ⟨.reconciling true (attempts+1),d⟩
    | _ => ⟨.reconciling true (attempts+1),d⟩
  else reconcileWrite answers report attempts d

def iteration (answers : Answers) (report : Report) (s : Reporting) : Reporting :=
  match s.phase with
  | .persisting unknown writes reads =>
    persistIteration answers report unknown writes reads s.rows
  | .reconciling unknown attempts =>
    reconcileIteration answers report unknown attempts s.rows
  | .returned _ => s

/-- Surroundings of one iteration against the real store. -/
structure Surroundings where
  /-- Surroundings of its attempt. -/
  call : StoreCall
  /-- Admission error of its readback. -/
  readRefused : Option StorageError
  readLost : Option StorageError

/-- The answers of the real store under given surroundings. -/
def lossy (session : Session) (opened : ℕ) (around : Surroundings) : Answers where
  readback := readback session opened around.readRefused around.readLost
  attempt := fun witness d =>
    let reply := attempt session opened around.call witness d
    (reply.1.disposition,reply.2)

/-- Report a command through the given surroundings. -/
def lossyRun (session : Session) (report : Report) (around : List Surroundings)
    (d : Database) : Reporting :=
  around.foldl (fun s now => iteration (lossy session report.opened now) report s)
    ⟨.persisting false 0 0,d⟩

def storedView (d : Database) (witness : CommandWitness) : Option TerminalView :=
  (lookup (·.identity.id) (scope witness).identity.id d.operations).map fun operation =>
    ⟨operation,(itemId witness).bind (itemOf d (scope witness).identity.id),
      siblingCounts d (scope witness).identity.id⟩

def storedInspection (d : Database) (witness : CommandWitness) : Inspection :=
  match storedView d witness with
  | none => .unknown .missing
  | some view => classify witness view

/-- An attempt answered truthfully: an unapplied command is written and its view
read, any other observation is reported as it is. -/
def truthfulAttempt (env : SchemaEnv) (opened : ℕ) (witness : CommandWitness)
    (d : Database) : AttemptDisposition×Database :=
  match refusal opened witness with
  | some reason => (.notAdmitted reason,d)
  | none =>
    match storedInspection d witness with
    | .unapplied _ =>
      match (write env witness).run d with
      | .error _ => (.provenNotCommitted,d)
      | .ok (_,written) => (.committed (storedView written witness),written)
    | observation => (attemptObservation observation,d)

def truthfulReadback (opened : ℕ) (witness : CommandWitness) (d : Database) :
    ReadbackDisposition :=
  match refusal opened witness with
  | some reason => .notAdmitted reason
  | none => readbackObservation (.ok (storedInspection d witness))

def truthful (env : SchemaEnv) (opened : ℕ) : Answers where
  readback := truthfulReadback opened
  attempt := truthfulAttempt env opened

def truthfulRun (env : SchemaEnv) (report : Report) : ℕ → Reporting → Reporting
  | 0,s => s
  | n+1,s => truthfulRun env report n (iteration (truthful env report.opened) report s)

def Phase.isReturned : Phase → Bool
  | .returned _ => true
  | _ => false

/-- The stored rows agree with the scope and its counters, and the operation is
still active or already interrupted. -/
def Interruptible (expected : OperationScope) (d : Database) : Prop :=
  expected.identity.id≠"" ∧
    ∃ row, lookup (·.identity.id) expected.identity.id d.operations=some row ∧
      coherent expected ⟨row,none,siblingCounts d expected.identity.id⟩=true ∧
      (isTerminal row.state=false ∨ row.state=.interrupted)

/-- The stored rows record exactly the admitted command. -/
def Recorded (report : Report) (d : Database) : Prop :=
  refusal report.opened report.command=none ∧
    ∃ view, storedInspection d report.command=.matching view

/-- When reporting can still resolve: before it escalates the command may be
recorded, and at any time the operation may be interruptible. -/
def Resolvable (report : Report) (s : Reporting) : Prop :=
  match s.phase with
  | .persisting _ _ _ => Recorded report s.rows ∨ Interruptible (scope report.command) s.rows
  | .reconciling _ _ => Interruptible (scope report.command) s.rows
  | .returned _ => True

variable {d : Database} {witness : CommandWitness}

theorem inspect_stored {sizes : RowSizes} {observation : Inspection}
    (h : inspect sizes d witness=.ok observation) : observation=storedInspection d witness := by
  obtain ⟨found,hv,h⟩ := exceptBind_ok.mp h
  cases found with
  | none =>
    have hl := view_none hv
    have he : observation=.unknown .missing := (Except.ok.inj h).symm
    rw [he,storedInspection,storedView,hl]
    rfl
  | some view =>
    obtain ⟨ho,hi,hs⟩ := view_some hv
    have he : observation=classify witness view := (Except.ok.inj h).symm
    rw [he,storedInspection,storedView,ho,←hi,←hs]
    rfl

def observedView : Inspection → Option TerminalView
  | .unapplied view | .matching view | .conflict view => some view
  | .unknown _ => none

variable {view : TerminalView}

theorem storedInspection_view (h : observedView (storedInspection d witness)=some view) :
    storedView d witness=some view ∧ coherent (scope witness) view=true := by
  unfold storedInspection at h
  cases hs : storedView d witness with
  | none =>
    rw [hs] at h
    cases h
  | some v =>
    rw [hs] at h
    dsimp only at h
    unfold classify at h
    split at h
    · cases h
    · next hc =>
      have he : v=view := by
        split at h
        · cases h
        · exact Option.some.inj h
        · split at h <;> exact Option.some.inj h
      rw [←he]
      exact ⟨rfl,Bool.not_eq_false _ ▸ hc⟩

theorem storedInspection_active (h : storedInspection d witness=.unapplied view) :
    isTerminal view.operation.state=false := by
  unfold storedInspection at h
  cases hs : storedView d witness with
  | none =>
    rw [hs] at h
    cases h
  | some v =>
    rw [hs] at h
    dsimp only at h
    unfold classify at h
    split at h
    · cases h
    split at h
    · cases h
    · cases h
    · split at h
      · cases h
      · next hn =>
        have he : v=view := Inspection.unapplied.inj h
        rw [Bool.or_eq_true,not_or,Bool.not_eq_true] at hn
        rw [←he]
        exact hn.1

theorem storedView_row (h : storedView d witness=some view) :
    lookup (·.identity.id) (scope witness).identity.id d.operations=some view.operation ∧
      view.siblings=siblingCounts d (scope witness).identity.id := by
  unfold storedView at h
  rw [Option.map_eq_some_iff] at h
  obtain ⟨operation,hl,rfl⟩ := h
  exact ⟨hl,rfl⟩

/-- A decided observation of an active or interrupted operation can be
interrupted by any command of the same scope. -/
theorem interruptible_of_observed (hid : (scope witness).identity.id≠"")
    (h : observedView (storedInspection d witness)=some view)
    (hs : isTerminal view.operation.state=false ∨ view.operation.state=.interrupted) :
    Interruptible (scope witness) d := by
  obtain ⟨hv,hc⟩ := storedInspection_view h
  obtain ⟨hl,hsib⟩ := storedView_row hv
  refine ⟨hid,view.operation,hl,?_,hs⟩
  rw [←hsib]
  exact hc

/-- A refused generation or an invalid command is never submitted. -/
theorem refusal_none {opened : ℕ} {witness : CommandWitness} (h : refusal opened witness=none) :
    (scope witness).identity.id≠"" ∧ valid witness=true := by
  unfold refusal at h
  split_ifs at h with h1 h2
  have hv : valid witness=true := Bool.not_eq_false _ ▸ h2
  refine ⟨?_,hv⟩
  intro hid
  unfold valid at hv
  rw [if_pos hid] at hv
  cases hv

theorem refusal_interruption (report : Report) (hid : (scope report.command).identity.id≠"") :
    refusal report.opened report.interruption=none := by
  have hv : valid report.interruption=true := by
    change (if (scope report.command).identity.id="" then false else _)=true
    rw [if_neg hid]
    rfl
  have hg : generation report.interruption=report.opened := rfl
  simp only [refusal,hg,hv,ne_eq,not_true_eq_false,if_false,Bool.true_eq_false]

theorem scope_interruption (report : Report) : scope report.interruption=scope report.command := rfl

variable {report : Report}

/-- How an interruptible operation answers the interruption: it is active and
unapplied, or interrupted with the same or another reason. -/
theorem interruption_observed (h : Interruptible (scope report.command) d) :
    (∃ view, storedInspection d report.interruption=.unapplied view) ∨
    (∃ view, storedInspection d report.interruption=.matching view) ∨
    ∃ view, storedInspection d report.interruption=.conflict view ∧
      view.operation.state=.interrupted := by
  obtain ⟨-,row,hl,hc,hs⟩ := h
  have hv : storedView d report.interruption=
      some ⟨row,none,siblingCounts d (scope report.command).identity.id⟩ := by
    unfold storedView
    rw [scope_interruption,hl]
    rfl
  unfold storedInspection
  rw [hv]
  dsimp only
  unfold classify
  rw [scope_interruption,hc,if_neg Bool.true_eq_false.mp]
  cases hr : recorded report.interruption
      ⟨row,none,siblingCounts d (scope report.command).identity.id⟩ with
  | error reason => cases hr
  | ok same =>
    cases same with
    | true => exact .inr (.inl ⟨_,rfl⟩)
    | false =>
      dsimp only
      rw [Option.any_none,Bool.or_false]
      rcases hs with hs | hs
      · rw [hs,if_neg Bool.false_ne_true]
        exact .inl ⟨_,rfl⟩
      · rw [hs]
        exact .inr (.inr ⟨_,rfl,hs⟩)

variable {env : SchemaEnv}

theorem interruption_written (hd : SchemaValid env d)
    (h : storedInspection d report.interruption=.unapplied view) :
    ∃ written after, (write env report.interruption).run d=.ok ((),written) ∧
      storedView written report.interruption=some after := by
  have hact := storedInspection_active h
  obtain ⟨hv,-⟩ := storedInspection_view (congrArg observedView h)
  obtain ⟨hl,-⟩ := storedView_row hv
  rw [scope_interruption] at hl
  obtain ⟨hm,hid⟩ := lookup_mem hl
  have hsel : activeOperation (scope report.command).identity.id view.operation=true := by
    simp only [activeOperation,hid,hact,decide_true,Bool.not_false,Bool.and_self]
  have hle : affected (activeOperation (scope report.command).identity.id) d.operations≤1 :=
    affected_le_one (k:=(scope report.command).identity.id) hd.keys fun row hp =>
      (activeOperation_true hp).1
  have hpos : 0<affected (activeOperation (scope report.command).identity.id)
      d.operations := List.countP_pos_iff.mpr ⟨view.operation,hm,hsel⟩
  have hone : affected (activeOperation (scope report.command).identity.id) d.operations=1 :=
    Nat.le_antisymm hle hpos
  obtain ⟨written,hw⟩ := write_interrupt_run (c:=report.interruptCommand) hd hone
  obtain ⟨-,-,ho⟩ := write_interrupt_ok hw
  have hfound : ∃ row, lookup (·.identity.id) (scope report.command).identity.id
      written.operations=some row := by
    rw [ho,lookup_update (by intro row; rfl),hl]
    exact ⟨_,rfl⟩
  obtain ⟨row,hrow⟩ := hfound
  refine ⟨written,⟨row,none,siblingCounts written (scope report.command).identity.id⟩,hw,?_⟩
  unfold storedView
  rw [scope_interruption,hrow]
  rfl

/-- A truthful store ends the interruption of an interruptible operation in one
iteration, whether or not a readback comes first. -/
theorem reconcile_returns (hd : SchemaValid env d) (h : Interruptible (scope report.command) d)
    (unknown : Bool)
    (attempts : ℕ) : ∃ header written, reconcileIteration (truthful env report.opened) report
      unknown attempts d=⟨.returned (some header),written⟩ := by
  have hr := refusal_interruption report h.1
  have hwrite : ∃ header written, reconcileWrite (truthful env report.opened) report attempts d=
      ⟨.returned (some header),written⟩ := by
    unfold reconcileWrite truthful truthfulAttempt
    rcases interruption_observed h with ⟨view,hv⟩ | ⟨view,hv⟩ | ⟨view,hv,hs⟩
    · obtain ⟨written,after,hw,ha⟩ := interruption_written hd hv
      simp only [hr,hv,hw,ha]
      exact ⟨_,_,rfl⟩
    · simp only [hr,hv,attemptObservation]
      exact ⟨_,_,rfl⟩
    · simp only [hr,hv,attemptObservation,interrupted,hs,if_true]
      exact ⟨_,_,rfl⟩
  unfold reconcileIteration
  split
  · rcases interruption_observed h with ⟨view,hv⟩ | ⟨view,hv⟩ | ⟨view,hv,hs⟩
    · simp only [truthful,truthfulReadback,hr,hv,readbackObservation]
      exact hwrite
    · simp only [truthful,truthfulReadback,hr,hv,readbackObservation]
      exact ⟨_,_,rfl⟩
    · simp only [truthful,truthfulReadback,hr,hv,readbackObservation,interrupted,hs,if_true]
      exact ⟨_,_,rfl⟩
  · exact hwrite

/-- An interruption that is unapplied, matching or in conflict with another
interruption addresses an interruptible operation. -/
theorem interruptible_of_interruption (hr : refusal report.opened report.interruption=none)
    (h : storedInspection d report.interruption=.unapplied view ∨
      storedInspection d report.interruption=.matching view ∨
      storedInspection d report.interruption=.conflict view ∧
        view.operation.state=.interrupted) : Interruptible (scope report.command) d := by
  have hid := (refusal_none hr).1
  change Interruptible (scope report.interruption) d
  rcases h with h | h | ⟨h,hs⟩
  · exact interruptible_of_observed hid
      (congrArg observedView h) (.inl (storedInspection_active h))
  · have hs : view.operation.state=.interrupted := by
      obtain ⟨hv,hc⟩ := storedInspection_view (congrArg observedView h)
      unfold storedInspection at h
      rw [hv] at h
      dsimp only at h
      unfold classify at h
      rw [hc,if_neg Bool.true_eq_false.mp] at h
      cases hrec : recorded report.interruption view with
      | error reason =>
        rw [hrec] at h
        cases h
      | ok same =>
        cases same with
        | false =>
          rw [hrec] at h
          dsimp only at h
          split at h <;> cases h
        | true =>
          have hall := Except.ok.inj hrec
          simp only [Bool.and_eq_true,decide_eq_true_eq] at hall
          exact hall.1.1.1.2
    exact interruptible_of_observed hid
      (congrArg observedView h) (.inr hs)
  · exact interruptible_of_observed hid
      (congrArg observedView h) (.inr hs)

theorem interrupted_none (h : view.operation.state≠.interrupted) : interrupted view=none := if_neg h

/-- A truthful store never ends the interruption of any other operation. -/
theorem reconcile_stays (env : SchemaEnv) (h : ¬Interruptible (scope report.command) d)
    (unknown : Bool) (attempts : ℕ) :
    ∃ unknown', reconcileIteration (truthful env report.opened) report unknown attempts d=
      ⟨.reconciling unknown' (attempts+1),d⟩ := by
  cases hr : refusal report.opened report.interruption with
  | some reason =>
    unfold reconcileIteration reconcileWrite truthful truthfulAttempt truthfulReadback
    simp only [hr]
    split <;> exact ⟨_,rfl⟩
  | none =>
    unfold reconcileIteration reconcileWrite truthful truthfulAttempt truthfulReadback
    simp only [hr]
    cases hv : storedInspection d report.interruption with
    | unapplied view => exact absurd (interruptible_of_interruption hr (.inl hv)) h
    | matching view => exact absurd (interruptible_of_interruption hr (.inr (.inl hv))) h
    | unknown reason =>
      simp only [readbackObservation,attemptObservation]
      split <;> exact ⟨_,rfl⟩
    | conflict view =>
      have hs : view.operation.state≠.interrupted := by
        intro hs
        exact h (interruptible_of_interruption hr (.inr (.inr ⟨hv,hs⟩)))
      simp only [readbackObservation,attemptObservation,interrupted_none hs]
      split <;> exact ⟨_,rfl⟩

/-- One truthful attempt of the command returns, which needs it recorded or its
operation interruptible, or counts one more write over the same rows. -/
theorem persistWrite_truthful (env : SchemaEnv) (report : Report) (writes reads : ℕ)
    (d : Database) :
    (∃ header written, persistWrite (truthful env report.opened) report writes reads d=
        ⟨.returned header,written⟩ ∧
      (Recorded report d ∨ Interruptible (scope report.command) d)) ∨
    (∃ unknown, persistWrite (truthful env report.opened) report writes reads d=
        ⟨afterWrite unknown writes reads,d⟩ ∧ ¬Recorded report d) := by
  cases hr : refusal report.opened report.command with
  | some reason =>
    right
    refine ⟨false,?_,?_⟩
    · simp only [persistWrite,truthful,truthfulAttempt,hr]
    · rintro ⟨hn,-⟩
      rw [hr] at hn
      cases hn
  | none =>
    have hid := (refusal_none hr).1
    cases hv : storedInspection d report.command with
    | unapplied view =>
      cases hw : (write env report.command).run d with
      | ok result =>
        left
        refine ⟨none,result.2,?_,.inr ?_⟩
        · simp only [persistWrite,truthful,truthfulAttempt,hr,hv,hw]
        · exact interruptible_of_observed hid (congrArg observedView hv)
            (.inl (storedInspection_active hv))
      | error error =>
        right
        refine ⟨false,?_,?_⟩
        · simp only [persistWrite,truthful,truthfulAttempt,hr,hv,hw]
        · rintro ⟨-,v,hm⟩
          rw [hv] at hm
          cases hm
    | matching view =>
      left
      refine ⟨none,d,?_,.inl ⟨hr,view,hv⟩⟩
      simp only [persistWrite,truthful,truthfulAttempt,hr,hv,attemptObservation]
    | unknown reason =>
      right
      refine ⟨true,?_,?_⟩
      · simp only [persistWrite,truthful,truthfulAttempt,hr,hv,attemptObservation]
      · rintro ⟨-,v,hm⟩
        rw [hv] at hm
        cases hm
    | conflict view =>
      by_cases hs : view.operation.state=.interrupted
      · left
        refine ⟨some view.operation,d,?_,.inr ?_⟩
        · simp only [persistWrite,truthful,truthfulAttempt,hr,hv,attemptObservation,interrupted,
            hs,if_true]
        · exact interruptible_of_observed hid (congrArg observedView hv) (.inr hs)
      · right
        refine ⟨false,?_,?_⟩
        · simp only [persistWrite,truthful,truthfulAttempt,hr,hv,attemptObservation,
            interrupted_none hs]
        · rintro ⟨-,v,hm⟩
          rw [hv] at hm
          cases hm

/-- One truthful persisting iteration returns, which needs the command recorded
or its operation interruptible, or advances a bounded counter over the same rows. -/
theorem persistIteration_truthful (env : SchemaEnv) (report : Report) (unknown : Bool)
    (writes reads : ℕ) (d : Database) :
    (∃ header written, persistIteration (truthful env report.opened) report unknown writes
        reads d=⟨.returned header,written⟩ ∧
      (Recorded report d ∨ Interruptible (scope report.command) d)) ∨
    (∃ phase, persistIteration (truthful env report.opened) report unknown writes reads d=
        ⟨phase,d⟩ ∧ ((∃ again, phase=afterWrite again writes reads) ∨
          phase=afterRead writes reads) ∧ ¬Recorded report d) := by
  have hwrite : (∃ header written, persistWrite (truthful env report.opened) report writes
        reads d=⟨.returned header,written⟩ ∧
      (Recorded report d ∨ Interruptible (scope report.command) d)) ∨
    (∃ phase, persistWrite (truthful env report.opened) report writes reads d=
        ⟨phase,d⟩ ∧ ((∃ again, phase=afterWrite again writes reads) ∨
          phase=afterRead writes reads) ∧ ¬Recorded report d) := by
    rcases persistWrite_truthful env report writes reads d with hw | ⟨again,hw,hn⟩
    · exact .inl hw
    · exact .inr ⟨_,hw,.inl ⟨again,rfl⟩,hn⟩
  unfold persistIteration
  by_cases hu : unknown=true
  · rw [if_pos hu]
    cases hr : refusal report.opened report.command with
    | some reason =>
      right
      refine ⟨afterRead writes reads,?_,.inr rfl,?_⟩
      · simp only [truthful,truthfulReadback,hr]
      · rintro ⟨hn,-⟩
        rw [hr] at hn
        cases hn
    | none =>
      have hid := (refusal_none hr).1
      cases hv : storedInspection d report.command with
      | unapplied view =>
        simpa only [truthful,truthfulReadback,hr,hv,readbackObservation] using hwrite
      | matching view =>
        left
        refine ⟨none,d,?_,.inl ⟨hr,view,hv⟩⟩
        simp only [truthful,truthfulReadback,hr,hv,readbackObservation]
      | unknown reason =>
        right
        refine ⟨afterRead writes reads,?_,.inr rfl,?_⟩
        · simp only [truthful,truthfulReadback,hr,hv,readbackObservation]
        · rintro ⟨-,v,hm⟩
          rw [hv] at hm
          cases hm
      | conflict view =>
        by_cases hs : view.operation.state=.interrupted
        · left
          refine ⟨some view.operation,d,?_,.inr ?_⟩
          · simp only [truthful,truthfulReadback,hr,hv,readbackObservation,interrupted,hs,
              if_true]
          · exact interruptible_of_observed hid (congrArg observedView hv) (.inr hs)
        · right
          refine ⟨afterRead writes reads,?_,.inr rfl,?_⟩
          · simp only [truthful,truthfulReadback,hr,hv,readbackObservation,interrupted_none hs]
          · rintro ⟨-,v,hm⟩
            rw [hv] at hm
            cases hm
  · rw [if_neg hu]
    exact hwrite

theorem not_resolvable_iteration {s : Reporting} (h : ¬Resolvable report s) :
    ¬Resolvable report (iteration (truthful env report.opened) report s) := by
  obtain ⟨phase,d⟩ := s
  cases phase with
  | returned header => exact absurd trivial h
  | reconciling unknown attempts =>
    obtain ⟨again,he⟩ := reconcile_stays env h unknown attempts
    change ¬Resolvable report (reconcileIteration _ report unknown attempts d)
    rw [he]
    exact h
  | persisting unknown writes reads =>
    have hn : ¬(Recorded report d ∨ Interruptible (scope report.command) d) := h
    change ¬Resolvable report (persistIteration _ report unknown writes reads d)
    rcases persistIteration_truthful env report unknown writes reads d with
      ⟨header,written,-,hr⟩ | ⟨phase,he,hp,-⟩
    · exact absurd hr hn
    · rw [he]
      rcases hp with ⟨again,rfl⟩ | rfl
      · unfold afterWrite
        split
        · exact fun hi => hn (.inr hi)
        · exact hn
      · unfold afterRead
        split
        · exact fun hi => hn (.inr hi)
        · exact hn

theorem never_returns {s : Reporting} (h : ¬Resolvable report s) (n : ℕ) :
    (truthfulRun env report n s).phase.isReturned=false := by
  induction n generalizing s with
  | zero =>
    obtain ⟨phase,d⟩ := s
    cases phase with
    | returned header => exact absurd trivial h
    | persisting unknown writes reads => rfl
    | reconciling unknown attempts => rfl
  | succ n ih => exact ih (not_resolvable_iteration h)

/-- A resolvable interruption returns in the next truthful iteration. -/
theorem reconciling_resolves (hd : SchemaValid env d) (h : Interruptible (scope report.command) d)
    (unknown : Bool) (attempts : ℕ) :
    ∃ n, (truthfulRun env report n ⟨.reconciling unknown attempts,d⟩).phase.isReturned=true := by
  obtain ⟨header,written,he⟩ := reconcile_returns hd h unknown attempts
  refine ⟨1,?_⟩
  change (reconcileIteration _ report unknown attempts d).phase.isReturned=true
  rw [he]
  rfl

/-- A resolvable persisting report returns: each iteration returns or spends one
of the remaining writes and reads over the same rows. -/
theorem persisting_resolves (hd : SchemaValid env d)
    (h : Recorded report d ∨ Interruptible (scope report.command) d) :
    ∀ fuel unknown writes reads, (3-writes)+(3-reads)≤fuel →
      ∃ n, (truthfulRun env report n
        ⟨.persisting unknown writes reads,d⟩).phase.isReturned=true := by
  intro fuel
  induction fuel with
  | zero =>
    intro unknown writes reads hf
    rcases persistIteration_truthful env report unknown writes reads d with
      ⟨header,written,he,-⟩ | ⟨phase,he,hp,hn⟩
    · refine ⟨1,?_⟩
      change (persistIteration _ report unknown writes reads d).phase.isReturned=true
      rw [he]
      rfl
    · have hi := h.resolve_left hn
      have hphase : phase=.reconciling false 0 := by
        rcases hp with ⟨again,rfl⟩ | rfl
        · exact if_pos (by omega)
        · exact if_pos (by omega)
      obtain ⟨n,hr⟩ := reconciling_resolves hd hi false 0
      refine ⟨n+1,?_⟩
      change (truthfulRun env report n (persistIteration _ report unknown writes reads
        d)).phase.isReturned=true
      rw [he,hphase]
      exact hr
  | succ fuel ih =>
    intro unknown writes reads hf
    rcases persistIteration_truthful env report unknown writes reads d with
      ⟨header,written,he,-⟩ | ⟨phase,he,hp,hn⟩
    · refine ⟨1,?_⟩
      change (persistIteration _ report unknown writes reads d).phase.isReturned=true
      rw [he]
      rfl
    · have hi := h.resolve_left hn
      have hnext : ∃ n, (truthfulRun env report n ⟨phase,d⟩).phase.isReturned=true := by
        rcases hp with ⟨again,rfl⟩ | rfl
        · unfold afterWrite
          split
          · exact reconciling_resolves hd hi false 0
          · exact ih _ _ _ (by omega)
        · unfold afterRead
          split
          · exact reconciling_resolves hd hi false 0
          · exact ih _ _ _ (by omega)
      obtain ⟨n,hr⟩ := hnext
      refine ⟨n+1,?_⟩
      change (truthfulRun env report n (persistIteration _ report unknown writes reads
        d)).phase.isReturned=true
      rw [he]
      exact hr

/-- After any surroundings, a report returns from a store that answers
truthfully exactly when it is resolvable at the moment the store recovers. -/
theorem reporting_resolves_iff (session : Session) (env : SchemaEnv) (report : Report)
    (around : List Surroundings) (d : Database)
    (hd : SchemaValid env (lossyRun session report around d).rows) :
    (∃ n, (truthfulRun env report n (lossyRun session report around d)).phase.isReturned=true) ↔
      Resolvable report (lossyRun session report around d) := by
  generalize lossyRun session report around d=s at hd ⊢
  constructor
  · rintro ⟨n,hn⟩
    by_contra h
    rw [never_returns h n] at hn
    cases hn
  · intro h
    obtain ⟨phase,rows⟩ := s
    cases phase with
    | returned header => exact ⟨0,rfl⟩
    | reconciling unknown attempts => exact reconciling_resolves hd h unknown attempts
    | persisting unknown writes reads =>
      exact persisting_resolves hd h _ unknown writes reads (le_refl _)

section Example

/-- A schema environment without stories and JSON texts. -/
def exampleSchema : SchemaEnv := ⟨fun _ => false,fun _ => true,fun _ => none⟩

/-- A session whose creation readings are never used by reporting. -/
def exampleSession : Session :=
  ⟨⟨0,0⟩,⟨fun _ => true,fun _ => .ok 0,fun _ => "",fun _ => ""⟩⟩

/-- A running import without items, ready to finish. -/
def exampleOperation : OperationHeader where
  identity := ⟨"aaaaaaaa-0000-4000-8000-000000000001","2026-01-01",some "2026-01-01",none⟩
  kind := .import
  state := .running
  exportScope := ⟨none,none,none⟩
  destination := none
  counts := ⟨0,0⟩
  totalBytes := 0
  cancelRequested := false
  outcome := ⟨none,none⟩

/-- The tables with this one operation. -/
def exampleRows : Database := ⟨[exampleOperation],[]⟩

def exampleReport : Report where
  opened := 1
  command := .finish {
    generation := 1
    operation := exampleOperation.immutableScope
    state := .succeeded
    outcome := ⟨none,none⟩
    finishedAt := "2026-01-02"}
  finishedAt := "2026-01-03"

def lostWrite (applied : Bool) : Surroundings :=
  ⟨⟨exampleSchema,none,.commitLost (.sqlite .failure) applied,none,none⟩,none,none⟩

def lostRead : Surroundings :=
  ⟨⟨exampleSchema,none,.quiet,none,none⟩,none,some (.sqlite .failure)⟩

/-- A report whose writes never committed returns after the same lost replies. -/
theorem reporting_resolves_uncommitted :
    ∃ n, (truthfulRun exampleSchema exampleReport n (lossyRun exampleSession exampleReport
      [lostWrite false,lostRead,lostRead,lostRead] exampleRows)).phase.isReturned=true := by
  have hrun : lossyRun exampleSession exampleReport
      [lostWrite false,lostRead,lostRead,lostRead] exampleRows=
      ⟨.reconciling false 0,exampleRows⟩ := by decide +kernel
  have hd : SchemaValid exampleSchema (lossyRun exampleSession exampleReport
      [lostWrite false,lostRead,lostRead,lostRead] exampleRows).rows := by
    rw [hrun]
    exact ⟨by decide +kernel,by decide +kernel,by decide +kernel⟩
  refine (reporting_resolves_iff exampleSession exampleSchema exampleReport _ _ hd).mpr ?_
  rw [hrun]
  exact ⟨by decide +kernel,exampleOperation,by decide +kernel,by decide +kernel,.inl rfl⟩

/-- A finish that committed without its acknowledgement and its three readbacks
is never reported, although the store answers truthfully from then on. -/
theorem committed_finish_never_resolves :
    ¬∃ n, (truthfulRun exampleSchema exampleReport n (lossyRun exampleSession exampleReport
      [lostWrite true,lostRead,lostRead,lostRead] exampleRows)).phase.isReturned=true := by
  have hrun : lossyRun exampleSession exampleReport
      [lostWrite true,lostRead,lostRead,lostRead] exampleRows=
      ⟨.reconciling false 0,⟨[{exampleOperation with
        state := .succeeded
        identity := {exampleOperation.identity with finishedAt := some "2026-01-02"}}],[]⟩⟩ := by
    decide +kernel
  rw [hrun]
  rintro ⟨n,hn⟩
  have hnot : ¬Resolvable exampleReport ⟨.reconciling false 0,⟨[{exampleOperation with
        state := .succeeded
        identity := {exampleOperation.identity with finishedAt := some "2026-01-02"}}],[]⟩⟩ := by
    rintro ⟨-,row,hl,-,hs⟩
    have hrow : row.state=.succeeded := by
      have hm := List.mem_singleton.mp (lookup_mem hl).1
      rw [hm]
    rw [hrow] at hs
    rcases hs with hs | hs <;> cases hs
  rw [never_returns hnot n] at hn
  cases hn

end Example

end Librairii.OperationReporting
