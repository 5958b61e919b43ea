import Librairii.TemporaryScopes

/-!
# What startup recovery leaves behind

Recovery repeats one repair while its commits are uncertain. However often the repair ran,
and whatever was lost of its answers, it takes effect once: it closes everything that was
active and nothing else, and a later recovery finds nothing to do.
-/

namespace Librairii.StartupRecovery

open RowTables StorageTransactions OperationRows OperationPolicy OperationStore
  OperationAccounting
open TemporaryScopes (plainCall plainSession plainImport)

/-- The tables with everything active interrupted. -/
def repaired (failed : Bool) (at_ : String) (d : Database) : Database where
  operations := update (fun row => !isTerminal row.state) (fun row => {row with
    state := .interrupted
    counts := {row.counts with completed := row.counts.total}
    outcome := ⟨some (interruptionCode failed),some (interruptionMessage row.kind)⟩
    identity := {row.identity with finishedAt := some at_}}) d.operations
  items := update
    (fun row => !row.state.isTerminal && d.operations.any (activeOperation row.operationId))
    (fun row => {row with
      state := .cancelled
      outcome := ⟨some (interruptionCode failed),
        (lookup (·.identity.id) row.operationId d.operations).map fun parent =>
          interruptionMessage parent.kind⟩}) d.items

variable {failed : Bool} {at_ : String} {d d' : Database}

/-- A repair that succeeds interrupts everything active. -/
theorem recoverBody_repaired {env : SchemaEnv} {u : Unit}
    (h : (recoverBody env failed at_).run d=.ok (u,d')) : d'=repaired failed at_ d := by
  obtain ⟨bad,d₁,h1,h⟩ := bind_ok.mp h
  obtain ⟨-,rfl⟩ := observe_ok.mp h1
  by_cases hbad : bad=true
  · rw [if_pos hbad] at h
    exact (throw_ok.mp h).elim
  · rw [if_neg hbad] at h
    obtain ⟨operations,d₂,h2,h⟩ := bind_ok.mp h
    obtain ⟨ho,rfl⟩ := observe_ok.mp h2
    obtain ⟨n,d₃,h3,h⟩ := bind_ok.mp h
    obtain ⟨m,d₄,h4,h⟩ := bind_ok.mp h
    obtain ⟨-,rfl⟩ := pure_ok.mp h
    obtain ⟨-,rfl⟩ := updateItems_ok h3
    obtain ⟨-,rfl⟩ := updateOperations_ok h4
    have he : d.operations=operations := Except.ok.inj ho
    rw [repaired,he]

theorem allClosed_iff : allClosed d=true ↔ ∀ row ∈ d.operations, isTerminal row.state=true := by
  simp [allClosed]

theorem allClosed_repaired : allClosed (repaired failed at_ d)=true := by
  rw [allClosed_iff]
  intro row hm
  obtain ⟨-,hn⟩ | ⟨old,-,-,rfl⟩ := mem_update.mp hm
  · simpa using hn
  · rfl

/-- Closed tables have nothing to repair. -/
theorem repaired_closed (h : allClosed d=true) : repaired failed at_ d=d := by
  rw [allClosed_iff] at h
  have hoperations : ∀ row ∈ d.operations, (!isTerminal row.state)=false := by
    intro row hm
    rw [h row hm]
    rfl
  have hitems : ∀ row ∈ d.items, (!row.state.isTerminal &&
      d.operations.any (activeOperation row.operationId))=false := by
    intro row _
    have hnone : d.operations.any (activeOperation row.operationId)=false := by
      rw [List.any_eq_false]
      intro operation hm
      simp [activeOperation,h operation hm]
    rw [hnone,Bool.and_false]
  rw [repaired,update_congr hoperations,update_congr hitems,←update_none,←update_none]

/-- A submission of the repair leaves the tables or repairs them; acknowledged, it repairs. -/
theorem submit_repairs (call : StoreCall) (env : SchemaEnv) (failed : Bool) (at_ : String)
    (d : Database) : let reply := submit call (recoverBody env failed at_) d
    (reply.2=d ∨ reply.2=repaired failed at_ d) ∧
      ∀ u, reply.1=.answered (.committed u) → reply.2=repaired failed at_ d := by
  intro reply
  constructor
  · exact submit_keeps (R := fun d d' => d'=d ∨ d'=repaired failed at_ d) (fun _ => .inl rfl)
      (fun _ _ _ h => .inr (recoverBody_repaired h)) call d
  · intro u h
    unfold reply submit at h ⊢
    cases hr : call.refused with
    | some error =>
      rw [hr] at h
      cases h
    | none =>
      rw [hr] at h
      cases hl : call.replyLost with
      | some lost =>
        rw [hl] at h
        cases h
      | none =>
        rw [hl] at h
        obtain ⟨v,d',hw,he⟩ | ⟨e,he⟩ | ⟨e,he⟩ | ⟨e,v,d',-,he⟩ :=
          runTransaction_cases call.fault (recoverBody env failed at_) d
        · rw [he]
          exact recoverBody_repaired hw
        all_goals
          dsimp only at h
          rw [he] at h
          cases h

/-- However many rounds it took, a recovery leaves the tables or repairs them; successful, it has
repaired them. -/
theorem recoverRounds_repairs (rounds : List RecoveryRound) (d : Database) :
    let result := recoverRounds failed at_ rounds d
    (result.2=d ∨ result.2=repaired failed at_ d) ∧
      (result.1=some (.ok ()) → result.2=repaired failed at_ d) := by
  induction rounds generalizing d with
  | nil => exact ⟨.inl rfl,fun h => by cases h⟩
  | cons round rounds ih =>
    obtain ⟨hrows,hcommitted⟩ :=
      submit_repairs round.repair round.repair.schema failed at_ d
    have hsame : ∀ d₁, d₁=d ∨ d₁=repaired failed at_ d →
        repaired failed at_ d₁=repaired failed at_ d := by
      rintro d₁ (rfl | rfl)
      · rfl
      · exact repaired_closed allClosed_repaired
    dsimp only
    rw [recoverRounds]
    generalize submit round.repair (recoverBody round.repair.schema failed at_) d=reply at *
    obtain ⟨answer,d₁⟩ := reply
    obtain ⟨hagain,hdone⟩ := ih d₁
    rw [hsame d₁ hrows] at hagain hdone
    have hrest : (recoverRounds failed at_ rounds d₁).2=d ∨
        (recoverRounds failed at_ rounds d₁).2=repaired failed at_ d :=
      hagain.elim (fun he => by rwa [he]) .inr
    cases answer with
    | notAdmitted error =>
      cases error with
      | queueFull => exact ⟨hrest,hdone⟩
      | _ => exact ⟨hrows,fun h => by cases h⟩
    | lost error => exact ⟨hrows,fun h => by cases h⟩
    | answered outcome =>
      cases outcome with
      | committed u => exact ⟨hrows,fun _ => hcommitted u rfl⟩
      | provenNotCommitted error => exact ⟨hrows,fun h => by cases h⟩
      | commitUncertain error =>
        dsimp only
        cases round.barrier with
        | some error => exact ⟨hrows,fun h => by cases h⟩
        | none =>
          by_cases hclosed : allClosed d₁=true
          · simp only [hclosed,if_true]
            exact ⟨hrows,fun _ => (repaired_closed hclosed).symm.trans (hsame d₁ hrows)⟩
          · simp only [hclosed]
            exact ⟨hrest,hdone⟩

/-- In every run, a startup recovery leaves the tables or interrupts exactly what was active,
once, whatever its rounds lost. Successful, it has closed every operation with all its items,
and no later recovery changes anything. -/
theorem recovery_interrupts_once (session : Session) (events : List Event)
    (cleanup : Except StorageError Unit) (at_ : String) (rounds : List RecoveryRound) :
    let d := run session events emptyTables
    let result := recoverOperationStartup cleanup (.ok at_) rounds d
    (result.2=d ∨ result.2=repaired (cleanupFailed cleanup) at_ d) ∧
      ((recoverRounds (cleanupFailed cleanup) at_ rounds d).1=some (.ok ()) →
        result=(some cleanup,repaired (cleanupFailed cleanup) at_ d) ∧
        (∀ row ∈ result.2.operations, isTerminal row.state=true ∧
          row.counts.completed=row.counts.total ∧
          ∀ item ∈ itemsOf result.2 row.identity.id, item.state.isTerminal=true) ∧
        ∀ again clock rounds, (recoverOperationStartup again clock rounds result.2).2=
          result.2) := by
  intro d result
  obtain ⟨hrows,hsuccess⟩ := @recoverRounds_repairs (cleanupFailed cleanup) at_ rounds d
  have hresult : result.2=(recoverRounds (cleanupFailed cleanup) at_ rounds d).2 := by
    change (recoverOperationStartup cleanup (.ok at_) rounds d).2=_
    unfold recoverOperationStartup
    dsimp only
    split
    · next he => rw [he]
    · rfl
  refine ⟨hresult.symm ▸ hrows,fun h => ?_⟩
  have hrepaired := hsuccess h
  have hclosed : allClosed result.2=true := by
    rw [hresult,hrepaired]
    exact allClosed_repaired
  have haccounted : Accounted result.2 :=
    accounted_step session (.recoverOperationStartup cleanup (.ok at_) rounds)
      (accounted_run session events accounted_emptyTables)
  refine ⟨?_,fun row hm => ?_,?_⟩
  · change recoverOperationStartup cleanup (.ok at_) rounds d=_
    rw [recoverOperationStartup,show recoverRounds (cleanupFailed cleanup) at_ rounds d=
      (some (.ok ()),_) from Prod.ext h hrepaired]
    rfl
  · have hterminal := allClosed_iff.mp hclosed row hm
    refine ⟨hterminal,haccounted.closed row hm hterminal,fun item hi => ?_⟩
    obtain ⟨him,hown⟩ := List.mem_filter.mp hi
    exact haccounted.items_terminal hm hterminal him (of_decide_eq_true hown)
  · intro again clock rounds
    obtain hsame | ⟨failed,at_,hsame⟩ := recoverOperationStartup_rows again clock rounds result.2
    · exact hsame
    · have hagain := (@recoverRounds_repairs failed at_ rounds result.2).1
      rw [repaired_closed hclosed,or_self] at hagain
      exact hsame.trans hagain

/-- An import whose item runs is interrupted although the reply to the repair was lost. -/
theorem recovery_interrupts_import : ∃ d',
    recoverOperationStartup (.ok ()) (.ok "2026-01-03")
      [⟨{plainCall with fault := .commitLost .queueFull true},none⟩]
      (run plainSession [.createOperation plainCall plainImport "2026-01-01",
        .markOperationItemRunning plainCall plainImport.id 1 "2026-01-02"] emptyTables)=
      (some (.ok ()),d') ∧ d'.items.map (·.state)=[.cancelled] := by
  refine ⟨_,((recovery_interrupts_once _ _ _ _ _).2 ?_).1,rfl⟩
  rfl

end Librairii.StartupRecovery
