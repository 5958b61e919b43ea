import Librairii.CheckedResults

/-!
# Transaction bodies, their outcomes and what they keep

A transaction body reads and rewrites one store value or stops with an error.
The runner returns the committed store only when the body finished; a refused,
failed or cancelled body leaves the store it was given. A lost commit
acknowledgement may hide either store. Relations kept by every statement are
kept by every composed body and by every run of transactions.
-/

namespace Librairii.StorageTransactions

open CheckedResults

variable {σ ε α β : Type}

/-- A transaction body over the store `σ`, with errors `ε` and a result. -/
abbrev Work (σ ε α : Type) := StateT σ (Except ε) α

/-- A composed body succeeds exactly when both parts do, in order. -/
theorem bind_ok {x : Work σ ε α} {f : α → Work σ ε β} {s s'' : σ} {b : β} :
    (x >>= f).run s=.ok (b,s'') ↔
      ∃ a s', x.run s=.ok (a,s') ∧ (f a).run s'=.ok (b,s'') := by
  rw [StateT.run_bind]
  constructor
  · intro h
    cases hx : x.run s with
    | error e => rw [hx] at h; cases h
    | ok p => exact ⟨p.1,p.2,rfl,by rw [hx] at h; exact h⟩
  · rintro ⟨a,s',hx,hf⟩
    rw [hx]
    exact hf

/-- Returning a value leaves the store. -/
theorem pure_ok {s s' : σ} {a b : α} : (pure a : Work σ ε α).run s=.ok (b,s') ↔ a=b ∧ s=s' := by
  rw [StateT.run_pure]
  change Except.ok (a,s)=Except.ok (b,s') ↔ _
  rw [Except.ok.injEq,Prod.mk.injEq]

/-- A read of the current store that may fail. -/
def observe (read : σ → Except ε α) : Work σ ε α := fun s => (read s).map fun a => (a,s)

/-- An observation returns what its read returns and leaves the store. -/
theorem observe_ok {read : σ → Except ε α} {s s' : σ} {a : α} :
    (observe read).run s=.ok (a,s') ↔ read s=.ok a ∧ s=s' := by
  change (read s).map (fun a => (a,s))=.ok (a,s') ↔ _
  cases read s with
  | error e => exact ⟨fun h => (nomatch h),fun h => (nomatch h.1)⟩
  | ok b =>
    change Except.ok (b,s)=Except.ok (a,s') ↔ _
    rw [Except.ok.injEq,Except.ok.injEq,Prod.mk.injEq]

/-- A thrown error has no successful result. -/
theorem throw_ok {s s' : σ} {e : ε} {a : α} : (throw e : Work σ ε α).run s=.ok (a,s') ↔ False := by
  constructor
  · intro h
    change Except.error e=Except.ok (a,s') at h
    cases h
  · exact False.elim

/-- What the caller can learn about one transaction. -/
inductive TransactionOutcome (ε α : Type) where
  /-- The commit was acknowledged with the body's result. -/
  | committed (value : α)
  /-- The store is known to be the one before the body. -/
  | provenNotCommitted (error : ε)
  /-- The acknowledgement was lost; only a fresh read can decide. -/
  | commitUncertain (error : ε)

/-- What happens to one transaction outside its body. -/
inductive Fault (ε : Type) where
  /-- Nothing: the body's own result decides. -/
  | quiet
  /-- Cancelled before the body, or the transaction could not begin. -/
  | refused (error : ε)
  /-- Cancelled after the body finished; the rollback may report an error. -/
  | cancelledLate (error : ε) (rollback : Option ε)
  /-- The commit reported an error, with or without taking effect. -/
  | commitLost (error : ε) (applied : Bool)
  /-- A failed body whose rollback reported an error as well. -/
  | rollbackLost (error : ε)

def runTransaction (fault : Fault ε) (work : Work σ ε α) (rows : σ) :
    TransactionOutcome ε α×σ :=
  match fault with
  | .refused error => (.provenNotCommitted error,rows)
  | fault =>
    match work.run rows with
    | .error error =>
      match fault with
      | .rollbackLost rollback => (.commitUncertain rollback,rows)
      | _ => (.provenNotCommitted error,rows)
    | .ok (value,written) =>
      match fault with
      | .cancelledLate error none => (.provenNotCommitted error,rows)
      | .cancelledLate _ (some rollback) => (.commitUncertain rollback,rows)
      | .commitLost error applied =>
        (.commitUncertain error,if applied=true then written else rows)
      | _ => (.committed value,written)

/-- Everything one transaction can do to its store, by its outcome. -/
theorem runTransaction_cases (fault : Fault ε) (work : Work σ ε α) (rows : σ) :
    (∃ value written, work.run rows=.ok (value,written) ∧
      runTransaction fault work rows=(.committed value,written)) ∨
    (∃ error, runTransaction fault work rows=(.provenNotCommitted error,rows)) ∨
    (∃ error, runTransaction fault work rows=(.commitUncertain error,rows)) ∨
    (∃ error value written, work.run rows=.ok (value,written) ∧
      runTransaction fault work rows=(.commitUncertain error,written)) := by
  cases hw : work.run rows with
  | error error =>
    cases fault with
    | rollbackLost e => exact .inr (.inr (.inl ⟨e,by simp only [runTransaction,hw]⟩))
    | refused e => exact .inr (.inl ⟨e,rfl⟩)
    | quiet | cancelledLate e r | commitLost e b =>
      exact .inr (.inl ⟨error,by simp only [runTransaction,hw]⟩)
  | ok result =>
    obtain ⟨value,written⟩ := result
    cases fault with
    | refused e => exact .inr (.inl ⟨e,rfl⟩)
    | cancelledLate e rollback =>
      cases rollback with
      | none => exact .inr (.inl ⟨e,by simp only [runTransaction,hw]⟩)
      | some r => exact .inr (.inr (.inl ⟨r,by simp only [runTransaction,hw]⟩))
    | commitLost e applied =>
      cases applied with
      | true => exact .inr (.inr (.inr ⟨e,value,written,rfl,by simp only
        [runTransaction,hw,if_true]⟩))
      | false => exact .inr (.inr (.inl ⟨e,by
          simp only [runTransaction,hw,Bool.false_eq_true,if_false]⟩))
    | quiet | rollbackLost e =>
      exact .inl ⟨value,written,rfl,by simp only [runTransaction,hw]⟩

/-- An error that proves noncommit returns the store that was given. -/
theorem runTransaction_provenNotCommitted {fault : Fault ε} {work : Work σ ε α}
    {rows after : σ} {error : ε}
    (h : runTransaction fault work rows=(.provenNotCommitted error,after)) : after=rows := by
  obtain ⟨v,w,-,he⟩ | ⟨e,he⟩ | ⟨e,he⟩ | ⟨e,v,w,-,he⟩ := runTransaction_cases fault work rows
  all_goals
    rw [h] at he
    cases he
  rfl

/-- A body keeps `R` when every successful run relates the stores by it. -/
def Keeps (R : σ → σ → Prop) (work : Work σ ε α) : Prop :=
  ∀ s a s', work.run s=.ok (a,s') → R s s'

section Keeps

variable {R : σ → σ → Prop}

theorem Keeps.bind (ht : ∀ a b c, R a b → R b c → R a c) {x : Work σ ε α}
    {f : α → Work σ ε β} (hx : Keeps R x) (hf : ∀ a, Keeps R (f a)) : Keeps R (x >>= f) := by
  intro s b s'' h
  obtain ⟨a,s',hx',hf'⟩ := bind_ok.mp h
  exact ht _ _ _ (hx s a s' hx') (hf a s' b s'' hf')

theorem Keeps.pure (hr : ∀ a, R a a) (a : α) : Keeps R (Pure.pure a : Work σ ε α) := by
  intro s b s' h
  obtain ⟨-,rfl⟩ := pure_ok.mp h
  exact hr s

theorem Keeps.observe (hr : ∀ a, R a a) (read : σ → Except ε α) : Keeps R (observe read) := by
  intro s a s' h
  obtain ⟨-,rfl⟩ := observe_ok.mp h
  exact hr s

theorem Keeps.throw (e : ε) : Keeps R (throw e : Work σ ε α) := by
  intro s a s' h
  exact (throw_ok.mp h).elim

theorem Keeps.ite {p : Prop} [Decidable p] {x y : Work σ ε α} (hx : Keeps R x)
    (hy : Keeps R y) : Keeps R (if p then x else y) := by
  split
  · exact hx
  · exact hy

/-- A whole transaction keeps every reflexive relation its body keeps,
whatever fault surrounds it. -/
theorem Keeps.runTransaction (hr : ∀ a, R a a) {work : Work σ ε α} (hw : Keeps R work)
    (fault : Fault ε) (rows : σ) : R rows (runTransaction fault work rows).2 := by
  obtain ⟨v,w,hv,he⟩ | ⟨e,he⟩ | ⟨e,he⟩ | ⟨e,v,w,hv,he⟩ :=
    runTransaction_cases fault work rows <;> rw [he]
  · exact hw rows v w hv
  · exact hr rows
  · exact hr rows
  · exact hw rows v w hv

end Keeps

end Librairii.StorageTransactions
