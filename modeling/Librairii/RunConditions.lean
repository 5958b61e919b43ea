import Mathlib

/-!
# Properties of every state of a run

A run folds a step over its inputs. A property that a step keeps holds of every
state. Where a step keeps a property exactly under a condition on the state and
the input, every state of a run has the property exactly when the first one has
it and the condition holds along the run.
-/

namespace Librairii.RunConditions

variable {σ α : Type} {step : σ → α → σ}

/-- A condition on state and input holds at every input of a run. -/
def Along (step : σ → α → σ) (Ok : σ → α → Prop) : σ → List α → Prop
  | _,[] => True
  | s,a::as => Ok s a ∧ Along step Ok (step s a) as

/-- A property that every step keeps holds after a run. -/
theorem foldl_invariant {Inv : σ → Prop} (hstep : ∀ s a, Inv s → Inv (step s a))
    (as : List α) : ∀ s, Inv s → Inv (as.foldl step s) := by
  induction as with
  | nil => exact fun s hs => hs
  | cons a as ih => exact fun s hs => ih (step s a) (hstep s a hs)

theorem along_append {Ok : σ → α → Prop} {first second : List α} : ∀ {s : σ},
    Along step Ok s (first++second) ↔ Along step Ok s first ∧
      Along step Ok (first.foldl step s) second := by
  induction first with
  | nil => exact fun {s} => ⟨fun h => ⟨trivial,h⟩,fun h => h.2⟩
  | cons a as ih =>
    intro s
    change Ok s a ∧ Along step Ok (step s a) (as++second) ↔
      (Ok s a ∧ Along step Ok (step s a) as) ∧ Along step Ok (as.foldl step (step s a)) second
    rw [ih,and_assoc]

theorem along_of_forall {Ok : σ → α → Prop} {as : List α} (h : ∀ a ∈ as, ∀ s, Ok s a) :
    ∀ s, Along step Ok s as := by
  induction as with
  | nil => exact fun _ => trivial
  | cons a as ih =>
    intro s
    exact ⟨h a List.mem_cons_self s,ih (fun b hb => h b (List.mem_cons_of_mem a hb)) _⟩

/-- A property that a step keeps exactly under a condition holds of every state of a run
exactly when it holds of the first and the condition holds along the run. -/
theorem forall_prefix_iff {Inv Good : σ → Prop} {Ok : σ → α → Prop}
    (hinv : ∀ s a, Inv s → Inv (step s a))
    (hstep : ∀ s a, Inv s → Good s → (Good (step s a) ↔ Ok s a)) (as : List α) :
    ∀ s, Inv s → ((∀ taken, taken <+: as → Good (taken.foldl step s)) ↔
      Good s ∧ Along step Ok s as) := by
  induction as with
  | nil =>
    intro s _
    simp [Along]
  | cons a as ih =>
    intro s hs
    have hrest := ih (step s a) (hinv s a hs)
    constructor
    · intro hall
      have hgood := hall [] List.nil_prefix
      obtain ⟨hnext,halong⟩ := hrest.mp fun taken htaken =>
        hall (a::taken) (List.cons_prefix_cons.mpr ⟨rfl,htaken⟩)
      exact ⟨hgood,(hstep s a hs hgood).mp hnext,halong⟩
    · rintro ⟨hgood,hok,halong⟩ taken htaken
      cases taken with
      | nil => exact hgood
      | cons b taken =>
        obtain ⟨rfl,htail⟩ := List.cons_prefix_cons.mp htaken
        exact hrest.mpr ⟨(hstep s b hs hgood).mpr hok,halong⟩ taken htail

end Librairii.RunConditions
