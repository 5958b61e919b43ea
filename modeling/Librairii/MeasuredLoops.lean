import Mathlib

/-!
# Loops that end by a measure

One turn of a loop fails, gives a result, or goes on from a state of smaller measure. What
every turn keeps holds in each state that the loop comes through.
-/

namespace Librairii.MeasuredLoops

variable {τ β ε : Type}

def Goes (turn : τ → Except ε (β⊕τ)) (t next : τ) : Prop := turn t=.ok (.inr next)

/-- Take turns until one fails or gives a result. -/
def loopDown (turn : τ → Except ε (β⊕τ)) (measure : τ → ℕ)
    (down : ∀ {t next}, Goes turn t next → measure next < measure t) (t : τ) : Except ε β :=
  match _h : turn t with
  | .error e => .error e
  | .ok (.inl b) => .ok b
  | .ok (.inr next) => loopDown turn measure down next
termination_by measure t
decreasing_by exact down _h

variable {turn : τ → Except ε (β⊕τ)} {measure : τ → ℕ}
  {down : ∀ {t next}, Goes turn t next → measure next < measure t} {t : τ}

theorem loopDown_eq : loopDown turn measure down t=
    match turn t with
    | .error e => .error e
    | .ok (.inl b) => .ok b
    | .ok (.inr next) => loopDown turn measure down next := by
  rw [loopDown]
  split
  · next e he => rw [he]
  · next b hb => rw [hb]
  · next next hnext => rw [hnext]

theorem loopDown_error {e : ε} (h : loopDown turn measure down t=.error e) :
    ∃ s, turn s=.error e := by
  induction hn : measure t using Nat.strong_induction_on generalizing t with
  | _ n ih =>
    rw [loopDown_eq] at h
    cases hturn : turn t with
    | error e' =>
      rw [hturn] at h
      cases h
      exact ⟨t,hturn⟩
    | ok out =>
      rw [hturn] at h
      cases out with
      | inl b => cases h
      | inr next => exact ih (measure next) (hn ▸ down hturn) h rfl

theorem visited_keeps {P : τ → Prop} {start : τ} (hstart : P start)
    (hkeeps : ∀ {t next}, P t → Goes turn t next → P next)
    (h : Relation.ReflTransGen (Goes turn) start t) : P t := by
  induction h with
  | refl => exact hstart
  | tail _ hgo ih => exact hkeeps ih hgo

end Librairii.MeasuredLoops
