import Mathlib

/-!
# Readers of the front of a list

A reader takes a value from the front of a list and leaves the rest, or fails. What it
consumes is composed as the readers are; it leaves an end of what it was given, and its
failures are those of its parts.
-/

namespace Librairii.PrefixReaders

variable {α ε β γ : Type}

/-- Readers over lists. -/
abbrev Reads (α ε β : Type) := StateT (List α) (Except ε) β

/-- A reader takes a value from a written front, whatever follows. -/
def Consumes (p : Reads α ε β) (written : List α) (value : β) : Prop :=
  ∀ rest, p.run (written++rest)=.ok (value,rest)

/-- A reader fails on a written front, whatever follows. -/
def Rejects (p : Reads α ε β) (written : List α) : Prop :=
  ∀ rest, ∃ e, p.run (written++rest)=.error e

def LeavesEnd (p : Reads α ε β) : Prop := ∀ s b rest, p.run s=.ok (b,rest) → rest <:+ s

/-- All failures of a reader are allowed ones. -/
def FailsOnly (Allowed : ε → Prop) (p : Reads α ε β) : Prop :=
  ∀ s e, p.run s=.error e → Allowed e

variable {p : Reads α ε β} {f : β → Reads α ε γ}

/-- A reader behind one that succeeds. -/
theorem run_bind_ok {s rest : List α} {b : β} (h : p.run s=.ok (b,rest)) :
    (p >>= f).run s=(f b).run rest := by
  rw [StateT.run_bind,h]
  rfl

/-- A reader behind one that fails. -/
theorem run_bind_error {s : List α} {e : ε} (h : p.run s=.error e) : (p >>= f).run s=.error e := by
  rw [StateT.run_bind,h]
  rfl

/-- Readers consume one front after the other. -/
theorem Consumes.bind {w v : List α} {b : β} {c : γ} (hp : Consumes p w b)
    (hf : Consumes (f b) v c) : Consumes (p >>= f) (w++v) c := by
  intro rest
  rw [List.append_assoc,run_bind_ok (hp (v++rest))]
  exact hf rest

theorem Consumes.pure (b : β) : Consumes (Pure.pure b : Reads α ε β) [] b := fun _ => rfl

theorem Consumes.rejects {w v : List α} {b : β} (hp : Consumes p w b) (hf : Rejects (f b) v) :
    Rejects (p >>= f) (w++v) := by
  intro rest
  rw [List.append_assoc,run_bind_ok (hp (v++rest))]
  exact hf rest

theorem Rejects.bind {w : List α} (hp : Rejects p w) (v : List α) : Rejects (p >>= f) (w++v) := by
  intro rest
  obtain ⟨e,he⟩ := hp (v++rest)
  exact ⟨e,by rw [List.append_assoc,run_bind_error he]⟩

theorem LeavesEnd.pure (b : β) : LeavesEnd (Pure.pure b : Reads α ε β) := by
  intro s b rest h
  cases h
  exact List.suffix_refl s

theorem LeavesEnd.throw (e : ε) : LeavesEnd (throw e : Reads α ε β) := nofun

theorem LeavesEnd.bind (hp : LeavesEnd p) (hf : ∀ b, LeavesEnd (f b)) : LeavesEnd (p >>= f) := by
  intro s c rest h
  cases hrun : p.run s with
  | error e =>
    rw [run_bind_error hrun] at h
    cases h
  | ok answer =>
    obtain ⟨b,mid⟩ := answer
    rw [run_bind_ok hrun] at h
    exact (hf b mid c rest h).trans (hp s b mid hrun)

theorem FailsOnly.pure {Allowed : ε → Prop} (b : β) :
    FailsOnly Allowed (Pure.pure b : Reads α ε β) := nofun

theorem FailsOnly.throw {Allowed : ε → Prop} {e : ε} (h : Allowed e) :
    FailsOnly Allowed (throw e : Reads α ε β) := by
  intro s e h
  cases h
  assumption

/-- Readers one after the other fail as they do; the later ones on values the first can give. -/
theorem FailsOnly.bind {Allowed : ε → Prop} (hp : FailsOnly Allowed p)
    (hf : ∀ {s b rest}, p.run s=.ok (b,rest) → FailsOnly Allowed (f b)) :
    FailsOnly Allowed (p >>= f) := by
  intro s e h
  cases hrun : p.run s with
  | error e' =>
    rw [run_bind_error hrun] at h
    cases h
    exact hp s _ hrun
  | ok answer =>
    obtain ⟨b,rest⟩ := answer
    rw [run_bind_ok hrun] at h
    exact hf hrun rest e h

def times (p : Reads α ε β) : ℕ → Reads α ε Unit
  | 0 => Pure.pure ()
  | n+1 => do
    let _ ← p
    times p n

theorem Consumes.times {ws : List (List α)} (h : ∀ w ∈ ws, ∃ b, Consumes p w b) :
    Consumes (times p ws.length) ws.flatten () := by
  induction ws with
  | nil => exact Consumes.pure ()
  | cons w ws ih =>
    obtain ⟨b,hb⟩ := h w List.mem_cons_self
    exact hb.bind (ih fun v hv => h v (List.mem_cons_of_mem w hv))

/-- Reading as many times as there are written values rejects a value behind those it consumes. -/
theorem Rejects.times {before after : List (List α)} {w : List α}
    (hbefore : ∀ v ∈ before, ∃ b, Consumes p v b) (hw : Rejects p w) :
    Rejects (times p (before++w::after).length) (before++w::after).flatten := by
  induction before with
  | nil => exact hw.bind after.flatten
  | cons v before ih =>
    obtain ⟨b,hb⟩ := hbefore v List.mem_cons_self
    exact hb.rejects (ih fun u hu => hbefore u (List.mem_cons_of_mem v hu))

theorem LeavesEnd.times (hp : LeavesEnd p) (n : ℕ) : LeavesEnd (times p n) := by
  induction n with
  | zero => exact LeavesEnd.pure ()
  | succ n ih => exact hp.bind fun _ => ih

theorem FailsOnly.times {Allowed : ε → Prop} (hp : FailsOnly Allowed p) (n : ℕ) :
    FailsOnly Allowed (times p n) := by
  induction n with
  | zero => exact FailsOnly.pure ()
  | succ n ih => exact hp.bind fun _ => ih

end Librairii.PrefixReaders
