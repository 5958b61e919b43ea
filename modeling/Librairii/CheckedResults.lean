import Mathlib

/-!
# Results of fallible computations

A sequence of fallible steps succeeds exactly when every step does. A list of
fallible steps succeeds exactly when each element does.
-/

namespace Librairii.CheckedResults

variable {ε α β : Type}

/-- A composed read succeeds exactly when both parts do. -/
theorem exceptBind_ok {x : Except ε α} {f : α → Except ε β} {b : β} :
    (x >>= f)=.ok b ↔ ∃ a, x=.ok a ∧ f a=.ok b := by
  cases x with
  | error e => exact ⟨fun h => (nomatch h),fun ⟨_,h,_⟩ => (nomatch h)⟩
  | ok a => exact ⟨fun h => ⟨a,rfl,h⟩,fun ⟨_,h,hf⟩ => by cases h; exact hf⟩

/-- A step after a successful one. -/
theorem bind_of_ok {x : Except ε α} {f : α → Except ε β} {a : α} (h : x=.ok a) : (x >>= f)=f a := by
  rw [h]
  rfl

/-- A mapped result succeeds exactly when the result does. -/
theorem exceptMap_ok {x : Except ε α} {f : α → β} {b : β} :
    x.map f=.ok b ↔ ∃ a, x=.ok a ∧ f a=b := by
  cases x with
  | error e => exact ⟨fun h => (nomatch h),fun ⟨_,h,_⟩ => (nomatch h)⟩
  | ok a =>
    constructor
    · intro h
      cases h
      exact ⟨a,rfl,rfl⟩
    · rintro ⟨a',h,rfl⟩
      cases h
      rfl

theorem refused_ok {c : Prop} [Decidable c] {e : ε} {f : α → Except ε β} {x : Except ε β} {b : β} :
    (if c then ((throw e : Except ε α) >>= f) else x)=.ok b ↔ ¬c ∧ x=.ok b := by
  by_cases hc : c
  · rw [if_pos hc]
    exact ⟨nofun,fun h => absurd hc h.1⟩
  · rw [if_neg hc]
    exact ⟨fun h => ⟨hc,h⟩,And.right⟩

theorem checked_ok {c : Prop} [Decidable c] {e : ε} {x : Except ε α} {a : α} :
    (if c then .error e else x)=.ok a ↔ ¬c ∧ x=.ok a := by
  by_cases hc : c <;> simp [hc]

theorem mapError_ok {ε' : Type} {x : Except ε α} {f : ε → ε'} {a : α} :
    x.mapError f=.ok a ↔ x=.ok a := by
  cases x with
  | error e => exact ⟨fun h => (nomatch h),fun h => (nomatch h)⟩
  | ok b =>
    constructor
    · intro h
      cases h
      rfl
    · intro h
      cases h
      rfl

/-- Steps that succeed on every element succeed on the list. -/
theorem mapM_ok {f : α → Except ε β} {g : α → β} {xs : List α}
    (h : ∀ x ∈ xs, f x=.ok (g x)) : xs.mapM f=.ok (xs.map g) := by
  induction xs with
  | nil => rfl
  | cons x xs ih =>
    have hx := h x List.mem_cons_self
    have hxs := ih fun y hy => h y (List.mem_cons_of_mem _ hy)
    rw [List.mapM_cons,bind_of_ok hx,bind_of_ok hxs]
    rfl

theorem mapM_pairs {f : α → Except ε β} {xs : List α} {ys : List β} (h : xs.mapM f=.ok ys) :
    List.Forall₂ (fun x y => f x=.ok y) xs ys := by
  induction xs generalizing ys with
  | nil =>
    cases h
    exact .nil
  | cons x xs ih =>
    rw [List.mapM_cons] at h
    obtain ⟨y,hy,h⟩ := exceptBind_ok.mp h
    obtain ⟨ys',hys,h⟩ := exceptBind_ok.mp h
    cases h
    exact .cons hy (ih hys)

theorem mapM_element {f : α → Except ε β} {xs : List α} {ys : List β}
    (h : xs.mapM f=.ok ys) : ∀ x ∈ xs, ∃ y, f x=.ok y := by
  have hpairs := mapM_pairs h
  clear h
  induction hpairs with
  | nil =>
    intro x hx
    exact absurd hx List.not_mem_nil
  | cons hxy _ ih =>
    intro x hx
    rcases List.mem_cons.mp hx with rfl | hx
    · exact ⟨_,hxy⟩
    · exact ih x hx

/-- A result of a list is the result of one of its elements. -/
theorem mapM_origin {f : α → Except ε β} {xs : List α} {ys : List β}
    (h : xs.mapM f=.ok ys) : ∀ y ∈ ys, ∃ x ∈ xs, f x=.ok y := by
  have hpairs := mapM_pairs h
  clear h
  induction hpairs with
  | nil =>
    intro y hy
    exact absurd hy List.not_mem_nil
  | cons hxy _ ih =>
    intro y hy
    rcases List.mem_cons.mp hy with rfl | hy
    · exact ⟨_,List.mem_cons_self,hxy⟩
    · obtain ⟨x,hx,hy⟩ := ih y hy
      exact ⟨x,List.mem_cons_of_mem _ hx,hy⟩

theorem mapM_map {f : α → β} {g : β → Except ε α} {xs : List α}
    (h : ∀ x ∈ xs, g (f x)=.ok x) : (xs.map f).mapM g=.ok xs := by
  induction xs with
  | nil => rfl
  | cons x xs ih =>
    have hx := h x List.mem_cons_self
    have hxs := ih fun y hy => h y (List.mem_cons_of_mem _ hy)
    rw [List.map_cons,List.mapM_cons,bind_of_ok hx,bind_of_ok hxs]
    rfl

theorem foldlM_keeps {f : β → α → Except ε β} {P : β → Prop} {xs : List α} {s s' : β} (hs : P s)
    (hstep : ∀ x ∈ xs, ∀ s s', P s → f s x=.ok s' → P s') (h : xs.foldlM f s=.ok s') : P s' := by
  induction xs generalizing s with
  | nil =>
    cases h
    exact hs
  | cons x xs ih =>
    rw [List.foldlM_cons] at h
    obtain ⟨s₁,hs₁,h⟩ := exceptBind_ok.mp h
    have hP := hstep x List.mem_cons_self s s₁ hs hs₁
    exact ih hP (fun y hy => hstep y (List.mem_cons_of_mem _ hy)) h

/-- Checks over a list succeed exactly when each one does. -/
theorem forM_ok {f : α → Except ε Unit} {xs : List α} :
    xs.forM f=.ok ⟨⟩ ↔ ∀ x ∈ xs, f x=.ok ⟨⟩ := by
  induction xs with
  | nil => exact ⟨fun _ x hx => absurd hx List.not_mem_nil,fun _ => rfl⟩
  | cons x xs ih =>
    have hcons : (x::xs).forM f=(f x >>= fun _ => xs.forM f) := rfl
    rw [hcons,exceptBind_ok,List.forall_mem_cons,← ih]
    constructor
    · intro h
      obtain ⟨_,hx,hxs⟩ := h
      exact ⟨hx,hxs⟩
    · intro h
      exact ⟨⟨⟩,h.1,h.2⟩

theorem forM_error {f : α → Except ε Unit} {xs : List α} {e : ε} (h : xs.forM f=.error e) :
    ∃ x ∈ xs, f x=.error e := by
  induction xs with
  | nil => cases h
  | cons x xs ih =>
    have hcons : (x::xs).forM f=(f x >>= fun _ => xs.forM f) := rfl
    rw [hcons] at h
    cases hx : f x with
    | error e' =>
      rw [hx] at h
      cases h
      exact ⟨x,List.mem_cons_self,hx⟩
    | ok u =>
      rw [bind_of_ok hx] at h
      obtain ⟨y,hy,he⟩ := ih h
      exact ⟨y,List.mem_cons_of_mem _ hy,he⟩

end Librairii.CheckedResults
