import Mathlib

/-!
# Browser histories

A history has a current entry, the entries behind it and the entries ahead of it. Pushing an entry
discards what is ahead and, beyond a bound, forgets the oldest entry; going back and going forward
move one step and undo each other. A history may be kept as one list with a position.
-/

namespace Librairii.BrowserHistories

/-- A history seen from its current entry. -/
structure Zipper (α : Type) where
  /-- What is behind, the nearest first. -/
  past : List α
  current : α
  /-- What is ahead, the nearest first. -/
  future : List α

section Operations

variable {α : Type}

/-- Go to a new entry, and forget the oldest ones beyond a bound. -/
def Zipper.push (bound : ℕ) (z : Zipper α) (entry : α) : Zipper α :=
  ⟨(z.current::z.past).take (bound-1),entry,[]⟩

/-- Change the current entry. -/
def Zipper.modify (z : Zipper α) (f : α → α) : Zipper α := {z with current := f z.current}

def Zipper.back (z : Zipper α) : Option (Zipper α) :=
  match z.past with
  | [] => none
  | entry::past => some ⟨past,entry,z.current::z.future⟩

def Zipper.forward (z : Zipper α) : Option (Zipper α) :=
  match z.future with
  | [] => none
  | entry::future => some ⟨z.current::z.past,entry,future⟩

variable {z : Zipper α}

theorem Zipper.forward_back {moved : Zipper α} (h : z.back=some moved) : moved.forward=some z := by
  obtain ⟨past,current,future⟩ := z
  cases past with
  | nil => cases h
  | cons entry past =>
    cases h
    rfl

theorem Zipper.back_forward {moved : Zipper α} (h : z.forward=some moved) : moved.back=some z := by
  obtain ⟨past,current,future⟩ := z
  cases future with
  | nil => cases h
  | cons entry future =>
    cases h
    rfl

/-- A list with a position is a history. -/
structure Shows (entries : List α) (position : ℕ) (z : Zipper α) : Prop where
  entries : entries=z.past.reverse++z.current::z.future
  /-- How many are behind. -/
  position : position=z.past.length

/-- The history of a list with a position. -/
def zipperOf (entries : List α) (position : ℕ) : Option (Zipper α) :=
  entries[position]?.map fun current =>
    ⟨(entries.take position).reverse,current,entries.drop (position+1)⟩

variable {entries : List α} {position : ℕ}

/-- A position within the list has a history. -/
theorem zipperOf_shows (h : position<entries.length) :
    ∃ z, zipperOf entries position=some z ∧ Shows entries position z := by
  refine ⟨_,by rw [zipperOf,List.getElem?_eq_getElem h,Option.map_some],?_,?_⟩
  · change entries=(entries.take position).reverse.reverse++entries[position]::_
    rw [List.reverse_reverse,List.getElem_cons_drop,List.take_append_drop]
  · change position=(entries.take position).reverse.length
    rw [List.length_reverse,List.length_take]
    omega

/-- A list with a position has one history. -/
theorem Shows.unique {other : Zipper α} (h : Shows entries position z)
    (hother : Shows entries position other) : z=other := by
  obtain ⟨past,current,future⟩ := z
  obtain ⟨past',current',future'⟩ := other
  have hlength : past.reverse.length=past'.reverse.length := by
    rw [List.length_reverse,List.length_reverse]
    exact h.position.symm.trans hother.position
  obtain ⟨hpast,hrest⟩ := List.append_inj (h.entries.symm.trans hother.entries) hlength
  have hsame : past=past' := List.reverse_inj.mp hpast
  cases hrest
  rw [hsame]

/-- How many entries there are. -/
theorem Shows.length (h : Shows entries position z) :
    entries.length=position+1+z.future.length := by
  rw [h.entries,h.position,List.length_append,List.length_reverse,List.length_cons]
  omega

theorem Shows.take (h : Shows entries position z) :
    entries.take (position+1)=(z.current::z.past).reverse := by
  have hlength : position+1=(z.past.reverse++[z.current]).length := by
    rw [h.position,List.length_append,List.length_reverse,List.length_singleton]
  rw [h.entries,List.append_cons,hlength,List.take_left,List.reverse_cons]

theorem Shows.push {bound : ℕ} (h : Shows entries position z) (hbound : entries.length≤bound)
    (hpositive : 1 < bound) (entry : α) : let pushed := entries.take (position+1)++[entry]
    let kept := if bound<pushed.length then pushed.tail else pushed
    Shows kept (kept.length-1) (z.push bound entry) ∧ kept.length≤bound := by
  have hlength := h.length
  have hposition := h.position
  have htake : (entries.take (position+1)).length=position+1 := by
    rw [List.length_take]
    omega
  simp only [List.length_append,htake,List.length_singleton]
  by_cases hfull : bound<position+1+1
  · rw [if_pos hfull]
    have hentries : entries.take (position+1)=(z.current::z.past).reverse := h.take
    have hlast : (z.current::z.past).take (bound-1)=(z.current::z.past).dropLast := by
      rw [List.dropLast_eq_take,List.length_cons]
      congr 1
      omega
    have htail : (entries.take (position+1)++[entry]).tail=
        ((z.current::z.past).take (bound-1)).reverse++[entry] := by
      rw [hentries,hlast,List.tail_append_of_ne_nil (by simp),List.tail_reverse]
    refine ⟨⟨htail,?_⟩,?_⟩
    · rw [htail]
      simp only [Zipper.push,List.length_append,List.length_reverse,List.length_singleton]
      omega
    · rw [htail]
      simp only [List.length_append,List.length_reverse,List.length_singleton,List.length_take]
      omega
  · rw [if_neg hfull]
    have hall : (z.current::z.past).take (bound-1)=z.current::z.past := by
      rw [List.take_of_length_le]
      rw [List.length_cons]
      omega
    refine ⟨⟨?_,?_⟩,?_⟩
    · rw [h.take]
      simp only [Zipper.push,hall]
    · rw [List.length_append,htake,List.length_singleton]
      simp only [Zipper.push,hall,List.length_cons]
      omega
    · rw [List.length_append,htake,List.length_singleton]
      omega

theorem modify_middle (before after : List α) (entry : α) (f : α → α) :
    (before++entry::after).modify before.length f=before++f entry::after := by
  induction before with
  | nil => rfl
  | cons first before ih => exact congrArg (List.cons first) ih

/-- Changing the entry at the position. -/
theorem Shows.modify (h : Shows entries position z) (f : α → α) :
    Shows (entries.modify position f) position (z.modify f) := by
  refine ⟨?_,h.position⟩
  have hposition : position=z.past.reverse.length := by
    rw [List.length_reverse]
    exact h.position
  rw [h.entries,hposition,modify_middle]
  rfl

theorem Shows.set (h : Shows entries position z) (entry : α) :
    Shows (entries.set position entry) position (z.modify fun _ => entry) := by
  refine ⟨?_,h.position⟩
  have hposition : position=z.past.reverse.length := by
    rw [List.length_reverse]
    exact h.position
  rw [h.entries,hposition,List.set_append_right _ _ (Nat.le_refl _),Nat.sub_self]
  rfl

theorem Shows.back_none (h : Shows entries position z) : z.back=none ↔ position=0 := by
  obtain ⟨past,current,future⟩ := z
  rw [h.position]
  cases past with
  | nil => exact ⟨fun _ => rfl,fun _ => rfl⟩
  | cons entry past => exact ⟨(fun hn => nomatch hn),(fun hn => nomatch hn)⟩

theorem Shows.back (h : Shows entries position z) (hposition : position≠0) :
    ∃ moved, z.back=some moved ∧ Shows entries (position-1) moved := by
  obtain ⟨past,current,future⟩ := z
  have hlength := h.position
  cases past with
  | nil => exact absurd hlength hposition
  | cons entry past =>
    refine ⟨_,rfl,?_,?_⟩
    · rw [h.entries]
      simp only [List.reverse_cons,List.append_assoc,List.singleton_append]
    · rw [hlength]
      rfl

theorem Shows.forward_none (h : Shows entries position z) :
    z.forward=none ↔ position+1=entries.length := by
  have hlength := h.length
  obtain ⟨past,current,future⟩ := z
  cases future with
  | nil => exact ⟨fun _ => hlength.symm,fun _ => rfl⟩
  | cons entry future =>
    refine ⟨(fun hn => nomatch hn),fun hn => ?_⟩
    rw [List.length_cons] at hlength
    omega

theorem Shows.forward (h : Shows entries position z) (hposition : position+1≠entries.length) :
    ∃ moved, z.forward=some moved ∧ Shows entries (position+1) moved := by
  have hlength := h.length
  obtain ⟨past,current,future⟩ := z
  cases future with
  | nil => exact absurd hlength.symm hposition
  | cons entry future =>
    refine ⟨_,rfl,?_,?_⟩
    · rw [h.entries]
      simp only [List.reverse_cons,List.append_assoc,List.singleton_append]
    · rw [h.position]
      rfl

end Operations

end Librairii.BrowserHistories
