import Mathlib

/-!
# First occurrences of keys

A list is collapsed by keeping the first element of every key. The kept elements are in the
order of the list, no two of them share a key, and every key of the list is kept.
-/

namespace Librairii.KeyedOccurrences

section Occurrences

variable {α κ : Type} [DecidableEq κ] (key : α → κ)

def firstBy : List α → List α
  | [] => []
  | a::rest => a::(firstBy rest).filter fun b => key b≠key a

variable {key}

theorem mem_keys_firstBy {values : List α} {k : κ} :
    k ∈ (firstBy key values).map key ↔ k ∈ values.map key := by
  induction values with
  | nil => rfl
  | cons a rest ih =>
    have hfiltered : k ∈ ((firstBy key rest).filter fun b => key b≠key a).map key ↔
        k ∈ (firstBy key rest).map key ∧ k≠key a := by
      constructor
      · intro h
        obtain ⟨b,hb,rfl⟩ := List.mem_map.mp h
        have hb := List.mem_filter.mp hb
        exact ⟨List.mem_map_of_mem hb.1,of_decide_eq_true hb.2⟩
      · intro h
        obtain ⟨b,hb,rfl⟩ := List.mem_map.mp h.1
        exact List.mem_map_of_mem (List.mem_filter.mpr ⟨hb,decide_eq_true h.2⟩)
    rw [firstBy,List.map_cons,List.map_cons,List.mem_cons,List.mem_cons,hfiltered,ih]
    by_cases hk : k=key a
    · simp only [hk,true_or]
    · simp only [hk,false_or,ne_eq,not_false_eq_true,and_true]

/-- The kept elements have different keys. -/
theorem nodup_firstBy (values : List α) : ((firstBy key values).map key).Nodup := by
  induction values with
  | nil => exact List.nodup_nil
  | cons a rest ih =>
    rw [firstBy,List.map_cons,List.nodup_cons]
    refine ⟨fun h => ?_,ih.sublist (List.filter_sublist.map key)⟩
    obtain ⟨b,hb,he⟩ := List.mem_map.mp h
    exact of_decide_eq_true (List.mem_filter.mp hb).2 he

/-- The kept elements are elements of the list in its order. -/
theorem firstBy_sublist (values : List α) : (firstBy key values).Sublist values := by
  induction values with
  | nil => exact List.Sublist.slnil
  | cons a rest ih => exact (List.filter_sublist.trans ih).cons_cons a

theorem firstBy_self {values : List α} (h : (values.map key).Nodup) :
    firstBy key values=values := by
  induction values with
  | nil => rfl
  | cons a rest ih =>
    rw [List.map_cons,List.nodup_cons] at h
    rw [firstBy,ih h.2,List.filter_eq_self.mpr]
    intro b hb
    exact decide_eq_true fun he => h.1 (he ▸ List.mem_map_of_mem hb)

theorem firstBy_append (values others : List α) : firstBy key (values++others)=
    firstBy key values++(firstBy key others).filter fun b => key b ∉ values.map key := by
  induction values with
  | nil =>
    rw [List.nil_append,firstBy,List.nil_append,List.filter_eq_self.mpr]
    exact fun b _ => decide_eq_true List.not_mem_nil
  | cons a rest ih =>
    rw [List.cons_append,firstBy,firstBy,ih,List.filter_append,List.filter_filter,
      List.cons_append]
    congr 2
    refine List.filter_congr fun b _ => ?_
    by_cases hb : key b=key a
    · simp [hb]
    · simp [hb]

/-- One more element is kept when its key is new. -/
theorem firstBy_concat (values : List α) (a : α) : firstBy key (values++[a])=
    if key a ∈ (firstBy key values).map key then firstBy key values
    else firstBy key values++[a] := by
  rw [firstBy_append,firstBy,firstBy,List.filter_nil]
  by_cases ha : key a ∈ values.map key
  · rw [if_pos (mem_keys_firstBy.mpr ha),List.filter_cons_of_neg (by simpa using ha),
      List.filter_nil,List.append_nil]
  · rw [if_neg (fun h => ha (mem_keys_firstBy.mp h)),
      List.filter_cons_of_pos (by simpa using ha),List.filter_nil]

theorem find_key {values others : List α} (h : (others.map key).Nodup) {k : κ}
    (hsame : ∀ a, key a=k → (a ∈ values ↔ a ∈ others)) :
    values.find? (fun a => key a=k)=others.find? fun a => key a=k := by
  cases hv : values.find? fun a => key a=k with
  | none =>
    have hnone := List.find?_eq_none.mp hv
    refine (List.find?_eq_none.mpr fun a ha hk => ?_).symm
    exact hnone a ((hsame a (of_decide_eq_true hk)).mpr ha) hk
  | some a =>
    have hk : key a=k := by simpa using List.find?_some hv
    have ha := (hsame a hk).mp (List.mem_of_find?_eq_some hv)
    cases ho : others.find? fun a => key a=k with
    | none => exact absurd (decide_eq_true hk) (List.find?_eq_none.mp ho a ha)
    | some b =>
      have hb := List.mem_of_find?_eq_some ho
      have hkb : key b=k := by simpa using List.find?_some ho
      rw [List.inj_on_of_nodup_map h ha hb (hk.trans hkb.symm)]

/-- Related lists have a related element for each element. -/
theorem forall₂_left {β : Type} {R : α → β → Prop} {values : List α} {others : List β}
    (h : List.Forall₂ R values others) : ∀ a ∈ values, ∃ b ∈ others, R a b := by
  induction h with
  | nil => exact fun a ha => absurd ha List.not_mem_nil
  | cons hfirst hrest ih =>
    refine List.forall_mem_cons.mpr ⟨⟨_,List.mem_cons_self,hfirst⟩,fun a ha => ?_⟩
    obtain ⟨b,hb,hr⟩ := ih a ha
    exact ⟨b,List.mem_cons_of_mem _ hb,hr⟩

end Occurrences

end Librairii.KeyedOccurrences
