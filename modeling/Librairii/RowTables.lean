import Mathlib

/-!
# Keyed tables as row lists

A table is the list of its rows. An UPDATE rewrites the rows its predicate
selects and reports how many they are; lookups return the first row with a key.
Rows a predicate leaves out are kept as they are, a rewrite that keeps the key
keeps lookups of every other key, and a rewrite that turns selected rows from
uncounted to counted raises a count by exactly the number of selected rows.
-/

namespace Librairii.RowTables

variable {α κ : Type}

/-- Rewrite the rows the predicate selects, in place. -/
def update (p : α → Bool) (f : α → α) (rows : List α) : List α :=
  rows.map fun row => if p row=true then f row else row

/-- The number of rows an UPDATE with this predicate reports. -/
def affected (p : α → Bool) (rows : List α) : ℕ := rows.countP p

/-- The first row stored under a key. -/
def lookup [DecidableEq κ] (key : α → κ) (k : κ) (rows : List α) : Option α :=
  rows.find? fun row => key row=k

variable {rows : List α} {key : α → κ} {row : α} {k : κ}

/-- A looked-up row is stored and has the requested key. -/
theorem lookup_mem [DecidableEq κ] (h : lookup key k rows=some row) : row ∈ rows ∧ key row=k := by
  have hd := List.find?_some h
  simp only [decide_eq_true_eq] at hd
  exact ⟨List.mem_of_find?_eq_some h,hd⟩

theorem lookup_of_mem [DecidableEq κ] (hk : (rows.map key).Nodup) (h : row ∈ rows) :
    lookup key (key row) rows=some row := by
  have hs : (lookup key (key row) rows).isSome := by
    rw [lookup,List.find?_isSome]
    exact ⟨row,h,decide_eq_true rfl⟩
  obtain ⟨found,hf⟩ := Option.isSome_iff_exists.mp hs
  obtain ⟨hm,he⟩ := lookup_mem hf
  rw [hf,List.inj_on_of_nodup_map hk hm h he]

theorem lookup_none [DecidableEq κ] : lookup key k rows=none ↔ ∀ row ∈ rows, key row≠k := by
  simp only [lookup,List.find?_eq_none,decide_eq_true_eq,ne_eq]

variable {p : α → Bool} {f : α → α}

/-- An updated row is either an untouched row or a rewritten selected row. -/
theorem mem_update :
    row ∈ update p f rows ↔
      (row ∈ rows ∧ p row=false) ∨ ∃ old ∈ rows, p old=true ∧ row=f old := by
  rw [update,List.mem_map]
  constructor
  · rintro ⟨old,ho,rfl⟩
    cases hp : p old with
    | true => exact .inr ⟨old,ho,hp,by rw [if_pos rfl]⟩
    | false =>
      rw [if_neg Bool.false_ne_true]
      exact .inl ⟨ho,hp⟩
  · rintro (⟨hm,hp⟩ | ⟨old,ho,hp,rfl⟩)
    · exact ⟨row,hm,by rw [hp,if_neg Bool.false_ne_true]⟩
    · exact ⟨old,ho,by rw [hp,if_pos rfl]⟩

theorem update_keys (hf : ∀ row, key (f row)=key row) (rows : List α) :
    (update p f rows).map key=rows.map key := by
  rw [update,List.map_map]
  apply List.map_congr_left
  intro row _
  dsimp only [Function.comp_apply]
  split
  · exact hf row
  · rfl

theorem lookup_update [DecidableEq κ] (hf : ∀ row, key (f row)=key row) (rows : List α) :
    lookup key k (update p f rows)=
      (lookup key k rows).map fun row => if p row=true then f row else row := by
  have hc : ((fun row => decide (key row=k)) ∘ fun row => if p row=true then f row else row)=
      fun row => decide (key row=k) := by
    funext row
    dsimp only [Function.comp_apply]
    split
    · rw [hf row]
    · rfl
  rw [lookup,update,List.find?_map,hc,lookup]

theorem lookup_update_kept [DecidableEq κ] (hf : ∀ row, key (f row)=key row)
    (h : lookup key k rows=some row) (hp : p row=false) :
    lookup key k (update p f rows)=some row := by
  rw [lookup_update hf,h,Option.map_some,hp,if_neg Bool.false_ne_true]

theorem lookup_append [DecidableEq κ] (h : lookup key k rows=some row) (more : List α) :
    lookup key k (rows++more)=some row := by
  rw [lookup,List.find?_append]
  rw [lookup] at h
  rw [h,Option.some_or]

variable {q : α → Bool}

/-- The first row with a key is also the first one inside a selection that
contains it. -/
theorem lookup_filter [DecidableEq κ] (h : lookup key k rows=some row) (hq : q row=true) :
    lookup key k (rows.filter q)=some row := by
  induction rows with
  | nil => cases h
  | cons first rows ih =>
    rw [lookup,List.find?_cons] at h
    by_cases hk : key first=k
    · rw [decide_eq_true hk] at h
      have he : first=row := Option.some.inj h
      rw [he,List.filter_cons_of_pos hq,lookup,List.find?_cons,←he,decide_eq_true hk]
    · rw [decide_eq_false hk] at h
      have hr := ih h
      cases hf : q first with
      | true =>
        rw [List.filter_cons_of_pos hf,lookup,List.find?_cons,decide_eq_false hk]
        exact hr
      | false =>
        rw [List.filter_cons_of_neg (by rw [hf]; exact Bool.false_ne_true)]
        exact hr

theorem length_update (rows : List α) : (update p f rows).length=rows.length := List.length_map _

/-- Updating nothing in a table leaves it. -/
theorem update_none (f : α → α) (rows : List α) : rows=update (fun _ => false) f rows := by
  rw [update]
  conv_lhs => rw [←List.map_id rows]
  apply List.map_congr_left
  intro row _
  rw [if_neg Bool.false_ne_true]
  rfl

theorem update_congr (h : ∀ row ∈ rows, p row=q row) : update p f rows=update q f rows := by
  apply List.map_congr_left
  intro row hm
  rw [h row hm]

theorem filter_update (hq : ∀ row, q (f row)=q row) (rows : List α) :
    (update p f rows).filter q=update p f (rows.filter q) := by
  have hc : (q ∘ fun row => if p row=true then f row else row)=q := by
    funext row
    dsimp only [Function.comp_apply]
    split
    · exact hq row
    · rfl
  rw [update,List.filter_map,hc,update]

/-- Rows outside a selection that contains all selected rows do not count. -/
theorem affected_filter (h : ∀ row, p row=true → q row=true) (rows : List α) :
    affected p (rows.filter q)=affected p rows := by
  rw [affected,affected,List.countP_filter]
  apply List.countP_congr
  intro row _
  constructor
  · intro hp
    exact (Bool.and_eq_true _ _ ▸ hp).1
  · intro hp
    rw [hp,h row hp]
    rfl

/-- No selected row is found in a selection that excludes them. -/
theorem update_filter_disjoint (h : ∀ row, p row=true → q row=false) (rows : List α) :
    update p f (rows.filter q)=rows.filter q := by
  have hz : ∀ row ∈ rows.filter q, p row=false := by
    intro row hm
    have hq := (List.mem_filter.mp hm).2
    cases hp : p row with
    | false => rfl
    | true =>
      rw [h row hp] at hq
      cases hq
  rw [update]
  conv_rhs => rw [←List.map_id (rows.filter q)]
  apply List.map_congr_left
  intro row hm
  rw [hz row hm,if_neg Bool.false_ne_true]
  rfl

theorem countP_update_same {p q : α → Bool} {f : α → α} {rows : List α}
    (h : ∀ row ∈ rows, p row=true → q (f row)=q row) :
    (update p f rows).countP q=rows.countP q := by
  rw [update,List.countP_map]
  apply List.countP_congr
  intro row hm
  dsimp only [Function.comp_apply]
  split
  · next hp => rw [h row hm hp]
  · rfl

theorem countP_update_gain (hq : ∀ row ∈ rows, p row=true → q row=false ∧ q (f row)=true) :
    (update p f rows).countP q=rows.countP q+affected p rows := by
  induction rows with
  | nil => rfl
  | cons row rows ih =>
    have hi := ih fun r hr => hq r (List.mem_cons_of_mem _ hr)
    rw [update] at hi
    rw [update,affected,List.map_cons,List.countP_cons,List.countP_cons,List.countP_cons,hi,
      affected]
    cases hp : p row with
    | true =>
      obtain ⟨h0,h1⟩ := hq row List.mem_cons_self hp
      simp only [if_true,h0,h1,Bool.false_eq_true,if_false]
      omega
    | false =>
      simp only [Bool.false_eq_true,if_false]
      omega

/-- An update that reports one row selected a row that is stored. -/
theorem exists_of_affected_one (h : affected p rows=1) : ∃ row ∈ rows, p row=true := by
  apply List.countP_pos_iff.mp
  rw [affected] at h
  omega

theorem affected_le_one (hk : (rows.map key).Nodup) (hp : ∀ row, p row=true → key row=k) :
    affected p rows≤1 := by
  induction rows with
  | nil => exact Nat.zero_le _
  | cons row rows ih =>
    rw [List.map_cons,List.nodup_cons] at hk
    rw [affected,List.countP_cons]
    cases h : p row with
    | false => simpa only [affected,Bool.false_eq_true,if_false,Nat.add_zero] using ih hk.2
    | true =>
      have hz : rows.countP p=0 := by
        rw [List.countP_eq_zero]
        intro r hr hpr
        apply hk.1
        rw [hp row h,←hp r hpr]
        exact List.mem_map_of_mem hr
      simp only [hz,if_true,Nat.zero_add,Nat.le_refl]

end Librairii.RowTables
