import Librairii.JsonValues

/-!
# Maps ordered by their keys

A sorted map carries the proof that its keys strictly increase. Reading after
inserting or erasing is decided by the key alone, and two sorted maps that
answer every key alike are equal.
-/

namespace Librairii.SortedMaps

open JsonValues

/-- A map listed by strictly increasing keys. -/
structure SortedMap (κ ν : Type) [LinearOrder κ] where
  /-- The members, in key order. -/
  entries : List (κ×ν)
  /-- The keys strictly increase. -/
  ordered : Ordered entries

namespace SortedMap

variable {κ ν : Type} [LinearOrder κ]

def empty : SortedMap κ ν := ⟨[],List.Pairwise.nil⟩

/-- The value of a key. -/
def get (map : SortedMap κ ν) (key : κ) : Option ν :=
  (map.entries.find? fun entry => entry.1=key).map Prod.snd

def insert (map : SortedMap κ ν) (key : κ) (value : ν) : SortedMap κ ν :=
  ⟨insertKey key value map.entries,ordered_insertKey map.ordered⟩

/-- Remove a key. -/
def erase (map : SortedMap κ ν) (key : κ) : SortedMap κ ν :=
  ⟨map.entries.filter fun entry => entry.1≠key,map.ordered.sublist List.filter_sublist⟩

/-- The number of members. -/
def size (map : SortedMap κ ν) : ℕ := map.entries.length

theorem nodup_keys (map : SortedMap κ ν) : (map.entries.map Prod.fst).Nodup := by
  have hlt : (map.entries.map Prod.fst).Pairwise (·<·) := List.pairwise_map.mpr map.ordered
  exact hlt.imp ne_of_lt

theorem get_eq_some {map : SortedMap κ ν} {key : κ} {value : ν} :
    map.get key=some value ↔ (key,value) ∈ map.entries := by
  have hkeys := map.nodup_keys
  unfold get
  generalize map.entries=entries at hkeys
  induction entries with
  | nil => simp
  | cons first rest ih =>
    obtain ⟨k,v⟩ := first
    rw [List.map_cons,List.nodup_cons] at hkeys
    by_cases hk : k=key
    · have hout : (key,value) ∉ rest := by
        intro hm
        apply hkeys.1
        rw [hk]
        exact List.mem_map.mpr ⟨_,hm,rfl⟩
      simp [hk,hout,eq_comm]
    · have hne : ¬key=k := fun he => hk he.symm
      simp [hk,hne,ih hkeys.2]

theorem get_eq_none {map : SortedMap κ ν} {key : κ} :
    map.get key=none ↔ ∀ value, (key,value) ∉ map.entries := by
  rw [Option.eq_none_iff_forall_ne_some]
  simp only [ne_eq,get_eq_some]

theorem ext_get {a b : SortedMap κ ν} (h : ∀ key, a.get key=b.get key) : a=b := by
  obtain ⟨as,ha⟩ := a
  obtain ⟨bs,hb⟩ := b
  have hentries : as=bs := by
    apply ha.ext hb
    intro entry
    have hkey := h entry.1
    have hvalue : SortedMap.get ⟨as,ha⟩ entry.1=some entry.2 ↔
        SortedMap.get ⟨bs,hb⟩ entry.1=some entry.2 := by rw [hkey]
    simpa only [get_eq_some] using hvalue
  subst hentries
  rfl

@[simp] theorem get_empty (key : κ) : (empty : SortedMap κ ν).get key=none := rfl

@[simp] theorem get_insert (map : SortedMap κ ν) (key other : κ) (value : ν) :
    (map.insert key value).get other=if other=key then some value else map.get other := by
  apply Option.ext
  intro v
  have hinsert : (other,v) ∈ (map.insert key value).entries ↔ _ :=
    mem_insertKey map.ordered (other,v)
  rw [get_eq_some,hinsert]
  by_cases hk : other=key
  · simp [hk,eq_comm]
  · simp [hk,get_eq_some]

/-- Reading after erasing. -/
@[simp] theorem get_erase (map : SortedMap κ ν) (key other : κ) :
    (map.erase key).get other=if other=key then none else map.get other := by
  apply Option.ext
  intro v
  have herase : (other,v) ∈ (map.erase key).entries ↔ (other,v) ∈ map.entries ∧ other≠key := by
    simp [erase]
  rw [get_eq_some,herase]
  by_cases hk : other=key
  · simp [hk]
  · simp [hk,get_eq_some]

/-- Replacing a value keeps the number of members, a new key adds one. -/
theorem size_insert (map : SortedMap κ ν) (key : κ) (value : ν) :
    (map.insert key value).size=map.size+if map.get key=none then 1 else 0 := by
  have hsize : ∀ entries : List (κ×ν), Ordered entries →
      (insertKey key value entries).length=
        entries.length+if key ∈ entries.map Prod.fst then 0 else 1 := by
    intro entries ho
    induction entries with
    | nil => rfl
    | cons first rest ih =>
      obtain ⟨k,v⟩ := first
      obtain ⟨hfirst,hrest⟩ := List.pairwise_cons.mp ho
      by_cases hlt : key<k
      · have hout : key ∉ ((k,v)::rest).map Prod.fst := by
          intro hm
          rw [List.map_cons] at hm
          rcases List.mem_cons.mp hm with he | hm
          · exact ne_of_lt hlt he
          · obtain ⟨entry,he,rfl⟩ := List.mem_map.mp hm
            exact lt_asymm hlt (hfirst entry he)
        rw [insertKey,if_pos hlt,if_neg hout]
        rfl
      · by_cases heq : key=k
        · simp [insertKey,heq]
        · have hmem : key ∈ ((k,v)::rest).map Prod.fst ↔ key ∈ rest.map Prod.fst := by
            simp [heq]
          rw [insertKey,if_neg hlt,if_neg heq,List.length_cons,List.length_cons,ih hrest]
          simp only [hmem]
          omega
  have hnone : map.get key=none ↔ key ∉ map.entries.map Prod.fst := by
    rw [get_eq_none,List.mem_map]
    constructor
    · rintro h ⟨⟨k,v⟩,hm,rfl⟩
      exact h v hm
    · intro h value hm
      exact h ⟨_,hm,rfl⟩
  have hlen := hsize map.entries map.ordered
  unfold size
  change (insertKey key value map.entries).length=_
  rw [hlen]
  by_cases hm : key ∈ map.entries.map Prod.fst
  · rw [if_pos hm,if_neg (fun he => (hnone.mp he) hm)]
  · rw [if_neg hm,if_pos (hnone.mpr hm)]

/-- Erasing does not add members. -/
theorem size_erase (map : SortedMap κ ν) (key : κ) : (map.erase key).size ≤ map.size :=
  List.length_filter_le _ _

theorem get_foldl_insert {α : Type} {key : α → κ} {value : α → ν} {other : κ} {v : ν}
    (inserted : List α) {map : SortedMap κ ν}
    (h : (inserted.foldl (fun map a => map.insert (key a) (value a)) map).get other=some v) :
    map.get other=some v ∨ ∃ a ∈ inserted, key a=other ∧ value a=v := by
  induction inserted generalizing map with
  | nil => exact Or.inl h
  | cons a inserted ih =>
    rw [List.foldl_cons] at h
    cases ih h with
    | inl h =>
      rw [get_insert] at h
      split at h
      · rename_i hk
        exact Or.inr ⟨a,List.mem_cons_self,hk.symm,Option.some.inj h⟩
      · exact Or.inl h
    | inr h =>
      obtain ⟨b,hb,hv⟩ := h
      exact Or.inr ⟨b,List.mem_cons_of_mem a hb,hv⟩

end SortedMap

end Librairii.SortedMaps
