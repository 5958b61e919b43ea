import Mathlib

/-!
# Windows over a descending order

A window holds the greatest keys below a cursor. One more key is looked up than is shown, so that
the next cursor is present exactly when a key remains. Keys can also be gathered one by one into a
bounded list, which keeps the greatest of them.
-/

namespace Librairii.DescendingWindows

variable {κ : Type} [LinearOrder κ]

def descending (keys : List κ) : List κ := keys.insertionSort (·≥·)

def below (before : Option κ) (keys : List κ) : List κ :=
  keys.filter fun key => before.all fun cursor => key<cursor

/-- What is shown of a looked-up list, and its last key when more was found. -/
def shown (size : ℕ) (found : List κ) : List κ×Option κ :=
  if size<found.length then (found.take size,(found.take size).getLast?) else (found,none)

/-- The window below a cursor, looked up with one more key. -/
def page (size : ℕ) (before : Option κ) (keys : List κ) : List κ×Option κ :=
  shown size ((descending (below before keys)).take (size+1))

variable {α : Type} (keyOf : α → κ)

/-- Keep an element among those with the greatest keys, without growing beyond the bound. -/
def keep (bound : ℕ) (selected : List α) (a : α) : List α :=
  let position := selected.findIdx fun other => keyOf other<keyOf a
  if position<bound then
    (if selected.length=bound then selected.dropLast else selected).insertIdx position a
  else selected

variable {keys added : List κ} {key : κ}

theorem descending_perm (keys : List κ) : (descending keys).Perm keys :=
  List.perm_insertionSort _ _

theorem descending_unique {sorted : List κ} (hs : sorted.Pairwise (·≥·)) (hp : sorted.Perm keys) :
    descending keys=sorted :=
  List.Perm.eq_of_pairwise (fun _ _ _ _ h h' => le_antisymm h' h)
    (List.pairwise_insertionSort _ _) hs ((descending_perm keys).trans hp.symm)

theorem descending_strict (hn : keys.Nodup) : (descending keys).Pairwise (·>·) := by
  have hn' := (descending_perm keys).nodup_iff.mpr hn
  exact (List.pairwise_insertionSort (·≥·) keys).imp₂
    (fun a b h hne => lt_of_le_of_ne h hne.symm) hn'

omit [LinearOrder κ] in
/-- What is looked up shows its first keys, and more exactly when there are more. -/
theorem shown_take (size : ℕ) (sorted : List κ) : shown size (sorted.take (size+1))=
    (sorted.take size,if size<sorted.length then (sorted.take size).getLast? else none) := by
  unfold shown
  rw [List.length_take,List.take_take,Nat.min_eq_left (Nat.le_succ size)]
  by_cases h : size<sorted.length
  · rw [if_pos h,if_pos (by omega)]
  · rw [if_neg h,if_neg (by omega),List.take_of_length_le (by omega),
      List.take_of_length_le (by omega)]

theorem filter_lt_last {sorted : List κ} (hs : sorted.Pairwise (·>·)) {count : ℕ} {last : κ}
    (hlast : (sorted.take count).getLast?=some last) :
    sorted.filter (fun key => key<last)=sorted.drop count := by
  have hsplit := List.take_append_drop count sorted
  have hmem := List.mem_of_getLast? hlast
  rw [←hsplit,List.pairwise_append] at hs
  have hfront : ∀ key ∈ sorted.take count, last≤key := by
    intro key hk
    obtain ⟨front,hfront⟩ := List.getLast?_eq_some_iff.mp hlast
    rw [hfront] at hk hs
    rcases List.mem_append.mp hk with hk | hk
    · exact ((List.pairwise_append.mp hs.1).2.2 key hk last List.mem_cons_self).le
    · rw [List.mem_singleton.mp hk]
  have hnone : (sorted.take count).filter (fun key => key<last)=[] :=
    List.filter_eq_nil_iff.mpr fun key hk => by simpa using hfront key hk
  have hall : (sorted.drop count).filter (fun key => key<last)=sorted.drop count :=
    List.filter_eq_self.mpr fun key hk => decide_eq_true (hs.2.2 last hmem key hk)
  conv_lhs => rw [←hsplit,List.filter_append,hnone,hall,List.nil_append]

/-- The position of a window: the last of the keys before it, if there are any. -/
def cursorAt (sorted : List κ) (count : ℕ) : Option κ := (sorted.take count).getLast?

/-- Keys that were added above the sorted ones stay out of the windows behind the first. -/
theorem page_at {size : ℕ} (hsize : 0<size) {sorted : List κ} (hs : sorted.Pairwise (·>·))
    (hkeys : keys.Perm (sorted++added)) (hadded : ∀ a ∈ added, ∀ b ∈ sorted, b<a) {count : ℕ}
    (hcount : count ≤ sorted.length) (hfirst : count=0 → added=[]) :
    page size (cursorAt sorted count) keys=((sorted.drop count).take size,
      if count+size<sorted.length then cursorAt sorted (count+size) else none) := by
  have hrest : descending (below (cursorAt sorted count) keys)=sorted.drop count := by
    refine descending_unique ((hs.sublist (List.drop_sublist _ _)).imp le_of_lt) ?_
    refine .symm ((hkeys.filter _).trans ?_)
    rw [List.filter_append]
    cases hlast : cursorAt sorted count with
    | none =>
      have hzero : count=0 := by
        have hnil := List.getLast?_eq_none_iff.mp hlast
        have hlength := congrArg List.length hnil
        rw [List.length_take,List.length_nil] at hlength
        have hsorted : sorted=[] → sorted.length=0 := fun he => by rw [he]; rfl
        omega
      rw [hfirst hzero,hzero,List.drop_zero,List.filter_nil,List.append_nil]
      exact .of_eq (List.filter_eq_self.mpr fun _ _ => rfl)
    | some last =>
      have hlisted : last ∈ sorted := List.mem_of_mem_take (List.mem_of_getLast? hlast)
      have hnone : added.filter (fun key => (some last).all fun cursor => key<cursor)=[] :=
        List.filter_eq_nil_iff.mpr fun key hk => by simpa using (hadded key hk last hlisted).le
      rw [hnone,List.append_nil]
      exact .of_eq (filter_lt_last hs hlast)
  rw [page,hrest,shown_take,List.length_drop]
  have hcond : size<sorted.length-count ↔ count+size<sorted.length := by omega
  by_cases hmore : count+size<sorted.length
  · rw [if_pos (hcond.mpr hmore),if_pos hmore,cursorAt,List.take_add,List.getLast?_append]
    cases hlast : ((sorted.drop count).take size).getLast? with
    | some last => rfl
    | none =>
      have hlength := congrArg List.length (List.getLast?_eq_none_iff.mp hlast)
      rw [List.length_take,List.length_drop,List.length_nil] at hlength
      omega
  · rw [if_neg (fun h => hmore (hcond.mp h)),if_neg hmore]

/-- A next cursor is present exactly when a key below the cursor and the window remains. -/
theorem page_next_iff {size : ℕ} (hsize : 0<size) (hn : keys.Nodup) (before : Option κ) :
    (page (size) before keys).2.isSome=true ↔ ∃ key ∈ below before keys,
      ∀ other ∈ (page (size) before keys).1, key<other := by
  have hs := descending_strict (hn.filter fun key => before.all fun cursor => key<cursor)
  have hmem : ∀ key, key ∈ descending (below before keys) ↔ key ∈ below before keys :=
    fun key => (descending_perm _).mem_iff
  change (descending (below before keys)).Pairwise (·>·) at hs
  rw [page,shown_take]
  generalize descending (below before keys)=sorted at hs hmem ⊢
  by_cases hmore : size<sorted.length
  · rw [if_pos hmore]
    refine iff_of_true ?_ ⟨sorted[size],(hmem _).mp (List.getElem_mem _),?_⟩
    · rw [List.getLast?_isSome]
      refine List.ne_nil_of_length_pos ?_
      rw [List.length_take]
      omega
    · intro other ho
      obtain ⟨i,hi,rfl⟩ := List.mem_iff_getElem.mp ho
      rw [List.length_take] at hi
      rw [List.getElem_take]
      exact List.pairwise_iff_getElem.mp hs i (size) _ _ (by omega)
  · rw [if_neg hmore,List.take_of_length_le (by omega)]
    refine iff_of_false Bool.false_ne_true ?_
    rintro ⟨key,hk,hless⟩
    exact lt_irrefl key (hless key ((hmem key).mpr hk))

theorem descending_insert (hn : keys.Nodup) (hkey : key ∉ keys) : descending (keys++[key])=
    (descending keys).take ((descending keys).findIdx (·<key))++
      key::(descending keys).drop ((descending keys).findIdx (·<key)) := by
  have hs := descending_strict hn
  have hmem : ∀ other, other ∈ descending keys ↔ other ∈ keys := fun other =>
    (descending_perm keys).mem_iff
  generalize hposition : (descending keys).findIdx (·<key)=position
  have hfront : ∀ other ∈ (descending keys).take position, key<other := by
    intro other ho
    obtain ⟨i,hi,rfl⟩ := List.mem_iff_getElem.mp ho
    rw [List.length_take] at hi
    rw [List.getElem_take]
    have hbefore : i<(descending keys).findIdx (·<key) := by omega
    have hnot := List.not_of_lt_findIdx hbefore
    have hne : (descending keys)[i]≠key := fun he =>
      hkey ((hmem key).mp (he ▸ List.getElem_mem _))
    exact lt_of_le_of_ne (not_lt.mp (of_decide_eq_false (by simpa using hnot))) hne.symm
  have hback : ∀ other ∈ (descending keys).drop position, other<key := by
    intro other ho
    obtain ⟨i,hi,rfl⟩ := List.mem_iff_getElem.mp ho
    rw [List.length_drop] at hi
    rw [List.getElem_drop]
    have hlt : (descending keys).findIdx (·<key)<(descending keys).length := by omega
    have hfound := List.findIdx_getElem (w:=hlt)
    simp only [hposition,decide_eq_true_eq] at hfound
    rcases Nat.eq_zero_or_pos i with rfl | hi
    · exact hfound
    · exact (List.pairwise_iff_getElem.mp hs position (position+i) _ _ (by omega)).trans hfound
  have hsplit := List.take_append_drop position (descending keys)
  refine descending_unique (List.pairwise_append.mpr ⟨?_,List.pairwise_cons.mpr ⟨?_,?_⟩,?_⟩) ?_
  · exact (hs.sublist (List.take_sublist _ _)).imp le_of_lt
  · exact fun other ho => (hback other ho).le
  · exact (hs.sublist (List.drop_sublist _ _)).imp le_of_lt
  · intro a ha b hb
    rcases List.mem_cons.mp hb with rfl | hb
    · exact (hfront a ha).le
    · exact ((hback b hb).trans (hfront a ha)).le
  · refine List.perm_middle.trans ?_
    rw [hsplit]
    exact ((descending_perm keys).cons key).trans (List.perm_append_singleton key keys).symm

omit [LinearOrder κ] in
theorem insertIdx_split {sorted : List κ} {position : ℕ} (h : position ≤ sorted.length) :
    sorted.insertIdx position key=sorted.take position++key::sorted.drop position := by
  induction sorted generalizing position with
  | nil =>
    obtain rfl := Nat.le_zero.mp h
    rfl
  | cons first sorted ih =>
    cases position with
    | zero => rfl
    | succ position =>
      rw [List.insertIdx_succ_cons,ih (Nat.le_of_succ_le_succ h)]
      rfl

theorem keep_descending {bound : ℕ} (hn : keys.Nodup) (hkey : key ∉ keys) :
    keep id bound ((descending keys).take bound) key=(descending (keys++[key])).take bound := by
  rw [descending_insert hn hkey]
  generalize descending keys=sorted
  unfold keep
  dsimp only [id]
  rw [List.findIdx_take]
  have hposition : sorted.findIdx (·<key) ≤ sorted.length := List.findIdx_le_length
  generalize sorted.findIdx (·<key)=position at hposition ⊢
  by_cases hlt : min bound position<bound
  · have hroom : (if (sorted.take bound).length=bound then (sorted.take bound).dropLast
        else sorted.take bound)=sorted.take (bound-1) := by
      rw [List.length_take]
      split
      · rw [List.dropLast_eq_take,List.take_take,List.length_take]
        congr 1
        omega
      · rw [List.take_of_length_le (by omega),List.take_of_length_le (by omega)]
    rw [if_pos hlt,hroom,Nat.min_eq_right (by omega)]
    rw [insertIdx_split (by rw [List.length_take]; omega),List.take_take,List.drop_take,
      Nat.min_eq_left (by omega),List.take_append,List.length_take,
      Nat.min_eq_left hposition,List.take_take,Nat.min_eq_right (by omega)]
    congr 1
    obtain ⟨room,hroom⟩ : ∃ room, bound-position=room+1 := ⟨bound-position-1,by omega⟩
    rw [hroom,List.take_succ_cons]
    congr 2
    omega
  · rw [if_neg hlt,List.take_append,List.take_take,List.length_take]
    have hzero : bound-min position sorted.length=0 := by omega
    rw [hzero,List.take_zero,List.append_nil,Nat.min_eq_left (by omega)]

/-- The kept keys are those of the kept elements. -/
theorem map_keep (bound : ℕ) (selected : List α) (a : α) :
    (keep keyOf bound selected a).map keyOf=keep id bound (selected.map keyOf) (keyOf a) := by
  have hposition : (selected.map keyOf).findIdx (fun other => id other < id (keyOf a))=
      selected.findIdx fun other => keyOf other<keyOf a := List.findIdx_map _ _ _
  unfold keep
  dsimp only
  rw [hposition,List.length_map]
  split_ifs
  · rw [List.map_insertIdx,List.map_dropLast]
  · rw [List.map_insertIdx]
  · rfl

theorem foldl_keep (bound : ℕ) {rows : List α} (hn : (rows.map keyOf).Nodup) :
    (rows.foldl (keep keyOf bound) []).map keyOf=(descending (rows.map keyOf)).take bound := by
  induction rows using List.reverseRecOn with
  | nil => exact List.take_nil.symm
  | append_singleton rows a ih =>
    rw [List.map_append] at hn ⊢
    have hparts := List.nodup_append.mp hn
    have hkey : keyOf a ∉ rows.map keyOf := fun hk =>
      hparts.2.2 (keyOf a) hk (keyOf a) List.mem_cons_self rfl
    rw [List.foldl_append,List.foldl_cons,List.foldl_nil,map_keep,ih hparts.1]
    exact keep_descending hparts.1 hkey

end Librairii.DescendingWindows
