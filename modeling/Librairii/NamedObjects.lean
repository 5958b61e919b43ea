import Mathlib

/-!
# Names bound to objects

A folder binds names to the identities of objects. Objects keep their content
whatever their names, and a new object has an identity never used before. The
operations are those of a directory: create, remove, exchange, rename and link
names, and rewrite the content of one object.
-/

namespace Librairii.NamedObjects

variable {κ β : Type} [DecidableEq κ]

/-- Names bound to objects with contents in `β`. -/
structure Folder (κ β : Type) [DecidableEq κ] where
  /-- The identity each name is bound to. -/
  names : AList (fun _ : κ => ℕ)
  contents : ℕ → β
  /-- Identities from here on were never used. -/
  issued : ℕ
  /-- Every bound identity was issued. -/
  known : ∀ k i, names.lookup k=some i → i < issued

namespace Folder

/-- The identity a name is bound to. -/
def find (d : Folder κ β) (k : κ) : Option ℕ := d.names.lookup k

/-- No names; every object not yet issued reads as `b`. -/
def empty (b : β) : Folder κ β where
  names := ∅
  contents := fun _ => b
  issued := 0
  known := fun k i h => by
    rw [AList.lookup_empty] at h
    cases h

/-- The names in use. -/
def listing (d : Folder κ β) : List κ := d.names.keys

/-- The names bound to one identity. -/
def holders (d : Folder κ β) (i : ℕ) : List κ :=
  (d.names.entries.filter fun e => e.2=i).map Sigma.fst

/-- The number of names of one object. -/
def links (d : Folder κ β) (i : ℕ) : ℕ := (d.holders i).length

/-- The content a name leads to. -/
def read (d : Folder κ β) (k : κ) : Option β := (d.find k).map d.contents

/-- A bound identity was issued. -/
theorem find_lt {d : Folder κ β} {k : κ} {i : ℕ} (h : d.find k=some i) : i<d.issued :=
  d.known k i h

/-- A name is in use exactly when it is bound. -/
theorem mem_listing {d : Folder κ β} {k : κ} : k ∈ d.listing ↔ d.find k≠none := by
  unfold listing find
  rw [← AList.mem_keys,Ne,AList.lookup_eq_none,not_not]

/-- The names of an object are those bound to it. -/
theorem mem_holders {d : Folder κ β} {i : ℕ} {k : κ} : k ∈ d.holders i ↔ d.find k=some i := by
  unfold holders find
  rw [List.mem_map]
  constructor
  · rintro ⟨⟨k',j⟩,he,rfl⟩
    obtain ⟨he,hj⟩ := List.mem_filter.mp he
    rw [decide_eq_true_eq] at hj
    rw [← hj]
    exact AList.mem_lookup_iff.mpr he
  · intro h
    exact ⟨⟨k,i⟩,List.mem_filter.mpr ⟨AList.mem_lookup_iff.mp h,decide_eq_true rfl⟩,rfl⟩

/-- No name of an object is counted twice. -/
theorem nodup_holders (d : Folder κ β) (i : ℕ) : (d.holders i).Nodup :=
  (List.filter_sublist.map Sigma.fst).nodup d.names.keys_nodup

theorem links_eq_zero {d : Folder κ β} {i : ℕ} : d.links i=0 ↔ ∀ k, d.find k≠some i := by
  unfold links
  rw [List.length_eq_zero_iff,List.eq_nil_iff_forall_not_mem]
  exact forall_congr' fun k => not_congr mem_holders

/-- A named object has one name exactly when no other name is bound to it. -/
theorem links_eq_one {d : Folder κ β} {i : ℕ} {k : κ} (hk : d.find k=some i) :
    d.links i=1 ↔ ∀ k', d.find k'=some i → k'=k := by
  have hmem := mem_holders.mpr hk
  unfold links
  constructor
  · intro h k' hk'
    obtain ⟨only,honly⟩ := List.length_eq_one_iff.mp h
    have hk'' := mem_holders.mpr hk'
    rw [honly,List.mem_singleton] at hmem hk''
    rw [hk'',hmem]
  · intro h
    have hall : d.holders i=[k] := by
      have hnodup := nodup_holders d i
      cases hh : d.holders i with
      | nil => rw [hh] at hmem; exact absurd hmem List.not_mem_nil
      | cons a rest =>
        have ha : a=k := h a (mem_holders.mp (hh ▸ List.mem_cons_self))
        cases rest with
        | nil => rw [ha]
        | cons b rest =>
          have hb : b=k := h b (mem_holders.mp (hh ▸ List.mem_cons_of_mem _ List.mem_cons_self))
          rw [hh,ha,hb] at hnodup
          exact absurd List.mem_cons_self (List.nodup_cons.mp hnodup).1
    rw [hall]
    rfl

/-- Bind a name to a new object, replacing what it was bound to. -/
def create (d : Folder κ β) (k : κ) (b : β) : Folder κ β where
  names := d.names.insert k d.issued
  contents := Function.update d.contents d.issued b
  issued := d.issued+1
  known := by
    intro k' i h
    by_cases hk : k'=k
    · rw [hk,AList.lookup_insert] at h
      cases h
      exact Nat.lt_succ_self _
    · rw [AList.lookup_insert_ne hk] at h
      exact Nat.lt_succ_of_lt (d.known k' i h)

def remove (d : Folder κ β) (k : κ) : Folder κ β where
  names := d.names.erase k
  contents := d.contents
  issued := d.issued
  known := by
    intro k' i h
    by_cases hk : k'=k
    · rw [hk,AList.lookup_erase] at h
      cases h
    · rw [AList.lookup_erase_ne hk] at h
      exact d.known k' i h

/-- Bind a name to an object that exists, replacing what it was bound to. -/
def assign (d : Folder κ β) (k : κ) (i : ℕ) (hi : i<d.issued) : Folder κ β where
  names := d.names.insert k i
  contents := d.contents
  issued := d.issued
  known := by
    intro k' j h
    by_cases hk : k'=k
    · rw [hk,AList.lookup_insert] at h
      cases h
      exact hi
    · rw [AList.lookup_insert_ne hk] at h
      exact d.known k' j h

@[simp] theorem issued_remove (d : Folder κ β) (k : κ) : (d.remove k).issued=d.issued := rfl

@[simp] theorem issued_assign (d : Folder κ β) (k : κ) (i : ℕ) (hi : i<d.issued) :
    (d.assign k i hi).issued=d.issued := rfl

/-- Give the object of the first name the second name as well. -/
def link (d : Folder κ β) (a b : κ) : Folder κ β :=
  match h : d.find a with
  | none => d
  | some i => d.assign b i (find_lt h)

/-- Move the first name to the second. -/
def rename (d : Folder κ β) (a b : κ) : Folder κ β :=
  match h : d.find a with
  | none => d
  | some i => (d.remove a).assign b i (by rw [issued_remove]; exact find_lt h)

def exchange (d : Folder κ β) (a b : κ) : Folder κ β :=
  match ha : d.find a,hb : d.find b with
  | some i,some j =>
      (d.assign b i (find_lt ha)).assign a j (by rw [issued_assign]; exact find_lt hb)
  | _,_ => d

/-- Replace the content of one object. -/
def write (d : Folder κ β) (i : ℕ) (b : β) : Folder κ β :=
  { d with contents := Function.update d.contents i b }

@[simp] theorem find_create (d : Folder κ β) (k k' : κ) (b : β) :
    (d.create k b).find k'=if k'=k then some d.issued else d.find k' := by
  unfold find create
  split_ifs with h
  · rw [h,AList.lookup_insert]
  · rw [AList.lookup_insert_ne h]

@[simp] theorem find_remove (d : Folder κ β) (k k' : κ) :
    (d.remove k).find k'=if k'=k then none else d.find k' := by
  unfold find remove
  split_ifs with h
  · rw [h,AList.lookup_erase]
  · rw [AList.lookup_erase_ne h]

@[simp] theorem find_assign (d : Folder κ β) (k k' : κ) (i : ℕ) (hi : i<d.issued) :
    (d.assign k i hi).find k'=if k'=k then some i else d.find k' := by
  unfold find assign
  split_ifs with h
  · rw [h,AList.lookup_insert]
  · rw [AList.lookup_insert_ne h]

@[simp] theorem find_write (d : Folder κ β) (i : ℕ) (b : β) (k : κ) :
    (d.write i b).find k=d.find k := rfl

theorem find_rename {d : Folder κ β} {a b : κ} {i : ℕ} (h : d.find a=some i) (k : κ) :
    (d.rename a b).find k=if k=b then some i else if k=a then none else d.find k := by
  unfold rename
  split
  · rename_i hn
    rw [h] at hn
    cases hn
  · rename_i j hj
    rw [h] at hj
    cases hj
    rw [find_assign,find_remove]

theorem find_exchange {d : Folder κ β} {a b : κ} {i j : ℕ} (ha : d.find a=some i)
    (hb : d.find b=some j) (k : κ) :
    (d.exchange a b).find k=if k=a then some j else if k=b then some i else d.find k := by
  unfold exchange
  split
  · rename_i i' j' hi hj
    rw [ha] at hi
    rw [hb] at hj
    cases hi
    cases hj
    rw [find_assign,find_assign]
  · rename_i hno
    exact (hno i j ha hb).elim

@[simp] theorem contents_create (d : Folder κ β) (k : κ) (b : β) :
    (d.create k b).contents=Function.update d.contents d.issued b := rfl

@[simp] theorem contents_remove (d : Folder κ β) (k : κ) : (d.remove k).contents=d.contents := rfl

@[simp] theorem contents_write (d : Folder κ β) (i : ℕ) (b : β) :
    (d.write i b).contents=Function.update d.contents i b := rfl

@[simp] theorem contents_link (d : Folder κ β) (a b : κ) : (d.link a b).contents=d.contents := by
  unfold link
  split <;> rfl

@[simp] theorem contents_rename (d : Folder κ β) (a b : κ) :
    (d.rename a b).contents=d.contents := by
  unfold rename
  split <;> rfl

@[simp] theorem contents_exchange (d : Folder κ β) (a b : κ) :
    (d.exchange a b).contents=d.contents := by
  unfold exchange
  split <;> rfl

@[simp] theorem issued_create (d : Folder κ β) (k : κ) (b : β) :
    (d.create k b).issued=d.issued+1 := rfl

@[simp] theorem issued_write (d : Folder κ β) (i : ℕ) (b : β) : (d.write i b).issued=d.issued := rfl

@[simp] theorem issued_rename (d : Folder κ β) (a b : κ) : (d.rename a b).issued=d.issued := by
  unfold rename
  split <;> rfl

@[simp] theorem issued_exchange (d : Folder κ β) (a b : κ) : (d.exchange a b).issued=d.issued := by
  unfold exchange
  split <;> rfl

/-- No object has two names. -/
def Single (d : Folder κ β) : Prop :=
  ∀ k k' i, d.find k=some i → d.find k'=some i → k=k'

theorem Single.links {d : Folder κ β} (h : d.Single) {k : κ} {i : ℕ} (hk : d.find k=some i) :
    d.links i=1 :=
  (links_eq_one hk).mpr fun k' hk' => h k' k i hk' hk

/-- A new object gets one name. -/
theorem Single.create {d : Folder κ β} (h : d.Single) (k : κ) (b : β) : (d.create k b).Single := by
  intro a a' i ha ha'
  rw [find_create] at ha ha'
  by_cases hka : a=k
  · by_cases hka' : a'=k
    · rw [hka,hka']
    · rw [if_pos hka] at ha
      rw [if_neg hka'] at ha'
      cases ha
      exact absurd (find_lt ha') (lt_irrefl _)
  · rw [if_neg hka] at ha
    by_cases hka' : a'=k
    · rw [if_pos hka'] at ha'
      cases ha'
      exact absurd (find_lt ha) (lt_irrefl _)
    · rw [if_neg hka'] at ha'
      exact h a a' i ha ha'

/-- Removing a name gives no object another one. -/
theorem Single.remove {d : Folder κ β} (h : d.Single) (k : κ) : (d.remove k).Single := by
  intro a a' i ha ha'
  rw [find_remove] at ha ha'
  split_ifs at ha ha'
  exact h a a' i ha ha'

/-- A renamed object keeps having one name. -/
theorem Single.rename {d : Folder κ β} (h : d.Single) (a b : κ) : (d.rename a b).Single := by
  cases hi : d.find a with
  | none =>
    unfold Folder.rename
    split
    · exact h
    · next j hj => rw [hi] at hj; cases hj
  | some i =>
    intro k k' j hk hk'
    rw [find_rename hi] at hk hk'
    split_ifs at hk hk' with h1 h2 h3 h4 h5
    · rw [h1,h2]
    · cases hk
      exact absurd (h k' a _ hk' hi) h3
    · cases hk'
      exact absurd (h k a _ hk hi) h4
    · exact h k k' j hk hk'

/-- Exchanged objects keep having one name each. -/
theorem Single.exchange {d : Folder κ β} (h : d.Single) (a b : κ) : (d.exchange a b).Single := by
  cases hi : d.find a with
  | none =>
    unfold Folder.exchange
    split
    · next i j hi' _ => rw [hi] at hi'; cases hi'
    · exact h
  | some i =>
    cases hj : d.find b with
    | none =>
      unfold Folder.exchange
      split
      · next i j _ hj' => rw [hj] at hj'; cases hj'
      · exact h
    | some j =>
      intro k k' x hk hk'
      have hto : ∀ m, (if m=a then some j else if m=b then some i else d.find m)=
          d.find (if m=a then b else if m=b then a else m) := by
        intro m
        split_ifs
        · exact hj.symm
        · exact hi.symm
        · rfl
      rw [find_exchange hi hj,hto] at hk hk'
      have hsame := h _ _ x hk hk'
      split_ifs at hsame with h1 h2 h3 h4 h5 h6 h7
      all_goals grind

end Folder

end Librairii.NamedObjects
