import Librairii.JsonText

/-!
# JSON values with ordered maps

A value tree keeps every object as a map ordered by its keys, so converting an
object sorts its members and serializing it writes them in key order. Inserting
replaces the member of an equal key.
-/

namespace Librairii.JsonValues

open JsonText

section Maps

variable {κ ν : Type} [LinearOrder κ]

def insertKey (key : κ) (value : ν) : List (κ×ν) → List (κ×ν)
  | [] => [(key,value)]
  | (k,v)::rest =>
    if key<k then (key,value)::(k,v)::rest
    else if key=k then (key,value)::rest
    else (k,v)::insertKey key value rest

/-- The map of a list of members, each inserted after those before it. -/
def mapOf (entries : List (κ×ν)) : List (κ×ν) :=
  entries.foldl (fun map entry => insertKey entry.1 entry.2 map) []

/-- The keys of a map strictly increase. -/
def Ordered (map : List (κ×ν)) : Prop := map.Pairwise fun a b => a.1<b.1

theorem mem_insertKey {key : κ} {value : ν} {map : List (κ×ν)} (ho : Ordered map)
    (entry : κ×ν) : entry ∈ insertKey key value map ↔
      entry=(key,value) ∨ entry ∈ map ∧ entry.1≠key := by
  induction map with
  | nil =>
    simp only [insertKey,List.mem_singleton,List.not_mem_nil,false_and,or_false]
  | cons first rest ih =>
    obtain ⟨k,v⟩ := first
    obtain ⟨hfirst,hrest⟩ := List.pairwise_cons.mp ho
    by_cases hlt : key<k
    · rw [insertKey,if_pos hlt,List.mem_cons]
      constructor
      · rintro (h | h)
        · exact .inl h
        · refine .inr ⟨h,?_⟩
          rcases List.mem_cons.mp h with rfl | hm
          · exact ne_of_gt hlt
          · exact ne_of_gt (lt_trans hlt (hfirst entry hm))
      · rintro (h | h)
        · exact .inl h
        · exact .inr h.1
    · rw [insertKey,if_neg hlt]
      by_cases heq : key=k
      · rw [if_pos heq,List.mem_cons,List.mem_cons]
        constructor
        · rintro (h | h)
          · exact .inl h
          · exact .inr ⟨.inr h,by rw [heq]; exact ne_of_gt (hfirst entry h)⟩
        · rintro (h | ⟨rfl | h,hne⟩)
          · exact .inl h
          · exact absurd heq.symm hne
          · exact .inr h
      · rw [if_neg heq,List.mem_cons,List.mem_cons,ih hrest]
        constructor
        · rintro (rfl | h | h)
          · exact .inr ⟨.inl rfl,fun he => heq he.symm⟩
          · exact .inl h
          · exact .inr ⟨.inr h.1,h.2⟩
        · rintro (h | ⟨h | h,hne⟩)
          · exact .inr (.inl h)
          · exact .inl h
          · exact .inr (.inr ⟨h,hne⟩)

theorem ordered_insertKey {key : κ} {value : ν} {map : List (κ×ν)} (ho : Ordered map) :
    Ordered (insertKey key value map) := by
  induction map with
  | nil => exact List.pairwise_singleton _ _
  | cons first rest ih =>
    obtain ⟨k,v⟩ := first
    obtain ⟨hfirst,hrest⟩ := List.pairwise_cons.mp ho
    by_cases hlt : key<k
    · rw [insertKey,if_pos hlt]
      refine List.pairwise_cons.mpr ⟨?_,ho⟩
      intro entry hm
      rcases List.mem_cons.mp hm with rfl | hm
      · exact hlt
      · exact lt_trans hlt (hfirst entry hm)
    · rw [insertKey,if_neg hlt]
      by_cases heq : key=k
      · rw [if_pos heq]
        refine List.pairwise_cons.mpr ⟨?_,hrest⟩
        intro entry hm
        rw [heq]
        exact hfirst entry hm
      · rw [if_neg heq]
        refine List.pairwise_cons.mpr ⟨?_,ih hrest⟩
        intro entry hm
        rcases (mem_insertKey hrest entry).mp hm with rfl | hm
        · exact lt_of_le_of_ne (not_lt.mp hlt) fun he => heq he.symm
        · exact hfirst entry hm.1

theorem Ordered.ext {a b : List (κ×ν)} (ha : Ordered a) (hb : Ordered b)
    (h : ∀ entry, entry ∈ a ↔ entry ∈ b) : a=b := by
  have hi : Std.Irrefl fun x y : κ×ν => x.1<y.1 := ⟨fun x => lt_irrefl x.1⟩
  have hs : Std.Asymm fun x y : κ×ν => x.1<y.1 := ⟨fun x y => lt_asymm⟩
  exact List.Pairwise.eq_of_mem_iff ha hb h

theorem fold_insertKey {rest : List (κ×ν)} (hn : (rest.map Prod.fst).Nodup)
    {seen : List (κ×ν)} (ho : Ordered seen) (hnew : ∀ a ∈ seen, ∀ b ∈ rest, a.1≠b.1) :
    Ordered (rest.foldl (fun map entry => insertKey entry.1 entry.2 map) seen) ∧
      ∀ entry, entry ∈ rest.foldl (fun map entry => insertKey entry.1 entry.2 map) seen ↔
        entry ∈ seen ∨ entry ∈ rest := by
  induction rest generalizing seen with
  | nil =>
    refine ⟨ho,fun entry => ?_⟩
    simp only [List.foldl_nil,List.not_mem_nil,or_false]
  | cons first rest ih =>
    rw [List.map_cons,List.nodup_cons] at hn
    have hfirst : ∀ a ∈ seen, a.1≠first.1 := fun a ha => hnew a ha first List.mem_cons_self
    have hmem : ∀ entry, entry ∈ insertKey first.1 first.2 seen ↔
        entry=first ∨ entry ∈ seen := by
      intro entry
      rw [mem_insertKey ho]
      constructor
      · rintro (h | h)
        · exact .inl h
        · exact .inr h.1
      · rintro (h | h)
        · exact .inl h
        · exact .inr ⟨h,hfirst entry h⟩
    have hnew' : ∀ a ∈ insertKey first.1 first.2 seen, ∀ b ∈ rest, a.1≠b.1 := by
      intro a ha b hb
      rcases (hmem a).mp ha with rfl | ha
      · intro he
        exact hn.1 (he ▸ List.mem_map_of_mem hb)
      · exact hnew a ha b (List.mem_cons_of_mem _ hb)
    obtain ⟨hordered,hall⟩ := ih hn.2 (ordered_insertKey ho) hnew'
    refine ⟨hordered,fun entry => ?_⟩
    rw [List.foldl_cons,hall,hmem,List.mem_cons,or_left_comm,or_assoc]

theorem mapOf_eq {entries map : List (κ×ν)} (hn : (entries.map Prod.fst).Nodup)
    (ho : Ordered map) (h : ∀ entry, entry ∈ map ↔ entry ∈ entries) : mapOf entries=map := by
  have hnew : ∀ a ∈ ([] : List (κ×ν)), ∀ b ∈ entries, a.1≠b.1 :=
    fun a ha => absurd ha List.not_mem_nil
  obtain ⟨hordered,hall⟩ := fold_insertKey hn List.Pairwise.nil hnew
  apply Ordered.ext hordered ho
  intro entry
  rw [hall,h]
  simp only [List.not_mem_nil,false_or]

theorem mem_mapOf {entries : List (κ×ν)} {entry : κ×ν} (h : entry ∈ mapOf entries) :
    entry ∈ entries := by
  have hinsert : ∀ (map : List (κ×ν)) (key : κ) (value : ν),
      entry ∈ insertKey key value map → entry=(key,value) ∨ entry ∈ map := by
    intro map key value
    induction map with
    | nil => exact fun hm => .inl (List.mem_singleton.mp hm)
    | cons first rest ih =>
      obtain ⟨k,v⟩ := first
      intro hm
      rw [insertKey] at hm
      split_ifs at hm with hlt heq
      · exact List.mem_cons.mp hm
      · rcases List.mem_cons.mp hm with hm | hm
        · exact .inl hm
        · exact .inr (List.mem_cons_of_mem _ hm)
      · rcases List.mem_cons.mp hm with hm | hm
        · exact .inr (hm ▸ List.mem_cons_self)
        · rcases ih hm with hm | hm
          · exact .inl hm
          · exact .inr (List.mem_cons_of_mem _ hm)
  have hfold : ∀ (rest seen : List (κ×ν)),
      entry ∈ rest.foldl (fun map entry => insertKey entry.1 entry.2 map) seen →
        entry ∈ seen ∨ entry ∈ rest := by
    intro rest
    induction rest with
    | nil => exact fun seen hm => .inl hm
    | cons first rest ih =>
      intro seen hm
      rcases ih _ hm with hm | hm
      · rcases hinsert _ _ _ hm with hm | hm
        · exact .inr (hm ▸ List.mem_cons_self)
        · exact .inl hm
      · exact .inr (List.mem_cons_of_mem _ hm)
  rcases hfold entries [] h with hm | hm
  · exact absurd hm List.not_mem_nil
  · exact hm

theorem ordered_of_sublist {entries : List (κ×ν)} {keys : List κ}
    (hk : keys.Pairwise (·<·)) (hs : (entries.map Prod.fst).Sublist keys) :
    Ordered entries := List.pairwise_map.mp (hk.sublist hs)

end Maps

mutual

def toValue : Json → Json
  | .array values => .array (toValues values)
  | .object members => .object (mapOf (toMembers members))
  | .null => .null
  | .bool value => .bool value
  | .number value => .number value
  | .string value => .string value

/-- The value trees of the elements. -/
def toValues : List Json → List Json
  | [] => []
  | value::values => toValue value::toValues values

/-- The value trees of the members, in the order they are written. -/
def toMembers : List (String×Json) → List (String×Json)
  | [] => []
  | (key,value)::members => (key,toValue value)::toMembers members

end

mutual

/-- A value tree: every object is ordered and every number fits a machine word. -/
def ValueForm : Json → Prop
  | .number value => -2^63≤value ∧ value<2^64
  | .array values => ValueForms values
  | .object members => Ordered members ∧ ValueMembers members
  | _ => True

def ValueForms : List Json → Prop
  | [] => True
  | value::values => ValueForm value ∧ ValueForms values

def ValueMembers : List (String×Json) → Prop
  | [] => True
  | (_,value)::members => ValueForm value ∧ ValueMembers members

end

theorem toMembers_append (a b : List (String×Json)) :
    toMembers (a++b)=toMembers a++toMembers b := by
  induction a with
  | nil => rfl
  | cons entry a ih =>
    obtain ⟨key,value⟩ := entry
    rw [List.cons_append,toMembers,ih,toMembers,List.cons_append]

theorem toValues_map {α : Type} (f : α → Json) (xs : List α) :
    toValues (xs.map f)=xs.map fun x => toValue (f x) := by
  induction xs with
  | nil => rfl
  | cons x xs ih => rw [List.map_cons,toValues,ih,List.map_cons]

theorem valueForms_map {α : Type} {f : α → Json} (h : ∀ x, ValueForm (f x)) (xs : List α) :
    ValueForms (xs.map f) := by
  induction xs with
  | nil => trivial
  | cons x xs ih => exact ⟨h x,ih⟩

theorem valueMembers_append (a b : List (String×Json)) :
    ValueMembers (a++b) ↔ ValueMembers a ∧ ValueMembers b := by
  induction a with
  | nil => exact ⟨fun h => ⟨trivial,h⟩,fun h => h.2⟩
  | cons entry a ih =>
    obtain ⟨key,value⟩ := entry
    rw [List.cons_append,ValueMembers,ValueMembers,ih,and_assoc]

theorem heightMembers_le {members : List (String×Json)} {n : ℕ} :
    heightMembers members≤n ↔ ∀ entry ∈ members, height entry.2+1≤n := by
  induction members with
  | nil => exact ⟨fun _ _ hm => absurd hm List.not_mem_nil,fun _ => Nat.zero_le _⟩
  | cons entry members ih =>
    obtain ⟨key,value⟩ := entry
    rw [heightMembers,Nat.max_le,ih,List.forall_mem_cons]

mutual

theorem toValue_valueForm : ∀ j : Json, ValueForm j → toValue j=j
  | .array values,h => congrArg Json.array (toValues_valueForms values h)
  | .object members,h => by
    have hn : (members.map Prod.fst).Nodup :=
      List.pairwise_map.mpr (h.1.imp fun hlt => ne_of_lt hlt)
    rw [toValue,toMembers_valueMembers members h.2,mapOf_eq hn h.1 fun _ => Iff.rfl]
  | .null,_ => rfl
  | .bool _,_ => rfl
  | .number _,_ => rfl
  | .string _,_ => rfl

theorem toValues_valueForms : ∀ values : List Json, ValueForms values → toValues values=values
  | [],_ => rfl
  | value::values,h => by
    rw [toValues,toValue_valueForm value h.1,toValues_valueForms values h.2]

theorem toMembers_valueMembers : ∀ members : List (String×Json), ValueMembers members →
    toMembers members=members
  | [],_ => rfl
  | (_,value)::members,h => by
    rw [toMembers,toValue_valueForm value h.1,toMembers_valueMembers members h.2]

end

mutual

theorem height_toValue : ∀ j : Json, height (toValue j)≤height j
  | .array values => heightElements_toValues values
  | .object members => by
    have hm := heightMembers_toMembers members
    rw [heightMembers_le] at hm
    rw [toValue,height,height,heightMembers_le]
    exact fun entry he => hm entry (mem_mapOf he)
  | .null => Nat.le_refl _
  | .bool _ => Nat.le_refl _
  | .number _ => Nat.le_refl _
  | .string _ => Nat.le_refl _

theorem heightElements_toValues : ∀ values : List Json,
    heightElements (toValues values)≤heightElements values
  | [] => Nat.le_refl _
  | value::values => by
    have hfirst := height_toValue value
    have hrest := heightElements_toValues values
    rw [toValues,heightElements,heightElements]
    omega

theorem heightMembers_toMembers : ∀ members : List (String×Json),
    heightMembers (toMembers members)≤heightMembers members
  | [] => Nat.le_refl _
  | (key,value)::members => by
    have hfirst := height_toValue value
    have hrest := heightMembers_toMembers members
    rw [toMembers,heightMembers,heightMembers]
    omega

end

end Librairii.JsonValues
