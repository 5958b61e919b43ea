import Librairii.SavedQuery

/-!
# The canonical tree of a saved query

The canonical tree drops the ignored filters of every node and sorts its sets and
filters. It is a fixed point: its fields are normalized, sorted and within the limits
of the fields they come from.
-/

namespace Librairii.CanonicalQuery

open CheckedResults WireParser SavedQuery

section SortedSets

variable {α : Type} [LinearOrder α]

/-- The members of a list in increasing order, each once. -/
def sortedSet (values : List α) : List α := values.toFinset.sort (·≤·)

theorem mem_sortedSet {values : List α} {a : α} : a ∈ sortedSet values ↔ a ∈ values := by
  rw [sortedSet,Finset.mem_sort,List.mem_toFinset]

theorem sortedSet_self {values : List α} (hn : values.Nodup) (hs : values.Pairwise (·≤·)) :
    sortedSet values=values := (List.toFinset_sort (·≤·) hn).mpr hs

theorem sortedSet_congr {values others : List α} (h : ∀ a, a ∈ values ↔ a ∈ others) :
    sortedSet values=sortedSet others := by
  have he : values.toFinset=others.toFinset := by
    ext a
    rw [List.mem_toFinset,List.mem_toFinset]
    exact h a
  rw [sortedSet,sortedSet,he]

theorem sortedSet_idem (values : List α) : sortedSet (sortedSet values)=sortedSet values :=
  sortedSet_congr fun _ => mem_sortedSet

theorem length_sortedSet (values : List α) : (sortedSet values).length≤values.length := by
  have h := List.toFinset_card_le values
  rw [sortedSet,Finset.length_sort]
  exact h

theorem sortedSet_nil {values : List α} : sortedSet values=[] ↔ values=[] := by
  rw [List.eq_nil_iff_forall_not_mem,List.eq_nil_iff_forall_not_mem]
  simp only [mem_sortedSet]

/-- Removing adjacent repetitions keeps the members. -/
theorem mem_dedup (values : List α) (a : α) : a ∈ dedup values ↔ a ∈ values := by
  induction values using dedup.induct with
  | case1 => rfl
  | case2 b => rfl
  | case3 b rest ih =>
    rw [dedup,if_pos rfl,ih]
    simp only [List.mem_cons,or_self_left]
  | case4 b c rest hne ih =>
    rw [dedup,if_neg hne,List.mem_cons,ih]
    exact List.mem_cons.symm

/-- In a sorted list no repetition survives the removal of adjacent ones. -/
theorem dedup_nodup {values : List α} (hs : values.Pairwise (·≤·)) : (dedup values).Nodup := by
  induction values using dedup.induct with
  | case1 => exact List.nodup_nil
  | case2 b => exact List.nodup_singleton b
  | case3 b rest ih =>
    rw [dedup,if_pos rfl]
    exact ih (List.pairwise_cons.mp hs).2
  | case4 b c rest hne ih =>
    rw [dedup,if_neg hne,List.nodup_cons,mem_dedup]
    obtain ⟨hb,hrest⟩ := List.pairwise_cons.mp hs
    refine ⟨?_,ih hrest⟩
    intro hm
    have hbc := hb c List.mem_cons_self
    rcases List.mem_cons.mp hm with rfl | hm
    · exact hne rfl
    · have hcb := (List.pairwise_cons.mp hrest).1 b hm
      exact hne (le_antisymm hbc hcb)

/-- Removing adjacent repetitions from a sorted list keeps it sorted. -/
theorem dedup_pairwise {values : List α} (hs : values.Pairwise (·≤·)) :
    (dedup values).Pairwise (·≤·) := by
  induction values using dedup.induct with
  | case1 => exact List.Pairwise.nil
  | case2 b => exact List.pairwise_singleton _ b
  | case3 b rest ih =>
    rw [dedup,if_pos rfl]
    exact ih (List.pairwise_cons.mp hs).2
  | case4 b c rest hne ih =>
    rw [dedup,if_neg hne,List.pairwise_cons]
    obtain ⟨hb,hrest⟩ := List.pairwise_cons.mp hs
    exact ⟨fun a ha => hb a ((mem_dedup _ a).mp ha),ih hrest⟩

theorem dedup_sort (values : List α) : dedup (values.insertionSort (·≤·))=sortedSet values := by
  have hs := List.pairwise_insertionSort (·≤·) values
  rw [←sortedSet_self (dedup_nodup hs) (dedup_pairwise hs)]
  exact sortedSet_congr fun a => (mem_dedup _ a).trans (List.mem_insertionSort _)

theorem mem_retainFirst (seen values : List α) (a : α) :
    a ∈ retainFirst seen values ↔ a ∈ values ∧ a ∉ seen := by
  induction values generalizing seen with
  | nil =>
    simp only [retainFirst,List.not_mem_nil,false_and]
  | cons b rest ih =>
    by_cases hb : b ∈ seen
    · rw [retainFirst,if_pos hb,ih,List.mem_cons]
      constructor
      · exact fun h => ⟨.inr h.1,h.2⟩
      · rintro ⟨rfl | ha,hs⟩
        · exact absurd hb hs
        · exact ⟨ha,hs⟩
    · rw [retainFirst,if_neg hb,List.mem_cons,List.mem_cons,ih,List.mem_cons]
      by_cases hab : a=b
      · simp only [hab,true_or,true_and,hb,not_false_eq_true]
      · simp only [hab,false_or]

theorem retainFirst_nodup (seen values : List α) : (retainFirst seen values).Nodup := by
  induction values generalizing seen with
  | nil => exact List.nodup_nil
  | cons b rest ih =>
    by_cases hb : b ∈ seen
    · rw [retainFirst,if_pos hb]
      exact ih seen
    · rw [retainFirst,if_neg hb,List.nodup_cons,mem_retainFirst]
      exact ⟨fun h => h.2 List.mem_cons_self,ih (b::seen)⟩

theorem retainFirst_sort (values : List α) :
    (retainFirst [] values).insertionSort (·≤·)=sortedSet values := by
  have hn : ((retainFirst [] values).insertionSort (·≤·)).Nodup :=
    (List.perm_insertionSort _ _).nodup_iff.mpr (retainFirst_nodup [] values)
  rw [←sortedSet_self hn (List.pairwise_insertionSort _ _)]
  apply sortedSet_congr
  intro a
  rw [List.mem_insertionSort,mem_retainFirst]
  exact and_iff_left List.not_mem_nil

theorem retainFirst_self {values : List α} (hn : values.Nodup) {seen : List α}
    (hs : ∀ a ∈ values, a ∉ seen) : retainFirst seen values=values := by
  induction values generalizing seen with
  | nil => rfl
  | cons b rest ih =>
    obtain ⟨hb,hrest⟩ := List.nodup_cons.mp hn
    rw [retainFirst,if_neg (hs b List.mem_cons_self)]
    have hnew : ∀ a ∈ rest, a ∉ b::seen := by
      intro a ha hm
      rcases List.mem_cons.mp hm with rfl | hm
      · exact hb ha
      · exact hs a (List.mem_cons_of_mem _ ha) hm
    rw [ih hrest hnew]

end SortedSets

def canonicalChoice (f : ChoiceFilter) : ChoiceFilter :=
  { f with valueIds := sortedSet f.valueIds }

/-- The canonical fields of a node: ignored Boolean filters dropped, filters
sorted by definition, and every set sorted with each element once. -/
def canonicalOwn (own : Membership) : Membership :=
  { own with
    languages := sortedSet own.languages
    compatibilities := sortedSet own.compatibilities
    booleanFilters := (own.booleanFilters.filter fun f => f.state≠"ignored").insertionSort
      fun f g => f.definitionId≤g.definitionId
    choiceFilters := (own.choiceFilters.insertionSort
      fun f g => f.definitionId≤g.definitionId).map canonicalChoice }

mutual

def canonical : Query → Query
  | .node own anyOf => .node (canonicalOwn own) (canonicalBranches anyOf)

def canonicalBranches : List Query → List Query
  | [] => []
  | branch::branches => canonical branch::canonicalBranches branches

end

mutual

/-- The fields of all nodes, in preorder. -/
def members : Query → List Membership
  | .node own anyOf => own::membersOf anyOf

/-- The fields of all nodes of the branches. -/
def membersOf : List Query → List Membership
  | [] => []
  | branch::branches => members branch++membersOf branches

end

/-- The name and the languages of a node are normalized. -/
def Fixed (env : NormalEnv) (own : Membership) : Prop :=
  env.normalize own.name=.ok own.name ∧
    ∀ language ∈ own.languages, env.canonicalLanguage language=.ok language

/-- The limits on a node whose ignored filters are dropped. -/
structure Within (own : Membership) : Prop where
  name : own.name.length≤200
  /-- A node has at most 50 filter groups. -/
  groups : groups own≤50
  /-- A node lists at most 100 languages. -/
  languages : own.languages.length≤100
  /-- A node lists at most three compatibilities. -/
  compatibilities : own.compatibilities.length≤3
  /-- Every compatibility is admitted. -/
  known : ∀ c ∈ own.compatibilities, c ∈ compatibilityNames
  values : ∀ f ∈ own.choiceFilters, f.valueIds.length≤100

def normalChoice (f : ChoiceFilter) : ChoiceFilter :=
  { f with valueIds := retainFirst [] f.valueIds }

/-- The normalized fields of a node with normalized texts. -/
def normalOwn (own : Membership) : Membership :=
  { own with
    languages := sortedSet own.languages
    compatibilities := sortedSet own.compatibilities
    choiceFilters := own.choiceFilters.map normalChoice }

theorem normalizeChoice_ok {f f' : ChoiceFilter} :
    normalizeChoice f=.ok f' ↔ f.valueIds.length≤100 ∧ f'=normalChoice f := by
  unfold normalizeChoice
  by_cases h : 100<f.valueIds.length
  · rw [if_pos h]
    constructor
    · intro he
      cases he
    · intro he
      omega
  · rw [if_neg h]
    constructor
    · intro he
      cases he
      exact ⟨by omega,rfl⟩
    · rintro ⟨-,rfl⟩
      rfl

theorem dropIgnored_canonicalOwn (own : Membership) :
    dropIgnored (canonicalOwn own)=canonicalOwn own := by
  have hb : (canonicalOwn own).booleanFilters.filter (fun f => f.state≠"ignored")=
      (canonicalOwn own).booleanFilters := by
    rw [List.filter_eq_self]
    intro f hf
    have hm := (List.mem_insertionSort _).mp hf
    exact (List.mem_filter.mp hm).2
  rw [dropIgnored,hb]

/-- Sorted choices keep their values once only. -/
theorem normalChoice_canonicalChoice (f : ChoiceFilter) :
    normalChoice (canonicalChoice f)=canonicalChoice f := by
  have hn : (sortedSet f.valueIds).Nodup := Finset.sort_nodup _ _
  have hr : retainFirst [] (sortedSet f.valueIds)=sortedSet f.valueIds :=
    retainFirst_self hn fun _ _ => List.not_mem_nil
  rw [normalChoice,canonicalChoice,hr]

theorem normalOwn_canonicalOwn (own : Membership) :
    normalOwn (canonicalOwn own)=canonicalOwn own := by
  have hc : (canonicalOwn own).choiceFilters.map normalChoice=
      (canonicalOwn own).choiceFilters := by
    rw [canonicalOwn,List.map_map]
    apply List.map_congr_left
    intro f hf
    exact normalChoice_canonicalChoice f
  have hl : sortedSet (canonicalOwn own).languages=(canonicalOwn own).languages :=
    sortedSet_idem own.languages
  have hk : sortedSet (canonicalOwn own).compatibilities=(canonicalOwn own).compatibilities :=
    sortedSet_idem own.compatibilities
  rw [normalOwn,hc,hl,hk]

theorem sortFilters_normalOwn (own : Membership) :
    sortFilters (normalOwn (dropIgnored own))=canonicalOwn own := by
  have hsort : (own.choiceFilters.map normalChoice).insertionSort
      (fun f g => f.definitionId≤g.definitionId)=
      (own.choiceFilters.insertionSort fun f g => f.definitionId≤g.definitionId).map
        normalChoice :=
    (List.map_insertionSort _ _ normalChoice own.choiceFilters fun _ _ _ _ => Iff.rfl).symm
  have hchoice : ∀ f : ChoiceFilter,
      { normalChoice f with valueIds := (normalChoice f).valueIds.insertionSort (·≤·) }=
        canonicalChoice f := by
    intro f
    have hv : (normalChoice f).valueIds.insertionSort (·≤·)=sortedSet f.valueIds :=
      retainFirst_sort f.valueIds
    rw [hv]
    rfl
  have hc : ((normalOwn (dropIgnored own)).choiceFilters.insertionSort
      fun f g => f.definitionId≤g.definitionId).map
        (fun f => { f with valueIds := f.valueIds.insertionSort (·≤·) })=
      (canonicalOwn own).choiceFilters := by
    change ((own.choiceFilters.map normalChoice).insertionSort _).map _=_
    rw [hsort,List.map_map]
    apply List.map_congr_left
    intro f hf
    exact hchoice f
  rw [sortFilters,hc]
  rfl

theorem booleans_sorted (filters : List BooleanFilter) :
    (filters.insertionSort fun f g => f.definitionId≤g.definitionId).Pairwise
      fun f g => f.definitionId≤g.definitionId := by
  have ht : Std.Total fun f g : BooleanFilter => f.definitionId≤g.definitionId :=
    ⟨fun f g => le_total f.definitionId g.definitionId⟩
  have hr : IsTrans BooleanFilter fun f g => f.definitionId≤g.definitionId :=
    ⟨fun f g k => le_trans⟩
  exact List.pairwise_insertionSort _ filters

theorem choices_sorted (filters : List ChoiceFilter) :
    (filters.insertionSort fun f g => f.definitionId≤g.definitionId).Pairwise
      fun f g => f.definitionId≤g.definitionId := by
  have ht : Std.Total fun f g : ChoiceFilter => f.definitionId≤g.definitionId :=
    ⟨fun f g => le_total f.definitionId g.definitionId⟩
  have hr : IsTrans ChoiceFilter fun f g => f.definitionId≤g.definitionId :=
    ⟨fun f g k => le_trans⟩
  exact List.pairwise_insertionSort _ filters

theorem sortFilters_canonicalOwn (own : Membership) :
    sortFilters (canonicalOwn own)=canonicalOwn own := by
  have hb : (canonicalOwn own).booleanFilters.insertionSort
      (fun f g => f.definitionId≤g.definitionId)=(canonicalOwn own).booleanFilters :=
    (booleans_sorted _).insertionSort_eq
  have hp : (canonicalOwn own).choiceFilters.Pairwise
      fun f g => f.definitionId≤g.definitionId := by
    rw [canonicalOwn,List.pairwise_map]
    exact choices_sorted own.choiceFilters
  have hv : ∀ f ∈ (canonicalOwn own).choiceFilters,
      { f with valueIds := f.valueIds.insertionSort (·≤·) }=f := by
    intro f hf
    obtain ⟨g,-,rfl⟩ := List.mem_map.mp hf
    have hs : (sortedSet g.valueIds).Pairwise (·≤·) := Finset.pairwise_sort _ _
    have he : (sortedSet g.valueIds).insertionSort (·≤·)=sortedSet g.valueIds :=
      hs.insertionSort_eq
    rw [canonicalChoice,he]
  have hc : ((canonicalOwn own).choiceFilters.insertionSort
      fun f g => f.definitionId≤g.definitionId).map
        (fun f => { f with valueIds := f.valueIds.insertionSort (·≤·) })=
      (canonicalOwn own).choiceFilters := by
    rw [hp.insertionSort_eq]
    exact (List.map_congr_left hv).trans (List.map_id' _)
  rw [sortFilters,hb,hc]

theorem canonicalOwn_idem (own : Membership) :
    canonicalOwn (canonicalOwn own)=canonicalOwn own := by
  have h := sortFilters_normalOwn (canonicalOwn own)
  rw [dropIgnored_canonicalOwn,normalOwn_canonicalOwn,sortFilters_canonicalOwn] at h
  exact h.symm

theorem Fixed.canonicalOwn {env : NormalEnv} {own : Membership} (hf : Fixed env own) :
    Fixed env (canonicalOwn own) :=
  ⟨hf.1,fun language hl => hf.2 language (mem_sortedSet.mp hl)⟩

theorem Within.canonicalOwn {own : Membership} (hw : Within (dropIgnored own)) :
    Within (canonicalOwn own) := by
  have hb : (CanonicalQuery.canonicalOwn own).booleanFilters.length=
      (dropIgnored own).booleanFilters.length := List.length_insertionSort _ _
  have hc : (CanonicalQuery.canonicalOwn own).choiceFilters.length=
      (dropIgnored own).choiceFilters.length := by
    rw [CanonicalQuery.canonicalOwn,List.length_map,List.length_insertionSort]
    rfl
  have hl : (CanonicalQuery.canonicalOwn own).languages=[] ↔ own.languages=[] := sortedSet_nil
  have hk : (CanonicalQuery.canonicalOwn own).compatibilities=[] ↔ own.compatibilities=[] :=
    sortedSet_nil
  refine ⟨hw.name,?_,?_,?_,?_,?_⟩
  · have hg := hw.groups
    unfold SavedQuery.groups at hg ⊢
    rw [hb,hc]
    simp only [hl,hk]
    exact hg
  · exact le_trans (length_sortedSet _) hw.languages
  · exact le_trans (length_sortedSet _) hw.compatibilities
  · intro c hm
    exact hw.known c (mem_sortedSet.mp hm)
  · intro f hm
    obtain ⟨g,hg,rfl⟩ := List.mem_map.mp hm
    have hv := hw.values g ((List.mem_insertionSort _).mp hg)
    exact le_trans (length_sortedSet _) hv

mutual

theorem members_canonical : ∀ q : Query, members (canonical q)=(members q).map canonicalOwn
  | .node own anyOf => by
    rw [canonical,members,members,List.map_cons,membersOf_canonical anyOf]

theorem membersOf_canonical : ∀ branches : List Query,
    membersOf (canonicalBranches branches)=(membersOf branches).map canonicalOwn
  | [] => rfl
  | branch::branches => by
    rw [canonicalBranches,membersOf,membersOf,List.map_append,members_canonical branch,
      membersOf_canonical branches]

end

mutual

/-- The nodes of a query are counted by their fields. -/
theorem length_members : ∀ q : Query, (members q).length=nodes q
  | .node own anyOf => by
    rw [members,nodes,List.length_cons,length_membersOf anyOf]

/-- The nodes of all branches are counted by their fields. -/
theorem length_membersOf : ∀ branches : List Query, (membersOf branches).length=nodesOf branches
  | [] => rfl
  | branch::branches => by
    rw [membersOf,nodesOf,List.length_append,length_members branch,length_membersOf branches]

end

mutual

theorem canonical_idem : ∀ q : Query, canonical (canonical q)=canonical q
  | .node own anyOf => by
    rw [canonical,canonical,canonicalOwn_idem,canonicalBranches_idem anyOf]

theorem canonicalBranches_idem : ∀ branches : List Query,
    canonicalBranches (canonicalBranches branches)=canonicalBranches branches
  | [] => rfl
  | branch::branches => by
    rw [canonicalBranches,canonicalBranches,canonical_idem branch,
      canonicalBranches_idem branches]

end

theorem budget_ok {remaining left : ℕ} : budget remaining=.ok left ↔ remaining=left+1 := by
  unfold budget
  by_cases h : remaining=0
  · rw [if_pos h]
    constructor
    · intro he
      cases he
    · intro he
      omega
  · rw [if_neg h]
    constructor
    · intro he
      cases he
      omega
    · rintro rfl
      rfl

theorem nodes_le_nodesOf {branch : Query} {branches : List Query} (h : branch ∈ branches) :
    nodes branch≤nodesOf branches := by
  induction branches with
  | nil => exact absurd h List.not_mem_nil
  | cons first rest ih =>
    rw [nodesOf]
    rcases List.mem_cons.mp h with rfl | h
    · exact Nat.le_add_right _ _
    · have hr := ih h
      omega

end Librairii.CanonicalQuery
