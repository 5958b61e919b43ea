import Librairii.QueryCompilation
import Librairii.RecentEntries
import Librairii.RuntimeAcceptance

/-!
# What the runtime pass establishes

A request that passes has bounded nodes whose lists are sorted, without repetitions and within
their limits. Branches and filters keep their order. A second pass accepts the result and changes
nothing, as long as its names and languages are fixed by their normalizers.
-/

namespace Librairii.RuntimeNormalization

open CheckedResults CanonicalQuery NodeChanges QueryRequests SavedQuery RuntimeAcceptance
open WireParser hiding members

def firstOccurrences {α : Type} [DecidableEq α] (values : List α) : List α :=
  values.reverse.dedup.reverse

theorem retainFirst_filter {α : Type} [DecidableEq α] (seen values : List α) :
    retainFirst seen values=(firstOccurrences values).filter fun value => value ∉ seen := by
  induction values generalizing seen with
  | nil => rfl
  | cons first rest ih =>
    have hfirst : firstOccurrences (first::rest)=
        first::(firstOccurrences rest).filter fun value => value≠first := by
      rw [firstOccurrences,List.reverse_cons,RecentEntries.dedup_use,List.reverse_append,
        ←List.filter_reverse]
      rfl
    rw [retainFirst,hfirst]
    by_cases hseen : first ∈ seen
    · rw [if_pos hseen,ih,List.filter_cons_of_neg (by simpa using hseen),List.filter_filter]
      refine List.filter_congr fun value _ => ?_
      by_cases hvalue : value ∈ seen
      · simp [hvalue]
      · have hne : value≠first := fun he => hvalue (he ▸ hseen)
        simp [hvalue,hne]
    · rw [if_neg hseen,ih,List.filter_cons_of_pos (by simpa using hseen),List.filter_filter]
      congr 1
      refine List.filter_congr fun value _ => ?_
      by_cases hvalue : value=first
      · simp [hvalue]
      · simp [hvalue]

theorem retainFirst_all {α : Type} [DecidableEq α] (values : List α) :
    retainFirst [] values=firstOccurrences values := by
  rw [retainFirst_filter,List.filter_eq_self]
  exact fun value _ => decide_eq_true List.not_mem_nil

/-- What the runtime pass establishes of a node. -/
structure Established (own : Membership) : Prop where
  retired : own.includeBroken=false ∧ own.brokenVisibility="" ∧ own.brokenState=""
  name : own.name.length≤200
  groups : groups own≤50
  languages : own.languages.Pairwise (·<·) ∧ own.languages.length≤100
  /-- Its compatibilities are sorted, unique and known. -/
  compatibilities : own.compatibilities.Pairwise (·<·) ∧
    ∀ value ∈ own.compatibilities, value ∈ compatibilityNames
  /-- Boolean filters have positive definitions and known states. -/
  booleans : ∀ f ∈ own.booleanFilters,
    0<f.definitionId.val ∧ f.state ∈ ["ignored","true","false"]
  /-- Choice filters have positive definitions and some positive values, each once. -/
  choices : ∀ f ∈ own.choiceFilters, 0<f.definitionId.val ∧ f.valueIds≠[] ∧
    f.valueIds.length≤100 ∧ f.valueIds.Nodup ∧ ∀ v ∈ f.valueIds, 0<v.val
  /-- Definitions are unique across the filters. -/
  distinct : (own.booleanFilters.map (·.definitionId)++
    own.choiceFilters.map (·.definitionId)).Nodup

section Passes

variable (env : RuntimeEnv)

/-- The fields of a node as the runtime pass leaves them: the name and the languages are
normalized, repetitions go, and everything else stays in its order. -/
def Normalized (own normal : Membership) : Prop :=
  ∃ name languages, env.normalizeRuntime own.name=.ok name ∧
    own.languages.mapM env.canonicalLanguage=.ok languages ∧
    normal={own with
      name := name
      languages := sortedSet languages
      compatibilities := sortedSet own.compatibilities
      choiceFilters := own.choiceFilters.map fun f =>
        {f with valueIds := firstOccurrences f.valueIds}}

mutual

/-- Two trees have the same branches in the same order, with related fields. -/
def Alike : Query → Query → Prop
  | .node own anyOf,.node normal branches => Normalized env own normal ∧ AlikeAll anyOf branches

/-- Two lists of branches have related trees in the same order. -/
def AlikeAll : List Query → List Query → Prop
  | [],[] => True
  | q::queries,normal::normals => Alike q normal ∧ AlikeAll queries normals
  | _,_ => False

end

def FixedTexts (own : Membership) : Prop :=
  env.normalizeRuntime own.name=.ok own.name ∧
    ∀ language ∈ own.languages, env.canonicalLanguage language=.ok language

variable {env}

/-- Boolean filters that are accepted have different positive definitions and known states. -/
theorem runtimeBooleans_iff (filters : List BooleanFilter) {definitions found : List I64}
    (h : runtimeBooleans filters definitions=.ok found) :
    (∀ f ∈ filters, 0<f.definitionId.val ∧ f.state ∈ ["ignored","true","false"]) ∧
      (filters.map (·.definitionId)).Nodup ∧ (∀ f ∈ filters, f.definitionId ∉ definitions) ∧
      found=(filters.map (·.definitionId)).reverse++definitions := by
  induction filters generalizing definitions with
  | nil =>
    cases h
    exact ⟨fun f hf => absurd hf List.not_mem_nil,List.nodup_nil,
      fun f hf => absurd hf List.not_mem_nil,rfl⟩
  | cons f filters ih =>
    rw [runtimeBooleans] at h
    obtain ⟨haccepted,h⟩ := checked_ok.mp h
    rw [not_or,not_or,not_not,not_le] at haccepted
    obtain ⟨hvalid,hnodup,hnew,hfound⟩ := ih h
    refine ⟨List.forall_mem_cons.mpr ⟨⟨haccepted.1,haccepted.2.1⟩,hvalid⟩,?_,?_,?_⟩
    · rw [List.map_cons,List.nodup_cons]
      refine ⟨fun hm => ?_,hnodup⟩
      obtain ⟨g,hg,he⟩ := List.mem_map.mp hm
      exact hnew g hg (he ▸ List.mem_cons_self)
    · refine List.forall_mem_cons.mpr ⟨haccepted.2.2,fun g hg hm => ?_⟩
      exact hnew g hg (List.mem_cons_of_mem _ hm)
    · rw [hfound,List.map_cons,List.reverse_cons,List.append_assoc]
      rfl

/-- Choice filters that are accepted have different new positive definitions and some positive
values, of which the first occurrences are kept. -/
theorem runtimeChoices_iff (filters : List ChoiceFilter) {definitions : List I64}
    {kept : List ChoiceFilter} (h : runtimeChoices filters definitions=.ok kept) :
    (∀ f ∈ filters, 0<f.definitionId.val ∧ f.valueIds≠[] ∧ f.valueIds.length≤100 ∧
      ∀ v ∈ f.valueIds, 0<v.val) ∧
      (filters.map (·.definitionId)).Nodup ∧ (∀ f ∈ filters, f.definitionId ∉ definitions) ∧
      kept=filters.map normalChoice := by
  induction filters generalizing definitions kept with
  | nil =>
    cases h
    exact ⟨fun f hf => absurd hf List.not_mem_nil,List.nodup_nil,
      fun f hf => absurd hf List.not_mem_nil,rfl⟩
  | cons f filters ih =>
    rw [runtimeChoices] at h
    obtain ⟨haccepted,h⟩ := checked_ok.mp h
    obtain ⟨hpositive,h⟩ := checked_ok.mp h
    rw [not_or,not_or,not_or,not_le,not_lt] at haccepted
    obtain ⟨rest,hrest,he⟩ := exceptBind_ok.mp h
    cases he
    obtain ⟨hvalid,hnodup,hnew,hkept⟩ := ih hrest
    have hvalues : ∀ v ∈ f.valueIds, 0<v.val := by
      intro v hv
      by_contra hle
      exact hpositive (List.any_eq_true.mpr ⟨v,hv,decide_eq_true (not_lt.mp hle)⟩)
    refine ⟨List.forall_mem_cons.mpr ⟨⟨haccepted.1,haccepted.2.1,haccepted.2.2.1,hvalues⟩,
      hvalid⟩,?_,?_,?_⟩
    · rw [List.map_cons,List.nodup_cons]
      refine ⟨fun hm => ?_,hnodup⟩
      obtain ⟨g,hg,he⟩ := List.mem_map.mp hm
      exact hnew g hg (he ▸ List.mem_cons_self)
    · refine List.forall_mem_cons.mpr ⟨haccepted.2.2.2,fun g hg hm => ?_⟩
      exact hnew g hg (List.mem_cons_of_mem _ hm)
    · rw [hkept,List.map_cons]
      rfl

/-- The values kept are unique. -/
theorem nodup_firstOccurrences {α : Type} [DecidableEq α] (values : List α) :
    (firstOccurrences values).Nodup := by
  rw [firstOccurrences,List.nodup_reverse]
  exact values.reverse.nodup_dedup

theorem mem_firstOccurrences {α : Type} [DecidableEq α] {values : List α} {a : α} :
    a ∈ firstOccurrences values ↔ a ∈ values := by
  rw [firstOccurrences,List.mem_reverse,List.mem_dedup,List.mem_reverse]

/-- No more values are kept than there are. -/
theorem length_firstOccurrences {α : Type} [DecidableEq α] (values : List α) :
    (firstOccurrences values).length≤values.length := by
  rw [firstOccurrences,List.length_reverse,←@List.length_reverse _ values]
  exact values.reverse.dedup_sublist.length_le

theorem firstOccurrences_self {α : Type} [DecidableEq α] {values : List α} (h : values.Nodup) :
    firstOccurrences values=values := by
  rw [firstOccurrences,List.Nodup.dedup (List.nodup_reverse.mpr h),List.reverse_reverse]

theorem pairwise_sortedSet (values : List String) : (sortedSet values).Pairwise (·<·) :=
  values.toFinset.sortedLT_sort.pairwise

theorem sortedSet_increasing {values : List String} (h : values.Pairwise (·<·)) :
    sortedSet values=values :=
  sortedSet_self (h.imp fun hlt => ne_of_lt hlt) (h.imp fun hlt => le_of_lt hlt)

theorem groups_normalized {own normal : Membership} (h : Normalized env own normal) :
    groups normal=groups own := by
  obtain ⟨name,languages,-,hlanguages,rfl⟩ := h
  have hsame : sortedSet languages=[] ↔ own.languages=[] := by
    rw [sortedSet_nil,←List.length_eq_zero_iff,←List.length_eq_zero_iff,
      List.Forall₂.length_eq (mapM_pairs hlanguages)]
  simp only [groups,hsame,sortedSet_nil,List.length_map]

/-- The pass on the fields of a node establishes its invariant, provided the retired fields are
empty. -/
theorem runtimeOwn_established {own normal : Membership} (h : runtimeOwn env own=.ok normal) :
    Normalized env own normal ∧ (own.includeBroken=false ∧ own.brokenVisibility="" ∧
      own.brokenState="" → Established normal) := by
  rw [runtimeOwn] at h
  obtain ⟨name,hname,h⟩ := exceptBind_ok.mp h
  obtain ⟨hlimits,h⟩ := checked_ok.mp h
  rw [not_or,not_or,not_or,not_lt,not_lt,not_lt,not_lt] at hlimits
  obtain ⟨languages,hlanguages,h⟩ := exceptBind_ok.mp h
  have hlanguages := mapError_ok.mp hlanguages
  obtain ⟨hknown,h⟩ := checked_ok.mp h
  obtain ⟨definitions,hbooleans,h⟩ := exceptBind_ok.mp h
  obtain ⟨kept,hchoices,h⟩ := exceptBind_ok.mp h
  obtain ⟨hboolean,hfirst,-,hfound⟩ := runtimeBooleans_iff _ hbooleans
  obtain ⟨hchoice,hsecond,hnew,hkept⟩ := runtimeChoices_iff _ hchoices
  have hmaps : kept=own.choiceFilters.map fun f =>
      {f with valueIds := firstOccurrences f.valueIds} := by
    rw [hkept]
    exact List.map_congr_left fun f _ => by rw [normalChoice,retainFirst_all]
  cases h
  have hnormal : Normalized env own {own with
      name := name
      languages := dedup (languages.insertionSort (·≤·))
      compatibilities := dedup (own.compatibilities.insertionSort (·≤·))
      choiceFilters := kept} :=
    ⟨name,languages,hname,hlanguages,by rw [dedup_sort,dedup_sort,hmaps]⟩
  refine ⟨hnormal,fun hretired => ?_⟩
  have hids : kept.map (·.definitionId)=own.choiceFilters.map (·.definitionId) := by
    rw [hmaps,List.map_map]
    rfl
  constructor
  case retired => exact hretired
  case name => exact hlimits.1
  case groups => exact (groups_normalized hnormal).trans_le hlimits.2.1
  case languages =>
    change (dedup _).Pairwise _ ∧ (dedup _).length≤100
    rw [dedup_sort]
    have hcount := List.Forall₂.length_eq (mapM_pairs hlanguages)
    exact ⟨pairwise_sortedSet _,(length_sortedSet _).trans (hcount ▸ hlimits.2.2.1)⟩
  case compatibilities =>
    change (dedup _).Pairwise _ ∧ ∀ value ∈ dedup _,_
    rw [dedup_sort]
    refine ⟨pairwise_sortedSet _,fun value hvalue => ?_⟩
    by_contra hunknown
    exact hknown (List.any_eq_true.mpr
      ⟨value,mem_sortedSet.mp hvalue,decide_eq_true hunknown⟩)
  case booleans => exact hboolean
  case choices =>
    change ∀ f ∈ kept,_
    rw [hmaps,List.forall_mem_map]
    intro f hf
    obtain ⟨hpositive,hsome,hcount,hvalues⟩ := hchoice f hf
    refine ⟨hpositive,fun he => ?_,(length_firstOccurrences _).trans hcount,
      nodup_firstOccurrences _,fun v hv => hvalues v (mem_firstOccurrences.mp hv)⟩
    obtain ⟨v,hv⟩ := List.exists_mem_of_ne_nil _ hsome
    have hv : v ∈ firstOccurrences f.valueIds := mem_firstOccurrences.mpr hv
    exact List.not_mem_nil ((show firstOccurrences f.valueIds=[] from he) ▸ hv)
  case distinct =>
    change (own.booleanFilters.map _++kept.map _).Nodup
    rw [hids,List.nodup_append]
    refine ⟨hfirst,hsecond,fun a ha b hb he => ?_⟩
    obtain ⟨f,hf,rfl⟩ := List.mem_map.mp hb
    refine hnew f hf ?_
    rw [hfound,List.append_nil,List.mem_reverse,←he]
    exact ha

mutual

/-- The pass keeps the shape of a tree. -/
theorem eachNode_alike : ∀ (q : Query) {normal : Query},
    eachNode (fun _ => requestOwn env) q=.ok normal → Alike env q normal
  | .node own anyOf,normal,h => by
    obtain ⟨own',branches,ho,hb,rfl⟩ := eachNode_ok.mp h
    rw [Alike]
    exact ⟨(runtimeOwn_established (requestOwn_ok.mp ho).2).1,eachBranch_alike anyOf hb⟩

theorem eachBranch_alike : ∀ (queries : List Query) {normals : List Query},
    eachBranch (fun _ => requestOwn env) queries=.ok normals → AlikeAll env queries normals
  | [],normals,h => by
    rw [eachBranch_nil.mp h,AlikeAll]
    trivial
  | q::queries,normals,h => by
    obtain ⟨normal,rest,hq,hrest,rfl⟩ := eachBranch_cons.mp h
    rw [AlikeAll]
    exact ⟨eachNode_alike q hq,eachBranch_alike queries hrest⟩

end

theorem runtimeOwn_fixed {own : Membership} (h : Established own) (hfixed : FixedTexts env own) :
    runtimeOwn env own=.ok own := by
  obtain ⟨hbooleans,hchoices,hdisjoint⟩ := List.nodup_append.mp h.distinct
  have hlimits : ¬(200<own.name.length ∨ 50<groups own ∨ 100<own.languages.length ∨
      3<own.compatibilities.length) := by
    have hname := h.name
    have hgroups := h.groups
    have hlanguages := h.languages.2
    have hnodup : own.compatibilities.Nodup := h.compatibilities.1.imp fun hlt => ne_of_lt hlt
    have hcompatibilities : own.compatibilities.length≤3 :=
      (hnodup.subperm h.compatibilities.2).length_le
    omega
  have hlanguages : (own.languages.mapM env.canonicalLanguage).mapError languageError=
      .ok own.languages := by
    have hm := mapM_ok hfixed.2
    rw [List.map_id'] at hm
    rw [hm]
    rfl
  have hknown : ¬(own.compatibilities.any (· ∉ compatibilityNames))=true := by
    intro hany
    obtain ⟨c,hc,hunknown⟩ := List.any_eq_true.mp hany
    exact of_decide_eq_true hunknown (h.compatibilities.2 c hc)
  have hfirst := @runtimeBooleans_ok own.booleanFilters [] h.booleans hbooleans
    fun _ _ => List.not_mem_nil
  have hnew : ∀ f ∈ own.choiceFilters,
      f.definitionId ∉ (own.booleanFilters.map (·.definitionId)).reverse++[] := by
    intro f hf hmem
    rw [List.append_nil,List.mem_reverse] at hmem
    exact hdisjoint _ hmem _ (List.mem_map_of_mem hf) rfl
  have hsecond := runtimeChoices_ok own.choiceFilters
    (fun f hf => ⟨(h.choices f hf).1,(h.choices f hf).2.1,(h.choices f hf).2.2.2.2⟩)
    (fun f hf => (h.choices f hf).2.2.1) hchoices hnew
  have hsame : own.choiceFilters.map normalChoice=own.choiceFilters := by
    refine (List.map_congr_left fun f hf => ?_).trans (List.map_id _)
    rw [normalChoice,retainFirst_all,firstOccurrences_self (h.choices f hf).2.2.2.1]
    rfl
  rw [hsame] at hsecond
  rw [runtimeOwn,bind_of_ok hfixed.1,if_neg hlimits,bind_of_ok hlanguages,if_neg hknown,
    bind_of_ok hfirst,bind_of_ok hsecond,dedup_sort,dedup_sort,
    sortedSet_increasing h.languages.1,sortedSet_increasing h.compatibilities.1]

def Navigated (page pageSize : I64) (sort : String) (normal : I64×I64×String) : Prop :=
  normal=(if page=zero then firstPage else page,
    if pageSize=zero then defaultPageSize else pageSize,if sort="" then "name_asc" else sort)

theorem normalizeNavigation_kept {page pageSize page' size' : I64} {sort sort' : String}
    (h : normalizeNavigation page pageSize sort=.ok (page',size',sort')) :
    1≤page'.val ∧ (1 ≤ size'.val ∧ size'.val≤100) ∧ sort' ∈ sortNames ∧
      Navigated page pageSize sort (page',size',sort') ∧
      normalizeNavigation page' size' sort'=.ok (page',size',sort') := by
  unfold normalizeNavigation at h
  dsimp only at h
  obtain ⟨hrange,h⟩ := checked_ok.mp h
  obtain ⟨hp,hs⟩ := Prod.mk.inj (Except.ok.inj h)
  obtain ⟨hs,hn⟩ := Prod.mk.inj hs
  subst hp
  subst hs
  subst hn
  have hrange' := hrange
  rw [not_or,not_or,not_lt,not_not,not_not] at hrange'
  obtain ⟨hpage,hsize,hsort⟩ := hrange'
  refine ⟨hpage,hsize,hsort,rfl,?_⟩
  have hz : zero.val=0 := rfl
  have hp : (if page=zero then firstPage else page)≠zero := by
    intro he
    rw [he,hz] at hpage
    omega
  have hs : (if pageSize=zero then defaultPageSize else pageSize)≠zero := by
    intro he
    rw [he,hz] at hsize
    omega
  have hn : (if sort="" then "name_asc" else sort)≠"" := by
    intro he
    rw [he] at hsort
    exact absurd hsort (by decide)
  unfold normalizeNavigation
  dsimp only
  rw [if_neg hp,if_neg hs,if_neg hn,if_neg hrange]

theorem normalizeRequest_established {request normal : QueryRequest}
    (h : normalizeRequest env request=.ok normal) :
    ∀ own ∈ members normal.criteria, Established own :=
  eachNode_all (fun _ _ ho => (runtimeOwn_established (requestOwn_ok.mp ho).2).2
    (requestOwn_ok.mp ho).1) request.criteria (normalizeRequest_ok.mp h).2.1

/-- A request that is accepted is normalized: the nodes are bounded, every one of them satisfies
the invariant and the navigation is in range. The tree keeps its branches, filters and orders.
The pass accepts and keeps its own result when the texts are fixed. -/
theorem normalizeRequest_normal {request normal : QueryRequest}
    (h : normalizeRequest env request=.ok normal) :
    nodes normal.criteria≤50 ∧ (∀ own ∈ members normal.criteria, Established own) ∧
      (1≤normal.page.val ∧ (1≤normal.pageSize.val ∧ normal.pageSize.val≤100) ∧
        normal.sort ∈ sortNames) ∧
      (Alike env request.criteria normal.criteria ∧ Navigated request.page request.pageSize
        request.sort (normal.page,normal.pageSize,normal.sort)) ∧
      ((∀ own ∈ members normal.criteria, FixedTexts env own) →
        normalizeRequest env normal=.ok normal) := by
  obtain ⟨hmax,hnodes,hn⟩ := normalizeRequest_ok.mp h
  obtain ⟨hpage,hsize,hsort,hnavigated,hkept⟩ := normalizeNavigation_kept hn
  have hestablished : ∀ own ∈ members normal.criteria, Established own := by
    refine eachNode_all (fun own own' ho => ?_) request.criteria hnodes
    obtain ⟨hunused,ho⟩ := requestOwn_ok.mp ho
    exact (runtimeOwn_established ho).2 hunused
  have hcount : nodes normal.criteria ≤ maxNodes := by
    rw [eachNode_nodes request.criteria hnodes]
    exact hmax
  refine ⟨hcount,hestablished,⟨hpage,hsize,hsort⟩,
    ⟨eachNode_alike request.criteria hnodes,hnavigated⟩,fun hfixed => ?_⟩
  refine normalizeRequest_ok.mpr ⟨hcount,eachNode_kept normal.criteria fun own ho => ?_,hkept⟩
  exact requestOwn_ok.mpr ⟨(hestablished own ho).retired,
    runtimeOwn_fixed (hestablished own ho) (hfixed own ho)⟩

def repeatingRequest : QueryRequest where
  criteria := .node {
    name := "fox"
    languages := ["fr","en","fr"]
    compatibilities := ["missing","compatible"]
    choiceFilters := [⟨firstPage,[defaultPageSize,firstPage,defaultPageSize]⟩] } [.node {} []]

def keptRequest : QueryRequest where
  criteria := .node {
    name := "fox"
    languages := ["en","fr"]
    compatibilities := ["compatible","missing"]
    choiceFilters := [⟨firstPage,[defaultPageSize,firstPage]⟩] } [.node {} []]
  page := firstPage
  pageSize := defaultPageSize
  sort := "name_asc"

theorem repeatingRequest_normal : nodes keptRequest.criteria≤50 ∧
    normalizeRequest QueryCompilation.plainRuntime keptRequest=.ok keptRequest := by
  have h : normalizeRequest QueryCompilation.plainRuntime repeatingRequest=.ok keptRequest := by
    rfl
  have hnormal := normalizeRequest_normal h
  refine ⟨hnormal.1,hnormal.2.2.2.2 fun own hown => ⟨rfl,fun language _ => rfl⟩⟩

end Passes

end Librairii.RuntimeNormalization
