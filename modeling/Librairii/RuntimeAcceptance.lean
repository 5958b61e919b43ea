import Librairii.NormalizationPasses
import Librairii.CollectionRows
import Librairii.StoryQueries

/-!
# Canonical criteria are accepted at runtime

The runtime pass has checks of its own: it counts ignored filters, bounds the raw values of
a choice and looks up every reference. A canonical tree within its limits passes all of them
when the runtime normalizer returns a short name for every node.
-/

namespace Librairii.RuntimeAcceptance

open CheckedResults RowTables TagRows StoryStatements CanonicalQuery NodeChanges NormalizationPasses
  QueryReferences QueryRequests CollectionRows
open SavedQuery hiding validateReferences validateBranches
open StoryQueries hiding StorageError
open WireParser hiding members

/-- The fields of a node that the runtime pass accepts. -/
structure Acceptable (env : RuntimeEnv) (own : Membership) : Prop where
  /-- The name has a short normal form. -/
  name : ∃ name, env.normalizeRuntime own.name=.ok name ∧ name.length≤200
  languages : ∀ language ∈ own.languages, env.canonicalLanguage language=.ok language
  /-- The fields are within their limits. -/
  limits : Limits own
  /-- The references are valid. -/
  wellFormed : WellFormed own true
  decided : ∀ f ∈ own.booleanFilters, f.state≠"ignored"

/-- The runtime pass shares the saved pass's normalizer and languages. -/
structure Shared (env : NormalEnv) (runtime : RuntimeEnv) : Prop where
  /-- A name that the saved pass normalizes is normalized alike. -/
  names : ∀ value name, env.normalize value=.ok name → runtime.normalizeRuntime value=.ok name
  languages : ∀ language, runtime.canonicalLanguage language=env.canonicalLanguage language

mutual

theorem names_of_renames {env : NormalEnv} : ∀ (q : Query) {k : ℕ → ℕ} {q' : Query},
    (∀ d, 0<k d) → Renames env k q q' → ∀ own ∈ members q,
      ∃ name, env.normalize own.name=.ok name ∧ name.length≤200
  | .node own anyOf,k,q',hk,h => by
    cases h with
    | node hname hall =>
      rw [members,List.forall_mem_cons]
      refine ⟨?_,namesOf_renames anyOf (fun d => hk (d+1)) hall⟩
      obtain ⟨n,hn⟩ := Nat.exists_eq_succ_of_ne_zero (hk 0).ne'
      rw [hn] at hname
      obtain ⟨name,hnormal,hshort,-⟩ := renamed_succ.mp hname
      exact ⟨name,hnormal,hshort⟩

theorem namesOf_renames {env : NormalEnv} : ∀ (branches : List Query) {k : ℕ → ℕ}
    {branches' : List Query}, (∀ d, 0<k d) → RenamesAll env k branches branches' →
      ∀ own ∈ membersOf branches, ∃ name, env.normalize own.name=.ok name ∧ name.length≤200
  | [],k,branches',_,_ => List.forall_mem_nil _
  | branch::branches,k,branches',hk,h => by
    cases h with
    | cons hfirst hrest =>
      rw [membersOf,List.forall_mem_append]
      exact ⟨names_of_renames branch hk hfirst,namesOf_renames branches hk hrest⟩

end

theorem runtimeBooleans_ok (filters : List BooleanFilter) : ∀ {definitions : List I64},
    (∀ f ∈ filters, 0<f.definitionId.val ∧ f.state ∈ ["ignored","true","false"]) →
      (filters.map (·.definitionId)).Nodup → (∀ f ∈ filters, f.definitionId ∉ definitions) →
        runtimeBooleans filters definitions=
          .ok ((filters.map (·.definitionId)).reverse++definitions) := by
  induction filters with
  | nil => exact fun _ _ _ => rfl
  | cons f filters ih =>
    intro definitions hvalid hnodup hnew
    rw [List.map_cons,List.nodup_cons] at hnodup
    rw [List.forall_mem_cons] at hvalid hnew
    have haccepted : ¬(f.definitionId.val≤0 ∨ f.state ∉ ["ignored","true","false"] ∨
        f.definitionId ∈ definitions) := by
      rw [not_or,not_or,not_not]
      exact ⟨not_le.mpr hvalid.1.1,hvalid.1.2,hnew.1⟩
    have hrest : ∀ g ∈ filters, g.definitionId ∉ f.definitionId::definitions := by
      intro g hg hmem
      rcases List.mem_cons.mp hmem with hsame | hmem
      · exact hnodup.1 (List.mem_map.mpr ⟨g,hg,hsame⟩)
      · exact hnew.2 g hg hmem
    rw [runtimeBooleans,if_neg haccepted,ih hvalid.2 hnodup.2 hrest,List.map_cons,
      List.reverse_cons,List.append_assoc]
    rfl

/-- Choice filters on different new definitions with few values are accepted. -/
theorem runtimeChoices_ok (filters : List ChoiceFilter) : ∀ {definitions : List I64},
    (∀ f ∈ filters, 0<f.definitionId.val ∧ f.valueIds≠[] ∧ ∀ v ∈ f.valueIds, 0<v.val) →
      (∀ f ∈ filters, f.valueIds.length≤100) → (filters.map (·.definitionId)).Nodup →
        (∀ f ∈ filters, f.definitionId ∉ definitions) →
          runtimeChoices filters definitions=.ok (filters.map normalChoice) := by
  induction filters with
  | nil => exact fun _ _ _ _ => rfl
  | cons f filters ih =>
    intro definitions hvalid hshort hnodup hnew
    rw [List.map_cons,List.nodup_cons] at hnodup
    rw [List.forall_mem_cons] at hvalid hshort hnew
    have haccepted : ¬(f.definitionId.val≤0 ∨ f.valueIds=[] ∨ 100<f.valueIds.length ∨
        f.definitionId ∈ definitions) := by
      rw [not_or,not_or,not_or]
      exact ⟨not_le.mpr hvalid.1.1,hvalid.1.2.1,not_lt.mpr hshort.1,hnew.1⟩
    have hpositive : ¬(f.valueIds.any fun v => v.val≤0)=true := by
      intro hany
      obtain ⟨v,hv,hle⟩ := List.any_eq_true.mp hany
      exact absurd (of_decide_eq_true hle) (not_le.mpr (hvalid.1.2.2 v hv))
    have hrest : ∀ g ∈ filters, g.definitionId ∉ f.definitionId::definitions := by
      intro g hg hmem
      rcases List.mem_cons.mp hmem with hsame | hmem
      · exact hnodup.1 (List.mem_map.mpr ⟨g,hg,hsame⟩)
      · exact hnew.2 g hg hmem
    rw [runtimeChoices,if_neg haccepted,if_neg hpositive,
      bind_of_ok (ih hvalid.2 hshort.2 hnodup.2 hrest)]
    rfl

section Trees

variable {env : RuntimeEnv} {t : TagTables}

/-- Acceptable fields are normalized. -/
theorem runtimeOwn_ok {own : Membership} (h : Acceptable env own) :
    ∃ name, runtimeOwn env own=.ok (withName (normalOwn own) name) := by
  obtain ⟨name,hname,hshort⟩ := h.name
  have hlanguages : (own.languages.mapM env.canonicalLanguage).mapError languageError=
      .ok own.languages := by
    have hm := mapM_ok h.languages
    rw [List.map_id'] at hm
    rw [hm]
    rfl
  have hlimits : ¬(200<name.length ∨ 50<groups own ∨ 100<own.languages.length ∨
      3<own.compatibilities.length) := by
    have hgroups := h.limits.groups
    have hcount := h.limits.languages
    have hcompatibilities := h.limits.compatibilities
    omega
  have hknown : ¬(own.compatibilities.any (· ∉ compatibilityNames))=true := by
    intro hany
    obtain ⟨c,hc,hunknown⟩ := List.any_eq_true.mp hany
    exact of_decide_eq_true hunknown (h.limits.known c hc)
  have hdecided : own.booleanFilters.filter QueryReferences.decided=own.booleanFilters :=
    List.filter_eq_self.mpr fun f hf => decide_eq_true (h.decided f hf)
  have hdistinct := h.wellFormed.distinct
  rw [hdecided] at hdistinct
  obtain ⟨hbooleans,hchoices,hdisjoint⟩ := List.nodup_append.mp hdistinct
  have hfirst := @runtimeBooleans_ok own.booleanFilters [] h.wellFormed.booleans hbooleans
    fun _ _ => List.not_mem_nil
  have hnew : ∀ f ∈ own.choiceFilters,
      f.definitionId ∉ (own.booleanFilters.map (·.definitionId)).reverse++[] := by
    intro f hf hmem
    rw [List.append_nil,List.mem_reverse] at hmem
    exact hdisjoint _ hmem _ (List.mem_map_of_mem hf) rfl
  have hsecond := runtimeChoices_ok own.choiceFilters h.wellFormed.choices h.limits.values
    hchoices hnew
  refine ⟨name,?_⟩
  rw [runtimeOwn,bind_of_ok hname,if_neg hlimits,bind_of_ok hlanguages,if_neg hknown,
    bind_of_ok hfirst,bind_of_ok hsecond,withName,normalOwn,dedup_sort,dedup_sort]

theorem references_normalOwn {own : Membership} (h : ownAvailable t own=true) (name : String) :
    (booleansExist t (withName (normalOwn own) name).booleanFilters &&
      choicesExist t (withName (normalOwn own) name).choiceFilters)=true := by
  rw [ownAvailable,Bool.and_eq_true,List.all_eq_true,List.all_eq_true] at h
  rw [Bool.and_eq_true,booleansExist,choicesExist,List.all_eq_true,List.all_eq_true]
  refine ⟨h.1,?_⟩
  intro f' hf'
  obtain ⟨f,hf,rfl⟩ := List.mem_map.mp hf'
  have hf := h.2 f hf
  rw [Bool.and_eq_true,List.all_eq_true] at hf
  rw [Bool.and_eq_true,List.all_eq_true]
  refine ⟨hf.1,?_⟩
  intro v hv
  have hv := ((mem_retainFirst [] f.valueIds v).mp hv).1
  obtain ⟨row,hrow,hid,howner⟩ := exists_of_valueOwner (of_decide_eq_true (hf.2 v hv))
  rw [List.any_eq_true]
  refine ⟨row,hrow,?_⟩
  rw [Bool.and_eq_true]
  exact ⟨decide_eq_true hid,decide_eq_true howner⟩

theorem unretired_acceptable {own : Membership} (h : Acceptable env own) : Unretired own := by
  have hretired := h.wellFormed.retired
  rw [retiredFields,Bool.and_eq_true,Bool.true_and,Bool.not_eq_true',Bool.or_eq_false_iff,
    Bool.or_eq_false_iff] at hretired
  exact ⟨hretired.2.1.1,not_not.mp (of_decide_eq_false hretired.2.1.2),
    not_not.mp (of_decide_eq_false hretired.2.2)⟩

mutual

theorem eachNode_acceptable : ∀ q : Query, (∀ own ∈ members q, Acceptable env own) →
    availableCriteria t q=true → ∃ q', eachNode (fun _ => requestOwn env) q=.ok q' ∧
      StoryQueries.validateReferences t q'=.ok ()
  | .node own anyOf,h,ha => by
    rw [members,List.forall_mem_cons] at h
    rw [availableCriteria,Bool.and_eq_true] at ha
    obtain ⟨branches,hbranches,hreferences⟩ := eachBranch_acceptable anyOf h.2 ha.1
    obtain ⟨name,hown⟩ := runtimeOwn_ok h.1
    refine ⟨.node (withName (normalOwn own) name) branches,eachNode_ok.mpr ⟨_,branches,
      requestOwn_ok.mpr ⟨unretired_acceptable h.1,hown⟩,hbranches,rfl⟩,?_⟩
    rw [StoryQueries.validateReferences,bind_of_ok hreferences,
      if_pos (references_normalOwn ha.2 name)]

theorem eachBranch_acceptable : ∀ branches : List Query,
    (∀ own ∈ membersOf branches, Acceptable env own) → availableBranches t branches=true →
      ∃ branches', eachBranch (fun _ => requestOwn env) branches=.ok branches' ∧
        StoryQueries.validateBranches t branches'=.ok ()
  | [],_,_ => ⟨[],rfl,rfl⟩
  | branch::branches,h,ha => by
    rw [membersOf,List.forall_mem_append] at h
    rw [availableBranches,Bool.and_eq_true] at ha
    obtain ⟨first,hfirst,hreference⟩ := eachNode_acceptable branch h.1 ha.1
    obtain ⟨rest,hrest,hreferences⟩ := eachBranch_acceptable branches h.2 ha.2
    refine ⟨first::rest,eachBranch_cons.mpr ⟨first,rest,hfirst,hrest,rfl⟩,?_⟩
    rw [StoryQueries.validateBranches,bind_of_ok hreference]
    exact hreferences

end

/-- A request for acceptable criteria with the default navigation is compiled. -/
theorem matching_accepts {stories : StoryRows.StoryTables} {q : Query}
    (h : ∀ own ∈ members q, Acceptable env own)
    (ha : availableCriteria stories.tags q=true) (hn : nodes q ≤ maxNodes) (locale : String) :
    ∃ normal sql args, matching env stories { criteria := q } locale=.ok (normal,sql,args) := by
  obtain ⟨q',hnodes,hreferences⟩ := eachNode_acceptable q h ha
  have hnormal : normalizeRequest env { criteria := q }=
      .ok ⟨q',firstPage,defaultPageSize,"name_asc"⟩ := normalizeRequest_ok.mpr ⟨hn,hnodes,rfl⟩
  rw [matching,hnormal]
  change ∃ normal sql args, (StoryQueries.validateReferences stories.tags q' >>= _)=
    .ok (normal,sql,args)
  rw [bind_of_ok hreferences]
  exact ⟨_,_,_,rfl⟩

end Trees

end Librairii.RuntimeAcceptance
