import Librairii.CollectionViews
import Librairii.OrderedMerges

/-!
# Counting a union of queries

A union is counted by one cursor over the ordered ids of each query, merged through a heap: an id
counts when it differs from the one before it. The preview of a selection of Collections counts
their union and each of them, and shows how many stories the selection repeats.
-/

namespace Librairii.UnionCounts

open CheckedResults RowTables StorageTransactions StoryRows StoryStatements CanonicalQuery
  NodeChanges
  SavedQueryCodec QueryRequests CollectionRows QueryCompilation StoryPages CollectionInspection
    CollectionViews
  RuntimeAcceptance OrderedMerges
open SavedQuery hiding validateReferences validateBranches
open StoryQueries hiding validateReferences validateBranches
open WireParser hiding members

/-- The rows of a statement that selects the ids of a source in their order: it reads
`SELECT s.id` before the clauses and `ORDER BY s.id` behind them. -/
def selectIds (t : StoryTables) (sql : List Fragment) (args : List Value) : Option (List ℤ) := do
  let bounds ← bind sql args
  let (s,rest) ← selection bounds
  if rest≠[] then none
  else do
    let rows ← selectRows t s
    some ((rows.map fun row => row.listed.story.id).insertionSort (·≤·))

/-- Count one more id, unless the counter overflows. -/
def addOne (count : ℤ) : Except StorageError ℤ :=
  if count+1<2^63 then .ok (count+1) else .error (.queryInput .resourceOverflow)

/-- Pop the least id, count it when it differs from the previous one, and advance its cursor. -/
def countMerged : List (ℤ ×ₗ ℕ) → List (List ℤ) → Option ℤ → ℤ → Except StorageError ℤ
  | [],_,_,count => .ok count
  | entry::heap,cursors,previous,count => do
    let count ← if previous≠some (ofLex entry).1 then addOne count else .ok count
    countMerged (pushNext heap cursors (ofLex entry).2).1
      (pushNext heap cursors (ofLex entry).2).2 (some (ofLex entry).1) count
termination_by heap cursors => heap.length+cursors.flatten.length
decreasing_by
  rw [length_pushNext,List.length_cons]
  omega

/-- Compile a source of a union with the default navigation. -/
def sourceStatement (env : QueryEnv) (t : StoryTables) (locale : String) (q : Query) :
    Except StorageError (List Fragment×List Value) := do
  let (_,sql,args) ← matching env.toRuntimeEnv t { criteria := q } locale
  return (sql,args)

/-- Count the stories that match one of the queries. -/
def countUnion (env : QueryEnv) (t : StoryTables) (criteria : List Query) (locale : String) :
    Except StorageError ℤ :=
  if criteria=[] then .error invalid
  else do
    let queries ← criteria.mapM (sourceStatement env t locale)
    let cursors ← queries.mapM fun query => execute (selectIds t query.1 query.2)
    countMerged (load cursors).1 (load cursors).2 none 0

/-- A Collection of a selection with the number of its stories. -/
structure SelectedSource where
  collection : Collection
  count : ℤ

/-- What a selection of Collections would combine. -/
structure SelectionPreview where
  sources : List SelectedSource
  /-- The copied criteria of the sources as alternatives. -/
  criteria : Query
  uniqueCount : ℤ
  overlapCount : ℤ

/-- A selection is not empty and names positive ids once. -/
def validateSelection (ids : List ℤ) : Except StorageError Unit :=
  if ids=[] ∨ ids.any (·≤0)=true ∨ ¬ids.Nodup then .error (.collection .invalidSelection)
  else .ok ()

/-- Inspect the Collections of a selection until one needs attention. -/
def selectedFrom (env : CodecEnv) : List ℤ → List (Collection×Query) →
    Work LibraryTables StorageError (Observation (List (Collection×Query)))
  | [],sources => fun t => .ok (.ready sources,t)
  | id::ids,sources => fun t => do
    let (inspection,t) ← inspectIn env id t
    if inspection.isOpenable=false then .ok (.needsAttention inspection,t)
    else match inspection.query with
      | none => .error .compatibilityInvariant
      | some q => selectedFrom env ids (sources++[(inspection.collection,q)]) t

/-- The Collections of a selection with their criteria. -/
def selected (env : CodecEnv) (ids : List ℤ) :
    Work LibraryTables StorageError (Observation (List (Collection×Query))) := fun t => do
  validateSelection ids
  selectedFrom env ids [] t

def countSources (queries : QueryEnv) (t : StoryTables) (locale : String) :
    List (Collection×Query) → List SelectedSource → ℤ → Except StorageError (List SelectedSource×ℤ)
  | [],sources,total => .ok (sources,total)
  | (collection,q)::rest,sources,total => do
    let count ← count queries t { criteria := q } locale
    if total+count<2^63 then
      countSources queries t locale rest (sources++[⟨collection,count⟩]) (total+count)
    else .error (.queryInput .resourceOverflow)

def previewSelection (env : CodecEnv) (queries : QueryEnv) (ids : List ℤ) (locale : String) :
    Work LibraryTables StorageError (Observation SelectionPreview) := fun t => do
  let (found,t) ← selected env ids t
  match found with
  | .needsAttention inspection => .ok (.needsAttention inspection,t)
  | .ready chosen => do
    let criteria := chosen.map (·.2)
    let uniqueCount ← countUnion queries t.storyTables criteria locale
    let (sources,total) ← countSources queries t.storyTables locale chosen [] 0
    .ok (.ready ⟨sources,.node {} criteria,uniqueCount,total-uniqueCount⟩,t)

section Merged

theorem countMerged_eq (heap : List (ℤ ×ₗ ℕ)) (cursors : List (List ℤ)) (previous : Option ℤ)
    (count : ℤ) (h : count+changes previous (pops heap cursors)<2^63) :
    countMerged heap cursors previous count=.ok (count+changes previous (pops heap cursors)) := by
  induction heap, cursors using pops.induct generalizing previous count with
  | case1 cursors =>
    rw [countMerged,pops,changes]
    exact congrArg Except.ok (Int.add_zero count).symm
  | case2 entry heap cursors ih =>
    rw [pops,changes] at h ⊢
    rw [countMerged]
    by_cases he : previous=some (ofLex entry).1
    · rw [if_neg (not_not.mpr he)]
      rw [if_pos he,Nat.zero_add] at h ⊢
      exact ih _ count h
    · rw [if_pos he]
      rw [if_neg he] at h ⊢
      push_cast at h ⊢
      have hone : addOne count=.ok (count+1) := by
        rw [addOne,if_pos (by omega)]
      rw [bind_of_ok hone,ih _ (count+1) (by omega),Int.add_assoc]

end Merged

variable {normals : List QueryRequest} {criteria : List Query} {normal : QueryRequest} {q : Query}
  {row : Listed}

section Unions

variable {env : QueryEnv} {t : StoryTables} {locale : String}

/-- The ids of the stories that match normalized criteria. -/
noncomputable def matchedIds (t : StoryTables) (locale : String) (normal : QueryRequest) :
    List ℤ := (matchingRows t locale normal.criteria none).map fun row => row.story.id

def Accepted (env : QueryEnv) (t : StoryTables) (locale : String) (q : Query)
    (normal : QueryRequest) : Prop :=
  ∃ sql args, matching env.toRuntimeEnv t { criteria := q } locale=.ok (normal,sql,args)

open Classical in
/-- The listed stories that match one of several queries. -/
noncomputable def unionRows (t : StoryTables) (locale : String) (normals : List QueryRequest) :
    List Listed :=
  (listed t).filter fun row => ∃ normal ∈ normals, Holds t locale row normal.criteria

theorem nodup_matchedIds (ht : Keyed t) (normal : QueryRequest) :
    (matchedIds t locale normal).Nodup :=
  (listed_ids_nodup ht).sublist (List.filter_sublist.map _)

theorem selectIds_eq (ht : Keyed t) {sql : List Fragment} {args : List Value}
    (h : matching env.toRuntimeEnv t { criteria := q } locale=.ok (normal,sql,args)) :
    selectIds t sql args=some ((matchedIds t locale normal).insertionSort (·≤·)) := by
  obtain ⟨hnormal,-,rfl,rfl⟩ := matching_ok h
  obtain ⟨s,rows,hselects,hrows,hlisted⟩ :=
    (@executes_tests t locale ht normal (normalizeRequest_admitted hnormal) none).compiled.selects
  obtain ⟨bounds,hbounds,hselection⟩ := Option.bind_eq_some_iff.mp hselects
  have hids : (rows.map fun row => row.listed.story.id)=matchedIds t locale normal := by
    rw [matchedIds,←hlisted,List.map_map]
    rfl
  unfold selectIds
  rw [hbounds]
  change (selection bounds >>= _)=_
  rw [hselection]
  change (selectRows t s >>= _)=_
  rw [hrows]
  change some (List.insertionSort _ (rows.map fun row => row.listed.story.id))=_
  rw [hids]

theorem cursors_ok (ht : Keyed t) (h : List.Forall₂ (Accepted env t locale) criteria normals) :
    ∃ queries, criteria.mapM (sourceStatement env t locale)=.ok queries ∧
      queries.mapM (fun query => execute (selectIds t query.1 query.2))=
        .ok (normals.map fun normal => (matchedIds t locale normal).insertionSort (·≤·)) := by
  induction h with
  | nil => exact ⟨[],rfl,rfl⟩
  | @cons q normal criteria normals hfirst hrest ih =>
    obtain ⟨sql,args,hmatching⟩ := hfirst
    obtain ⟨queries,hqueries,hcursors⟩ := ih
    have hsource : sourceStatement env t locale q=.ok (sql,args) := by
      rw [sourceStatement,bind_of_ok hmatching]
      rfl
    refine ⟨(sql,args)::queries,?_,?_⟩
    · rw [List.mapM_cons,bind_of_ok hsource,bind_of_ok hqueries]
      rfl
    · have hexecute : execute (selectIds t sql args)=
          .ok ((matchedIds t locale normal).insertionSort (·≤·)) := by
        rw [selectIds_eq ht hmatching]
        rfl
      rw [List.mapM_cons,bind_of_ok hexecute,bind_of_ok hcursors]
      rfl

theorem mem_matchingRows :
    row ∈ matchingRows t locale q none ↔ row ∈ listed t ∧ Holds t locale row q := by
  have hasked : Asked none row := fun uuids he => nomatch he
  simp only [matchingRows,List.mem_filter,decide_eq_true_eq,hasked,and_true]

theorem mem_unionRows :
    row ∈ unionRows t locale normals ↔
      row ∈ listed t ∧ ∃ normal ∈ normals, Holds t locale row normal.criteria := by
  simp only [unionRows,List.mem_filter,decide_eq_true_eq]

theorem unionRows_ids (normals : List QueryRequest) :
    ((unionRows t locale normals).map fun row => row.story.id).toFinset=
      unionOf (normals.map fun normal => (matchedIds t locale normal).toFinset) := by
  ext id
  rw [List.mem_toFinset,mem_unionOf,List.mem_map]
  constructor
  · rintro ⟨row,hrow,rfl⟩
    obtain ⟨hlisted,normal,hnormal,hholds⟩ := mem_unionRows.mp hrow
    refine ⟨_,List.mem_map_of_mem hnormal,List.mem_toFinset.mpr (List.mem_map.mpr ⟨row,?_,rfl⟩)⟩
    exact mem_matchingRows.mpr ⟨hlisted,hholds⟩
  · rintro ⟨ids,hids,hid⟩
    obtain ⟨normal,hnormal,rfl⟩ := List.mem_map.mp hids
    obtain ⟨row,hrow,rfl⟩ := List.mem_map.mp (List.mem_toFinset.mp hid)
    obtain ⟨hlisted,hholds⟩ := mem_matchingRows.mp hrow
    exact ⟨row,mem_unionRows.mpr ⟨hlisted,normal,hnormal,hholds⟩,rfl⟩

theorem length_unionRows (ht : Keyed t) (normals : List QueryRequest) :
    (unionRows t locale normals).length=
      (unionOf (normals.map fun normal => (matchedIds t locale normal).toFinset)).card := by
  have hids : ((unionRows t locale normals).map fun row => row.story.id).Nodup :=
    (listed_ids_nodup ht).sublist (List.filter_sublist.map _)
  rw [←unionRows_ids,List.toFinset_card_of_nodup hids,List.length_map]

theorem length_unionRows_lt (ht : Keyed t) (normals : List QueryRequest) :
    ((unionRows t locale normals).length : ℤ)<2^63 := by
  have hfilter : (unionRows t locale normals).length≤(listed t).length :=
    List.filter_sublist.length_le
  have hlisted := length_listed ht
  have hcounted := ht.counted
  omega

theorem countUnion_accepted (ht : Keyed t) (hsome : criteria≠[])
    (h : List.Forall₂ (Accepted env t locale) criteria normals) :
    countUnion env t criteria locale=.ok (unionRows t locale normals).length := by
  obtain ⟨queries,hqueries,hcursors⟩ := cursors_ok ht h
  obtain ⟨hpops,hsorted⟩ := @pops_load ℤ _
    (normals.map fun normal => (matchedIds t locale normal).insertionSort (·≤·)) (by
      intro cursor hcursor
      obtain ⟨normal,-,rfl⟩ := List.mem_map.mp hcursor
      exact List.pairwise_insertionSort _ _)
  have hchanges := @changes_ordered ℤ _ _ none hsorted fun p hp => nomatch hp
  have hevery : ∀ (ids : Finset ℤ), (ids.filter fun id => none≠some id)=ids := fun ids =>
    Finset.filter_true_of_mem fun id _ => nofun
  have hset : (pops (load (normals.map fun normal =>
      (matchedIds t locale normal).insertionSort (·≤·))).1 (load (normals.map fun normal =>
        (matchedIds t locale normal).insertionSort (·≤·))).2).toFinset=
      unionOf (normals.map fun normal => (matchedIds t locale normal).toFinset) := by
    rw [List.toFinset_eq_of_perm _ _ hpops]
    ext id
    rw [List.mem_toFinset,mem_unionOf,List.mem_flatten]
    constructor
    · rintro ⟨cursor,hcursor,hid⟩
      obtain ⟨normal,hnormal,rfl⟩ := List.mem_map.mp hcursor
      exact ⟨_,List.mem_map_of_mem hnormal,
        List.mem_toFinset.mpr ((List.mem_insertionSort _).mp hid)⟩
    · rintro ⟨ids,hids,hid⟩
      obtain ⟨normal,hnormal,rfl⟩ := List.mem_map.mp hids
      exact ⟨_,List.mem_map_of_mem hnormal,
        (List.mem_insertionSort _).mpr (List.mem_toFinset.mp hid)⟩
  rw [hset,hevery,←length_unionRows ht] at hchanges
  have hbounded := @length_unionRows_lt t locale ht normals
  unfold countUnion
  rw [if_neg hsome,bind_of_ok hqueries,bind_of_ok hcursors,countMerged_eq _ _ _ _ (by omega),
    hchanges,Int.zero_add]

theorem accepted_of_countUnion {n : ℤ} (h : countUnion env t criteria locale=.ok n) :
    ∃ normals, List.Forall₂ (Accepted env t locale) criteria normals := by
  unfold countUnion at h
  by_cases hsome : criteria=[]
  · rw [if_pos hsome] at h
    cases h
  · rw [if_neg hsome] at h
    obtain ⟨queries,hqueries,-⟩ := exceptBind_ok.mp h
    have hpairs := mapM_pairs hqueries
    clear h hqueries hsome
    induction hpairs with
    | nil => exact ⟨[],.nil⟩
    | cons hfirst hrest ih =>
      obtain ⟨normals,hnormals⟩ := ih
      obtain ⟨⟨normal,sql,args⟩,hmatching,-⟩ := exceptBind_ok.mp hfirst
      exact ⟨normal::normals,.cons ⟨sql,args,hmatching⟩ hnormals⟩

end Unions

section Budgets

variable {env : RuntimeEnv}

/-- Normalized criteria with the default navigation. -/
def plain (q : Query) : QueryRequest where
  criteria := q
  page := firstPage
  pageSize := defaultPageSize
  sort := "name_asc"

/-- A request with the default navigation is normalized as a branch that fits the budget. -/
theorem normalizeRequest_plain :
    normalizeRequest env { criteria := q }=.ok normal ↔
      ∃ q', normal=plain q' ∧ nodes q ≤ maxNodes ∧ normalizeNode env q (nodes q)=.ok (q',0) := by
  have hnavigation : normalizeNavigation zero zero ""=
      .ok (firstPage,defaultPageSize,"name_asc") := rfl
  rw [normalizeRequest_ok]
  simp only [normalizeNode_nodewise,hnavigation]
  constructor
  · rintro ⟨hmax,hnodes,hplain⟩
    refine ⟨normal.criteria,?_,hmax,rfl,hnodes⟩
    obtain ⟨criteria,page,pageSize,sort⟩ := normal
    cases hplain
    rfl
  · rintro ⟨q',rfl,hmax,-,hnodes⟩
    exact ⟨hmax,hnodes,rfl⟩

/-- Branches are normalized one by one. -/
theorem normalizeNodes_iff {queries normals : List Query} :
    normalizeNodes env queries (nodesOf queries)=.ok (normals,0) ↔
      List.Forall₂ (fun q normal => normalizeNode env q (nodes q)=.ok (normal,0))
        queries normals := by
  rw [normalizeNodes_nodewise,eachBranch_pairs]
  simp [normalizeNode_nodewise]

end Budgets

section Alternatives

variable {env : QueryEnv} {t : StoryTables} {locale : String}

theorem accepted_iff : Accepted env t locale q normal ↔
    normalizeRequest env.toRuntimeEnv { criteria := q }=.ok normal ∧
      StoryQueries.validateReferences t.tags normal.criteria=.ok () := by
  constructor
  · rintro ⟨sql,args,h⟩
    exact ⟨(matching_ok h).1,(matching_ok h).2.1⟩
  · rintro ⟨hnormal,hreferences⟩
    unfold Accepted matching
    rw [hnormal]
    change ∃ sql args, (StoryQueries.validateReferences t.tags normal.criteria >>= _)=
      .ok (normal,sql,args)
    rw [bind_of_ok hreferences]
    exact ⟨_,_,rfl⟩

/-- The references of alternatives exist when those of each do. -/
theorem validateBranches_iff {tags : TagRows.TagTables} {queries : List Query} :
    StoryQueries.validateBranches tags queries=.ok () ↔
      ∀ q ∈ queries, StoryQueries.validateReferences tags q=.ok () := by
  induction queries with
  | nil => exact ⟨fun _ => List.forall_mem_nil _,fun _ => rfl⟩
  | cons q queries ih =>
    rw [StoryQueries.validateBranches,List.forall_mem_cons,←ih]
    constructor
    · intro h
      obtain ⟨⟨⟩,hq,h⟩ := exceptBind_ok.mp h
      exact ⟨hq,h⟩
    · rintro ⟨hq,hrest⟩
      rw [bind_of_ok hq]
      exact hrest

theorem alternatives_accepted (hempty : env.normalizeRuntime ""=.ok "")
    (hbudget : nodes (.node {} criteria) ≤ maxNodes)
    (h : List.Forall₂ (Accepted env t locale) criteria normals) :
    Accepted env t locale (.node {} criteria)
      (plain (.node {} (normals.map (·.criteria)))) := by
  have hall : List.Forall₂ (fun q normal =>
      normalizeNode env.toRuntimeEnv q (nodes q)=.ok (normal,0)) criteria
        (normals.map (·.criteria)) := by
    rw [List.forall₂_map_right_iff]
    refine h.imp fun q normal hq => ?_
    obtain ⟨q',rfl,-,hnormal⟩ := normalizeRequest_plain.mp (accepted_iff.mp hq).1
    exact hnormal
  have hreferences : StoryQueries.validateReferences t.tags
      (.node {} (normals.map (·.criteria)))=.ok () := by
    have hbranches : StoryQueries.validateBranches t.tags (normals.map (·.criteria))=.ok () := by
      rw [validateBranches_iff,List.forall_mem_map]
      intro normal hnormal
      clear hall
      induction h with
      | nil => exact absurd hnormal List.not_mem_nil
      | cons hfirst hrest ih =>
        cases List.mem_cons.mp hnormal with
        | inl he => exact he ▸ (accepted_iff.mp hfirst).2
        | inr hmem =>
          refine ih ?_ hmem
          rw [nodes,nodesOf] at hbudget
          rw [nodes]
          omega
    rw [StoryQueries.validateReferences,bind_of_ok hbranches]
    rfl
  refine accepted_iff.mpr ⟨normalizeRequest_plain.mpr ⟨_,rfl,hbudget,?_⟩,hreferences⟩
  have hown : runtimeOwn env.toRuntimeEnv {}=.ok {} := by
    rw [runtimeOwn,bind_of_ok hempty]
    rfl
  obtain ⟨-,hbranches⟩ := normalizeNodes_nodewise _ |>.mp (normalizeNodes_iff.mpr hall)
  exact normalizeNode_nodewise _ |>.mpr ⟨rfl,eachNode_ok.mpr ⟨_,_,
    requestOwn_ok.mpr ⟨⟨rfl,rfl,rfl⟩,hown⟩,hbranches,rfl⟩⟩

theorem branches_accepted {branches : List Query} (hbudget : nodesOf criteria ≤ maxNodes)
    (hbranch : ∀ q ∈ branches, StoryQueries.validateReferences t.tags q=.ok ())
    (h : List.Forall₂ (fun q normal =>
      normalizeNode env.toRuntimeEnv q (nodes q)=.ok (normal,0)) criteria branches) :
    List.Forall₂ (Accepted env t locale) criteria (branches.map plain) := by
  rw [List.forall₂_map_right_iff]
  induction h with
  | nil => exact .nil
  | cons hfirst hrest ih =>
    rw [nodesOf] at hbudget
    refine .cons ?_ (ih (by omega) fun q hq => hbranch q (List.mem_cons_of_mem _ hq))
    refine accepted_iff.mpr ⟨normalizeRequest_plain.mpr ⟨_,rfl,by omega,hfirst⟩,?_⟩
    exact hbranch _ List.mem_cons_self

theorem accepted_alternatives (h : Accepted env t locale (.node {} criteria) normal) :
    ∃ normals, List.Forall₂ (Accepted env t locale) criteria normals := by
  obtain ⟨hnormal,hreferences⟩ := accepted_iff.mp h
  obtain ⟨q',rfl,hbudget,hnode⟩ := normalizeRequest_plain.mp hnormal
  obtain ⟨-,hnode⟩ := normalizeNode_nodewise _ |>.mp hnode
  obtain ⟨own,branches,-,hbranches,rfl⟩ := eachNode_ok.mp hnode
  have hall := normalizeNodes_iff.mp (normalizeNodes_nodewise _ |>.mpr ⟨rfl,hbranches⟩)
  rw [nodes] at hbudget
  change StoryQueries.validateReferences t.tags (.node own branches)=.ok () at hreferences
  rw [StoryQueries.validateReferences] at hreferences
  obtain ⟨⟨⟩,hbranch,-⟩ := exceptBind_ok.mp hreferences
  exact ⟨branches.map plain,branches_accepted (by omega) (validateBranches_iff.mp hbranch) hall⟩

theorem someHolds_iff {queries : List Query} :
    SomeHolds t locale row queries ↔ ∃ q ∈ queries, Holds t locale row q := by
  induction queries with
  | nil => simp [SomeHolds]
  | cons q queries ih => simp [SomeHolds,ih]

theorem matchingRows_alternatives (hsome : normals≠[]) :
    matchingRows t locale (.node {} (normals.map (·.criteria))) none=
      unionRows t locale normals := by
  have hown : ∀ row, OwnHolds t locale row {} := fun row =>
    ⟨.inl rfl,.inl rfl,.inl rfl,List.forall_mem_nil _,List.forall_mem_nil _⟩
  have hholds : ∀ row, Holds t locale row (.node {} (normals.map (·.criteria))) ↔
      ∃ normal ∈ normals, Holds t locale row normal.criteria := by
    intro row
    rw [Holds,someHolds_iff,List.map_eq_nil_iff]
    simp [hown row,hsome]
  unfold matchingRows unionRows
  refine List.filter_congr fun row _ => ?_
  have hasked : Asked none row := fun uuids he => nomatch he
  exact decide_eq_decide.mpr ((and_iff_left hasked).trans (hholds row))

theorem count_alternatives (ht : Keyed t) (hempty : env.normalizeRuntime ""=.ok "")
    (hsome : criteria≠[]) (hbudget : nodes (.node {} criteria) ≤ maxNodes) (n : ℤ) :
    countUnion env t criteria locale=.ok n ↔
      count env t { criteria := .node {} criteria } locale=.ok n := by
  have hcount : ∀ {normals}, List.Forall₂ (Accepted env t locale) criteria normals →
      count env t { criteria := .node {} criteria } locale=
        .ok (unionRows t locale normals).length := by
    intro normals h
    obtain ⟨sql,args,hmatching⟩ := alternatives_accepted hempty hbudget h
    have hnormals : normals≠[] := by
      rintro rfl
      exact hsome (List.forall₂_nil_right_iff.mp h)
    rw [count_eq ht hmatching,length_orderedStories]
    change Except.ok ((matchingRows t locale (.node {} (normals.map (·.criteria))) none).length :
      ℤ)=_
    rw [matchingRows_alternatives hnormals]
  constructor
  · intro h
    obtain ⟨normals,hnormals⟩ := accepted_of_countUnion h
    rw [countUnion_accepted ht hsome hnormals] at h
    rw [hcount hnormals,h]
  · intro h
    obtain ⟨⟨normal,sql,args⟩,hmatching,-⟩ := exceptBind_ok.mp h
    obtain ⟨normals,hnormals⟩ := accepted_alternatives ⟨sql,args,hmatching⟩
    rw [hcount hnormals] at h
    rw [countUnion_accepted ht hsome hnormals,h]

end Alternatives

section Selections

variable {codec : CodecEnv} {queries : QueryEnv} {locale : String}

theorem selectedFrom_ready (ids : List ℤ) {sources chosen : List (Collection×Query)}
    {t t' : LibraryTables} (h : (selectedFrom codec ids sources).run t=.ok (.ready chosen,t')) :
    chosen.map (·.1.id)=sources.map (·.1.id)++ids ∧ t'.storyTables=t.storyTables := by
  induction ids generalizing sources t with
  | nil =>
    cases h
    exact ⟨(List.append_nil _).symm,rfl⟩
  | cons id ids ih =>
    obtain ⟨⟨inspection,next⟩,hinspect,h⟩ := exceptBind_ok.mp h
    obtain ⟨hid,-,hstories⟩ := inspectIn_keeps hinspect
    dsimp only at h
    by_cases hopen : inspection.isOpenable=false
    · rw [if_pos hopen] at h
      cases h
    · rw [if_neg hopen] at h
      cases hq : inspection.query with
      | none =>
        rw [hq] at h
        cases h
      | some q =>
        rw [hq] at h
        obtain ⟨hchosen,hkept⟩ := ih h
        refine ⟨?_,hkept.trans hstories⟩
        rw [hchosen,List.map_append,List.append_assoc,List.map_singleton,hid]
        rfl

theorem countSources_ok {t : StoryTables} (ht : Keyed t) {chosen : List (Collection×Query)}
    (haccepted : List.Forall₂ (Accepted queries t locale) (chosen.map (·.2)) normals)
    {sources sources' : List SelectedSource} {total total' : ℤ}
    (h : countSources queries t locale chosen sources total=.ok (sources',total')) :
    sources'.map (·.collection)=sources.map (·.collection)++chosen.map (·.1) ∧
      sources'.map (·.count)=sources.map (·.count)++
        normals.map (fun normal => ((matchedIds t locale normal).toFinset.card : ℤ)) ∧
      total'=total+(normals.map fun normal => (matchedIds t locale normal).toFinset.card).sum := by
  induction chosen generalizing normals sources total with
  | nil =>
    cases h
    cases haccepted
    exact ⟨(List.append_nil _).symm,(List.append_nil _).symm,(Int.add_zero _).symm⟩
  | cons source chosen ih =>
    obtain ⟨collection,q⟩ := source
    cases haccepted with
    | @cons _ normal _ normals hfirst hrest =>
      obtain ⟨sql,args,hmatching⟩ := hfirst
      have hcount : count queries t { criteria := q } locale=
          .ok (matchedIds t locale normal).toFinset.card := by
        rw [count_eq ht hmatching,length_orderedStories,
          List.toFinset_card_of_nodup (nodup_matchedIds ht normal),matchedIds,List.length_map]
      rw [countSources,bind_of_ok hcount] at h
      by_cases hfits : total+(matchedIds t locale normal).toFinset.card<2^63
      · rw [if_pos hfits] at h
        obtain ⟨hcollections,hcounts,htotal⟩ := ih hrest h
        refine ⟨?_,?_,?_⟩
        · rw [hcollections,List.map_append,List.append_assoc]
          rfl
        · rw [hcounts,List.map_append,List.append_assoc]
          rfl
        · rw [htotal,List.map_cons,List.sum_cons]
          push_cast
          omega
      · rw [if_neg hfits] at h
        cases h

/-- What the preview of a selection shows. -/
structure Previewed (queries : QueryEnv) (t : StoryTables) (locale : String) (ids : List ℤ)
    (preview : SelectionPreview) (normals : List QueryRequest) : Prop where
  collections : preview.sources.map (·.collection.id)=ids
  criteria : ∃ criteria, preview.criteria=.node {} criteria ∧
    List.Forall₂ (Accepted queries t locale) criteria normals
  counts : preview.sources.map (·.count)=
    normals.map fun normal => ((matchedIds t locale normal).length : ℤ)
  /-- The stories of all sources are counted once. -/
  unique : preview.uniqueCount=(unionRows t locale normals).length
  overlap : preview.overlapCount=(preview.sources.map (·.count)).sum-preview.uniqueCount
  /-- It is not negative. -/
  nonneg : 0≤preview.overlapCount
  /-- It is zero exactly when no story matches two of the sources. -/
  disjoint : preview.overlapCount=0 ↔ normals.Pairwise fun a b =>
    ∀ id ∈ matchedIds t locale a, id ∉ matchedIds t locale b

theorem previewSelection_previewed {ids : List ℤ} {t t' : LibraryTables} (ht : Keyed t.storyTables)
    {preview : SelectionPreview}
    (h : (previewSelection codec queries ids locale).run t=.ok (.ready preview,t')) :
    t'.storyTables=t.storyTables ∧
      ∃ normals, Previewed queries t.storyTables locale ids preview normals := by
  obtain ⟨⟨found,next⟩,hselected,h⟩ := exceptBind_ok.mp h
  cases found with
  | needsAttention inspection => cases h
  | ready chosen =>
    obtain ⟨⟨⟩,-,hselected⟩ := exceptBind_ok.mp hselected
    obtain ⟨hids,hstories⟩ := selectedFrom_ready ids hselected
    dsimp only at h
    rw [hstories] at h
    obtain ⟨n,hunique,h⟩ := exceptBind_ok.mp h
    obtain ⟨⟨sources,total⟩,hsources,h⟩ := exceptBind_ok.mp h
    cases h
    obtain ⟨normals,haccepted⟩ := accepted_of_countUnion hunique
    have hsome : chosen.map (·.2)≠[] := by
      intro hempty
      rw [countUnion,if_pos hempty] at hunique
      cases hunique
    have hn := (countUnion_accepted ht hsome haccepted).symm.trans hunique
    have hn : ((unionRows t.storyTables locale normals).length : ℤ)=n := Except.ok.inj hn
    obtain ⟨hcollections,hcounts,htotal⟩ := countSources_ok ht haccepted hsources
    rw [List.map_nil,List.nil_append] at hcollections hcounts
    rw [Int.zero_add] at htotal
    have hcard : ∀ normal, (matchedIds t.storyTables locale normal).toFinset.card=
        (matchedIds t.storyTables locale normal).length := fun normal =>
      List.toFinset_card_of_nodup (nodup_matchedIds ht normal)
    have hunion := card_unionOf (normals.map fun normal =>
      (matchedIds t.storyTables locale normal).toFinset)
    rw [List.map_map,←length_unionRows ht,List.pairwise_map] at hunion
    have hsum : total=(normals.map (Finset.card ∘ fun normal =>
        (matchedIds t.storyTables locale normal).toFinset)).sum := htotal
    refine ⟨hstories,normals,?_⟩
    constructor
    case collections =>
      change sources.map (·.collection.id)=ids
      rw [List.map_nil,List.nil_append] at hids
      have hcollected := congrArg (List.map fun collection : Collection => collection.id)
        hcollections
      rw [List.map_map,List.map_map] at hcollected
      exact hcollected.trans hids
    case criteria => exact ⟨_,rfl,haccepted⟩
    case counts =>
      change sources.map (·.count)=_
      rw [hcounts]
      exact List.map_congr_left fun normal _ => congrArg Nat.cast (hcard normal)
    case unique => exact hn.symm
    case overlap =>
      change total-n=(sources.map (·.count)).sum-n
      rw [hcounts,htotal,Nat.cast_list_sum,List.map_map]
      rfl
    case nonneg =>
      change 0≤total-n
      omega
    case disjoint =>
      change total-n=0 ↔ _
      have hiff : total-n=0 ↔ (unionRows t.storyTables locale normals).length=
          (normals.map (Finset.card ∘ fun normal =>
            (matchedIds t.storyTables locale normal).toFinset)).sum := by omega
      rw [hiff,hunion.2]
      refine List.Pairwise.iff fun {a b} => ?_
      rw [Finset.disjoint_left]
      simp only [List.mem_toFinset]

/-- A union is counted exactly: its count is the number of distinct stories that match one of its
queries, and that of the query of its alternatives when it fits the budget. The overlap of a
selection is the sum of the counts without the count of the union; it is never negative, and zero
exactly when no two sources share a story. -/
theorem union_counts_exact (codec : CodecEnv) (queries : QueryEnv) (l : LibraryTables)
    (ht : Keyed l.storyTables) (locale : String) :
    (∀ criteria, criteria≠[] → ∀ n, countUnion queries l.storyTables criteria locale=.ok n ↔
      ∃ normals, List.Forall₂ (Accepted queries l.storyTables locale) criteria normals ∧
        n=(unionRows l.storyTables locale normals).length) ∧
    (queries.normalizeRuntime ""=.ok "" → ∀ criteria, criteria≠[] →
      nodes (.node {} criteria) ≤ maxNodes →
        ∀ n, countUnion queries l.storyTables criteria locale=.ok n ↔
          count queries l.storyTables { criteria := .node {} criteria } locale=.ok n) ∧
    ∀ ids preview l', (previewSelection codec queries ids locale).run l=.ok (.ready preview,l') →
      ∃ normals, Previewed queries l.storyTables locale ids preview normals := by
  refine ⟨fun criteria hsome n => ⟨fun h => ?_,?_⟩,?_,?_⟩
  · obtain ⟨normals,hnormals⟩ := accepted_of_countUnion h
    refine ⟨normals,hnormals,Except.ok.inj (h.symm.trans ?_)⟩
    exact countUnion_accepted ht hsome hnormals
  · rintro ⟨normals,hnormals,rfl⟩
    exact countUnion_accepted ht hsome hnormals
  · exact fun hempty criteria hsome hbudget n => count_alternatives ht hempty hsome hbudget n
  · exact fun ids preview l' h => (previewSelection_previewed ht h).2

/-- Two queries over the tagged library are counted as the query of both. -/
theorem union_counts_exact_tagged :
    countUnion plainQueries taggedLibrary.storyTables [.node {} [],.node {} []] "fr-FR"=.ok 1 ↔
      count plainQueries taggedLibrary.storyTables
        { criteria := .node {} [.node {} [],.node {} []] } "fr-FR"=.ok 1 :=
  (union_counts_exact SavedQueryRoundTrip.plainEnv plainQueries taggedLibrary
    ⟨keyed_oneStory.stories,keyed_oneStory.archives,keyed_oneStory.metadata,
      keyed_oneStory.counted⟩ "fr-FR").2.1 rfl _ (List.cons_ne_nil _ _) (by decide) 1

end Selections

end Librairii.UnionCounts
