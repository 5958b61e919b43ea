import Librairii.NodeChanges

/-!
# Query requests and their runtime normalization

A request is a query with navigation: page, page size and sort. One runtime
pass rejects retired fields, takes one node from a budget of fifty, normalizes
the branches, then the navigation of the root, then the fields of the node.
-/

namespace Librairii.QueryRequests

open CheckedResults SavedQuery CanonicalQuery NodeChanges
open WireParser hiding members

/-- Why a request is refused. -/
inductive QueryInputError where
  | invalidQuery
  | frozenData
  | resourceOverflow
  deriving DecidableEq

/-- A query with its navigation. -/
structure QueryRequest where
  criteria : Query := .node {} []
  page : I64 := zero
  pageSize : I64 := zero
  sort : String := ""

/-- The frozen normalizers the runtime pass calls. -/
structure RuntimeEnv where
  /-- Frozen name normalization with input-derived buffer bounds. -/
  normalizeRuntime : String → Except QueryInputError String
  canonicalLanguage : String → Except CodecError String

/-- A refused language is an invalid query unless a frozen table is corrupt. -/
def languageError : CodecError → QueryInputError
  | .frozenData => .frozenData
  | _ => .invalidQuery

def firstPage : I64 := ⟨1,one_bounds⟩

def defaultPageSize : I64 := ⟨24,by decide⟩

def sortNames : List String := ["name_asc","imported_desc"]

def normalizeNavigation (page pageSize : I64) (sort : String) :
    Except QueryInputError (I64×I64×String) :=
  let page := if page=zero then firstPage else page
  let pageSize := if pageSize=zero then defaultPageSize else pageSize
  let sort := if sort="" then "name_asc" else sort
  if page.val<1 ∨ ¬(1≤pageSize.val ∧ pageSize.val≤100) ∨ sort ∉ sortNames then
    .error .invalidQuery
  else .ok (page,pageSize,sort)

/-- Boolean filters name distinct positive definitions with known states. -/
def runtimeBooleans : List BooleanFilter → List I64 → Except QueryInputError (List I64)
  | [],definitions => .ok definitions
  | f::filters,definitions =>
    if f.definitionId.val≤0 ∨ f.state ∉ ["ignored","true","false"] ∨
        f.definitionId ∈ definitions then .error .invalidQuery
    else runtimeBooleans filters (f.definitionId::definitions)

/-- Choice filters name further definitions and positive values, each kept once. -/
def runtimeChoices : List ChoiceFilter → List I64 → Except QueryInputError (List ChoiceFilter)
  | [],_ => .ok []
  | f::filters,definitions =>
    if f.definitionId.val≤0 ∨ f.valueIds=[] ∨ 100<f.valueIds.length ∨
        f.definitionId ∈ definitions then .error .invalidQuery
    else if f.valueIds.any fun v => v.val≤0 then .error .invalidQuery
    else do
      let rest ← runtimeChoices filters (f.definitionId::definitions)
      .ok ({ f with valueIds := retainFirst [] f.valueIds }::rest)

section Normalize

variable (env : RuntimeEnv)

/-- Normalize the fields of one node. -/
def runtimeOwn (own : Membership) : Except QueryInputError Membership := do
  let name ← env.normalizeRuntime own.name
  if 200<name.length ∨ 50<groups own ∨ 100<own.languages.length ∨
      3<own.compatibilities.length then .error .invalidQuery
  else do
    let languages ← (own.languages.mapM env.canonicalLanguage).mapError languageError
    if own.compatibilities.any (· ∉ compatibilityNames) then .error .invalidQuery
    else do
      let definitions ← runtimeBooleans own.booleanFilters []
      let choiceFilters ← runtimeChoices own.choiceFilters definitions
      .ok { own with
        name := name
        languages := dedup (languages.insertionSort (·≤·))
        compatibilities := dedup (own.compatibilities.insertionSort (·≤·))
        choiceFilters := choiceFilters }

/-- Retired fields are refused before the budget is touched. -/
def runtimeBudget (own : Membership) (remaining : ℕ) : Except QueryInputError ℕ :=
  if own.includeBroken=true ∨ own.brokenVisibility≠"" ∨ own.brokenState≠"" then
    .error .invalidQuery
  else if remaining=0 then .error .invalidQuery
  else .ok (remaining-1)

mutual

/-- Normalize a branch: its own branches first, then its fields. -/
def normalizeNode : Query → ℕ → Except QueryInputError (Query×ℕ)
  | .node own anyOf,remaining => do
    let remaining ← runtimeBudget own remaining
    let (anyOf,remaining) ← normalizeNodes anyOf remaining
    let own ← runtimeOwn env own
    .ok (.node own anyOf,remaining)

def normalizeNodes : List Query → ℕ → Except QueryInputError (List Query×ℕ)
  | [],remaining => .ok ([],remaining)
  | branch::branches,remaining => do
    let (branch,remaining) ← normalizeNode branch remaining
    let (branches,remaining) ← normalizeNodes branches remaining
    .ok (branch::branches,remaining)

end

/-- Normalize a request: the branches, then the navigation of the root, then the
fields of the root. -/
def normalizeRequest (request : QueryRequest) : Except QueryInputError QueryRequest :=
  match request.criteria with
  | .node own anyOf => do
    let remaining ← runtimeBudget own maxNodes
    let (anyOf,_) ← normalizeNodes env anyOf remaining
    let (page,pageSize,sort) ← normalizeNavigation request.page request.pageSize request.sort
    let own ← runtimeOwn env own
    .ok { criteria := .node own anyOf, page := page, pageSize := pageSize, sort := sort }

end Normalize

section Bounds

variable {env : RuntimeEnv}

/-- No retired field is set. -/
def Unretired (own : Membership) : Prop :=
  own.includeBroken=false ∧ own.brokenVisibility="" ∧ own.brokenState=""

instance (own : Membership) : Decidable (Unretired own) := inferInstanceAs (Decidable (_ ∧ _))

/-- A taken node has no retired field and leaves one less. -/
theorem runtimeBudget_ok {own : Membership} {remaining left : ℕ} :
    runtimeBudget own remaining=.ok left ↔ remaining=left+1 ∧ Unretired own := by
  have hretired : (own.includeBroken=true ∨ own.brokenVisibility≠"" ∨ own.brokenState≠"") ↔
      ¬Unretired own := by
    simp only [Unretired,not_and_or,Bool.not_eq_false,ne_eq]
  unfold runtimeBudget
  simp only [hretired]
  by_cases hown : Unretired own
  · rw [if_neg (not_not.mpr hown)]
    by_cases hr : remaining=0
    · simp [hr]
    · rw [if_neg hr,Except.ok.injEq]
      exact ⟨fun h => ⟨by omega,hown⟩,fun h => by omega⟩
  · simp [hown]

/-- The change of every node. -/
def requestOwn (env : RuntimeEnv) (own : Membership) : Except QueryInputError Membership :=
  if Unretired own then runtimeOwn env own else .error .invalidQuery

theorem requestOwn_ok {own own' : Membership} :
    requestOwn env own=.ok own' ↔ Unretired own ∧ runtimeOwn env own=.ok own' := by
  unfold requestOwn
  by_cases h : Unretired own <;> simp [h]

mutual

/-- A branch is normalized exactly when the budget covers it and every node is. -/
theorem normalizeNode_nodewise : ∀ (q : Query) {remaining left : ℕ} {q' : Query},
    normalizeNode env q remaining=.ok (q',left) ↔
      remaining=nodes q+left ∧ eachNode (fun _ => requestOwn env) q=.ok q'
  | .node own anyOf,remaining,left,q' => by
    rw [normalizeNode,nodes]
    simp only [exceptBind_ok,Except.ok.injEq,runtimeBudget_ok,Prod.exists,Prod.mk.injEq,eachNode_ok,
      requestOwn_ok,normalizeNodes_nodewise anyOf]
    constructor
    · rintro ⟨r,⟨hr,hown⟩,anyOf',r',⟨hr',hb⟩,own',ho,rfl,rfl⟩
      exact ⟨by omega,own',anyOf',⟨hown,ho⟩,hb,rfl⟩
    · rintro ⟨hr,own',anyOf',⟨hown,ho⟩,hb,rfl⟩
      exact ⟨nodesOf anyOf+left,⟨by omega,hown⟩,anyOf',left,⟨rfl,hb⟩,own',ho,rfl,rfl⟩

theorem normalizeNodes_nodewise : ∀ (branches : List Query) {remaining left : ℕ}
    {branches' : List Query}, normalizeNodes env branches remaining=.ok (branches',left) ↔
      remaining=nodesOf branches+left ∧ eachBranch (fun _ => requestOwn env) branches=.ok branches'
  | [],remaining,left,branches' => by
    rw [normalizeNodes,nodesOf,eachBranch_nil]
    grind
  | branch::branches,remaining,left,branches' => by
    rw [normalizeNodes,nodesOf,eachBranch_cons]
    simp only [exceptBind_ok,Except.ok.injEq,Prod.exists,Prod.mk.injEq,
      normalizeNode_nodewise branch,normalizeNodes_nodewise branches]
    constructor
    · rintro ⟨b,r,⟨hr,hb⟩,bs,r',⟨hr',hbs⟩,rfl,rfl⟩
      exact ⟨by omega,b,bs,hb,hbs,rfl⟩
    · rintro ⟨hr,b,bs,hb,hbs,rfl⟩
      exact ⟨b,nodesOf branches+left,⟨by omega,hb⟩,bs,left,⟨rfl,hbs⟩,rfl,rfl⟩

end

/-- A request is normalized exactly when it has at most fifty nodes, and its nodes and its
navigation are. -/
theorem normalizeRequest_ok {request normal : QueryRequest} :
    normalizeRequest env request=.ok normal ↔ nodes request.criteria ≤ maxNodes ∧
      eachNode (fun _ => requestOwn env) request.criteria=.ok normal.criteria ∧
      normalizeNavigation request.page request.pageSize request.sort=
        .ok (normal.page,normal.pageSize,normal.sort) := by
  obtain ⟨⟨own,anyOf⟩,page,pageSize,sort⟩ := request
  obtain ⟨criteria,page',pageSize',sort'⟩ := normal
  unfold normalizeRequest
  simp only [exceptBind_ok,Except.ok.injEq,runtimeBudget_ok,Prod.exists,eachNode_ok,requestOwn_ok,
    normalizeNodes_nodewise anyOf,QueryRequest.mk.injEq,nodes]
  constructor
  · rintro ⟨r,⟨hr,hown⟩,anyOf',r',⟨hr',hb⟩,p,s,o,hn,own',ho,rfl,rfl,rfl,rfl⟩
    exact ⟨by omega,⟨own',anyOf',⟨hown,ho⟩,hb,rfl⟩,hn⟩
  · rintro ⟨hmax,⟨own',anyOf',⟨hown,ho⟩,hb,rfl⟩,hn⟩
    exact ⟨maxNodes-1,⟨by omega,hown⟩,anyOf',maxNodes-1-nodesOf anyOf,⟨by omega,hb⟩,_,_,_,hn,
      own',ho,rfl,rfl,rfl,rfl⟩

theorem normalizeNavigation_ranges {page pageSize : I64} {sort : String} {x : I64×I64×String}
    (h : normalizeNavigation page pageSize sort=.ok x) :
    0≤page.val ∧ 0≤pageSize.val ∧ pageSize.val≤100 ∧
      sort ∈ ["","name_asc","imported_desc"] := by
  unfold normalizeNavigation at h
  dsimp only at h
  by_cases hrange : (if page=zero then firstPage else page).val<1 ∨
      ¬(1≤(if pageSize=zero then defaultPageSize else pageSize).val ∧
        (if pageSize=zero then defaultPageSize else pageSize).val≤100) ∨
      (if sort="" then "name_asc" else sort) ∉ sortNames
  · rw [if_pos hrange] at h
    cases h
  · rw [not_or,not_or,not_not,not_not] at hrange
    obtain ⟨hpage,hsize,hsort⟩ := hrange
    have hz : zero.val=0 := rfl
    refine ⟨?_,?_,?_,?_⟩
    · by_cases hp : page=zero
      · rw [hp,hz]
      · rw [if_neg hp] at hpage
        omega
    · by_cases hp : pageSize=zero
      · rw [hp,hz]
      · rw [if_neg hp] at hsize
        omega
    · by_cases hp : pageSize=zero
      · rw [hp,hz]
        decide
      · rw [if_neg hp] at hsize
        omega
    · by_cases hs : sort=""
      · rw [hs]
        exact List.mem_cons_self
      · rw [if_neg hs] at hsort
        exact List.mem_cons_of_mem _ hsort

theorem normalizeRequest_bounds {request normal : QueryRequest}
    (h : normalizeRequest env request=.ok normal) : nodes request.criteria ≤ maxNodes ∧
      0≤request.page.val ∧ 0≤request.pageSize.val ∧ request.pageSize.val≤100 ∧
      request.sort ∈ ["","name_asc","imported_desc"] := by
  obtain ⟨hmax,-,hn⟩ := normalizeRequest_ok.mp h
  exact ⟨hmax,normalizeNavigation_ranges hn⟩

end Bounds

end Librairii.QueryRequests
