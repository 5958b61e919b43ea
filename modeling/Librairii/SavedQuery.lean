import Librairii.CheckedResults
import Librairii.WireParser

/-!
# Saved queries and their canonical passes

A saved query is a tree of nodes. Encoding and decoding drop ignored Boolean
filters, normalize every node under a budget of fifty nodes, sort the filters,
and repeat the whole pass on every branch. On a query whose names and languages
are already normalized all these passes together compute one canonical tree.
-/

namespace Librairii.SavedQuery

open CheckedResults WireParser

/-- A 64-bit signed integer. -/
abbrev I64 := {n : ℤ // -2^63≤n ∧ n<2^63}

instance : LinearOrder I64 := @Subtype.instLinearOrder ℤ Int.instLinearOrder _

instance (a b : I64) : Decidable (a≤b) := inferInstanceAs (Decidable (a.val≤b.val))

instance : LawfulBEq I64 := inferInstance

/-- One fits in 64 bits. -/
theorem one_bounds : -2^63≤(1 : ℤ) ∧ (1 : ℤ)<2^63 := by decide

def zero : I64 := ⟨0,by decide⟩

/-- A filter on the presence of a valueless definition. -/
structure BooleanFilter where
  definitionId : I64 := zero
  state : String := ""
  deriving DecidableEq

/-- A filter on the assigned value of a definition. -/
structure ChoiceFilter where
  definitionId : I64 := zero
  valueIds : List I64 := []
  deriving DecidableEq

/-- The fields of one query node besides its branches. -/
structure Membership where
  brokenVisibility : String := ""
  brokenState : String := ""
  includeBroken : Bool := false
  name : String := ""
  languages : List String := []
  compatibilities : List String := []
  booleanFilters : List BooleanFilter := []
  choiceFilters : List ChoiceFilter := []
  deriving DecidableEq

/-- A query node: its own fields and the branches of `anyOf`. -/
inductive Query where
  | node (own : Membership) (anyOf : List Query)

/-- The frozen normalizers the passes call. -/
structure NormalEnv where
  /-- Frozen name normalization. -/
  normalize : String → Except CodecError String
  canonicalLanguage : String → Except CodecError String

def maxNodes : ℕ := 50

def budget (remaining : ℕ) : Except CodecError ℕ :=
  if remaining=0 then .error .invalid else .ok (remaining-1)

/-- Boolean filters name positive definitions, and deciding ones distinct
definitions. Returns the definitions seen. -/
def booleanReferences : List BooleanFilter → List I64 → Except CodecError (List I64)
  | [],ids => .ok ids
  | f::filters,ids =>
    if f.definitionId.val≤0 ∨ f.state ∉ ["ignored","true","false"] then .error .invalid
    else if f.state≠"ignored" then
      if f.definitionId ∈ ids then .error .invalid
      else booleanReferences filters (f.definitionId::ids)
    else booleanReferences filters ids

/-- Choice filters name further positive definitions and positive values. -/
def choiceReferences : List ChoiceFilter → List I64 → Except CodecError (List I64)
  | [],ids => .ok ids
  | f::filters,ids =>
    if f.definitionId.val≤0 ∨ f.valueIds=[] ∨ (f.valueIds.any fun v => v.val≤0) ∨
        f.definitionId ∈ ids then .error .invalid
    else choiceReferences filters (f.definitionId::ids)

def retiredFields (own : Membership) (current : Bool) : Bool :=
  own.brokenVisibility ∈ ["","hide","include","only"] &&
    own.brokenState ∈ ["","ignored","true","false"] &&
    !(current && (own.includeBroken || own.brokenVisibility≠"" || own.brokenState≠""))

mutual

/-- Check the retired fields and the references of every node under a budget,
and return what is left of it. -/
def validateReferences : Query → ℕ → Bool → Except CodecError ℕ
  | .node own anyOf,remaining,current => do
    let remaining ← budget remaining
    if retiredFields own current=false then .error .invalid
    else do
      let ids ← booleanReferences own.booleanFilters []
      let _ ← choiceReferences own.choiceFilters ids
      validateBranches anyOf remaining current

def validateBranches : List Query → ℕ → Bool → Except CodecError ℕ
  | [],remaining,_ => .ok remaining
  | branch::branches,remaining,current => do
    let remaining ← validateReferences branch remaining current
    validateBranches branches remaining current

end

mutual

/-- Drop what an older version retired. -/
def retire (version legacyId : I64) : Query → Query
  | .node own anyOf =>
    let own := if version.val<4 ∧ 0<legacyId.val then
      { own with booleanFilters := own.booleanFilters.filter fun f => f.definitionId≠legacyId }
      else own
    let own := if version.val<5 then
      { own with includeBroken := false, brokenVisibility := "", brokenState := "" }
      else own
    .node own (retireBranches version legacyId anyOf)

def retireBranches (version legacyId : I64) : List Query → List Query
  | [] => []
  | branch::branches => retire version legacyId branch::retireBranches version legacyId branches

end

/-- Remove adjacent repetitions. -/
def dedup {α : Type} [DecidableEq α] : List α → List α
  | [] => []
  | [a] => [a]
  | a::b::rest => if a=b then dedup (b::rest) else a::dedup (b::rest)

/-- Keep the first occurrence of every element not seen before. -/
def retainFirst {α : Type} [DecidableEq α] : List α → List α → List α
  | _,[] => []
  | seen,a::rest => if a ∈ seen then retainFirst seen rest else a::retainFirst (a::seen) rest

/-- Limit the raw values of a choice, then keep each value once. -/
def normalizeChoice (f : ChoiceFilter) : Except CodecError ChoiceFilter :=
  if 100<f.valueIds.length then .error .invalid
  else .ok { f with valueIds := retainFirst [] f.valueIds }

def groups (own : Membership) : ℕ :=
  own.booleanFilters.length+own.choiceFilters.length+
    (if own.languages=[] then 0 else 1)+(if own.compatibilities=[] then 0 else 1)

/-- The admitted compatibilities. -/
def compatibilityNames : List String := ["compatible","missing","invalid"]

section Passes

variable (env : NormalEnv)

def normalizeOwn (own : Membership) : Except CodecError Membership := do
  let name ← env.normalize own.name
  if 200<name.length ∨ 50<groups own ∨ 100<own.languages.length ∨
      3<own.compatibilities.length then .error .invalid
  else do
    let languages ← own.languages.mapM env.canonicalLanguage
    if own.compatibilities.any (· ∉ compatibilityNames) then .error .invalid
    else do
      let choiceFilters ← own.choiceFilters.mapM normalizeChoice
      .ok { own with
        name := name
        languages := dedup (languages.insertionSort (·≤·))
        compatibilities := dedup (own.compatibilities.insertionSort (·≤·))
        choiceFilters := choiceFilters }

mutual

def normalizeTree : Query → ℕ → Except CodecError (Query×ℕ)
  | .node own anyOf,remaining => do
    let remaining ← budget remaining
    let (anyOf,remaining) ← normalizeBranches anyOf remaining
    let own ← normalizeOwn env own
    .ok (.node own anyOf,remaining)

def normalizeBranches : List Query → ℕ → Except CodecError (List Query×ℕ)
  | [],remaining => .ok ([],remaining)
  | branch::branches,remaining => do
    let (branch,remaining) ← normalizeTree branch remaining
    let (branches,remaining) ← normalizeBranches branches remaining
    .ok (branch::branches,remaining)

end

def dropIgnored (own : Membership) : Membership :=
  { own with booleanFilters := own.booleanFilters.filter fun f => f.state≠"ignored" }

def sortFilters (own : Membership) : Membership :=
  { own with
    booleanFilters :=
      own.booleanFilters.insertionSort fun f g => f.definitionId≤g.definitionId
    choiceFilters :=
      (own.choiceFilters.insertionSort fun f g => f.definitionId≤g.definitionId).map fun f =>
        { f with valueIds := f.valueIds.insertionSort (·≤·) } }

mutual

/-- Canonical membership of every node, branches first: after its branches a
node is normalized as a whole tree under a fresh budget. -/
def canonicalMembership : Query → ℕ → Except CodecError (Query×ℕ)
  | .node own anyOf,remaining => do
    let remaining ← budget remaining
    let (anyOf,remaining) ← membershipBranches anyOf remaining
    let (.node own anyOf,_) ← normalizeTree env (.node (dropIgnored own) anyOf) maxNodes
    .ok (.node (sortFilters own) anyOf,remaining)

def membershipBranches : List Query → ℕ → Except CodecError (List Query×ℕ)
  | [],remaining => .ok ([],remaining)
  | branch::branches,remaining => do
    let (branch,remaining) ← canonicalMembership branch remaining
    let (branches,remaining) ← membershipBranches branches remaining
    .ok (branch::branches,remaining)

end

end Passes

mutual

def nodes : Query → ℕ
  | .node _ anyOf => nodesOf anyOf+1

def nodesOf : List Query → ℕ
  | [] => 0
  | branch::branches => nodes branch+nodesOf branches

end

/-- Every query has its own node. -/
theorem nodes_pos (q : Query) : 0<nodes q := by
  cases q with
  | node own anyOf => exact Nat.succ_pos _

section Shape

variable {env : NormalEnv}

mutual

theorem normalizeTree_nodes : ∀ (q : Query) {remaining : ℕ} {q' : Query} {left : ℕ},
    normalizeTree env q remaining=.ok (q',left) → nodes q'=nodes q
  | .node own anyOf,remaining,q',left,h => by
    rw [normalizeTree] at h
    obtain ⟨r,-,h⟩ := exceptBind_ok.mp h
    obtain ⟨⟨anyOf',r'⟩,hb,h⟩ := exceptBind_ok.mp h
    obtain ⟨own',-,h⟩ := exceptBind_ok.mp h
    cases h
    have hn := normalizeBranches_nodes anyOf hb
    rw [nodes,nodes,hn]

theorem normalizeBranches_nodes : ∀ (branches : List Query) {remaining : ℕ}
    {branches' : List Query} {left : ℕ},
    normalizeBranches env branches remaining=.ok (branches',left) →
      nodesOf branches'=nodesOf branches
  | [],remaining,branches',left,h => by
    rw [normalizeBranches] at h
    cases h
    rfl
  | branch::branches,remaining,branches',left,h => by
    rw [normalizeBranches] at h
    obtain ⟨⟨b',r⟩,hb,h⟩ := exceptBind_ok.mp h
    obtain ⟨⟨bs',r'⟩,hbs,h⟩ := exceptBind_ok.mp h
    cases h
    have h1 := normalizeTree_nodes branch hb
    have h2 := normalizeBranches_nodes branches hbs
    rw [nodesOf,nodesOf,h1,h2]

end

mutual

theorem canonicalMembership_nodes : ∀ (q : Query) {remaining : ℕ} {q' : Query} {left : ℕ},
    canonicalMembership env q remaining=.ok (q',left) → nodes q'=nodes q
  | .node own anyOf,remaining,q',left,h => by
    rw [canonicalMembership] at h
    obtain ⟨r,-,h⟩ := exceptBind_ok.mp h
    obtain ⟨⟨anyOf',r'⟩,hb,h⟩ := exceptBind_ok.mp h
    obtain ⟨⟨⟨own'',anyOf''⟩,r''⟩,ht,h⟩ := exceptBind_ok.mp h
    cases h
    have hn := membershipBranches_nodes anyOf hb
    have htree := normalizeTree_nodes _ ht
    rw [nodes,nodes] at htree
    rw [nodes,nodes]
    omega

theorem membershipBranches_nodes : ∀ (branches : List Query) {remaining : ℕ}
    {branches' : List Query} {left : ℕ},
    membershipBranches env branches remaining=.ok (branches',left) →
      nodesOf branches'=nodesOf branches
  | [],remaining,branches',left,h => by
    rw [membershipBranches] at h
    cases h
    rfl
  | branch::branches,remaining,branches',left,h => by
    rw [membershipBranches] at h
    obtain ⟨⟨b',r⟩,hb,h⟩ := exceptBind_ok.mp h
    obtain ⟨⟨bs',r'⟩,hbs,h⟩ := exceptBind_ok.mp h
    cases h
    have h1 := canonicalMembership_nodes branch hb
    have h2 := membershipBranches_nodes branches hbs
    rw [nodesOf,nodesOf,h1,h2]

end

end Shape

mutual

/-- The whole canonical pass: canonical membership under a fresh budget, then
the whole pass again on every branch. -/
def canonicalSaved (env : NormalEnv) (q : Query) : Except CodecError Query :=
  match h : canonicalMembership env q maxNodes with
  | .error e => .error e
  | .ok (.node own anyOf,_) =>
    have : 2*nodesOf anyOf+1<2*nodes q := by
      have hn := canonicalMembership_nodes q h
      rw [nodes] at hn
      omega
    (savedBranches env anyOf).map (.node own)
  termination_by 2*nodes q

/-- The whole canonical pass on the branches one after the other. -/
def savedBranches (env : NormalEnv) (branches : List Query) : Except CodecError (List Query) :=
  match branches with
  | [] => .ok []
  | branch::branches =>
    have : 2*nodes branch<2*nodesOf (branch::branches)+1 := by
      rw [nodesOf]
      omega
    have : 2*nodesOf branches+1<2*nodesOf (branch::branches)+1 := by
      have hp := nodes_pos branch
      rw [nodesOf]
      omega
    do
      let branch ← canonicalSaved env branch
      let branches ← savedBranches env branches
      .ok (branch::branches)
  termination_by 2*nodesOf branches+1

end

theorem canonicalSaved_steps (env : NormalEnv) (q : Query) : canonicalSaved env q=(do
    let (.node own anyOf,_) ← canonicalMembership env q maxNodes
    (savedBranches env anyOf).map (.node own)) := by
  rw [canonicalSaved]
  split
  · next e h =>
    rw [h]
    rfl
  · next own anyOf left h =>
    change (savedBranches env anyOf).map (Query.node own)=_
    rw [bind_of_ok h]

end Librairii.SavedQuery
