import Librairii.NodeChanges

/-!
# What the canonical passes do to each node

The passes recurse into one another, but each of them changes every node by itself: a
node at some depth goes through one step for every pass that reaches it. A whole pass
succeeds exactly when the budget covers the tree and every node survives its own steps.
-/

namespace Librairii.PassSchedules

open CheckedResults SavedQuery CanonicalQuery NodeChanges
open WireParser hiding members

section Nodes

/-- What an older version retired in a node. -/
def retireOwn (version legacyId : I64) (own : Membership) : Membership :=
  let own := if version.val<4 ∧ 0<legacyId.val then
    { own with booleanFilters := own.booleanFilters.filter fun f => f.definitionId≠legacyId }
    else own
  if version.val<5 then
    { own with includeBroken := false, brokenVisibility := "", brokenState := "" }
  else own

mutual

theorem eachNode_retire (version legacyId : I64) : ∀ q : Query,
    eachNode (fun _ => .ok ∘ retireOwn version legacyId) q=
      (.ok (retire version legacyId q) : Except CodecError Query)
  | .node _ anyOf => eachNode_ok.mpr ⟨_,_,rfl,eachBranch_retire version legacyId anyOf,rfl⟩

theorem eachBranch_retire (version legacyId : I64) : ∀ branches : List Query,
    eachBranch (fun _ => .ok ∘ retireOwn version legacyId) branches=
      (.ok (retireBranches version legacyId branches) : Except CodecError (List Query))
  | [] => rfl
  | branch::branches =>
    eachBranch_cons.mpr ⟨_,_,eachNode_retire version legacyId branch,
      eachBranch_retire version legacyId branches,rfl⟩

end

mutual

/-- The nodes of a retired tree are those of the tree, retired. -/
theorem members_retire (version legacyId : I64) : ∀ q : Query,
    members (retire version legacyId q)=(members q).map (retireOwn version legacyId)
  | .node _ anyOf => congrArg (_::·) (membersOf_retire version legacyId anyOf)

theorem membersOf_retire (version legacyId : I64) : ∀ branches : List Query,
    membersOf (retireBranches version legacyId branches)=
      (membersOf branches).map (retireOwn version legacyId)
  | [] => rfl
  | branch::branches => by
    rw [retireBranches,membersOf,membersOf,List.map_append,members_retire version legacyId branch,
      membersOf_retire version legacyId branches]

end

end Nodes

section Passes

variable (env : NormalEnv)

/-- The steps of a node in canonical membership: its own, then one for each node above. -/
def memberPasses : ℕ → Membership → Except CodecError Membership
  | 0,own => (normalizeOwn env (dropIgnored own)).map sortFilters
  | d+1,own => memberPasses d own >>= normalizeOwn env

/-- The steps of a node in the whole pass: canonical membership from each node above on. -/
def savedPasses : ℕ → Membership → Except CodecError Membership
  | 0,own => memberPasses env 0 own
  | d+1,own => memberPasses env (d+1) own >>= savedPasses d

variable {env}

mutual

theorem normalizeTree_nodewise : ∀ (q : Query) {remaining left : ℕ} {q' : Query},
    normalizeTree env q remaining=.ok (q',left) ↔
      remaining=nodes q+left ∧ eachNode (fun _ => normalizeOwn env) q=.ok q'
  | .node own anyOf,remaining,left,q' => by
    rw [normalizeTree,nodes]
    simp only [exceptBind_ok,Except.ok.injEq,budget_ok,Prod.exists,Prod.mk.injEq,eachNode_ok,
      normalizeBranches_nodewise anyOf]
    constructor
    · rintro ⟨r,hr,anyOf',r',⟨hr',hb⟩,own',ho,rfl,rfl⟩
      exact ⟨by omega,own',anyOf',ho,hb,rfl⟩
    · rintro ⟨hr,own',anyOf',ho,hb,rfl⟩
      exact ⟨nodesOf anyOf+left,by omega,anyOf',left,⟨rfl,hb⟩,own',ho,rfl,rfl⟩

theorem normalizeBranches_nodewise : ∀ (branches : List Query) {remaining left : ℕ}
    {branches' : List Query}, normalizeBranches env branches remaining=.ok (branches',left) ↔
      remaining=nodesOf branches+left ∧
        eachBranch (fun _ => normalizeOwn env) branches=.ok branches'
  | [],remaining,left,branches' => by
    rw [normalizeBranches,nodesOf,eachBranch_nil]
    grind
  | branch::branches,remaining,left,branches' => by
    rw [normalizeBranches,nodesOf,eachBranch_cons]
    simp only [exceptBind_ok,Except.ok.injEq,Prod.exists,Prod.mk.injEq,
      normalizeTree_nodewise branch,normalizeBranches_nodewise branches]
    constructor
    · rintro ⟨b,r,⟨hr,hb⟩,bs,r',⟨hr',hbs⟩,rfl,rfl⟩
      exact ⟨by omega,b,bs,hb,hbs,rfl⟩
    · rintro ⟨hr,b,bs,hb,hbs,rfl⟩
      exact ⟨b,nodesOf branches+left,⟨by omega,hb⟩,bs,left,⟨rfl,hbs⟩,rfl,rfl⟩

end

mutual

/-- Canonical membership succeeds exactly when both budgets cover the tree and every node
survives its steps. -/
theorem canonicalMembership_nodewise : ∀ (q : Query) {remaining left : ℕ} {q' : Query},
    canonicalMembership env q remaining=.ok (q',left) ↔ remaining=nodes q+left ∧
      nodes q ≤ maxNodes ∧ eachNode (memberPasses env) q=.ok q'
  | .node own anyOf,remaining,left,q' => by
    have hcomp : ∀ anyOf'', eachBranch (fun d => memberPasses env (d+1)) anyOf=.ok anyOf'' ↔
        ∃ anyOf', eachBranch (memberPasses env) anyOf=.ok anyOf' ∧
          eachBranch (fun _ => normalizeOwn env) anyOf'=.ok anyOf'' := fun anyOf'' =>
      eachBranch_comp anyOf
    have hown : ∀ own', memberPasses env 0 own=.ok own' ↔ ∃ own'',
        normalizeOwn env (dropIgnored own)=.ok own'' ∧ sortFilters own''=own' :=
      fun own' => exceptMap_ok
    rw [canonicalMembership,nodes,eachNode_ok]
    simp only [hcomp,hown]
    constructor
    · intro h
      obtain ⟨r,hr,h⟩ := exceptBind_ok.mp h
      obtain ⟨⟨anyOf',r'⟩,hb,h⟩ := exceptBind_ok.mp h
      obtain ⟨⟨⟨own'',anyOf''⟩,r''⟩,ht,h⟩ := exceptBind_ok.mp h
      cases h
      obtain ⟨hr',-,hb⟩ := (membershipBranches_nodewise anyOf).mp hb
      obtain ⟨hmax,ht⟩ := (normalizeTree_nodewise _).mp ht
      obtain ⟨o,bs,ho,hbs,he⟩ := eachNode_ok.mp ht
      have hrem := budget_ok.mp hr
      rw [nodes,eachBranch_nodes anyOf hb] at hmax
      cases he
      exact ⟨by omega,by omega,_,anyOf'',⟨own'',ho,rfl⟩,⟨anyOf',hb,hbs⟩,rfl⟩
    · rintro ⟨hr,hmax,own',anyOf'',⟨own'',ho,rfl⟩,⟨anyOf',hb,hbs⟩,rfl⟩
      have hsmall : ∀ branch ∈ anyOf, nodes branch ≤ maxNodes := by
        intro branch hm
        have hle := nodes_le_nodesOf hm
        omega
      have hfirst : budget remaining=.ok (nodesOf anyOf+left) := budget_ok.mpr (by omega)
      have hbranches : membershipBranches env anyOf (nodesOf anyOf+left)=.ok (anyOf',left) :=
        (membershipBranches_nodewise anyOf).mpr ⟨rfl,hsmall,hb⟩
      have htree : normalizeTree env (.node (dropIgnored own) anyOf') maxNodes=
          .ok (.node own'' anyOf'',maxNodes-(nodesOf anyOf+1)) := by
        refine (normalizeTree_nodewise _).mpr ⟨?_,eachNode_ok.mpr ⟨_,_,ho,hbs,rfl⟩⟩
        rw [nodes,eachBranch_nodes anyOf hb]
        omega
      rw [bind_of_ok hfirst,bind_of_ok hbranches,bind_of_ok htree]

theorem membershipBranches_nodewise : ∀ (branches : List Query) {remaining left : ℕ}
    {branches' : List Query}, membershipBranches env branches remaining=.ok (branches',left) ↔
      remaining=nodesOf branches+left ∧ (∀ branch ∈ branches, nodes branch ≤ maxNodes) ∧
        eachBranch (memberPasses env) branches=.ok branches'
  | [],remaining,left,branches' => by
    rw [membershipBranches,nodesOf,eachBranch_nil]
    grind
  | branch::branches,remaining,left,branches' => by
    rw [membershipBranches,nodesOf,eachBranch_cons,List.forall_mem_cons]
    simp only [exceptBind_ok,Except.ok.injEq,Prod.exists,Prod.mk.injEq,
      canonicalMembership_nodewise branch,membershipBranches_nodewise branches]
    constructor
    · rintro ⟨b,r,⟨hr,hmax,hb⟩,bs,r',⟨hr',hsmall,hbs⟩,rfl,rfl⟩
      exact ⟨by omega,⟨hmax,hsmall⟩,b,bs,hb,hbs,rfl⟩
    · rintro ⟨hr,⟨hmax,hsmall⟩,b,bs,hb,hbs,rfl⟩
      exact ⟨b,nodesOf branches+left,⟨by omega,hmax,hb⟩,bs,left,⟨rfl,hsmall,hbs⟩,rfl,rfl⟩

end

mutual

/-- The whole pass succeeds exactly when the query has at most fifty nodes and every node
survives its steps. -/
theorem canonicalSaved_nodewise (q : Query) {q' : Query} : canonicalSaved env q=.ok q' ↔
    nodes q ≤ maxNodes ∧ eachNode (savedPasses env) q=.ok q' := by
  cases q with
  | node own anyOf =>
  have hcomp : ∀ anyOf'', eachBranch (fun d => savedPasses env (d+1)) anyOf=.ok anyOf'' ↔
      ∃ anyOf', eachBranch (fun d => memberPasses env (d+1)) anyOf=.ok anyOf' ∧
        eachBranch (savedPasses env) anyOf'=.ok anyOf'' := fun anyOf'' => eachBranch_comp anyOf
  have hn : nodes (.node own anyOf)=nodesOf anyOf+1 := rfl
  have hown : savedPasses env 0 own=memberPasses env 0 own := rfl
  rw [canonicalSaved_steps,eachNode_ok]
  simp only [hcomp,hown]
  constructor
  · intro h
    obtain ⟨⟨⟨own',anyOf'⟩,left⟩,hm,h⟩ := exceptBind_ok.mp h
    obtain ⟨branches,hb,rfl⟩ := exceptMap_ok.mp h
    obtain ⟨-,hmax,hm⟩ := (canonicalMembership_nodewise _).mp hm
    obtain ⟨o,bs,ho,hbs,he⟩ := eachNode_ok.mp hm
    cases he
    have hcount := eachBranch_nodes anyOf hbs
    have hsmaller : 2*nodesOf anyOf'+1<2*nodes (.node own anyOf) := by omega
    exact ⟨hmax,own',branches,ho,⟨anyOf',hbs,(savedBranches_nodewise anyOf' (by omega)).mp hb⟩,rfl⟩
  · rintro ⟨hmax,own',branches,ho,⟨anyOf',hbs,hb⟩,rfl⟩
    have hcount := eachBranch_nodes anyOf hbs
    have hsmaller : 2*nodesOf anyOf'+1<2*nodes (.node own anyOf) := by omega
    have hm : canonicalMembership env (.node own anyOf) maxNodes=
        .ok (.node own' anyOf',maxNodes-nodes (.node own anyOf)) :=
      (canonicalMembership_nodewise _).mpr ⟨by omega,hmax,eachNode_ok.mpr ⟨_,_,ho,hbs,rfl⟩⟩
    rw [bind_of_ok hm]
    exact exceptMap_ok.mpr ⟨_,(savedBranches_nodewise anyOf' (by omega)).mpr hb,rfl⟩
  termination_by 2*nodes q

theorem savedBranches_nodewise (branches : List Query) {branches' : List Query}
    (hmax : nodesOf branches ≤ maxNodes) : savedBranches env branches=.ok branches' ↔
      eachBranch (savedPasses env) branches=.ok branches' := by
  cases branches with
  | nil =>
    rw [savedBranches,eachBranch_nil,Except.ok.injEq,eq_comm]
  | cons branch branches =>
    rw [nodesOf] at hmax
    have hp := nodes_pos branch
    have hn : nodesOf (branch::branches)=nodes branch+nodesOf branches := rfl
    have hsmall : 2*nodes branch<2*nodesOf (branch::branches)+1 := by omega
    have hsmaller : 2*nodesOf branches+1<2*nodesOf (branch::branches)+1 := by omega
    have hle : nodes branch ≤ maxNodes := by omega
    rw [savedBranches,eachBranch_cons]
    simp only [exceptBind_ok,Except.ok.injEq,canonicalSaved_nodewise branch,hle,true_and,
      savedBranches_nodewise branches (by omega)]
    grind
  termination_by 2*nodesOf branches+1

end

end Passes

end Librairii.PassSchedules
