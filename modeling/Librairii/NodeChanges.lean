import Librairii.CanonicalQuery

/-!
# Changes of every node of a query

A pass over a query changes the fields of every node by a function of its own, which may
depend on the depth of the node and may fail.
-/

namespace Librairii.NodeChanges

open CheckedResults SavedQuery CanonicalQuery

variable {ε : Type}

mutual

/-- Change every node by the function of its depth. -/
def eachNode (f : ℕ → Membership → Except ε Membership) : Query → Except ε Query
  | .node own anyOf => do
    let own ← f 0 own
    let anyOf ← eachBranch (fun d => f (d+1)) anyOf
    .ok (.node own anyOf)

def eachBranch (f : ℕ → Membership → Except ε Membership) :
    List Query → Except ε (List Query)
  | [] => .ok []
  | branch::branches => do
    let branch ← eachNode f branch
    let branches ← eachBranch f branches
    .ok (branch::branches)

end

variable {f g : ℕ → Membership → Except ε Membership}

theorem eachNode_ok {own : Membership} {anyOf : List Query} {q' : Query} :
    eachNode f (.node own anyOf)=.ok q' ↔ ∃ own' anyOf', f 0 own=.ok own' ∧
      eachBranch (fun d => f (d+1)) anyOf=.ok anyOf' ∧ q'=.node own' anyOf' := by
  rw [eachNode]
  simp only [exceptBind_ok,Except.ok.injEq]
  grind

theorem eachBranch_nil {branches' : List Query} :
    eachBranch f []=.ok branches' ↔ branches'=[] := by
  rw [eachBranch,Except.ok.injEq,eq_comm]

theorem eachBranch_cons {branch : Query} {branches branches' : List Query} :
    eachBranch f (branch::branches)=.ok branches' ↔ ∃ b bs, eachNode f branch=.ok b ∧
      eachBranch f branches=.ok bs ∧ branches'=b::bs := by
  rw [eachBranch]
  simp only [exceptBind_ok,Except.ok.injEq]
  grind

mutual

/-- Two changes one after the other change every node by both. -/
theorem eachNode_comp : ∀ (q : Query) {f g : ℕ → Membership → Except ε Membership}
    {q'' : Query}, eachNode (fun d own => f d own >>= g d) q=.ok q'' ↔
      ∃ q', eachNode f q=.ok q' ∧ eachNode g q'=.ok q''
  | .node own anyOf,f,g,q'' => by
    simp only [eachNode_ok,eachBranch_comp anyOf,exceptBind_ok]
    grind [eachNode_ok]

theorem eachBranch_comp : ∀ (branches : List Query)
    {f g : ℕ → Membership → Except ε Membership} {branches'' : List Query},
    eachBranch (fun d own => f d own >>= g d) branches=.ok branches'' ↔
      ∃ branches', eachBranch f branches=.ok branches' ∧ eachBranch g branches'=.ok branches''
  | [],f,g,branches'' => by simp [eachBranch_nil]
  | branch::branches,f,g,branches'' => by
    simp only [eachBranch_cons,eachNode_comp branch,eachBranch_comp branches]
    grind [eachBranch_cons]

end

mutual

theorem eachNode_nodes : ∀ (q : Query) {f : ℕ → Membership → Except ε Membership}
    {q' : Query}, eachNode f q=.ok q' → nodes q'=nodes q
  | .node own anyOf,f,q',h => by
    obtain ⟨own',anyOf',-,hb,rfl⟩ := eachNode_ok.mp h
    rw [nodes,nodes,eachBranch_nodes anyOf hb]

theorem eachBranch_nodes : ∀ (branches : List Query)
    {f : ℕ → Membership → Except ε Membership} {branches' : List Query},
    eachBranch f branches=.ok branches' → nodesOf branches'=nodesOf branches
  | [],f,branches',h => by rw [eachBranch_nil.mp h]
  | branch::branches,f,branches',h => by
    obtain ⟨b,bs,hb,hbs,rfl⟩ := eachBranch_cons.mp h
    rw [nodesOf,nodesOf,eachNode_nodes branch hb,eachBranch_nodes branches hbs]

end

theorem eachBranch_pairs {branches branches' : List Query} :
    eachBranch f branches=.ok branches' ↔
      List.Forall₂ (fun branch branch' => eachNode f branch=.ok branch') branches branches' := by
  induction branches generalizing branches' with
  | nil => rw [eachBranch_nil,List.forall₂_nil_left_iff]
  | cons branch branches ih =>
    rw [eachBranch_cons,List.forall₂_cons_left_iff]
    simp only [ih]

section Uniform

variable {f : Membership → Except ε Membership}

mutual

theorem eachNode_all {P : Membership → Prop} (hf : ∀ own own', f own=.ok own' → P own') :
    ∀ (q : Query) {q' : Query}, eachNode (fun _ => f) q=.ok q' → ∀ own ∈ members q', P own
  | .node own anyOf,q',h => by
    obtain ⟨own',anyOf',ho,hb,rfl⟩ := eachNode_ok.mp h
    exact List.forall_mem_cons.mpr ⟨hf own own' ho,eachBranch_all hf anyOf hb⟩

theorem eachBranch_all {P : Membership → Prop} (hf : ∀ own own', f own=.ok own' → P own') :
    ∀ (branches : List Query) {branches' : List Query},
      eachBranch (fun _ => f) branches=.ok branches' → ∀ own ∈ membersOf branches', P own
  | [],branches',h => by
    rw [eachBranch_nil.mp h]
    exact List.forall_mem_nil P
  | branch::branches,branches',h => by
    obtain ⟨b,bs,hb,hbs,rfl⟩ := eachBranch_cons.mp h
    exact List.forall_mem_append.mpr ⟨eachNode_all hf branch hb,eachBranch_all hf branches hbs⟩

end

mutual

theorem eachNode_kept : ∀ q : Query, (∀ own ∈ members q, f own=.ok own) →
    eachNode (fun _ => f) q=.ok q
  | .node own anyOf,h => by
    rw [members,List.forall_mem_cons] at h
    exact eachNode_ok.mpr ⟨own,anyOf,h.1,eachBranch_kept anyOf h.2,rfl⟩

theorem eachBranch_kept : ∀ branches : List Query, (∀ own ∈ membersOf branches, f own=.ok own) →
    eachBranch (fun _ => f) branches=.ok branches
  | [],_ => rfl
  | branch::branches,h => by
    rw [membersOf,List.forall_mem_append] at h
    exact eachBranch_cons.mpr ⟨branch,branches,eachNode_kept branch h.1,
      eachBranch_kept branches h.2,rfl⟩

end

end Uniform

end Librairii.NodeChanges
