import Librairii.QueryReferences
import Librairii.TagRows

/-!
# Saved Collections and their criteria

A Collection stores the version and the bytes of a query. Its criteria are available
when every filter of every node names an existing definition of the filter's kind, and
every chosen value exists and belongs to the filter's definition.
-/

namespace Librairii.CollectionRows

open CheckedResults RowTables TagRows SavedQuery CanonicalQuery SavedQueryCodec
open WireParser hiding members

/-- Whether a Collection is known to open. -/
inductive Validity where
  | valid
  | needsAttention
  deriving DecidableEq

/-- One row of `collections`. -/
structure Collection where
  id : ℤ
  name : List UInt8
  normalizedName : List UInt8
  position : ℤ
  queryVersion : I64
  queryPayload : List UInt8
  validity : Validity
  revision : ℤ
  deriving DecidableEq

/-- The Collections with the tags their criteria name. -/
structure CollectionTables where
  collections : List Collection
  /-- The definition of the retired tag, if the library ever had it. -/
  legacyBrokenTag : Option I64
  tags : TagTables
  assignments : List Assignment
  deriving DecidableEq

def CollectionTables.legacyId (t : CollectionTables) : I64 := t.legacyBrokenTag.getD zero

def definitionKind (t : TagTables) (id : ℤ) (expected : Kind) : Bool :=
  (lookup (·.id) id t.definitions).map (·.kind)=some expected

def valueOwner (t : TagTables) (id : ℤ) : Option ℤ :=
  (lookup (·.id) id t.values).map (·.definitionId)

def ownAvailable (t : TagTables) (own : Membership) : Bool :=
  own.booleanFilters.all (fun f => definitionKind t f.definitionId.val .boolean) &&
    own.choiceFilters.all fun f => definitionKind t f.definitionId.val .choice &&
      f.valueIds.all fun v => valueOwner t v.val=some f.definitionId.val

mutual

def availableCriteria (t : TagTables) : Query → Bool
  | .node own anyOf => availableBranches t anyOf && ownAvailable t own

def availableBranches (t : TagTables) : List Query → Bool
  | [] => true
  | branch::branches => availableCriteria t branch && availableBranches t branches

end

mutual

theorem availableCriteria_members (t : TagTables) : ∀ q : Query,
    availableCriteria t q=true ↔ ∀ own ∈ members q, ownAvailable t own=true
  | .node own anyOf => by
    have hbranches := availableBranches_members t anyOf
    rw [availableCriteria,members,List.forall_mem_cons,Bool.and_eq_true,hbranches]
    exact and_comm

theorem availableBranches_members (t : TagTables) : ∀ branches : List Query,
    availableBranches t branches=true ↔ ∀ own ∈ membersOf branches, ownAvailable t own=true
  | [] => by simp [availableBranches,membersOf]
  | branch::branches => by
    have hfirst := availableCriteria_members t branch
    have hrest := availableBranches_members t branches
    rw [availableBranches,membersOf,List.forall_mem_append,Bool.and_eq_true,hfirst,hrest]

end

/-- Every filter of a query refers to an existing definition of its kind, and every chosen
value exists and belongs to the definition. -/
def RefersToExisting (t : TagTables) (q : Query) : Prop :=
  ∀ own ∈ members q,
    (∀ f ∈ own.booleanFilters, ∃ d ∈ t.definitions,
      d.id=f.definitionId.val ∧ d.kind=.boolean) ∧
    ∀ f ∈ own.choiceFilters,
      (∃ d ∈ t.definitions, d.id=f.definitionId.val ∧ d.kind=.choice) ∧
      ∀ v ∈ f.valueIds, ∃ row ∈ t.values, row.id=v.val ∧ row.definitionId=f.definitionId.val

theorem exists_of_definitionKind {t : TagTables} {id : ℤ} {kind : Kind}
    (h : definitionKind t id kind=true) : ∃ d ∈ t.definitions, d.id=id ∧ d.kind=kind := by
  simp only [definitionKind,decide_eq_true_eq,Option.map_eq_some_iff] at h
  obtain ⟨d,hd,hkind⟩ := h
  obtain ⟨hm,hid⟩ := lookup_mem hd
  exact ⟨d,hm,hid,hkind⟩

theorem exists_of_valueOwner {t : TagTables} {id owner : ℤ} (h : valueOwner t id=some owner) :
    ∃ row ∈ t.values, row.id=id ∧ row.definitionId=owner := by
  simp only [valueOwner,Option.map_eq_some_iff] at h
  obtain ⟨row,hrow,howner⟩ := h
  obtain ⟨hm,hid⟩ := lookup_mem hrow
  exact ⟨row,hm,hid,howner⟩

theorem refersToExisting_of_available {t : TagTables} {q : Query}
    (h : availableCriteria t q=true) : RefersToExisting t q := by
  intro own hown
  have hnode := (availableCriteria_members t q).mp h own hown
  simp only [ownAvailable,Bool.and_eq_true,List.all_eq_true,decide_eq_true_eq] at hnode
  refine ⟨fun f hf => exists_of_definitionKind (hnode.1 f hf),?_⟩
  intro f hf
  obtain ⟨hkind,hvalues⟩ := hnode.2 f hf
  exact ⟨exists_of_definitionKind hkind,fun v hv => exists_of_valueOwner (hvalues v hv)⟩

/-- A Collection decodes and its criteria are available. -/
def Opens (env : CodecEnv) (t : CollectionTables) (c : Collection) : Prop :=
  ∃ q, decode env c.queryVersion c.queryPayload t.legacyId=.ok q ∧
    availableCriteria t.tags q=true

def ValidOpen (env : CodecEnv) (t : CollectionTables) : Prop :=
  ∀ c ∈ t.collections, c.validity=.valid → Opens env t c

end Librairii.CollectionRows
