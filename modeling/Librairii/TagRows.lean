import Librairii.CheckedResults
import Librairii.RowTables

/-!
# Tag definitions, values and assignments

The rows of the three tag tables, with the lookups and the inserts that resolve
a conflict on their unique key by doing nothing. Identities and keys are compared
as the engine compares them: ids exactly, normalized keys without ASCII case.
-/

namespace Librairii.TagRows

open RowTables

/-- The kinds of a definition. -/
inductive Kind where
  | boolean
  | choice
  deriving DecidableEq

/-- Where a definition comes from. -/
inductive Source where
  | user
  | builtin
  | derived
  deriving DecidableEq

/-- How a definition is shown. -/
inductive Presentation where
  | default
  | warning
  | system
  deriving DecidableEq

/-- Where an assignment comes from. -/
inductive AssignmentSource where
  | manual
  | derived
  deriving DecidableEq

/-- One row of `tag_definitions`. -/
structure Definition where
  id : ℤ
  key : String
  normalizedKey : String
  label : String
  color : String
  kind : Kind
  source : Source
  presentation : Presentation
  position : ℤ
  protected_ : Bool
  deriving DecidableEq

/-- One row of `tag_values`. -/
structure Value where
  id : ℤ
  definitionId : ℤ
  key : String
  normalizedKey : String
  label : String
  position : ℤ
  deriving DecidableEq

/-- One row of `story_tag_assignments`. -/
structure Assignment where
  storyId : ℤ
  definitionId : ℤ
  valueId : Option ℤ
  source : AssignmentSource
  deriving DecidableEq

/-- Refusals of the tag repository. -/
inductive TagError where
  | invalidProjectionConfig
  | derivedFacetDrift
  | deletePlanStale
  | savedQueryInvalid
  | definitionNotFound
  | protectedDefinition
  | valuesNotAllowed
  | valueNotFound
  deriving DecidableEq

/-- Refusals of the metadata repository. -/
inductive MetadataError where
  | busy
  | invalidCatalog
  | invalidTransition
  deriving DecidableEq

/-- Why a storage call fails. -/
inductive StorageError where
  | tag (error : TagError)
  | metadata (error : MetadataError)
  | integrityFailed
  | compatibilityInvariant
  | collectionNotFound
  | constraintViolation
  | noRows
  deriving DecidableEq

/-- The definitions and their values. -/
structure TagTables where
  definitions : List Definition
  values : List Value
  deriving DecidableEq

def nextRowId (ids : List ℤ) : ℤ := 1+ids.foldr max 0

theorem lt_nextRowId {ids : List ℤ} {id : ℤ} (h : id ∈ ids) : id<nextRowId ids := by
  have hmax : id ≤ ids.foldr max 0 := by
    induction ids with
    | nil => cases h
    | cons first ids ih =>
      rw [List.foldr_cons]
      rcases List.mem_cons.mp h with rfl | h
      · omega
      · have := ih h
        omega
  rw [nextRowId]
  omega

def asciiLower (c : Char) : Char :=
  if 'A' ≤ c ∧ c ≤ 'Z' then Char.ofNat (c.toNat+32) else c

/-- Equality under the engine's NOCASE collation. -/
def nocase (a b : String) : Bool := a.toList.map asciiLower=b.toList.map asciiLower

theorem nocase_self (a : String) : nocase a a=true := decide_eq_true rfl

def definition (t : TagTables) (id : ℤ) : Except StorageError Definition :=
  match lookup (·.id) id t.definitions with
  | some d => .ok d
  | none => .error (.tag .definitionNotFound)

def insertDefinition (new : Definition) (t : TagTables) : Except StorageError TagTables :=
  if t.definitions.any fun d => nocase d.normalizedKey new.normalizedKey then .ok t
  else if t.definitions.any fun d => d.source=new.source && d.position=new.position then
    .error .constraintViolation
  else .ok { t with definitions :=
    t.definitions++[{ new with id := nextRowId (t.definitions.map (·.id)) }] }

/-- INSERT a value, or nothing when its normalized key is taken in the definition. -/
def insertValue (new : Value) (t : TagTables) : Except StorageError TagTables :=
  if t.values.any fun v =>
      v.definitionId=new.definitionId && nocase v.normalizedKey new.normalizedKey then .ok t
  else if t.values.any fun v =>
      v.definitionId=new.definitionId && v.position=new.position then .error .constraintViolation
  else if t.definitions.any fun d => d.id=new.definitionId && d.kind=.choice then
    .ok { t with values := t.values++[{ new with id := nextRowId (t.values.map (·.id)) }] }
  else .error .constraintViolation

end Librairii.TagRows
