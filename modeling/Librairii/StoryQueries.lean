import Librairii.CanonicalQuery
import Librairii.QueryRequests
import Librairii.StoryStatements

/-!
# Queries over stories

A request is normalized and its references are checked against the stored tags. Its
criteria are compiled to a condition and its values, one test after the other, and the
join of the display names is added when a test or the order needs it. The compiled
statement selects the listed stories on which the criteria hold.
-/

namespace Librairii.StoryQueries

open CheckedResults RowTables CatalogRows SqlConditions StoryRows StoryStatements CanonicalQuery
  QueryRequests
open TagRows hiding Value StorageError
open SavedQuery hiding validateReferences validateBranches
open WireParser hiding members

/-- Why a Collection is refused. -/
inductive CollectionError where
  | invalidName
  | duplicateName
  | notFound
  | invalidOrder
  | needsAttention
  | criteriaUnavailable
  | inUse
  | invalidSelection
  | stalePreview
  | invalidQuery
  deriving DecidableEq

/-- Why a Shelf is refused. -/
inductive ShelfError where
  | invalidName
  | duplicateName
  | notFound
  | invalidInput
  | staleReview
  deriving DecidableEq

/-- Why an export is refused. -/
inductive ExportError where
  | invalidScope
  | resourceLimit
  | stale
  | destination
  | noReadyStories
  deriving DecidableEq

/-- Why a call over stories, Collections or Shelves fails. -/
inductive StorageError where
  | queryInput (error : QueryInputError)
  | collection (error : CollectionError)
  | shelf (error : ShelfError)
  | scope (error : ExportError)
  | collectionNotFound
  | compatibilityInvariant
  /-- The engine refuses a statement or a conversion. -/
  | sql
  /-- An operation on 64-bit integers overflows. -/
  | overflow
  deriving DecidableEq

/-- The refusal of a query. -/
def invalid : StorageError := .queryInput .invalidQuery

def booleansExist (t : TagTables) (filters : List BooleanFilter) : Bool :=
  filters.all fun f => (lookup (·.id) f.definitionId.val t.definitions).map (·.kind)=
    some Kind.boolean

/-- Choice filters name choice definitions and values of theirs. -/
def choicesExist (t : TagTables) (filters : List ChoiceFilter) : Bool :=
  filters.all fun f => (lookup (·.id) f.definitionId.val t.definitions).map (·.kind)=
      some Kind.choice &&
    f.valueIds.all fun v => t.values.any fun row =>
      row.id=v.val && row.definitionId=f.definitionId.val

mutual

/-- Every reference of a query exists: first those of its branches. -/
def validateReferences (t : TagTables) : Query → Except StorageError Unit
  | .node own anyOf => do
    validateBranches t anyOf
    if booleansExist t own.booleanFilters && choicesExist t own.choiceFilters then .ok ()
    else .error invalid

def validateBranches (t : TagTables) : List Query → Except StorageError Unit
  | [] => .ok ()
  | branch::branches => do
    validateReferences t branch
    validateBranches t branches

end

mutual

def usesDisplayName : Query → Bool
  | .node own anyOf => own.name≠"" || branchesUseDisplayName anyOf

def branchesUseDisplayName : List Query → Bool
  | [] => false
  | branch::branches => usesDisplayName branch || branchesUseDisplayName branches

end

/-- Add the join of the display names behind the first FROM clause. -/
def displayFrom : List Fragment → List Fragment
  | [] => []
  | .from::rest => .from::.displayJoin::rest
  | f::rest => f::displayFrom rest

def storedState (compatibility : String) : String :=
  if compatibility="compatible" then "valid"
  else if compatibility="missing" then "missing"
  else "invalid"

def booleanPart (pushed : List (List Fragment)×List Value) (f : BooleanFilter) :
    List (List Fragment)×List Value :=
  if f.state="ignored" then pushed
  else (pushed.1++[(if f.state="false" then [.not] else [])++[.boolean]],
    pushed.2++[.integer f.definitionId.val])

def choicePart (pushed : List (List Fragment)×List Value) (f : ChoiceFilter) :
    List (List Fragment)×List Value :=
  (pushed.1++[[.choice]],
    pushed.2++[.integer f.definitionId.val,.integers (f.valueIds.map fun v => v.val)])

/-- Push the tests of a node besides its branches. -/
def ownParts (own : Membership) (args : List Value) : List (List Fragment)×List Value :=
  let pushed := if own.name≠"" then ([[.name]],args++[.text own.name]) else ([],args)
  let pushed := if own.languages≠[] then
    (pushed.1++[[.languages]],pushed.2++[.texts own.languages]) else pushed
  let pushed := if own.compatibilities≠[] then
    (pushed.1++[[.compatibilities]],pushed.2++[.texts (own.compatibilities.map storedState)])
    else pushed
  own.choiceFilters.foldl choicePart (own.booleanFilters.foldl booleanPart pushed)

mutual

/-- The condition of a query, its values pushed behind the given ones. -/
def predicate : Query → List Value → List Fragment×List Value
  | .node own anyOf,args =>
    let (parts,args) := ownParts own args
    let (branches,args) := branchPredicates anyOf args
    let parts := if anyOf.isEmpty then parts
      else parts++[.open::(join [.or] branches++[.close])]
    (join [.and] parts,args)

/-- The conditions of the branches in parentheses; an empty one is true. -/
def branchPredicates : List Query → List Value → List (List Fragment)×List Value
  | [],args => ([],args)
  | branch::branches,args =>
    let (p,args) := predicate branch args
    let (rest,args) := branchPredicates branches args
    ((.open::((if p.isEmpty then [.one] else p)++[.close]))::rest,args)

end

/-- Normalize a request, check its references and compile its criteria. -/
def matching (env : RuntimeEnv) (t : StoryTables) (request : QueryRequest) (locale : String) :
    Except StorageError (QueryRequest×List Fragment×List Value) := do
  let request ← (normalizeRequest env request).mapError .queryInput
  validateReferences t.tags request.criteria
  let (base,args) := if usesDisplayName request.criteria then
    (displayFrom [.from],[.text locale]) else ([.from],[])
  let (condition,args) := predicate request.criteria args
  let sql := if condition.isEmpty then base else base++.where::condition
  return (request,sql,args)

/-- The order of a request; an order by name adds the join and its value in front. -/
def ordering (request : QueryRequest) (locale : String) (sql : List Fragment)
    (args : List Value) : Fragment×List Fragment×List Value :=
  if request.sort="imported_desc" then (.orderImported,sql,args)
  else if usesDisplayName request.criteria then (.orderName,sql,args)
  else (.orderName,displayFrom sql,.text locale::args)

def countStatement (sql : List Fragment) : List Fragment := .count::sql

def recordStatement (sql : List Fragment) (order : Fragment) : List Fragment :=
  .record::sql++[order]

/-- Add the test of the requested uuids. -/
def uuidClause (sql : List Fragment) : List Fragment :=
  sql++(if sql=[.from] then [.where,.uuids] else [.and,.uuids])

def ownTests (own : Membership) : List (List (Lexeme Atom)) :=
  (if own.name≠"" then [[.operand (.name own.name)]] else [])++
    (if own.languages≠[] then [[.operand (.languages own.languages)]] else [])++
    (if own.compatibilities≠[] then
      [[.operand (.compatibilities (own.compatibilities.map storedState))]] else [])++
    ((own.booleanFilters.filter fun f => f.state≠"ignored").map fun f =>
      (if f.state="false" then [Lexeme.not] else [])++[.operand (.boolean f.definitionId.val)])++
    own.choiceFilters.map fun f =>
      [.operand (.choice f.definitionId.val (f.valueIds.map fun v => v.val))]

mutual

/-- The tests of a query, the alternatives of its branches as the last one. -/
def tests : Query → List (List (Lexeme Atom))
  | .node own anyOf => ownTests own++
    if anyOf.isEmpty then [] else [.open::(join [.or] (branchTests anyOf)++[.close])]

def branchTests : List Query → List (List (Lexeme Atom))
  | [] => []
  | branch::branches =>
    let tested := join [.and] (tests branch)
    (.open::((if tested.isEmpty then [.operand .one] else tested)++[.close]))::
      branchTests branches

end

def condition (q : Query) : List (Lexeme Atom) := join [.and] (tests q)

def fragments (lexemes : List (Lexeme Atom)) : List Fragment :=
  lexemes.map fun l => (render l).1

def values (lexemes : List (Lexeme Atom)) : List Value := lexemes.flatMap fun l => (render l).2

theorem fragments_join (separator : List (Lexeme Atom)) (xs : List (List (Lexeme Atom))) :
    fragments (join separator xs)=join (fragments separator) (xs.map fragments) := by
  induction xs with
  | nil => rfl
  | cons x xs ih =>
    cases xs with
    | nil => rfl
    | cons y xs =>
      rw [join,fragments,List.map_append,List.map_append,List.map_cons,List.map_cons,join]
      rw [fragments,List.map_cons] at ih
      rw [ih]
      rfl

theorem values_join {separator : List (Lexeme Atom)} (h : values separator=[])
    (xs : List (List (Lexeme Atom))) : values (join separator xs)=xs.flatMap values := by
  induction xs with
  | nil => rfl
  | cons x xs ih =>
    cases xs with
    | nil =>
      rw [join,List.flatMap_cons,List.flatMap_nil,List.append_nil]
    | cons y xs =>
      rw [join,values,List.flatMap_append,List.flatMap_append]
      rw [values] at h ih
      rw [h,ih,List.append_nil]
      rfl

def push (pushed : List (List Fragment)×List Value) (xs : List (List (Lexeme Atom))) :
    List (List Fragment)×List Value :=
  (pushed.1++xs.map fragments,pushed.2++xs.flatMap values)

theorem push_nil (pushed : List (List Fragment)×List Value) : push pushed []=pushed := by
  rw [push,List.map_nil,List.flatMap_nil,List.append_nil,List.append_nil]

theorem push_push (pushed : List (List Fragment)×List Value)
    (xs ys : List (List (Lexeme Atom))) : push (push pushed xs) ys=push pushed (xs++ys) := by
  simp only [push,List.map_append,List.flatMap_append,List.append_assoc]

theorem foldl_booleanPart (filters : List BooleanFilter) :
    ∀ pushed, filters.foldl booleanPart pushed=push pushed
      ((filters.filter fun f => f.state≠"ignored").map fun f =>
        (if f.state="false" then [Lexeme.not] else [])++
          [.operand (.boolean f.definitionId.val)]) := by
  induction filters with
  | nil => exact fun pushed => (push_nil pushed).symm
  | cons f filters ih =>
    intro pushed
    rw [List.foldl_cons,ih,booleanPart]
    by_cases hignored : f.state="ignored"
    · rw [if_pos hignored,List.filter_cons_of_neg (by simpa using hignored)]
    · have hone : (pushed.1++[(if f.state="false" then [.not] else [])++[.boolean]],
          pushed.2++[.integer f.definitionId.val])=push pushed
          [(if f.state="false" then [Lexeme.not] else [])++
            [.operand (.boolean f.definitionId.val)]] := by
        by_cases hfalse : f.state="false"
        · rw [if_pos hfalse,if_pos hfalse]
          rfl
        · rw [if_neg hfalse,if_neg hfalse]
          rfl
      rw [if_neg hignored,List.filter_cons_of_pos (by simpa using hignored),List.map_cons,hone,
        push_push]
      rfl

theorem foldl_choicePart (filters : List ChoiceFilter) :
    ∀ pushed, filters.foldl choicePart pushed=push pushed (filters.map fun f =>
      [.operand (.choice f.definitionId.val (f.valueIds.map fun v => v.val))]) := by
  induction filters with
  | nil => exact fun pushed => (push_nil pushed).symm
  | cons f filters ih =>
    intro pushed
    have hone : choicePart pushed f=push pushed
        [[.operand (.choice f.definitionId.val (f.valueIds.map fun v => v.val))]] := rfl
    rw [List.foldl_cons,ih,hone,push_push]
    rfl

theorem ownParts_eq (own : Membership) (args : List Value) :
    ownParts own args=push ([],args) (ownTests own) := by
  have hname : (if own.name≠"" then ([[Fragment.name]],args++[.text own.name]) else ([],args))=
      push ([],args) (if own.name≠"" then [[.operand (.name own.name)]] else []) := by
    by_cases h : own.name≠""
    · rw [if_pos h,if_pos h]
      rfl
    · rw [if_neg h,if_neg h,push_nil]
  have hlanguages : ∀ pushed : List (List Fragment)×List Value, (if own.languages≠[] then
      (pushed.1++[[.languages]],pushed.2++[.texts own.languages]) else pushed)=push pushed
        (if own.languages≠[] then [[.operand (.languages own.languages)]] else []) := by
    intro pushed
    by_cases h : own.languages≠[]
    · rw [if_pos h,if_pos h]
      rfl
    · rw [if_neg h,if_neg h,push_nil]
  have hcompatibilities : ∀ pushed : List (List Fragment)×List Value,
      (if own.compatibilities≠[] then (pushed.1++[[.compatibilities]],
        pushed.2++[.texts (own.compatibilities.map storedState)]) else pushed)=push pushed
        (if own.compatibilities≠[] then
          [[.operand (.compatibilities (own.compatibilities.map storedState))]] else []) := by
    intro pushed
    by_cases h : own.compatibilities≠[]
    · rw [if_pos h,if_pos h]
      rfl
    · rw [if_neg h,if_neg h,push_nil]
  unfold ownParts
  dsimp only
  rw [hname,hlanguages,hcompatibilities,foldl_booleanPart,foldl_choicePart,push_push,push_push,
    push_push,push_push,ownTests]
  simp only [List.append_assoc]

theorem isEmpty_fragments (lexemes : List (Lexeme Atom)) :
    (fragments lexemes).isEmpty=lexemes.isEmpty := by
  cases lexemes <;> rfl

theorem fragments_parentheses (lexemes : List (Lexeme Atom)) :
    fragments (.open::(lexemes++[.close]))=.open::(fragments lexemes++[.close]) := by
  rw [fragments,List.map_cons,List.map_append]
  rfl

theorem values_parentheses (lexemes : List (Lexeme Atom)) :
    values (.open::(lexemes++[.close]))=values lexemes := by
  rw [values,List.flatMap_cons,List.flatMap_append]
  exact List.append_nil _

mutual

/-- The compiled condition has the fragments of the tests and pushes their values. -/
theorem predicate_eq : ∀ (q : Query) (args : List Value),
    predicate q args=(fragments (condition q),args++values (condition q))
  | .node own anyOf,args => by
    have hbranches := branchPredicates_eq anyOf
    have hvalues := @values_join [.and] rfl (tests (.node own anyOf))
    rw [predicate,ownParts_eq,condition,fragments_join,hvalues,tests]
    dsimp only [push]
    rw [hbranches]
    cases anyOf with
    | nil => simp only [List.isEmpty_nil,if_true,List.append_nil,List.nil_append,branchTests,
        List.map_nil,List.flatMap_nil]; rfl
    | cons branch branches =>
      have hor := @values_join [.or] rfl (branchTests (branch::branches))
      simp only [List.isEmpty_cons,Bool.false_eq_true,if_false,List.nil_append,List.map_append,
        List.map_cons,List.map_nil,List.flatMap_append,List.flatMap_cons,List.flatMap_nil,
        List.append_nil,fragments_parentheses,fragments_join,values_parentheses,hor,
        List.append_assoc]
      rfl

theorem branchPredicates_eq : ∀ (branches : List Query) (args : List Value),
    branchPredicates branches args=((branchTests branches).map fragments,
      args++(branchTests branches).flatMap values)
  | [],args => by
    rw [branchPredicates,branchTests,List.map_nil,List.flatMap_nil,List.append_nil]
  | branch::branches,args => by
    have hfirst := predicate_eq branch
    have hrest := branchPredicates_eq branches
    rw [branchPredicates,branchTests,hfirst]
    dsimp only
    rw [hrest,isEmpty_fragments,List.map_cons,List.flatMap_cons,fragments_parentheses,
      values_parentheses,condition]
    cases htested : join [Lexeme.and] (tests branch) with
    | nil =>
      rw [List.isEmpty_nil,if_pos rfl,if_pos rfl]
      simp [values,fragments,render]
    | cons l lexemes =>
      rw [List.isEmpty_cons,if_neg Bool.false_ne_true,if_neg Bool.false_ne_true,
        List.append_assoc]

end

section Values

variable (v : Atom → Bool)

/-- The values of the tests of a node besides its branches. -/
def ownValues (own : Membership) : List Bool :=
  (if own.name≠"" then [v (.name own.name)] else [])++
    (if own.languages≠[] then [v (.languages own.languages)] else [])++
    (if own.compatibilities≠[] then
      [v (.compatibilities (own.compatibilities.map storedState))] else [])++
    ((own.booleanFilters.filter fun f => f.state≠"ignored").map fun f =>
      if f.state="false" then !v (.boolean f.definitionId.val)
      else v (.boolean f.definitionId.val))++
    own.choiceFilters.map fun f =>
      v (.choice f.definitionId.val (f.valueIds.map fun i => i.val))

mutual

def testValues : Query → List Bool
  | .node own anyOf => ownValues v own++
    if anyOf.isEmpty then [] else [(branchValues anyOf).any id]

def branchValues : List Query → List Bool
  | [] => []
  | branch::branches => (testValues branch).all id::branchValues branches

end

end Values

section Reading

variable {v : Atom → Bool}

theorem reads_optional {p : Prop} [Decidable p] (a : Atom) :
    List.Forall₂ (Reads v) (if p then [[.operand a]] else []) (if p then [v a] else []) := by
  by_cases h : p
  · rw [if_pos h,if_pos h]
    exact .cons (reads_operand a) .nil
  · rw [if_neg h,if_neg h]
    exact .nil

theorem reads_ownTests (own : Membership) :
    List.Forall₂ (Reads v) (ownTests own) (ownValues v own) := by
  have hboolean : ∀ filters : List BooleanFilter, List.Forall₂ (Reads v)
      (filters.map fun f => (if f.state="false" then [Lexeme.not] else [])++
        [.operand (.boolean f.definitionId.val)])
      (filters.map fun f => if f.state="false" then !v (.boolean f.definitionId.val)
        else v (.boolean f.definitionId.val)) := by
    intro filters
    induction filters with
    | nil => exact .nil
    | cons f filters ih =>
      refine .cons ?_ ih
      dsimp only
      by_cases hfalse : f.state="false"
      · rw [if_pos hfalse,if_pos hfalse]
        exact reads_not (reads_operand _)
      · rw [if_neg hfalse,if_neg hfalse]
        exact reads_operand _
  have hchoice : ∀ filters : List ChoiceFilter, List.Forall₂ (Reads v)
      (filters.map fun f =>
        [.operand (.choice f.definitionId.val (f.valueIds.map fun i => i.val))])
      (filters.map fun f => v (.choice f.definitionId.val (f.valueIds.map fun i => i.val))) := by
    intro filters
    induction filters with
    | nil => exact .nil
    | cons f filters ih => exact .cons (reads_operand _) ih
  rw [ownTests,ownValues]
  exact List.rel_append (List.rel_append (List.rel_append (List.rel_append
    (reads_optional _) (reads_optional _)) (reads_optional _)) (hboolean _)) (hchoice _)

mutual

theorem reads_tests (hone : v .one=true) : ∀ q : Query,
    List.Forall₂ (Reads v) (tests q) (testValues v q)
  | .node own anyOf => by
    have hbranches := reads_branchTests hone anyOf
    rw [tests,testValues]
    refine List.rel_append (reads_ownTests own) ?_
    cases anyOf with
    | nil => exact .nil
    | cons branch branches =>
      have hne : branchTests (branch::branches)≠[] := by
        rw [branchTests]
        exact List.cons_ne_nil _ _
      exact .cons (reads_alternatives hbranches hne) .nil

theorem reads_branchTests (hone : v .one=true) : ∀ branches : List Query,
    List.Forall₂ (Reads v) (branchTests branches) (branchValues v branches)
  | [] => by
    rw [branchTests,branchValues]
    exact .nil
  | branch::branches => by
    have hfirst := reads_tests hone branch
    have hrest := reads_branchTests hone branches
    have hempty := @join_isEmpty _ v [.and] _ _ hfirst
    rw [branchTests,branchValues]
    refine .cons (reads_parentheses ?_) hrest
    rw [hempty]
    cases htests : tests branch with
    | nil =>
      rw [htests] at hfirst
      rw [List.forall₂_nil_left_iff.mp hfirst,List.isEmpty_nil,if_pos rfl,List.all_nil,← hone]
      exact (reads_operand _).conjoins
    | cons x xs =>
      rw [htests] at hfirst
      rw [List.isEmpty_cons,if_neg Bool.false_ne_true]
      exact conjoins_join hfirst (List.cons_ne_nil _ _)

end

theorem conjoins_condition (hone : v .one=true) {q : Query} (hne : tests q≠[]) :
    Conjoins v (condition q) ((testValues v q).all id) := conjoins_join (reads_tests hone q) hne

end Reading

/-- How a summary shows the state of an archive. -/
def compatibility : ValidationState → String
  | .valid => "compatible"
  | .missing => "missing"
  | .invalid => "invalid"

section Denotation

variable (t : StoryTables) (locale : String) (row : Listed)

/-- A listed story meets the fields of a node besides its branches. -/
structure OwnHolds (own : Membership) : Prop where
  name : own.name="" ∨ own.name.toList <:+: (storyName t locale row.story).toList
  languages : own.languages=[] ∨ ∃ m ∈ t.catalog.metadata, m.storyUuid=row.story.uuid ∧
    m.language ∈ own.languages ∧ ∃ c ∈ t.catalog.snapshots, c.id=m.snapshot ∧ c.active=true
  /-- The compatibility of the archive is listed. -/
  compatibilities : own.compatibilities=[] ∨
    compatibility row.archive.validationState ∈ own.compatibilities
  /-- A Boolean filter that decides agrees with the valueless assignments. -/
  booleans : ∀ f ∈ own.booleanFilters, f.state≠"ignored" → (f.state="true" ↔
    ∃ a ∈ t.assignments,
      a.storyId=row.story.id ∧ a.definitionId=f.definitionId.val ∧ a.valueId=none)
  /-- The story is assigned one of the values of a choice filter. -/
  choices : ∀ f ∈ own.choiceFilters, ∃ a ∈ t.assignments, a.storyId=row.story.id ∧
    a.definitionId=f.definitionId.val ∧ ∃ v ∈ f.valueIds, a.valueId=some v.val

mutual

def Holds : Query → Prop
  | .node own anyOf => OwnHolds t locale row own ∧ (anyOf=[] ∨ SomeHolds anyOf)

def SomeHolds : List Query → Prop
  | [] => False
  | branch::branches => Holds branch ∨ SomeHolds branches

end

end Denotation

/-- The texts of a node are admitted. -/
structure Admitted (own : Membership) : Prop where
  /-- A Boolean filter has a known state. -/
  states : ∀ f ∈ own.booleanFilters, f.state ∈ ["ignored","true","false"]
  /-- A compatibility is a known one. -/
  compatibilities : ∀ c ∈ own.compatibilities, c ∈ compatibilityNames

section Meaning

variable {t : StoryTables} {locale : String} {row : Listed}

/-- A truth value that depends on a test that may be left out. -/
theorem all_optional {p : Prop} [Decidable p] (b : Bool) :
    (if p then [b] else []).all id=true ↔ (¬p ∨ b=true) := by
  by_cases h : p
  · simp [h]
  · simp [h]

theorem storedState_mem {own : Membership} (h : Admitted own) (state : ValidationState) :
    state.asStr ∈ own.compatibilities.map storedState ↔
      compatibility state ∈ own.compatibilities := by
  rw [List.mem_map]
  constructor
  · rintro ⟨c,hc,hstate⟩
    have hknown := h.compatibilities c hc
    simp only [compatibilityNames,List.mem_cons,List.not_mem_nil,or_false] at hknown
    have hsame : c=compatibility state := by
      rcases hknown with rfl | rfl | rfl <;> cases state <;>
        first | rfl | exact absurd hstate (by decide)
    rw [← hsame]
    exact hc
  · intro hc
    exact ⟨_,hc,by cases state <;> rfl⟩

theorem ownValues_iff {joined : Option String} {own : Membership} (h : Admitted own)
    (hname : own.name≠"" → joined=some locale) :
    (ownValues (Atom.holds t (withOfficial t joined row)) own).all id=true ↔
      OwnHolds t locale row own := by
  have hlisted := withOfficial_listed t joined row
  have hnames : (¬own.name≠"" ∨ Atom.holds t (withOfficial t joined row) (.name own.name)=true) ↔
      (own.name="" ∨ own.name.toList <:+: (storyName t locale row.story).toList) := by
    by_cases hn : own.name=""
    · simp [hn]
    · rw [hname hn]
      simp only [hn,ne_eq,not_false_eq_true,not_true,false_or,Atom.holds,decide_eq_true_eq,
        instr_pos]
      rfl
  have hlanguages : (¬own.languages≠[] ∨
      Atom.holds t (withOfficial t joined row) (.languages own.languages)=true) ↔
      (own.languages=[] ∨ ∃ m ∈ t.catalog.metadata, m.storyUuid=row.story.uuid ∧
        m.language ∈ own.languages ∧
          ∃ c ∈ t.catalog.snapshots, c.id=m.snapshot ∧ c.active=true) := by
    simp only [Atom.holds,hlisted,ne_eq,not_not,List.any_eq_true,Bool.and_eq_true,
      decide_eq_true_eq,List.contains_iff_mem,and_assoc]
  have hcompatibilities : (¬own.compatibilities≠[] ∨ Atom.holds t (withOfficial t joined row)
      (.compatibilities (own.compatibilities.map storedState))=true) ↔
      (own.compatibilities=[] ∨
        compatibility row.archive.validationState ∈ own.compatibilities) := by
    simp only [Atom.holds,hlisted,ne_eq,not_not,List.contains_iff_mem,storedState_mem h]
  have hassigned : ∀ id : ℤ, Atom.holds t (withOfficial t joined row) (.boolean id)=true ↔
      ∃ a ∈ t.assignments, a.storyId=row.story.id ∧ a.definitionId=id ∧ a.valueId=none := by
    intro id
    simp only [Atom.holds,hlisted,List.any_eq_true,Bool.and_eq_true,decide_eq_true_eq,and_assoc]
  have hbooleans : (∀ f ∈ own.booleanFilters, f.state≠"ignored" →
      (if f.state="false" then
        !Atom.holds t (withOfficial t joined row) (.boolean f.definitionId.val)
        else Atom.holds t (withOfficial t joined row) (.boolean f.definitionId.val))=true) ↔
      ∀ f ∈ own.booleanFilters, f.state≠"ignored" → (f.state="true" ↔ ∃ a ∈ t.assignments,
        a.storyId=row.story.id ∧ a.definitionId=f.definitionId.val ∧ a.valueId=none) := by
    refine forall₂_congr fun f hf => imp_congr_right fun hdecided => ?_
    have hstate := h.states f hf
    simp only [List.mem_cons,List.not_mem_nil,or_false] at hstate
    rw [← hassigned]
    rcases hstate with hs | hs | hs
    · exact absurd hs hdecided
    · simp [hs]
    · simp [hs]
  have hchoices : (∀ f ∈ own.choiceFilters, Atom.holds t (withOfficial t joined row)
      (.choice f.definitionId.val (f.valueIds.map fun i => i.val))=true) ↔
      ∀ f ∈ own.choiceFilters, ∃ a ∈ t.assignments, a.storyId=row.story.id ∧
        a.definitionId=f.definitionId.val ∧ ∃ i ∈ f.valueIds, a.valueId=some i.val := by
    refine forall₂_congr fun f hf => ?_
    simp only [Atom.holds,hlisted,List.any_eq_true,Bool.and_eq_true,decide_eq_true_eq,and_assoc,
      Option.any_eq_true,List.contains_iff_mem,List.mem_map]
    refine exists_congr fun a => and_congr_right fun _ => and_congr_right fun _ =>
      and_congr_right fun _ => ?_
    constructor
    · rintro ⟨value,hvalue,i,hi,rfl⟩
      exact ⟨i,hi,hvalue⟩
    · rintro ⟨i,hi,hvalue⟩
      exact ⟨i.val,hvalue,i,hi,rfl⟩
  rw [ownValues,List.all_append,List.all_append,List.all_append,List.all_append]
  simp only [Bool.and_eq_true]
  rw [all_optional,all_optional,all_optional,hnames,hlanguages,hcompatibilities]
  simp only [List.all_map,List.all_eq_true,List.mem_filter,decide_eq_true_eq,and_imp,
    Function.comp_apply,id_eq,hbooleans,hchoices]
  constructor
  · rintro ⟨⟨⟨⟨h1,h2⟩,h3⟩,h4⟩,h5⟩
    exact ⟨h1,h2,h3,h4,h5⟩
  · rintro ⟨h1,h2,h3,h4,h5⟩
    exact ⟨⟨⟨⟨h1,h2⟩,h3⟩,h4⟩,h5⟩

mutual

theorem testValues_iff {joined : Option String} : ∀ (q : Query),
    (∀ own ∈ members q, Admitted own) → (usesDisplayName q=true → joined=some locale) →
      ((testValues (Atom.holds t (withOfficial t joined row)) q).all id=true ↔
        Holds t locale row q)
  | .node own anyOf,h,hname => by
    rw [members,List.forall_mem_cons] at h
    rw [usesDisplayName,Bool.or_eq_true] at hname
    have hown := @ownValues_iff t locale row joined own h.1
      fun hn => hname (.inl (decide_eq_true hn))
    have hbranches := branchValues_iff anyOf h.2 fun hn => hname (.inr hn)
    rw [testValues,List.all_append,Bool.and_eq_true,hown,Holds]
    refine and_congr_right fun _ => ?_
    cases anyOf with
    | nil => simp
    | cons branch branches =>
      rw [List.isEmpty_cons,if_neg Bool.false_ne_true,List.all_cons,List.all_nil,Bool.and_true,
        id,hbranches]
      simp

/-- A branch has true tests exactly when one holds for the story. -/
theorem branchValues_iff {joined : Option String} : ∀ (branches : List Query),
    (∀ own ∈ membersOf branches, Admitted own) →
    (branchesUseDisplayName branches=true → joined=some locale) →
      ((branchValues (Atom.holds t (withOfficial t joined row)) branches).any id=true ↔
        SomeHolds t locale row branches)
  | [],_,_ => by
    rw [branchValues,SomeHolds]
    simp
  | branch::branches,h,hname => by
    rw [membersOf,List.forall_mem_append] at h
    rw [branchesUseDisplayName,Bool.or_eq_true] at hname
    have hfirst := testValues_iff branch h.1 fun hn => hname (.inl hn)
    have hrest := branchValues_iff branches h.2 fun hn => hname (.inr hn)
    rw [branchValues,List.any_cons,Bool.or_eq_true,hrest,id,hfirst,SomeHolds]

end

end Meaning

theorem runtimeBooleans_states (filters : List BooleanFilter) : ∀ {ids ids' : List I64},
    runtimeBooleans filters ids=.ok ids' →
      ∀ f ∈ filters, f.state ∈ ["ignored","true","false"] := by
  induction filters with
  | nil => exact fun _ f hf => absurd hf List.not_mem_nil
  | cons f filters ih =>
    intro ids ids' h
    unfold runtimeBooleans at h
    obtain ⟨hinvalid,h⟩ := checked_ok.mp h
    rw [not_or,not_or,not_not] at hinvalid
    exact List.forall_mem_cons.mpr ⟨hinvalid.2.1,ih h⟩

theorem runtimeOwn_admitted {env : RuntimeEnv} {own own' : Membership}
    (h : runtimeOwn env own=.ok own') : Admitted own' := by
  unfold runtimeOwn at h
  obtain ⟨name,-,h⟩ := exceptBind_ok.mp h
  by_cases hlimits : 200<name.length ∨ 50<groups own ∨ 100<own.languages.length ∨
      3<own.compatibilities.length
  · rw [if_pos hlimits] at h
    cases h
  rw [if_neg hlimits] at h
  obtain ⟨languages,-,h⟩ := exceptBind_ok.mp h
  by_cases hunknown : own.compatibilities.any (· ∉ compatibilityNames)
  · rw [if_pos hunknown] at h
    cases h
  rw [if_neg hunknown] at h
  obtain ⟨definitions,hbooleans,h⟩ := exceptBind_ok.mp h
  obtain ⟨choices,-,h⟩ := exceptBind_ok.mp h
  obtain rfl := Except.ok.inj h
  refine ⟨runtimeBooleans_states _ hbooleans,?_⟩
  intro c hc
  have hmem : c ∈ own.compatibilities := by
    rwa [mem_dedup,List.mem_insertionSort] at hc
  by_contra hn
  exact hunknown (List.any_eq_true.mpr ⟨c,hmem,decide_eq_true hn⟩)

theorem normalizeRequest_admitted {env : RuntimeEnv} {request request' : QueryRequest}
    (h : normalizeRequest env request=.ok request') :
    ∀ own ∈ members request'.criteria, Admitted own := by
  obtain ⟨-,hnodes,-⟩ := normalizeRequest_ok.mp h
  exact NodeChanges.eachNode_all (fun _ _ ho => runtimeOwn_admitted (requestOwn_ok.mp ho).2)
    request.criteria hnodes

mutual

theorem usesName_tests : ∀ (q : Query), ∀ x ∈ tests q, ∀ l ∈ x, usesName l=true →
    usesDisplayName q=true
  | .node own anyOf,x,hx,l,hl,hname => by
    rw [usesDisplayName,Bool.or_eq_true]
    rw [tests,List.mem_append] at hx
    rcases hx with hx | hx
    · left
      by_contra hempty
      rw [decide_eq_true_eq,ne_eq,not_not] at hempty
      simp only [ownTests,hempty,ne_eq,not_true_eq_false,if_false,List.nil_append,
        List.mem_append,List.mem_map] at hx
      rcases hx with ((hx | hx) | ⟨f,-,rfl⟩) | ⟨f,-,rfl⟩
      · by_cases hlanguages : own.languages=[]
        · simp [hlanguages] at hx
        · simp only [hlanguages,not_false_eq_true,if_true,List.mem_singleton] at hx
          rw [hx,List.mem_singleton] at hl
          rw [hl] at hname
          cases hname
      · by_cases hcompatibilities : own.compatibilities=[]
        · simp [hcompatibilities] at hx
        · simp only [hcompatibilities,not_false_eq_true,if_true,List.mem_singleton] at hx
          rw [hx,List.mem_singleton] at hl
          rw [hl] at hname
          cases hname
      · rcases List.mem_append.mp hl with hl | hl
        · by_cases hfalse : f.state="false"
          · rw [if_pos hfalse,List.mem_singleton] at hl
            rw [hl] at hname
            cases hname
          · rw [if_neg hfalse] at hl
            exact absurd hl List.not_mem_nil
        · rw [List.mem_singleton] at hl
          rw [hl] at hname
          cases hname
      · rw [List.mem_singleton] at hl
        rw [hl] at hname
        cases hname
    · right
      have hbranches := usesName_branchTests anyOf
      cases anyOf with
      | nil => exact absurd hx List.not_mem_nil
      | cons branch branches =>
        rw [List.isEmpty_cons,if_neg Bool.false_ne_true,List.mem_singleton] at hx
        rw [hx,List.mem_cons,List.mem_append,List.mem_singleton] at hl
        rcases hl with rfl | hl | rfl
        · cases hname
        · rcases mem_join hl with hl | ⟨y,hy,hl⟩
          · rw [List.mem_singleton.mp hl] at hname
            cases hname
          · exact hbranches y hy l hl hname
        · cases hname

theorem usesName_branchTests : ∀ (branches : List Query), ∀ x ∈ branchTests branches, ∀ l ∈ x,
    usesName l=true → branchesUseDisplayName branches=true
  | [],x,hx,l,hl,hname => by
    rw [branchTests] at hx
    exact absurd hx List.not_mem_nil
  | branch::branches,x,hx,l,hl,hname => by
    rw [branchesUseDisplayName,Bool.or_eq_true]
    rw [branchTests] at hx
    rcases List.mem_cons.mp hx with rfl | hx
    · left
      rw [List.mem_cons,List.mem_append,List.mem_singleton] at hl
      rcases hl with rfl | hl | rfl
      · cases hname
      · by_cases hempty : (join [Lexeme.and] (tests branch)).isEmpty=true
        · rw [if_pos hempty] at hl
          rw [List.mem_singleton.mp hl] at hname
          cases hname
        · rw [if_neg hempty] at hl
          rcases mem_join hl with hl | ⟨y,hy,hl⟩
          · rw [List.mem_singleton.mp hl] at hname
            cases hname
          · exact usesName_tests branch y hy l hl hname
      · cases hname
    · exact .inr (usesName_branchTests branches x hx l hl hname)

end

end Librairii.StoryQueries
