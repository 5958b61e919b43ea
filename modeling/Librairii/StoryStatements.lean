import Librairii.SavedQuery
import Librairii.SqlConditions
import Librairii.StoryRows

/-!
# The statements over stories

A statement is composed of fixed fragments of SQL, and its parameters are bound from left
to right. The engine reads the bound fragments: a FROM clause with or without the join of
the display names, a condition, an order and a limit. A deep page first selects the ids of
the page and then joins the stories to them.
-/

namespace Librairii.StoryStatements

open SavedQuery SqlConditions CatalogRows StoryRows

/-- A bound value. A list is bound as the JSON text whose elements `json_each` returns. -/
inductive Value where
  | text (value : String)
  | integer (value : ℤ)
  | texts (values : List String)
  | integers (values : List ℤ)
  deriving DecidableEq

/-- The fixed fragments of the statements. -/
inductive Fragment where
  | from
  | displayJoin
  | where
  | and
  | or
  | not
  | open
  | close
  | one
  | name
  | languages
  | compatibilities
  | boolean
  | choice
  | uuids
  | count
  | record
  | orderImported
  | orderName
  | limit
  | selectPage
  | orderPage
  | endPage
  | joinPage
  deriving DecidableEq

/-- The texts of a fragment before, between and behind its placeholders. -/
def Fragment.pieces : Fragment → List String
  | .from => [" FROM stories s JOIN story_archives a ON a.story_id=s.id"]
  | .displayJoin => [" LEFT JOIN official_story_metadata display_metadata ON " ++
      "display_metadata.story_uuid=s.uuid AND display_metadata.snapshot_id=(SELECT c.id FROM " ++
      "catalog_snapshots c WHERE c.status='active' AND c.locale=",")"]
  | .where => [" WHERE "]
  | .and => [" AND "]
  | .or => [" OR "]
  | .not => ["NOT "]
  | .open => ["("]
  | .close => [")"]
  | .one => ["1"]
  | .name => ["instr(COALESCE(NULLIF(display_metadata.title_normalized,'')," ++
      "s.display_name_normalized),",")>0"]
  | .languages => ["EXISTS(SELECT 1 FROM official_story_metadata m JOIN catalog_snapshots c ON " ++
      "c.id=m.snapshot_id WHERE m.story_uuid=s.uuid AND c.status='active' AND m.language IN " ++
      "(SELECT value FROM json_each(",")))"]
  | .compatibilities => ["a.validation_state IN (SELECT value FROM json_each(","))"]
  | .boolean => ["EXISTS(SELECT 1 FROM story_tag_assignments t WHERE t.story_id=s.id AND " ++
      "t.definition_id="," AND t.value_id IS NULL)"]
  | .choice => ["EXISTS(SELECT 1 FROM story_tag_assignments t WHERE t.story_id=s.id AND " ++
      "t.definition_id="," AND t.value_id IS NOT NULL AND t.value_id IN (SELECT CAST(value AS " ++
      "INTEGER) FROM json_each(",")))"]
  | .uuids => ["s.uuid IN (SELECT value FROM json_each(","))"]
  | .count => ["SELECT COUNT(*)"]
  | .record => ["SELECT s.id,s.uuid,COALESCE(s.embedded_title,'')," ++
      "COALESCE(s.embedded_description,''),COALESCE(s.embedded_artwork_path,''),s.created_at," ++
      "a.original_filename,a.detected_format,a.sha256,a.byte_size,a.managed_path," ++
      "a.validation_state,s.is_broken"]
  | .orderImported => [" ORDER BY s.created_at DESC,s.id DESC"]
  | .orderName => [" ORDER BY COALESCE(NULLIF(display_metadata.title_normalized,'')," ++
      "s.display_name_normalized),s.uuid,s.id"]
  | .limit => [" LIMIT "," OFFSET ",""]
  | .selectPage => ["WITH selected_page AS MATERIALIZED (SELECT s.id," ++
      "COALESCE(NULLIF(display_metadata.title_normalized,''),s.display_name_normalized) AS " ++
      "page_name"]
  | .orderPage => [" ORDER BY page_name,s.uuid,s.id"]
  | .endPage => [") "]
  | .joinPage => [" JOIN selected_page selected ON selected.id=s.id ORDER BY " ++
      "selected.page_name,s.uuid,s.id"]

def Fragment.text (f : Fragment) : String := "?".intercalate f.pieces

def Fragment.arity (f : Fragment) : ℕ := f.pieces.length-1

def sqlText (fragments : List Fragment) : String := String.join (fragments.map Fragment.text)

def placeholders (fragments : List Fragment) : ℕ := (fragments.map Fragment.arity).sum

/-- A fragment with the values of its placeholders. -/
abbrev Bound := Fragment×List Value

/-- Bind the values from left to right; none may be missing or left over. -/
def bind : List Fragment → List Value → Option (List Bound)
  | [],[] => some []
  | [],_::_ => none
  | f::fragments,values =>
    if values.length<f.arity then none
    else (bind fragments (values.drop f.arity)).map fun rest => (f,values.take f.arity)::rest

/-- A test of one story. -/
inductive Atom where
  | one
  | name (part : String)
  | languages (values : List String)
  | compatibilities (states : List String)
  | boolean (definitionId : ℤ)
  | choice (definitionId : ℤ) (valueIds : List ℤ)
  | uuids (values : List String)
  deriving DecidableEq

/-- The lexeme of a bound fragment inside a condition. -/
def lexeme : Bound → Option (Lexeme Atom)
  | (.and,[]) => some .and
  | (.or,[]) => some .or
  | (.not,[]) => some .not
  | (.open,[]) => some .open
  | (.close,[]) => some .close
  | (.one,[]) => some (.operand .one)
  | (.name,[.text part]) => some (.operand (.name part))
  | (.languages,[.texts values]) => some (.operand (.languages values))
  | (.compatibilities,[.texts states]) => some (.operand (.compatibilities states))
  | (.boolean,[.integer id]) => some (.operand (.boolean id))
  | (.choice,[.integer id,.integers values]) => some (.operand (.choice id values))
  | (.uuids,[.texts values]) => some (.operand (.uuids values))
  | _ => none

def Fragment.isCondition : Fragment → Bool
  | .and | .or | .not | .open | .close | .one | .name | .languages | .compatibilities | .boolean
  | .choice | .uuids => true
  | _ => false

/-- A row of the FROM clause: a listed story and the record joined to it. -/
structure Joined where
  listed : Listed
  official : Option Metadata

/-- The truth of a test. -/
def Atom.holds (t : StoryTables) (row : Joined) : Atom → Bool
  | .one => true
  | .name part => 0 < instr (displayName row.listed.story row.official) part
  | .languages values => t.catalog.metadata.any fun m => m.storyUuid=row.listed.story.uuid &&
      values.contains m.language && t.catalog.snapshots.any fun c => c.id=m.snapshot && c.active
  | .compatibilities states => states.contains row.listed.archive.validationState.asStr
  | .boolean id => t.assignments.any fun a =>
      a.storyId=row.listed.story.id && a.definitionId=id && a.valueId=none
  | .choice id values => t.assignments.any fun a =>
      a.storyId=row.listed.story.id && a.definitionId=id && a.valueId.any (values.contains ·)
  | .uuids values => values.contains row.listed.story.uuid

/-- The parsed part of a statement behind its columns. -/
structure Selection where
  /-- The locale of the joined display names. -/
  locale : Option String
  condition : Option (List (Lexeme Atom))

/-- Read a FROM clause: the locale of its join and what follows. -/
def fromClause : List Bound → Option (Option String×List Bound)
  | (.from,[])::(.displayJoin,[.text locale])::rest => some (some locale,rest)
  | (.from,[])::rest => some (none,rest)
  | _ => none

/-- Read a condition, if there is one. -/
def whereClause : List Bound → Option (Option (List (Lexeme Atom))×List Bound)
  | (.where,[])::rest =>
    ((rest.takeWhile fun b => b.1.isCondition).mapM lexeme).map fun condition =>
      (some condition,rest.dropWhile fun b => b.1.isCondition)
  | rest => some (none,rest)

/-- Read a FROM clause and a condition; return what follows. -/
def selection (bounds : List Bound) : Option (Selection×List Bound) := do
  let (locale,rest) ← fromClause bounds
  let (condition,rest) ← whereClause rest
  some (⟨locale,condition⟩,rest)

/-- The rows of the FROM clause. A LEFT JOIN keeps a story without a record. -/
def sourceRows (t : StoryTables) : Option String → List Joined
  | none => (listed t).map fun row => ⟨row,none⟩
  | some locale => (listed t).flatMap fun row =>
    match displayMetadata t locale row.story with
    | [] => [⟨row,none⟩]
    | records => records.map fun m => ⟨row,some m⟩

/-- A lexeme names a column of the joined record. -/
def usesName : Lexeme Atom → Bool
  | .operand (.name _) => true
  | _ => false

/-- The rows of a selection. A condition that does not parse or names a column that is not
joined is refused. -/
def selectRows (t : StoryTables) (s : Selection) : Option (List Joined) :=
  match s.condition with
  | none => some (sourceRows t s.locale)
  | some condition =>
    if s.locale=none ∧ condition.any usesName then none
    else if (evaluate (fun _ => true) condition true {} []).isNone then none
    else some ((sourceRows t s.locale).filter fun row =>
      evaluate (Atom.holds t row) condition true {} []=some true)

def nameKey (row : Joined) : String ×ₗ String ×ₗ ℤ :=
  toLex (displayName row.listed.story row.official,
    toLex (row.listed.story.uuid,row.listed.story.id))

def importedKey (row : Joined) : String ×ₗ ℤ :=
  toLex (row.listed.story.createdAt,row.listed.story.id)

def orderByName (rows : List Joined) : List Joined :=
  rows.insertionSort fun a b => nameKey a≤nameKey b

def orderByImported (rows : List Joined) : List Joined :=
  rows.insertionSort fun a b => importedKey b ≤ importedKey a

/-- LIMIT and OFFSET. A negative limit is none, and a negative offset is zero. -/
def limited {α : Type} (count offset : ℤ) (rows : List α) : List α :=
  if count<0 then rows.drop offset.toNat else (rows.drop offset.toNat).take count.toNat

/-- Read a limit, if there is one. -/
def limitRows (rows : List Joined) : List Bound → Option (List Joined)
  | [] => some rows
  | [(.limit,[.integer count,.integer offset])] => some (limited count offset rows)
  | _ => none

def orderRows (s : Selection) (rows : List Joined) : List Bound → Option (List Joined)
  | (.orderImported,[])::rest => limitRows (orderByImported rows) rest
  | (.orderName,[])::rest => if s.locale=none then none else limitRows (orderByName rows) rest
  | _ => none

/-- The key of a story joined to a page: its name in the page, its uuid and its id. -/
def pageKey (row : Listed×String) : String ×ₗ String ×ₗ ℤ :=
  toLex (row.2,toLex (row.1.story.uuid,row.1.story.id))

/-- Join the listed stories to the ids and names of a page, ordered by the names. -/
def joinPage (t : StoryTables) (page : List Joined) : List Listed :=
  (((listed t).flatMap fun row => (page.filter fun p => p.listed.story.id=row.story.id).map
    fun p => (row,displayName p.listed.story p.official)).insertionSort
      fun a b => pageKey a≤pageKey b).map (·.1)

/-- The number a COUNT statement returns. -/
def executeCount (t : StoryTables) (sql : List Fragment) (values : List Value) : Option ℕ := do
  match ← bind sql values with
  | (.count,[])::rest => do
    let (s,rest) ← selection rest
    if rest≠[] then none else (selectRows t s).map List.length
  | _ => none

/-- The rows a statement over records returns. -/
def executeRecords (t : StoryTables) (sql : List Fragment) (values : List Value) :
    Option (List Listed) := do
  match ← bind sql values with
  | (.record,[])::rest => do
    let (s,rest) ← selection rest
    let rows ← selectRows t s
    let rows ← orderRows s rows rest
    some (rows.map (·.listed))
  | (.selectPage,[])::rest => do
    let (s,rest) ← selection rest
    let rows ← selectRows t s
    match rest with
    | [(.orderPage,[]),(.limit,[.integer count,.integer offset]),(.endPage,[]),(.record,[]),
        (.from,[]),(.joinPage,[])] =>
      if s.locale=none then none
      else some (joinPage t (limited count offset (orderByName rows)))
    | _ => none
  | _ => none

/-- Bounds with as many values as their placeholders are recovered from their fragments
and values. -/
theorem bind_bounds (bounds : List Bound) (h : ∀ b ∈ bounds, b.2.length=b.1.arity) :
    bind (bounds.map (·.1)) (bounds.flatMap (·.2))=some bounds := by
  induction bounds with
  | nil => rfl
  | cons b bounds ih =>
    have hb := h b List.mem_cons_self
    have hrest := ih fun c hc => h c (List.mem_cons_of_mem _ hc)
    have hlength : ¬(b.2++bounds.flatMap (·.2)).length<b.1.arity := by
      rw [List.length_append]
      omega
    rw [List.map_cons,List.flatMap_cons,bind,if_neg hlength,← hb,List.drop_left',
      List.take_left',hrest]
    · rfl
    · rfl
    · rfl

theorem placeholders_bounds (bounds : List Bound) (h : ∀ b ∈ bounds, b.2.length=b.1.arity) :
    placeholders (bounds.map (·.1))=(bounds.flatMap (·.2)).length := by
  induction bounds with
  | nil => rfl
  | cons b bounds ih =>
    have hb := h b List.mem_cons_self
    have hrest := ih fun c hc => h c (List.mem_cons_of_mem _ hc)
    rw [placeholders] at hrest
    rw [placeholders,List.map_cons,List.map_cons,List.sum_cons,hrest,List.flatMap_cons,
      List.length_append,hb]

/-- The bound fragment of a lexeme. -/
def render : Lexeme Atom → Bound
  | .and => (.and,[])
  | .or => (.or,[])
  | .not => (.not,[])
  | .open => (.open,[])
  | .close => (.close,[])
  | .operand .one => (.one,[])
  | .operand (.name part) => (.name,[.text part])
  | .operand (.languages values) => (.languages,[.texts values])
  | .operand (.compatibilities states) => (.compatibilities,[.texts states])
  | .operand (.boolean id) => (.boolean,[.integer id])
  | .operand (.choice id values) => (.choice,[.integer id,.integers values])
  | .operand (.uuids values) => (.uuids,[.texts values])

theorem lexeme_render (l : Lexeme Atom) : lexeme (render l)=some l := by
  cases l with
  | operand a => cases a <;> rfl
  | _ => rfl

theorem length_render (l : Lexeme Atom) : (render l).2.length=(render l).1.arity := by
  cases l with
  | operand a => cases a <;> rfl
  | _ => rfl

theorem isCondition_render (l : Lexeme Atom) : (render l).1.isCondition=true := by
  cases l with
  | operand a => cases a <;> rfl
  | _ => rfl

theorem mapM_lexeme_render (lexemes : List (Lexeme Atom)) :
    (lexemes.map render).mapM lexeme=some lexemes := by
  induction lexemes with
  | nil => rfl
  | cons l lexemes ih =>
    rw [List.map_cons,List.mapM_cons,lexeme_render,ih]
    rfl

def fromBounds : Option String → List Bound
  | none => [(.from,[])]
  | some locale => [(.from,[]),(.displayJoin,[.text locale])]

def whereBounds : Option (List (Lexeme Atom)) → List Bound
  | none => []
  | some condition => (.where,[])::condition.map render

def Selection.bounds (s : Selection) : List Bound := fromBounds s.locale++whereBounds s.condition

theorem Selection.length_bounds (s : Selection) : ∀ b ∈ s.bounds, b.2.length=b.1.arity := by
  intro b hb
  rcases List.mem_append.mp hb with hb | hb
  · cases hl : s.locale with
    | none =>
      rw [hl,fromBounds,List.mem_singleton] at hb
      rw [hb]
      rfl
    | some locale =>
      rw [hl,fromBounds,List.mem_cons,List.mem_singleton] at hb
      rcases hb with rfl | rfl
      · rfl
      · rfl
  · cases hc : s.condition with
    | none =>
      rw [hc] at hb
      exact absurd hb List.not_mem_nil
    | some condition =>
      rw [hc,whereBounds] at hb
      rcases List.mem_cons.mp hb with rfl | hb
      · rfl
      · obtain ⟨l,-,rfl⟩ := List.mem_map.mp hb
        exact length_render l

def Fragment.continues (f : Fragment) : Bool := f.isCondition || f=.where || f=.displayJoin

theorem selection_bounds (s : Selection) {rest : List Bound}
    (h : ∀ b ∈ rest.head?, b.1.continues=false) : selection (s.bounds++rest)=some (s,rest) := by
  obtain ⟨locale,condition⟩ := s
  have hwhere : whereClause (whereBounds condition++rest)=some (condition,rest) := by
    cases condition with
    | none =>
      cases rest with
      | nil => rfl
      | cons b rest =>
        have hb := h b rfl
        obtain ⟨f,values⟩ := b
        cases f <;> first | rfl | cases hb
    | some condition =>
      have htail : rest.takeWhile (fun b => b.1.isCondition)=[] ∧
          rest.dropWhile (fun b => b.1.isCondition)=rest := by
        cases rest with
        | nil => exact ⟨rfl,rfl⟩
        | cons b rest =>
          have hb := h b rfl
          rw [Fragment.continues,Bool.or_eq_false_iff,Bool.or_eq_false_iff] at hb
          have hc : ¬b.1.isCondition=true := by
            rw [hb.1.1]
            exact Bool.false_ne_true
          exact ⟨List.takeWhile_cons_of_neg hc,List.dropWhile_cons_of_neg hc⟩
      have hall : ∀ b ∈ condition.map render, b.1.isCondition=true := by
        intro b hb
        obtain ⟨l,-,rfl⟩ := List.mem_map.mp hb
        exact isCondition_render l
      rw [whereBounds,List.cons_append,whereClause,List.takeWhile_append_of_pos hall,
        List.dropWhile_append_of_pos hall,htail.1,htail.2,List.append_nil,mapM_lexeme_render]
      rfl
  have hfrom : fromClause (Selection.bounds ⟨locale,condition⟩++rest)=
      some (locale,whereBounds condition++rest) := by
    cases locale with
    | none =>
      have hhead : ∀ b ∈ (whereBounds condition++rest).head?, b.1≠.displayJoin := by
        intro b hb hjoin
        cases condition with
        | none =>
          have hcontinues := h b hb
          rw [Fragment.continues,hjoin] at hcontinues
          cases hcontinues
        | some condition =>
          cases Option.mem_some_iff.mp hb
          cases hjoin
      change fromClause ((.from,[])::(whereBounds condition++rest))=_
      cases hrest : whereBounds condition++rest with
      | nil => rfl
      | cons b more =>
        have hb := hhead b (by rw [hrest]; rfl)
        obtain ⟨f,values⟩ := b
        cases f <;> first | rfl | exact absurd rfl hb
    | some locale => rfl
  rw [selection,hfrom]
  change (whereClause _ >>= _)=_
  rw [hwhere]
  rfl

/-- A listed story with the record that the FROM clause joins to it. -/
def withOfficial (t : StoryTables) : Option String → Listed → Joined
  | none,row => ⟨row,none⟩
  | some locale,row => ⟨row,(displayMetadata t locale row.story).head?⟩

theorem withOfficial_listed (t : StoryTables) (locale : Option String) (row : Listed) :
    (withOfficial t locale row).listed=row := by
  cases locale <;> rfl

theorem sourceRows_eq {t : StoryTables} (h : Keyed t) (locale : Option String) :
    sourceRows t locale=(listed t).map (withOfficial t locale) := by
  cases locale with
  | none => rfl
  | some locale =>
    rw [sourceRows,List.map_eq_flatMap]
    apply List.flatMap_congr
    intro row _
    have hone := displayMetadata_le_one h locale row.story
    unfold withOfficial
    dsimp only
    cases hrecords : displayMetadata t locale row.story with
    | nil => rfl
    | cons m rest =>
      rw [hrecords,List.length_cons] at hone
      have hrest : rest=[] := List.eq_nil_of_length_eq_zero (by omega)
      rw [hrest]
      rfl

/-- A condition that reads as a conjunction under every valuation of its tests selects the
rows on which it is true, when its columns are joined. -/
theorem selectRows_eq {t : StoryTables} (h : Keyed t) {locale : Option String}
    {condition : List (Lexeme Atom)} {value : (Atom → Bool) → Bool}
    (hc : ∀ v : Atom → Bool, v .one=true → Conjoins v condition (value v))
    (hnames : condition.any usesName=true → locale≠none) :
    selectRows t ⟨locale,some condition⟩=some (((listed t).filter fun row =>
      value (Atom.holds t (withOfficial t locale row))).map (withOfficial t locale)) := by
  have hjoined : ¬(locale=none ∧ condition.any usesName=true) := fun hn => hnames hn.2 hn.1
  have hparses : ¬(evaluate (fun _ => true) condition true {} []).isNone=true := by
    rw [(hc _ rfl).evaluate_eq]
    exact Bool.false_ne_true
  have hfilter : (sourceRows t locale).filter (fun row =>
      evaluate (Atom.holds t row) condition true {} []=some true)=
      ((listed t).filter fun row => value (Atom.holds t (withOfficial t locale row))).map
        (withOfficial t locale) := by
    rw [sourceRows_eq h,List.filter_map]
    congr 1
    apply List.filter_congr
    intro row _
    dsimp only [Function.comp_apply]
    rw [(hc _ rfl).evaluate_eq]
    simp
  rw [selectRows]
  dsimp only
  rw [if_neg hjoined,if_neg hparses,hfilter]

theorem selectRows_all {t : StoryTables} (h : Keyed t) (locale : Option String) :
    selectRows t ⟨locale,none⟩=some ((listed t).map (withOfficial t locale)) := by
  rw [selectRows]
  dsimp only
  rw [sourceRows_eq h]

end Librairii.StoryStatements
