import Librairii.KeyedOccurrences
import Librairii.RuntimeNormalization
import Librairii.SavedQueryRoundTrip
import Librairii.TagRows

/-!
# Editing the filters of a request

Languages and compatibilities are edited through the text of a saved query, which the codec reads
back; the other criteria are edited in place. The criteria shown for removal are the options that
are on, the saved criteria the catalog does not know, the name and the branches.
-/

namespace Librairii.FilterEdits

open CheckedResults JsonText SavedQuery SavedQueryCodec SavedQueryRoundTrip CanonicalQuery
open NormalizationPasses QueryRequests RuntimeNormalization
open TagRows (Kind)
open WireParser hiding members value string

/-- A criterion that can be named. -/
inductive Target where
  | name
  | language (value : String)
  | compatibility (value : String)
  | boolean (id : I64)
  | choice (definition value : I64)
  | union
  deriving DecidableEq

/-- The states of a Boolean filter. -/
inductive BooleanState where
  | any
  | tagged
  | notTagged
  deriving DecidableEq

/-- The orders of the results. -/
inductive SortOrder where
  | recentlyAdded
  | name
  deriving DecidableEq

/-- The edits of a request. -/
inductive Edit where
  | toggle (target : Target)
  | boolean (definition : I64) (state : BooleanState)
  | remove (target : Target)
  | clear
  | clearTags
  | sort (order : SortOrder)
  deriving DecidableEq

/-- The two facet lists as one object, its keys in order. -/
def facetsJson (languages compatibilities : List String) : Json :=
  .object [("compatibilities",.array (compatibilities.map .string)),
    ("languages",.array (languages.map .string))]

def toggle {α : Type} [DecidableEq α] (values : List α) (value : α) (remove : Bool) : List α :=
  if value ∈ values then values.filter (·≠value)
  else if remove then values else values++[value]

def chosen (own : Membership) (definition : I64) : List I64 :=
  ((own.choiceFilters.find? fun f => f.definitionId=definition).map (·.valueIds)).getD []

section Edits

variable (env : CodecEnv)

/-- Read the facet lists through the codec and keep the other criteria. -/
def facets (languages compatibilities : List String) : Query → Except QueryInputError Query
  | .node own anyOf =>
    match env.serialize (facetsJson languages compatibilities) with
    | none => .error .invalidQuery
    | some text =>
      match decode env currentVersion (bytes text.toList) zero with
      | .error _ => .error .invalidQuery
      | .ok (.node result _) => .ok (.node { result with
          name := own.name
          booleanFilters := own.booleanFilters
          choiceFilters := own.choiceFilters } anyOf)

def editTarget (remove : Bool) : Query → Target → Except QueryInputError Query
  | .node own anyOf,.name => .ok (.node { own with name := "" } anyOf)
  | .node own _,.union => .ok (.node own [])
  | .node own anyOf,.language value =>
    facets env (toggle own.languages value remove) own.compatibilities (.node own anyOf)
  | .node own anyOf,.compatibility value =>
    facets env own.languages (toggle own.compatibilities value remove) (.node own anyOf)
  | .node own anyOf,.boolean id =>
    .ok (.node { own with
      booleanFilters := own.booleanFilters.filter fun f => f.definitionId≠id } anyOf)
  | .node own anyOf,.choice definition value =>
    let values := toggle (chosen own definition) value remove
    let others := own.choiceFilters.filter fun f => f.definitionId≠definition
    .ok (.node { own with
      choiceFilters := if values=[] then others else others++[⟨definition,values⟩] } anyOf)

def setBoolean (definition : I64) (state : BooleanState) (own : Membership) : Membership :=
  let others := own.booleanFilters.filter fun f => f.definitionId≠definition
  { own with
    booleanFilters := if state=.any then others
      else others++[⟨definition,if state=.tagged then "true" else "false"⟩] }

def edit (request : QueryRequest) : Edit → Except QueryInputError QueryRequest
  | .clear => .ok { request with page := firstPage, criteria := .node {} [] }
  | .clearTags =>
    match request.criteria with
    | .node own anyOf => .ok { request with
        page := firstPage
        criteria := .node { own with booleanFilters := [], choiceFilters := [] } anyOf }
  | .sort order => .ok { request with
      page := firstPage
      sort := match order with
        | .recentlyAdded => "imported_desc"
        | .name => "name_asc" }
  | .boolean definition state =>
    match request.criteria with
    | .node own anyOf => .ok { request with
        page := firstPage
        criteria := .node (setBoolean definition state own) anyOf }
  | .toggle target => do
    let criteria ← editTarget env false request.criteria target
    .ok { request with page := firstPage, criteria := criteria }
  | .remove target => do
    let criteria ← editTarget env true request.criteria target
    .ok { request with page := firstPage, criteria := criteria }

end Edits

/-- The display languages. -/
inductive Language where
  | english
  | french
  deriving DecidableEq

/-- The product texts of each display language. -/
structure Catalogs where
  /-- The text of a key, if the catalog has it. -/
  text : Language → String → Option String

def grouped (separator : Char) : List Char → List Char
  | [] => []
  | digit::digits =>
    if digits≠[] ∧ digits.length%3=0 then digit::separator::grouped separator digits
    else digit::grouped separator digits

/-- The display text of an integer. -/
def Language.number (language : Language) (value : ℤ) : String :=
  let separator := match language with
    | .english => ','
    | .french => '\u202f'
  String.ofList ((if value<0 then ['-'] else [])++
    grouped separator (decimalNat value.natAbs))

/-- The display text of a key, which stands for itself where the catalog lacks it. -/
def translated (catalogs : Catalogs) (language : Language) (key : String) : String :=
  let known := (catalogs.text language key).getD key
  match language with
  | .english => known
  | .french =>
    if key="Unavailable saved criterion" then "Critère enregistré indisponible"
    else if key="Combined query" then "Requête combinée"
    else if key="Search" then "Recherche"
    else known

/-- A tag definition. -/
structure Definition where
  id : I64
  key : String
  label : String
  kind : Kind
  source : String
  deriving DecidableEq

/-- A value of a tag definition. -/
structure Value where
  id : I64
  label : String
  deriving DecidableEq

/-- A tag definition with its values. -/
structure CatalogEntry where
  definition : Definition
  values : List Value
  deriving DecidableEq

/-- The retired built-in definition. -/
def CatalogEntry.broken (entry : CatalogEntry) : Prop :=
  entry.definition.source="builtin" ∧ entry.definition.key="broken"

instance (entry : CatalogEntry) : Decidable entry.broken :=
  inferInstanceAs (Decidable (_ ∧ _))

/-- The groups of options. -/
inductive Group where
  | language
  | compatibility
  | tag (id : I64)
  deriving DecidableEq

/-- An option with its state: off, on or not tagged. -/
structure OptionRow where
  group : Group
  heading : String
  target : Target
  label : String
  state : ℕ
  deriving DecidableEq

/-- A criterion shown for removal. -/
structure Active where
  target : Target
  label : String
  deriving DecidableEq

section Labels

variable (catalogs : Catalogs) (language : Language)

/-- A text of a tag, which is the user's own or translated. -/
def tagLabel (source text : String) : String :=
  if source="user" then text else translated catalogs language text

def definitionLabel (entry : CatalogEntry) : String :=
  tagLabel catalogs language entry.definition.source entry.definition.label

def valueLabel (entry : CatalogEntry) (value : String) : String :=
  tagLabel catalogs language entry.definition.source value

def languageLabel (value : String) : String :=
  let name := match String.ofList (value.toList.takeWhile (·≠ '-')) with
    | "en" => "English"
    | "fr" => "French"
    | "de" => "German"
    | "es" => "Spanish"
    | "it" => "Italian"
    | _ => value
  translated catalogs language name

def compatibilityLabel (value : String) : String :=
  let name := match value with
    | "compatible" => "Compatible"
    | "missing" => "Archive missing"
    | _ => "Verification failed"
  translated catalogs language name

def languageOption (own : Membership) (value : String) : OptionRow where
  group := .language
  heading := translated catalogs language "Language"
  target := .language value
  label := translated catalogs language "Language"++" · "++languageLabel catalogs language value
  state := if value ∈ own.languages then 1 else 0

def compatibilityOption (own : Membership) (value : String) : OptionRow where
  group := .compatibility
  heading := translated catalogs language "Import status"
  target := .compatibility value
  label := translated catalogs language "Import status"++" · "++
    compatibilityLabel catalogs language value
  state := if value ∈ own.compatibilities then 1 else 0

def booleanState (own : Membership) (definition : I64) : ℕ :=
  match own.booleanFilters.find? fun f => f.definitionId=definition with
  | none => 0
  | some f => if f.state="true" then 1 else if f.state="false" then 2 else 0

def entryOptions (own : Membership) (entry : CatalogEntry) : List OptionRow :=
  let definition := entry.definition.id
  let label := definitionLabel catalogs language entry
  match entry.definition.kind with
  | .boolean => [{
      group := .tag definition
      heading := label
      target := .boolean definition
      label := label
      state := booleanState own definition }]
  | .choice => entry.values.map fun value => {
      group := .tag definition
      heading := label
      target := .choice definition value.id
      label := label++" · "++valueLabel catalogs language entry value.label
      state := if own.choiceFilters.any fun f => f.definitionId=definition ∧
        value.id ∈ f.valueIds then 1 else 0 }

def options (request : QueryRequest) (catalog : List CatalogEntry) (languages : List String) :
    List OptionRow :=
  match request.criteria with
  | .node own _ =>
    (dedup ((languages++own.languages).insertionSort (·≤·))).map
        (languageOption catalogs language own)++
      compatibilityNames.map (compatibilityOption catalogs language own)++
      (catalog.filter fun entry => ¬entry.broken).flatMap (entryOptions catalogs language own)

def activeOption (row : OptionRow) : Active where
  target := row.target
  label := if row.state=2 then translated catalogs language "Not tagged"++" · "++row.label
    else row.label

/-- The criterion shown for a Boolean filter whose definition the catalog lacks. -/
def missingBoolean (catalog : List CatalogEntry) (f : BooleanFilter) : List Active :=
  if catalog.any fun entry => entry.definition.id=f.definitionId ∧
      entry.definition.kind=.boolean then []
  else [⟨.boolean f.definitionId,translated catalogs language "Unavailable saved criterion"++
    " · "++language.number f.definitionId.val⟩]

/-- The criteria shown for the values of a choice filter that the catalog lacks. -/
def missingValues (catalog : List CatalogEntry) (f : ChoiceFilter) : List Active :=
  (f.valueIds.filter fun value => ¬catalog.any fun entry =>
      entry.definition.id=f.definitionId ∧ entry.values.any fun v => v.id=value).map fun value =>
    ⟨.choice f.definitionId value,translated catalogs language "Unavailable saved criterion"++
      " · "++language.number f.definitionId.val++" / "++language.number value.val⟩

/-- The criteria of a request that are shown for removal. -/
def active (request : QueryRequest) (catalog : List CatalogEntry) : List Active :=
  match request.criteria with
  | .node own anyOf =>
    (if own.name="" then []
      else [⟨.name,translated catalogs language "Search"++" “"++own.name++"”"⟩])++
    ((options catalogs language request catalog []).filter fun row => row.state≠0).map
      (activeOption catalogs language)++
    own.booleanFilters.flatMap (missingBoolean catalogs language catalog)++
    own.choiceFilters.flatMap (missingValues catalogs language catalog)++
    if anyOf=[] then []
    else [⟨.union,translated catalogs language "Combined query"++" ("++
      language.number anyOf.length++")"⟩]

end Labels

theorem syntax_ascii {c : Char} (h : SyntaxCharacter c) : c.toNat<128 := by
  rcases h with hlisted | hrange
  · have hall : (['"','\\','/','{','}','[',']',',',':','-'].all fun c =>
        decide (c.toNat<128))=true := by decide
    exact of_decide_eq_true (List.all_eq_true.mp hall c hlisted)
  · omega

variable {escape : Char → List Char}

/-- The text of a character has at most six bytes. -/
theorem length_escape (he : Escaping escape) (c : Char) : (bytes (escape c)).length≤6 := by
  have hslash : Char.toNat '\\'<128 := by decide
  have hdenotes := he c
  generalize escape c=text at hdenotes ⊢
  cases hdenotes with
  | plain hq hb hc =>
    have hwidth := c.utf8Size_le_four
    rw [bytes_cons,List.length_append,String.length_utf8EncodeChar]
    exact Nat.add_le_add hwidth (Nat.zero_le 2)
  | short hs =>
    have hascii := syntax_ascii ( shortEscape_syntax hs)
    rw [length_bytes_separator hslash,length_bytes_separator hascii]
    decide
  | unicode ha hb hd he' hc =>
    rw [length_bytes_separator hslash,length_bytes_separator (by decide),
      length_bytes_separator (syntax_ascii ( hexDigit_syntax ha)),
      length_bytes_separator (syntax_ascii ( hexDigit_syntax hb)),
      length_bytes_separator (syntax_ascii ( hexDigit_syntax hd)),
      length_bytes_separator (syntax_ascii ( hexDigit_syntax he'))]
    decide

theorem textSize_string (he : Escaping escape) (text : String) :
    textSize escape (.string text)≤6*text.length+2 := by
  have hquote : Char.toNat '"'<128 := by decide
  have hbody : ∀ characters : List Char,
      (bytes (characters.flatMap escape)).length≤6*characters.length := by
    intro characters
    induction characters with
    | nil => exact Nat.zero_le _
    | cons c rest ih =>
      have hc := length_escape he c
      rw [List.flatMap_cons,bytes_append,List.length_append,List.length_cons]
      omega
  have hlength := hbody text.toList
  have hend : (bytes ['"']).length=1 := by decide
  rw [textSize,write,writeString,length_bytes_separator hquote,bytes_append,List.length_append,
    hend]
  rw [String.length_toList] at hlength
  omega

variable {n : ℕ}

theorem length_moreElements_le {values : List Json} (h : ∀ value ∈ values, textSize escape value≤n)
    :
    (bytes (writeMoreElements escape values)).length≤(n+1)*values.length+1 := by
  induction values with
  | nil => exact Nat.le_add_left 1 _
  | cons value values ih =>
    have hvalue := h value List.mem_cons_self
    have hvalues := ih fun value hm => h value (List.mem_cons_of_mem _ hm)
    rw [textSize] at hvalue
    rw [writeMoreElements,length_bytes_separator (by decide),bytes_append,List.length_append,
      List.length_cons,Nat.mul_succ]
    omega

theorem textSize_array_le {values : List Json} (h : ∀ value ∈ values, textSize escape value≤n) :
    textSize escape (.array values)≤(n+1)*values.length+2 := by
  cases values with
  | nil => exact Nat.le_add_left 2 _
  | cons value values =>
    have hvalue := h value List.mem_cons_self
    have hvalues := length_moreElements_le fun v hm => h v (List.mem_cons_of_mem value hm)
    rw [textSize] at hvalue
    rw [textSize,write,length_bytes_separator (by decide),writeElements,bytes_append,
      List.length_append,List.length_cons,Nat.mul_succ]
    omega

theorem textSize_strings (he : Escaping escape) {texts : List String}
    (h : ∀ text ∈ texts, text.length≤n) :
    textSize escape (.array (texts.map .string))≤(6*n+3)*texts.length+2 := by
  have hsize := @textSize_array_le escape (6*n+2) (texts.map .string)
  rw [List.forall_mem_map,List.length_map] at hsize
  refine hsize fun text htext => ?_
  have htext' := h text htext
  have hstring := textSize_string he text
  omega

/-- What the edits rely on: the codec's documented parameters, one canonicalization of languages
for both passes, and the empty name and short canonical languages it has. -/
structure Frozen (env : CodecEnv) (runtime : RuntimeEnv) : Prop where
  /-- The serializer, the number syntax and the lower casing behave as documented. -/
  documented : Documented env
  /-- Both passes canonicalize languages alike. -/
  languages : ∀ language, runtime.canonicalLanguage language=env.canonicalLanguage language
  empty : env.normalize ""=.ok ""
  /-- A canonical language that is read as itself has at most 35 characters. -/
  short : ∀ language, env.canonicalLanguage language=.ok language → language.length≤35

theorem fit_facetsJson {env : CodecEnv} (hd : Documented env)
    (languages compatibilities : List String) :
    WireParser.Fit env.toWireEnv (facetsJson languages compatibilities) := by
  have hkeys := keyed_letters hd ["compatibilities","languages"] (letters_of_all (by decide))
    (by decide)
    (List.Sublist.refl ([("compatibilities",Json.array (compatibilities.map .string)),
      ("languages",Json.array (languages.map .string))].map Prod.fst))
  exact ⟨hkeys,fit_strings compatibilities,fit_strings languages,trivial⟩

def facetFields (languages compatibilities : List String) : Membership where
  languages := languages
  compatibilities := compatibilities

theorem query_facetsJson (languages compatibilities : List String) (navigation : Bool) :
    query (wireOf (facetsJson languages compatibilities)) navigation=
      .ok (.node (facetFields languages compatibilities) []) := by
  have hfirst : field "compatibilities"=.ok "COMPATIBILITIES" := by decide
  have hsecond : field "languages"=.ok "LANGUAGES" := by decide
  have hread := @ownField_compatibilities navigation {} compatibilities
  have hmore := @ownField_languages navigation { compatibilities := compatibilities } languages
  change queryFields navigation {} [] [("compatibilities",_),("languages",_)]=_
  rw [queryFields,bind_of_ok hfirst,if_neg (by decide),bind_of_ok hread,queryFields,
    bind_of_ok hsecond,if_neg (by decide),bind_of_ok hmore]
  rfl

theorem canonicalSaved_leaf (env : NormalEnv) (own : Membership) :
    canonicalSaved env (.node own [])=
      (normalizeOwn env (dropIgnored own)).map fun own => .node (sortFilters own) [] := by
  have htree : normalizeTree env (.node (dropIgnored own) []) maxNodes=
      (normalizeOwn env (dropIgnored own)).map fun normal => (.node normal [],49) := by
    rw [normalizeTree]
    change (normalizeOwn env (dropIgnored own) >>= fun normal =>
      .ok (Query.node normal [],49))=_
    cases normalizeOwn env (dropIgnored own) with
    | error e => rfl
    | ok normal => rfl
  have hmembership : canonicalMembership env (.node own []) maxNodes=
      (normalizeOwn env (dropIgnored own)).map
        fun normal => (.node (sortFilters normal) [],49) := by
    have hbudget : budget maxNodes=.ok 49 := rfl
    have hbranches : membershipBranches env [] 49=.ok ([],49) := by
      rw [membershipBranches]
    rw [canonicalMembership,bind_of_ok hbudget,bind_of_ok hbranches]
    dsimp only
    rw [htree]
    cases normalizeOwn env (dropIgnored own) with
    | error e => rfl
    | ok normal => rfl
  rw [canonicalSaved_steps,hmembership]
  cases normalizeOwn env (dropIgnored own) with
  | error e => rfl
  | ok normal =>
    change (savedBranches env []).map (Query.node (sortFilters normal))=_
    rw [savedBranches]
    rfl

/-- What the facet lists must be to be read. -/
structure Readable (env : CodecEnv) (languages compatibilities canonicals : List String) :
    Prop where
  /-- There are at most 100 languages. -/
  few : languages.length≤100
  /-- There are at most three compatibilities. -/
  fewer : compatibilities.length≤3
  known : ∀ value ∈ compatibilities, value ∈ compatibilityNames
  canonical : languages.mapM env.canonicalLanguage=.ok canonicals

def withFacets (own : Membership) (languages compatibilities : List String) : Membership where
  name := own.name
  languages := languages
  compatibilities := compatibilities
  booleanFilters := own.booleanFilters
  choiceFilters := own.choiceFilters

section Facets

variable {env : CodecEnv} {runtime : RuntimeEnv}

theorem normalizeOwn_facets (hf : Frozen env runtime) {languages compatibilities : List String}
    {normal : Membership} :
    normalizeOwn env.toNormalEnv (dropIgnored (facetFields languages compatibilities))=
        .ok normal ↔
      ∃ canonicals, Readable env languages compatibilities canonicals ∧
        normal=facetFields (sortedSet canonicals) (sortedSet compatibilities) := by
  have hgroups : groups (dropIgnored (facetFields languages compatibilities))≤50 := by
    change 0+0+(if languages=[] then 0 else 1)+(if compatibilities=[] then 0 else 1)≤50
    split <;> split <;> decide
  have hname : env.normalize (dropIgnored (facetFields languages compatibilities)).name=
      .ok "" := hf.empty
  rw [normalizeOwn,bind_of_ok hname]
  constructor
  · intro h
    obtain ⟨hlimits,h⟩ := checked_ok.mp h
    rw [not_or,not_or,not_or,not_lt,not_lt,not_lt,not_lt] at hlimits
    obtain ⟨canonicals,hcanonical,h⟩ := exceptBind_ok.mp h
    obtain ⟨hunknown,h⟩ := checked_ok.mp h
    cases h
    refine ⟨canonicals,⟨hlimits.2.2.1,hlimits.2.2.2,fun value hvalue => ?_,hcanonical⟩,?_⟩
    · by_contra hnot
      exact hunknown (List.any_eq_true.mpr ⟨value,hvalue,decide_eq_true hnot⟩)
    · rw [dedup_sort,dedup_sort]
      rfl
  · rintro ⟨canonicals,hreadable,rfl⟩
    have hlimits : ¬(200<("" : String).length ∨
        50<groups (dropIgnored (facetFields languages compatibilities)) ∨
        100<languages.length ∨ 3<compatibilities.length) := by
      have hlanguages := hreadable.few
      have hcompatibilities := hreadable.fewer
      have hempty : ("" : String).length=0 := rfl
      omega
    have hunknown : ¬(compatibilities.any (· ∉ compatibilityNames))=true := by
      intro hany
      obtain ⟨value,hvalue,hnot⟩ := List.any_eq_true.mp hany
      exact of_decide_eq_true hnot (hreadable.known value hvalue)
    refine (if_neg hlimits).trans ?_
    refine (bind_of_ok hreadable.canonical).trans ?_
    refine (if_neg hunknown).trans ?_
    rw [dedup_sort,dedup_sort]
    rfl

/-- The facet lists are read exactly when their text is short enough and they are readable; the
node then has them as sorted sets. -/
theorem facets_ok (hf : Frozen env runtime) : ∃ escape, Escaping escape ∧
    ∀ {languages compatibilities : List String} {own : Membership} {anyOf : List Query}
      {result : Query}, facets env languages compatibilities (.node own anyOf)=.ok result ↔
        textSize escape (facetsJson languages compatibilities) ≤ maxBytes ∧
        ∃ canonicals, Readable env languages compatibilities canonicals ∧
          result=.node (withFacets own (sortedSet canonicals) (sortedSet compatibilities))
            anyOf := by
  obtain ⟨escape,he,hs⟩ := hf.documented.serializes
  refine ⟨escape,he,?_⟩
  intro languages compatibilities own anyOf result
  have hparse := parse_write he (fit_facetsJson hf.documented languages compatibilities)
  have hheight : height (facetsJson languages compatibilities)≤128 := by
    have hlist : ∀ texts : List String, height (.array (texts.map .string))≤1 := fun texts =>
      height_array_map (fun _ => Nat.zero_le 0) texts
    have hfirst := hlist compatibilities
    have hsecond := hlist languages
    rw [facetsJson,height,heightMembers,heightMembers,heightMembers]
    omega
  rw [if_pos hheight] at hparse
  have hlong : 2≤textSize escape (facetsJson languages compatibilities) :=
    length_writeObject escape _
  have hdecode : decode env currentVersion
      (bytes (write escape (facetsJson languages compatibilities))) zero=
      if textSize escape (facetsJson languages compatibilities) ≤ maxBytes then
        canonicalSaved env.toNormalEnv (.node (facetFields languages compatibilities) [])
      else .error .invalid := by
    have hversion : ¬¬(1≤currentVersion.val ∧ currentVersion.val≤5) := by decide
    unfold decode decodePayload
    rw [if_neg hversion]
    by_cases hsize : textSize escape (facetsJson languages compatibilities) ≤ maxBytes
    · have hread := query_facetsJson languages compatibilities false
      have hvalid : validateReferences (.node (facetFields languages compatibilities) [])
          maxNodes true=.ok 49 := rfl
      rw [if_pos hsize,if_neg (not_not.mpr ⟨hlong,hsize⟩),bind_of_ok hparse]
      rw [facetsJson,wireOf] at hread ⊢
      refine (bind_of_ok (bind_of_ok hread |>.trans (bind_of_ok hvalid))).trans ?_
      rw [retire_current]
    · rw [if_neg hsize,if_pos fun hboth => hsize hboth.2]
      rfl
  unfold facets
  rw [hs]
  dsimp only
  rw [String.toList_ofList,hdecode,canonicalSaved_leaf]
  by_cases hsize : textSize escape (facetsJson languages compatibilities) ≤ maxBytes
  · rw [if_pos hsize]
    have hnormal := @normalizeOwn_facets env runtime hf languages compatibilities
    cases hown : normalizeOwn env.toNormalEnv
        (dropIgnored (facetFields languages compatibilities)) with
    | error e =>
      refine ⟨(fun h => nomatch h),?_⟩
      rintro ⟨-,canonicals,hreadable,-⟩
      have hok := hnormal.mpr ⟨canonicals,hreadable,rfl⟩
      rw [hown] at hok
      cases hok
    | ok normal =>
      obtain ⟨canonicals,hreadable,rfl⟩ := hnormal.mp hown
      change Except.ok (Query.node (withFacets own (sortedSet canonicals)
        (sortedSet compatibilities)) anyOf)=.ok result ↔ _
      constructor
      · intro h
        exact ⟨hsize,canonicals,hreadable,(Except.ok.inj h).symm⟩
      · rintro ⟨-,others,hothers,rfl⟩
        have hsame := Except.ok.inj (hreadable.canonical.symm.trans hothers.canonical)
        rw [hsame]
  · rw [if_neg hsize]
    exact ⟨(fun h => nomatch h),fun h => absurd h.1 hsize⟩

end Facets

section Toggles

variable {α : Type} [DecidableEq α]

variable {values : List α}

/-- Toggling changes only whether the value is listed. -/
theorem mem_toggle {value a : α} :
    a ∈ toggle values value false ↔ (a=value ∧ value ∉ values) ∨ (a≠value ∧ a ∈ values) := by
  by_cases hlisted : value ∈ values
  · rw [toggle,if_pos hlisted,List.mem_filter,decide_eq_true_eq]
    constructor
    · exact fun h => .inr ⟨h.2,h.1⟩
    · rintro (h | h)
      · exact absurd hlisted h.2
      · exact ⟨h.2,h.1⟩
  · rw [toggle,if_neg hlisted,if_neg Bool.false_ne_true,List.mem_append,List.mem_singleton]
    by_cases ha : a=value
    · simp only [ha,hlisted,or_true,not_false_eq_true,and_true,true_or]
    · simp only [ha,or_false,false_and,ne_eq,not_false_eq_true,true_and,false_or]

/-- Removing drops the value and nothing else. -/
theorem toggle_remove (values : List α) (value : α) :
    toggle values value true=values.filter (·≠value) := by
  by_cases hlisted : value ∈ values
  · rw [toggle,if_pos hlisted]
  · rw [toggle,if_neg hlisted,if_pos rfl]
    refine (List.filter_eq_self.mpr fun a ha => ?_).symm
    exact decide_eq_true fun he : a=value => hlisted (he ▸ ha)

/-- Either way the other values are kept in their order. -/
theorem filter_toggle (values : List α) (value : α) (remove : Bool) :
    (toggle values value remove).filter (·≠value)=values.filter (·≠value) := by
  cases remove with
  | true =>
    rw [toggle_remove,List.filter_filter]
    exact List.filter_congr fun a _ => Bool.and_self _
  | false =>
    by_cases hlisted : value ∈ values
    · rw [toggle,if_pos hlisted,List.filter_filter]
      exact List.filter_congr fun a _ => Bool.and_self _
    · rw [toggle,if_neg hlisted,if_neg Bool.false_ne_true,List.filter_append]
      have hlast : [value].filter (·≠value)=[] :=
        List.filter_cons_of_neg (by simp only [ne_eq,not_true_eq_false,decide_false,
          Bool.false_eq_true,not_false_eq_true])
      rw [hlast,List.append_nil]

/-- Toggling keeps values unique. -/
theorem nodup_toggle (h : values.Nodup) (value : α) : (toggle values value false).Nodup := by
  by_cases hlisted : value ∈ values
  · rw [toggle,if_pos hlisted]
    exact h.filter _
  · rw [toggle,if_neg hlisted,if_neg Bool.false_ne_true]
    refine List.nodup_append.mpr ⟨h,List.nodup_singleton _,fun a ha b hb he => ?_⟩
    rw [List.mem_singleton] at hb
    exact hlisted (hb ▸ he ▸ ha)

theorem mem_toggle_twice {value a : α} :
    a ∈ toggle (toggle values value false) value false ↔ a ∈ values := by
  rw [mem_toggle,mem_toggle,mem_toggle]
  by_cases ha : a=value
  · by_cases hlisted : value ∈ values
    · simp only [ha,hlisted,not_true_eq_false,and_false,ne_eq,false_and,or_self,
        not_false_eq_true,and_self,or_false]
    · simp only [ha,hlisted,not_false_eq_true,and_self,ne_eq,not_true_eq_false,and_false,
        or_false,and_true]
  · simp only [ha,false_and,ne_eq,not_false_eq_true,true_and,false_or]

theorem toggle_twice (h : values.Nodup) (value : α) :
    (toggle (toggle values value false) value false).Perm values :=
  (List.perm_ext_iff_of_nodup (nodup_toggle (nodup_toggle h value) value) h).mpr
    fun _ => mem_toggle_twice

end Toggles

theorem increasing_ext {values others : List String} (h : values.Pairwise (·<·))
    (h' : others.Pairwise (·<·)) (hsame : ∀ a, a ∈ values ↔ a ∈ others) : values=others := by
  rw [←sortedSet_increasing h,←sortedSet_increasing h']
  exact sortedSet_congr hsame

theorem increasing_nodup {values : List String} (h : values.Pairwise (·<·)) : values.Nodup :=
  h.imp fun hlt => ne_of_lt hlt

theorem sorted_toggle_twice {values : List String} (h : values.Pairwise (·<·)) (value : String) :
    sortedSet (toggle (sortedSet (toggle values value false)) value false)=values := by
  refine increasing_ext (pairwise_sortedSet _) h fun a => ?_
  rw [mem_sortedSet,mem_toggle,mem_sortedSet,mem_sortedSet,←mem_toggle]
  exact mem_toggle_twice

/-- What an edit keeps of the fields of a node. -/
structure Editable (env : CodecEnv) (own : Membership) : Prop where
  retired : own.includeBroken=false ∧ own.brokenVisibility="" ∧ own.brokenState=""
  languages : own.languages.Pairwise (·<·) ∧ own.languages.length≤100
  fixed : ∀ language ∈ own.languages, env.canonicalLanguage language=.ok language
  compatibilities : own.compatibilities.Pairwise (·<·) ∧
    ∀ value ∈ own.compatibilities, value ∈ compatibilityNames
  /-- A choice has values. -/
  chosen : ∀ f ∈ own.choiceFilters, f.valueIds≠[]

variable {own : Membership}

theorem editable_established {env : CodecEnv} (h : Established own)
    (hfixed : ∀ language ∈ own.languages, env.canonicalLanguage language=.ok language) :
    Editable env own :=
  ⟨h.retired,h.languages,hfixed,h.compatibilities,fun f hf => (h.choices f hf).2.1⟩

def EditableRoot (env : CodecEnv) : Query → Prop
  | .node own _ => Editable env own

theorem withFacets_editable {own : Membership}
    (h : own.includeBroken=false ∧ own.brokenVisibility="" ∧ own.brokenState="")
    (languages compatibilities : List String) : withFacets own languages compatibilities=
      { own with languages := languages, compatibilities := compatibilities } := by
  obtain ⟨visibility,state,retired,name,listed,others,booleans,choices⟩ := own
  obtain ⟨h,h',h''⟩ := h
  change retired=false at h
  change visibility="" at h'
  change state="" at h''
  subst h h' h''
  rfl

theorem length_known {values : List String} (h : values.Nodup)
    (hknown : ∀ value ∈ values, value ∈ compatibilityNames) : values.length≤3 :=
  (h.subperm hknown).length_le

variable {value : String}

section Reading

variable {env : CodecEnv} {runtime : RuntimeEnv}

/-- Canonical languages that are few and known compatibilities are read. -/
theorem facets_sorted (hf : Frozen env runtime) {languages compatibilities : List String}
    {own : Membership} {anyOf : List Query}
    (hretired : own.includeBroken=false ∧ own.brokenVisibility="" ∧ own.brokenState="")
    (hfixed : ∀ language ∈ languages, env.canonicalLanguage language=.ok language)
    (hfew : languages.length≤100) (hnodup : compatibilities.Nodup)
    (hknown : ∀ value ∈ compatibilities, value ∈ compatibilityNames) :
    facets env languages compatibilities (.node own anyOf)=.ok (.node { own with
      languages := sortedSet languages
      compatibilities := sortedSet compatibilities } anyOf) := by
  obtain ⟨escape,he,hread⟩ := facets_ok hf
  have hfewer := length_known hnodup hknown
  have hcanonical := mapM_ok hfixed
  rw [List.map_id'] at hcanonical
  rw [←withFacets_editable hretired]
  refine hread.mpr ⟨?_,languages,⟨hfew,hfewer,hknown,hcanonical⟩,rfl⟩
  have hshort : ∀ value ∈ compatibilityNames, value.length≤10 := by decide
  have hlanguages := textSize_strings he fun language hlanguage =>
    hf.short language (hfixed language hlanguage)
  have hcompatibilities := textSize_strings he fun value hvalue =>
    hshort value (hknown value hvalue)
  have hfirst := textSize_string he "compatibilities"
  have hsecond := textSize_string he "languages"
  have hfirstLength : ("compatibilities" : String).length=15 := by decide
  have hsecondLength : ("languages" : String).length=9 := by decide
  have hend : (bytes ['}']).length=1 := by decide
  have hmax : maxBytes=262144 := rfl
  simp only [textSize,write] at hfirst hsecond hlanguages hcompatibilities
  rw [facetsJson,textSize,write,length_bytes_separator (by decide),writeMembers,bytes_append,
    List.length_append,length_bytes_separator (by decide),bytes_append,List.length_append,
    writeMoreMembers,length_bytes_separator (by decide),bytes_append,List.length_append,
    length_bytes_separator (by decide),bytes_append,List.length_append,writeMoreMembers,hend]
  simp only [write]
  omega

theorem mem_canonicals {languages toggled canonicals : List String} {language : String}
    (hfixed : ∀ language ∈ languages, env.canonicalLanguage language=.ok language)
    (hothers : ∀ a, a≠value → (a ∈ toggled ↔ a ∈ languages))
    (hcanonical : toggled.mapM env.canonicalLanguage=.ok canonicals)
    (hother : env.canonicalLanguage value≠.ok language) :
    language ∈ canonicals ↔ language ∈ languages := by
  constructor
  · intro hmem
    obtain ⟨a,ha,he⟩ := mapM_origin hcanonical language hmem
    by_cases hvalue : a=value
    · exact absurd (hvalue ▸ he) hother
    · have hlisted := (hothers a hvalue).mp ha
      have hsame := Except.ok.inj ((hfixed a hlisted).symm.trans he)
      exact hsame ▸ hlisted
  · intro hmem
    have hne : language≠value := fun he => hother (he ▸ hfixed language hmem)
    obtain ⟨a,ha,he⟩ := KeyedOccurrences.forall₂_left (mapM_pairs hcanonical) language
      ((hothers language hne).mpr hmem)
    have hsame := Except.ok.inj ((hfixed language hmem).symm.trans he)
    exact hsame ▸ ha

end Reading

/-- A node without what a target names, and the values of the named choice besides its own. -/
def outsideTarget (env : CodecEnv) : Query → Target → Query×List I64
  | .node own anyOf,.name => (.node { own with name := "" } anyOf,[])
  | .node own _,.union => (.node own [],[])
  | .node own anyOf,.language value => (.node { own with
      languages := own.languages.filter fun language =>
        env.canonicalLanguage value≠.ok language } anyOf,[])
  | .node own anyOf,.compatibility value => (.node { own with
      compatibilities := own.compatibilities.filter (·≠value) } anyOf,[])
  | .node own anyOf,.boolean id => (.node { own with
      booleanFilters := own.booleanFilters.filter fun f => f.definitionId≠id } anyOf,[])
  | .node own anyOf,.choice definition value => (.node { own with
      choiceFilters := own.choiceFilters.filter fun f => f.definitionId≠definition } anyOf,
      (chosen own definition).filter (·≠value))

/-- A request without its page and without what an edit names. -/
def outside (env : CodecEnv) (edit : Edit) (request : QueryRequest) : QueryRequest×List I64 :=
  let request := { request with page := firstPage }
  match edit with
  | .clear => ({ request with criteria := .node {} [] },[])
  | .clearTags =>
    match request.criteria with
    | .node own anyOf => ({ request with
        criteria := .node { own with booleanFilters := [], choiceFilters := [] } anyOf },[])
  | .sort _ => ({ request with sort := "" },[])
  | .boolean definition _ =>
    ({ request with
      criteria := (outsideTarget env request.criteria (.boolean definition)).1 },[])
  | .toggle target | .remove target =>
    let others := outsideTarget env request.criteria target
    ({ request with criteria := others.1 },others.2)

variable {anyOf : List Query} {request : QueryRequest} {target : Target}

section Locality

variable {env : CodecEnv} {runtime : RuntimeEnv}

theorem filter_others {α : Type} (key : α → I64) (filters : List α) {f : α} {id : I64}
    (hf : key f=id) : (filters.filter (fun g => key g≠id)++[f]).filter (fun g => key g≠id)=
      filters.filter fun g => key g≠id := by
  have hlast : [f].filter (fun g => key g≠id)=[] :=
    List.filter_cons_of_neg (by simp only [hf,ne_eq,not_true_eq_false,decide_false,
      Bool.false_eq_true,not_false_eq_true])
  rw [List.filter_append,hlast,List.append_nil,List.filter_filter]
  exact List.filter_congr fun g _ => Bool.and_self _

theorem filter_twice {α : Type} (p : α → Bool) (filters : List α) :
    (filters.filter p).filter p=filters.filter p := by
  rw [List.filter_filter]
  exact List.filter_congr fun g _ => Bool.and_self _

/-- The fields of a node whose choice of one definition is replaced. -/
def withChoice (own : Membership) (definition : I64) (values : List I64) : Membership :=
  let others := own.choiceFilters.filter fun f => f.definitionId≠definition
  { own with choiceFilters := if values=[] then others else others++[⟨definition,values⟩] }

/-- The filters of the other definitions are kept. -/
theorem withChoice_others (own : Membership) (definition : I64) (values : List I64) :
    (withChoice own definition values).choiceFilters.filter
        (fun f => f.definitionId≠definition)=
      own.choiceFilters.filter fun f => f.definitionId≠definition := by
  rw [withChoice]
  by_cases hempty : values=[]
  · rw [if_pos hempty]
    exact filter_twice _ _
  · rw [if_neg hempty]
    exact @filter_others _ (·.definitionId) own.choiceFilters ⟨definition,values⟩ definition rfl

theorem chosen_withChoice (own : Membership) (definition : I64) (values : List I64) :
    chosen (withChoice own definition values) definition=values := by
  have hnone : (own.choiceFilters.filter fun f => f.definitionId≠definition).find?
      (fun f => f.definitionId=definition)=none := by
    rw [List.find?_eq_none]
    intro f hf he
    exact of_decide_eq_true (List.mem_filter.mp hf).2 (of_decide_eq_true he)
  rw [chosen,withChoice]
  by_cases hempty : values=[]
  · rw [if_pos hempty,hnone,hempty]
    rfl
  · have hlast : [ChoiceFilter.mk definition values].find? (fun f => f.definitionId=definition)=
        some ⟨definition,values⟩ := List.find?_cons_of_pos (decide_eq_true rfl)
    rw [if_neg hempty,List.find?_append,hnone,Option.none_or,hlast]
    rfl

variable {result : Query}

theorem facets_language (hf : Frozen env runtime) (h : Editable env own) {languages : List String}
    (hothers : ∀ a, a≠value → (a ∈ languages ↔ a ∈ own.languages))
    (hread : facets env languages own.compatibilities (.node own anyOf)=.ok result) :
    outsideTarget env result (.language value)=
      outsideTarget env (.node own anyOf) (.language value) := by
  obtain ⟨escape,-,hiff⟩ := facets_ok hf
  obtain ⟨-,canonicals,hreadable,rfl⟩ := hiff.mp hread
  have hsame : (sortedSet canonicals).filter
      (fun language => env.canonicalLanguage value≠.ok language)=
      own.languages.filter fun language => env.canonicalLanguage value≠.ok language := by
    refine increasing_ext ((pairwise_sortedSet _).filter _) (h.languages.1.filter _) fun a => ?_
    rw [List.mem_filter,List.mem_filter,mem_sortedSet,decide_eq_true_eq]
    exact and_congr_left fun hother =>
      mem_canonicals h.fixed hothers hreadable.canonical hother
  rw [withFacets_editable h.retired,sortedSet_increasing h.compatibilities.1]
  simp only [outsideTarget]
  rw [hsame]

/-- What an edit of a compatibility reads keeps the languages and the other compatibilities. -/
theorem facets_compatibility (hf : Frozen env runtime) (h : Editable env own)
    {compatibilities : List String}
    (hothers : compatibilities.filter (·≠value)=own.compatibilities.filter (·≠value))
    (hread : facets env own.languages compatibilities (.node own anyOf)=.ok result) :
    outsideTarget env result (.compatibility value)=
      outsideTarget env (.node own anyOf) (.compatibility value) := by
  obtain ⟨escape,-,hiff⟩ := facets_ok hf
  obtain ⟨-,canonicals,hreadable,rfl⟩ := hiff.mp hread
  have hcanonical := mapM_ok h.fixed
  rw [List.map_id'] at hcanonical
  have hlanguages := Except.ok.inj (hcanonical.symm.trans hreadable.canonical)
  have hsame : (sortedSet compatibilities).filter (·≠value)=
      own.compatibilities.filter (·≠value) := by
    refine increasing_ext ((pairwise_sortedSet _).filter _) (h.compatibilities.1.filter _)
      fun a => ?_
    rw [←hothers,List.mem_filter,List.mem_filter,mem_sortedSet]
  rw [withFacets_editable h.retired,←hlanguages,sortedSet_increasing h.languages.1]
  simp only [outsideTarget]
  rw [hsame]

theorem editTarget_outside (hf : Frozen env runtime) (h : Editable env own) {remove : Bool}
    (hedit : editTarget env remove (.node own anyOf) target=.ok result) :
    outsideTarget env result target=outsideTarget env (.node own anyOf) target := by
  cases target with
  | name =>
    cases hedit
    rfl
  | union =>
    cases hedit
    rfl
  | language value =>
    refine facets_language hf h (fun a ha => ?_) hedit
    have hkept := filter_toggle own.languages value remove
    have hmem : ∀ values : List String, a ∈ values ↔ a ∈ values.filter (·≠value) := fun values =>
      ⟨fun hm => List.mem_filter.mpr ⟨hm,decide_eq_true ha⟩,fun hm => (List.mem_filter.mp hm).1⟩
    rw [hmem,hkept,←hmem]
  | compatibility value =>
    exact facets_compatibility hf h (filter_toggle own.compatibilities value remove) hedit
  | boolean id =>
    cases hedit
    simp only [outsideTarget]
    rw [filter_twice]
  | choice definition value =>
    have hothers := withChoice_others own definition (toggle (chosen own definition) value remove)
    have hchosen := chosen_withChoice own definition (toggle (chosen own definition) value remove)
    change Except.ok (Query.node (withChoice own definition
      (toggle (chosen own definition) value remove)) anyOf)=.ok result at hedit
    cases hedit
    simp only [outsideTarget]
    rw [hothers,hchosen,filter_toggle]
    rfl

theorem edit_outside (hf : Frozen env runtime) {result : QueryRequest}
    (h : EditableRoot env request.criteria) {e : Edit} (hedit : edit env request e=.ok result) :
    result.page=firstPage ∧ outside env e result=outside env e request := by
  obtain ⟨⟨own,anyOf⟩,page,pageSize,sort⟩ := request
  have h : Editable env own := h
  cases e with
  | toggle target =>
    obtain ⟨criteria,hcriteria,hresult⟩ := exceptBind_ok.mp hedit
    cases hresult
    refine ⟨rfl,?_⟩
    simp only [outside]
    rw [editTarget_outside hf h hcriteria]
  | remove target =>
    obtain ⟨criteria,hcriteria,hresult⟩ := exceptBind_ok.mp hedit
    cases hresult
    refine ⟨rfl,?_⟩
    simp only [outside]
    rw [editTarget_outside hf h hcriteria]
  | clear =>
    cases hedit
    exact ⟨rfl,rfl⟩
  | clearTags =>
    cases hedit
    exact ⟨rfl,rfl⟩
  | sort order =>
    cases hedit
    exact ⟨rfl,rfl⟩
  | boolean definition state =>
    cases hedit
    have hsame : (setBoolean definition state own).booleanFilters.filter
        (fun f => f.definitionId≠definition)=
        own.booleanFilters.filter fun f => f.definitionId≠definition := by
      rw [setBoolean]
      by_cases hany : state=.any
      · rw [if_pos hany]
        exact filter_twice _ _
      · rw [if_neg hany]
        exact @filter_others _ (·.definitionId) own.booleanFilters
          ⟨definition,if state=.tagged then "true" else "false"⟩ definition rfl
    refine ⟨rfl,?_⟩
    simp only [outside,outsideTarget]
    rw [hsame]
    rfl

end Locality

/-- A target that can be toggled on its own: a canonical language, a compatibility or a value. -/
def Toggled (env : CodecEnv) : Target → Prop
  | .language value => env.canonicalLanguage value=.ok value
  | .compatibility _ => True
  | .choice _ _ => True
  | _ => False

/-- Two queries are the same up to the order of the choice filters of the root and of their
values. -/
def Reordered : Query → Query → Prop
  | .node own anyOf,.node own' anyOf' =>
    anyOf'=anyOf ∧ { own' with choiceFilters := [] }={ own with choiceFilters := [] } ∧
      ∃ moved, own.choiceFilters.Perm moved ∧ List.Forall₂ (fun f g =>
        g.definitionId=f.definitionId ∧ g.valueIds.Perm f.valueIds) moved own'.choiceFilters

/-- The targets a query names, without the Boolean filters it ignores. -/
def Names : Query → Target → Prop
  | .node own _,.name => own.name≠""
  | .node _ anyOf,.union => anyOf≠[]
  | .node own _,.language value => value ∈ own.languages
  | .node own _,.compatibility value => value ∈ own.compatibilities
  | .node own _,.boolean id => ∃ f ∈ own.booleanFilters, f.definitionId=id ∧ f.state≠"ignored"
  | .node own _,.choice definition value =>
    ∃ f ∈ own.choiceFilters, f.definitionId=definition ∧ value ∈ f.valueIds

/-- A query has nothing that another lacks. -/
def Reduced : Query → Query → Prop
  | .node own anyOf,.node own' anyOf' =>
    (own'.name=own.name ∨ own'.name="") ∧ (anyOf'=anyOf ∨ anyOf'=[]) ∧
      own'.languages.Sublist own.languages ∧
      own'.compatibilities.Sublist own.compatibilities ∧
      own'.booleanFilters.Sublist own.booleanFilters ∧
      (∀ f ∈ own'.choiceFilters, ∃ g ∈ own.choiceFilters,
        f.definitionId=g.definitionId ∧ f.valueIds.Sublist g.valueIds) ∧
      (own'.choiceFilters.map (·.definitionId)).Nodup

/-- A query without name, branches, languages, compatibilities, choices or Boolean filters that
decide. -/
def Emptied : Query → Prop
  | .node own anyOf =>
    own.name="" ∧ anyOf=[] ∧ own.languages=[] ∧ own.compatibilities=[] ∧
      own.choiceFilters=[] ∧ ∀ f ∈ own.booleanFilters, f.state="ignored"

/-- A query without a target. -/
def removed : Query → Target → Query
  | .node own anyOf,.name => .node { own with name := "" } anyOf
  | .node own _,.union => .node own []
  | .node own anyOf,.language value =>
    .node { own with languages := own.languages.filter (·≠value) } anyOf
  | .node own anyOf,.compatibility value =>
    .node { own with compatibilities := own.compatibilities.filter (·≠value) } anyOf
  | .node own anyOf,.boolean id => .node { own with
      booleanFilters := own.booleanFilters.filter fun f => f.definitionId≠id } anyOf
  | .node own anyOf,.choice definition value =>
    .node (withChoice own definition ((chosen own definition).filter (·≠value))) anyOf

theorem chosen_filter {definition : I64} (h : chosen own definition≠[]) :
    ∃ f ∈ own.choiceFilters, f.definitionId=definition ∧ chosen own definition=f.valueIds := by
  cases hfind : own.choiceFilters.find? fun f => f.definitionId=definition with
  | none =>
    rw [chosen,hfind] at h
    exact absurd rfl h
  | some f =>
    refine ⟨f,List.mem_of_find?_eq_some hfind,?_,?_⟩
    · have hkey := List.find?_some hfind
      exact of_decide_eq_true hkey
    · rw [chosen,hfind]
      rfl

theorem find_filter {α : Type} {key : α → I64} {filters : List α} (h : (filters.map key).Nodup)
    {f : α} (hf : f ∈ filters) : filters.find? (fun g => key g=key f)=some f := by
  cases hfind : filters.find? fun g => key g=key f with
  | none => exact absurd (decide_eq_true rfl) (List.find?_eq_none.mp hfind f hf)
  | some g =>
    have hkey := List.find?_some hfind
    have hsame := List.inj_on_of_nodup_map h (List.mem_of_find?_eq_some hfind) hf
      (of_decide_eq_true hkey)
    rw [hsame]

theorem chosen_unique (h : (own.choiceFilters.map (·.definitionId)).Nodup) {f : ChoiceFilter}
    (hf : f ∈ own.choiceFilters) : chosen own f.definitionId=f.valueIds := by
  rw [chosen,find_filter h hf]
  rfl

variable {q : Query}

section Removal

variable {env : CodecEnv} {runtime : RuntimeEnv}

theorem editTarget_removed (hf : Frozen env runtime) (h : EditableRoot env q) (target : Target) :
    editTarget env true q target=.ok (removed q target) := by
  obtain ⟨own,anyOf⟩ := q
  have h : Editable env own := h
  have hnodup := increasing_nodup h.compatibilities.1
  cases target with
  | name => rfl
  | union => rfl
  | boolean id => rfl
  | language value =>
    have hsub : (own.languages.filter (·≠value)).Sublist own.languages := List.filter_sublist
    rw [editTarget,toggle_remove,facets_sorted hf h.retired
      (fun language hm => h.fixed language (hsub.subset hm))
      (hsub.length_le.trans h.languages.2) hnodup h.compatibilities.2,
      sortedSet_increasing (h.languages.1.sublist hsub),sortedSet_increasing h.compatibilities.1]
    rfl
  | compatibility value =>
    have hsub : (own.compatibilities.filter (·≠value)).Sublist own.compatibilities :=
      List.filter_sublist
    rw [editTarget,toggle_remove,facets_sorted hf h.retired h.fixed h.languages.2
      (hnodup.sublist hsub) (fun value hm => h.compatibilities.2 value (hsub.subset hm)),
      sortedSet_increasing h.languages.1,
      sortedSet_increasing (h.compatibilities.1.sublist hsub)]
    rfl
  | choice definition value =>
    rw [editTarget,toggle_remove]
    rfl

theorem mem_withChoice {definition : I64} {values : List I64} {f : ChoiceFilter}
    (hf : f ∈ (withChoice own definition values).choiceFilters) :
    (f ∈ own.choiceFilters ∧ f.definitionId≠definition) ∨
      (f=⟨definition,values⟩ ∧ values≠[]) := by
  have hothers : ∀ g ∈ own.choiceFilters.filter (fun g => g.definitionId≠definition),
      g ∈ own.choiceFilters ∧ g.definitionId≠definition := fun g hg =>
    ⟨(List.mem_filter.mp hg).1,of_decide_eq_true (List.mem_filter.mp hg).2⟩
  rw [withChoice] at hf
  by_cases hempty : values=[]
  · rw [if_pos hempty] at hf
    exact .inl (hothers f hf)
  · rw [if_neg hempty] at hf
    rcases List.mem_append.mp hf with hother | hlast
    · exact .inl (hothers f hother)
    · exact .inr ⟨List.mem_singleton.mp hlast,hempty⟩

theorem editable_removed (h : EditableRoot env q) (target : Target) :
    EditableRoot env (removed q target) := by
  obtain ⟨own,anyOf⟩ := q
  have h : Editable env own := h
  cases target with
  | name => exact ⟨h.retired,h.languages,h.fixed,h.compatibilities,h.chosen⟩
  | union => exact h
  | boolean id => exact ⟨h.retired,h.languages,h.fixed,h.compatibilities,h.chosen⟩
  | language value =>
    have hsub : (own.languages.filter (·≠value)).Sublist own.languages := List.filter_sublist
    exact ⟨h.retired,⟨h.languages.1.sublist hsub,hsub.length_le.trans h.languages.2⟩,
      fun language hm => h.fixed language (hsub.subset hm),h.compatibilities,h.chosen⟩
  | compatibility value =>
    have hsub : (own.compatibilities.filter (·≠value)).Sublist own.compatibilities :=
      List.filter_sublist
    exact ⟨h.retired,h.languages,h.fixed,⟨h.compatibilities.1.sublist hsub,
      fun value hm => h.compatibilities.2 value (hsub.subset hm)⟩,h.chosen⟩
  | choice definition value =>
    refine ⟨h.retired,h.languages,h.fixed,h.compatibilities,fun f hf => ?_⟩
    rcases mem_withChoice hf with hother | ⟨he,hvalues⟩
    · exact h.chosen f hother.1
    · rw [he]
      exact hvalues

theorem names_removed {other : Target} (h : Names (removed q target) other) :
    Names q other ∧ other≠target := by
  obtain ⟨own,anyOf⟩ := q
  cases target with
  | name => cases other with
    | name => exact absurd rfl h
    | _ => exact ⟨h,fun he => Target.noConfusion he⟩
  | union => cases other with
    | union => exact absurd rfl h
    | _ => exact ⟨h,fun he => Target.noConfusion he⟩
  | language value => cases other with
    | language listed =>
      have hmem := List.mem_filter.mp h
      exact ⟨hmem.1,fun he => of_decide_eq_true hmem.2 (Target.language.inj he)⟩
    | _ => exact ⟨h,fun he => Target.noConfusion he⟩
  | compatibility value => cases other with
    | compatibility listed =>
      have hmem := List.mem_filter.mp h
      exact ⟨hmem.1,fun he => of_decide_eq_true hmem.2 (Target.compatibility.inj he)⟩
    | _ => exact ⟨h,fun he => Target.noConfusion he⟩
  | boolean id => cases other with
    | boolean listed =>
      obtain ⟨f,hf,hid,hstate⟩ := h
      have hmem := List.mem_filter.mp hf
      exact ⟨⟨f,hmem.1,hid,hstate⟩,
        fun he => of_decide_eq_true hmem.2 (hid.trans (Target.boolean.inj he))⟩
    | _ => exact ⟨h,fun he => Target.noConfusion he⟩
  | choice definition value => cases other with
    | choice named listed =>
      obtain ⟨f,hf,hid,hlisted⟩ := h
      rcases mem_withChoice hf with hother | ⟨rfl,hvalues⟩
      · refine ⟨⟨f,hother.1,hid,hlisted⟩,fun he => hother.2 ?_⟩
        exact hid.trans (Target.choice.inj he).1
      · have hmem := List.mem_filter.mp hlisted
        have hsome : chosen own definition≠[] := List.ne_nil_of_mem hmem.1
        obtain ⟨g,hg,hdefinition,hvalues⟩ := chosen_filter hsome
        refine ⟨⟨g,hg,hdefinition.trans hid,hvalues ▸ hmem.1⟩,fun he => ?_⟩
        exact of_decide_eq_true hmem.2 (Target.choice.inj he).2
    | _ => exact ⟨h,fun he => Target.noConfusion he⟩

/-- A query without a target has nothing more than the query. -/
theorem reduced_removed (h : (own.choiceFilters.map (·.definitionId)).Nodup) (target : Target) :
    Reduced (.node own anyOf) (removed (.node own anyOf) target) := by
  have hsame : ∀ f ∈ own.choiceFilters, ∃ g ∈ own.choiceFilters,
      f.definitionId=g.definitionId ∧ f.valueIds.Sublist g.valueIds := fun f hf =>
    ⟨f,hf,rfl,List.Sublist.refl _⟩
  cases target with
  | name => exact ⟨.inr rfl,.inl rfl,.refl _,.refl _,.refl _,hsame,h⟩
  | union => exact ⟨.inl rfl,.inr rfl,.refl _,.refl _,.refl _,hsame,h⟩
  | language value =>
    exact ⟨.inl rfl,.inl rfl,List.filter_sublist,.refl _,.refl _,hsame,h⟩
  | compatibility value =>
    exact ⟨.inl rfl,.inl rfl,.refl _,List.filter_sublist,.refl _,hsame,h⟩
  | boolean id => exact ⟨.inl rfl,.inl rfl,.refl _,.refl _,List.filter_sublist,hsame,h⟩
  | choice definition value =>
    refine ⟨.inl rfl,.inl rfl,.refl _,.refl _,.refl _,fun f hf => ?_,?_⟩
    · rcases mem_withChoice hf with hother | ⟨rfl,hvalues⟩
      · exact hsame f hother.1
      · have hsome : chosen own definition≠[] := by
          intro he
          rw [he] at hvalues
          exact hvalues rfl
        obtain ⟨g,hg,hdefinition,hchosen⟩ := chosen_filter hsome
        exact ⟨g,hg,hdefinition.symm,hchosen ▸ List.filter_sublist⟩
    · have hothers := (List.filter_sublist (p := fun f : ChoiceFilter =>
        f.definitionId≠definition) (l := own.choiceFilters)).map (·.definitionId)
      change ((withChoice own definition _).choiceFilters.map _).Nodup
      rw [withChoice]
      by_cases hempty : (chosen own definition).filter (·≠value)=[]
      · rw [if_pos hempty]
        exact h.sublist hothers
      · rw [if_neg hempty,List.map_append,List.nodup_append]
        refine ⟨h.sublist hothers,List.nodup_singleton _,fun a ha b hb he => ?_⟩
        obtain ⟨f,hf,rfl⟩ := List.mem_map.mp ha
        exact of_decide_eq_true (List.mem_filter.mp hf).2 (he.trans (List.mem_singleton.mp hb))

def removeAll (env : CodecEnv) (request : QueryRequest) (targets : List Target) :
    Except QueryInputError QueryRequest :=
  targets.foldlM (fun request target => edit env request (.remove target)) request

theorem removeAll_names (hf : Frozen env runtime) (targets : List Target) :
    ∀ {request : QueryRequest}, EditableRoot env request.criteria →
      ∃ result, removeAll env request targets=.ok result ∧ EditableRoot env result.criteria ∧
        ∀ target, Names result.criteria target →
          Names request.criteria target ∧ target ∉ targets := by
  induction targets with
  | nil => exact fun h => ⟨_,rfl,h,fun target hn => ⟨hn,List.not_mem_nil⟩⟩
  | cons first rest ih =>
    intro request h
    have hfirst : edit env request (.remove first)=
        .ok { request with page := firstPage, criteria := removed request.criteria first } := by
      rw [edit,bind_of_ok (editTarget_removed hf h first)]
    obtain ⟨result,hresult,heditable,hnames⟩ := @ih
      { request with page := firstPage, criteria := removed request.criteria first }
      (editable_removed h first)
    refine ⟨result,?_,heditable,fun target hn => ?_⟩
    · rw [removeAll,List.foldlM_cons,bind_of_ok hfirst]
      exact hresult
    · obtain ⟨hkept,hrest⟩ := hnames target hn
      obtain ⟨hnamed,hne⟩ := names_removed hkept
      exact ⟨hnamed,fun hmem => (List.mem_cons.mp hmem).elim hne hrest⟩

theorem emptied_of_names (h : EditableRoot env q) (hnames : ∀ target, ¬Names q target) :
    Emptied q := by
  obtain ⟨own,anyOf⟩ := q
  have h : Editable env own := h
  refine ⟨not_not.mp (hnames .name),not_not.mp (hnames .union),
    List.eq_nil_iff_forall_not_mem.mpr fun value => hnames (.language value),
    List.eq_nil_iff_forall_not_mem.mpr fun value => hnames (.compatibility value),
    List.eq_nil_iff_forall_not_mem.mpr fun f hf => ?_,fun f hf => ?_⟩
  · obtain ⟨value,hvalue⟩ := List.exists_mem_of_ne_nil _ (h.chosen f hf)
    exact hnames (.choice f.definitionId value) ⟨f,hf,rfl,hvalue⟩
  · by_contra hstate
    exact hnames (.boolean f.definitionId) ⟨f,hf,rfl,hstate⟩

end Removal

section Twice

variable {env : CodecEnv} {runtime : RuntimeEnv}

theorem reordered_self (q : Query) : Reordered q q := by
  obtain ⟨own,anyOf⟩ := q
  refine ⟨rfl,rfl,own.choiceFilters,List.Perm.refl _,?_⟩
  exact List.forall₂_same.mpr fun f _ => ⟨rfl,List.Perm.refl _⟩

theorem language_twice (hf : Frozen env runtime) {own : Membership} (h : Editable env own)
    {anyOf : List Query} {value : String} (hvalue : env.canonicalLanguage value=.ok value)
    {q : Query} (hq : editTarget env false (.node own anyOf) (.language value)=.ok q) :
    editTarget env false q (.language value)=.ok (.node own anyOf) := by
  have hnodup := increasing_nodup h.languages.1
  have hfixed : ∀ language ∈ toggle own.languages value false,
      env.canonicalLanguage language=.ok language := by
    intro language hmem
    rcases mem_toggle.mp hmem with hsame | hother
    · rw [hsame.1]
      exact hvalue
    · exact h.fixed language hother.2
  obtain ⟨escape,-,hiff⟩ := facets_ok hf
  obtain ⟨-,canonicals,hreadable,rfl⟩ := hiff.mp hq
  have hcanonical := mapM_ok hfixed
  rw [List.map_id'] at hcanonical
  obtain rfl := Except.ok.inj (hcanonical.symm.trans hreadable.canonical)
  rw [withFacets_editable h.retired,sortedSet_increasing h.compatibilities.1]
  have hback := sorted_toggle_twice h.languages.1 value
  have hmem : ∀ language, language ∈ toggle (sortedSet (toggle own.languages value false)) value
      false → language ∈ own.languages := by
    intro language hlanguage
    rw [←hback]
    exact mem_sortedSet.mpr hlanguage
  have hunique := nodup_toggle
    (increasing_nodup (pairwise_sortedSet (toggle own.languages value false))) value
  have hfew := (hunique.subperm hmem).length_le
  have hsecond := @facets_sorted env runtime hf _ own.compatibilities
    { own with languages := sortedSet (toggle own.languages value false) } anyOf h.retired
    (fun language hlanguage => h.fixed language (hmem language hlanguage))
    (hfew.trans h.languages.2) (increasing_nodup h.compatibilities.1) h.compatibilities.2
  rw [hback,sortedSet_increasing h.compatibilities.1] at hsecond
  exact hsecond

theorem compatibility_twice (hf : Frozen env runtime) {own : Membership} (h : Editable env own)
    {anyOf : List Query} {value : String} {q : Query}
    (hq : editTarget env false (.node own anyOf) (.compatibility value)=.ok q) :
    editTarget env false q (.compatibility value)=.ok (.node own anyOf) := by
  obtain ⟨escape,-,hiff⟩ := facets_ok hf
  obtain ⟨-,canonicals,hreadable,rfl⟩ := hiff.mp hq
  have hcanonical := mapM_ok h.fixed
  rw [List.map_id'] at hcanonical
  obtain rfl := Except.ok.inj (hcanonical.symm.trans hreadable.canonical)
  rw [withFacets_editable h.retired,sortedSet_increasing h.languages.1]
  have hback := sorted_toggle_twice h.compatibilities.1 value
  have hmem : ∀ listed, listed ∈ toggle (sortedSet (toggle own.compatibilities value false)) value
      false → listed ∈ own.compatibilities := by
    intro listed hlisted
    rw [←hback]
    exact mem_sortedSet.mpr hlisted
  have hunique := nodup_toggle
    (increasing_nodup (pairwise_sortedSet (toggle own.compatibilities value false))) value
  have hsecond := @facets_sorted env runtime hf own.languages _
    { own with compatibilities := sortedSet (toggle own.compatibilities value false) } anyOf
    h.retired h.fixed h.languages.2 hunique
    fun listed hlisted => h.compatibilities.2 listed (hmem listed hlisted)
  rw [hback,sortedSet_increasing h.languages.1] at hsecond
  exact hsecond

/-- A second toggle of a value gives the choices back up to their order. -/
theorem choice_twice (h : (own.choiceFilters.map (·.definitionId)).Nodup)
    (hvalues : ∀ f ∈ own.choiceFilters, f.valueIds≠[] ∧ f.valueIds.Nodup) (definition value : I64)
    (hq : editTarget env false (.node own anyOf) (.choice definition value)=.ok q) :
    ∃ q', editTarget env false q (.choice definition value)=.ok q' ∧
      Reordered (.node own anyOf) q' := by
  change Except.ok (Query.node (withChoice own definition
    (toggle (chosen own definition) value false)) anyOf)=.ok q at hq
  cases hq
  have hothers := withChoice_others own definition (toggle (chosen own definition) value false)
  have hchosen := chosen_withChoice own definition (toggle (chosen own definition) value false)
  have hunique : (chosen own definition).Nodup := by
    by_cases hempty : chosen own definition=[]
    · rw [hempty]
      exact List.nodup_nil
    · obtain ⟨f,hf,-,he⟩ := chosen_filter hempty
      rw [he]
      exact (hvalues f hf).2
  have hperm := toggle_twice hunique value
  refine ⟨_,rfl,rfl,rfl,?_⟩
  simp only
  rw [hothers,hchosen]
  by_cases hempty : chosen own definition=[]
  · have hnone : own.choiceFilters.filter (fun f => f.definitionId≠definition)=
        own.choiceFilters := by
      refine List.filter_eq_self.mpr fun f hf => decide_eq_true fun he => ?_
      have hsame := chosen_unique h hf
      rw [he,hempty] at hsame
      exact (hvalues f hf).1 hsame.symm
    rw [hempty] at hperm
    rw [hempty,if_pos hperm.eq_nil,hnone]
    exact ⟨own.choiceFilters,List.Perm.refl _,
      List.forall₂_same.mpr fun f _ => ⟨rfl,List.Perm.refl _⟩⟩
  · obtain ⟨f,hf,hdefinition,he⟩ := chosen_filter hempty
    have hback : toggle (toggle (chosen own definition) value false) value false≠[] := fun hnil =>
      hempty (List.Perm.nil_eq (hnil ▸ hperm)).symm
    rw [if_neg hback]
    refine ⟨own.choiceFilters.filter (fun g => g.definitionId≠definition)++[f],?_,?_⟩
    · have hkept : (own.choiceFilters.filter fun g => g.definitionId≠definition).Nodup :=
        h.of_map.filter _
      have hlast : ∀ g ∈ own.choiceFilters.filter (fun g => g.definitionId≠definition),
          ∀ g' ∈ [f], g≠g' := by
        intro g hg g' hg' hsame
        refine of_decide_eq_true (List.mem_filter.mp hg).2 ?_
        rw [hsame,List.mem_singleton.mp hg',hdefinition]
      have hnodup := List.nodup_append.mpr ⟨hkept,List.nodup_singleton f,hlast⟩
      refine (List.perm_ext_iff_of_nodup h.of_map hnodup).mpr fun g => ?_
      rw [List.mem_append,List.mem_filter,List.mem_singleton,decide_eq_true_eq]
      constructor
      · intro hg
        by_cases hother : g.definitionId=definition
        · exact .inr (List.inj_on_of_nodup_map h hg hf (hother.trans hdefinition.symm))
        · exact .inl ⟨hg,hother⟩
      · rintro (hg | rfl)
        · exact hg.1
        · exact hf
    · refine List.rel_append (List.forall₂_same.mpr fun g _ => ⟨rfl,List.Perm.refl _⟩) ?_
      exact .cons ⟨hdefinition.symm,he ▸ hperm⟩ .nil

end Twice

/-- A tag catalog as the tables promise it: definitions are different, Boolean ones have no
values, and the retired built-in definition is Boolean. -/
structure TagCatalog where
  entries : List CatalogEntry
  /-- No two entries share a definition. -/
  distinct : (entries.map (·.definition.id)).Nodup
  valueless : ∀ entry ∈ entries, entry.definition.kind=.boolean → entry.values=[]
  retired : ∀ entry ∈ entries, entry.broken → entry.definition.kind=.boolean

section Complete

variable (catalogs : Catalogs) (language : Language)

/-- The targets shown for removal. -/
def listed (request : QueryRequest) (catalog : TagCatalog) : List Target :=
  (active catalogs language request catalog.entries).map (·.target)

variable {catalogs language}

theorem listed_option {catalog : TagCatalog} {row : OptionRow}
    (hrow : row ∈ options catalogs language request catalog.entries []) (hstate : row.state≠0) :
    row.target ∈ listed catalogs language request catalog := by
  obtain ⟨⟨own,anyOf⟩,page,pageSize,sort⟩ := request
  have hon : row ∈ (options catalogs language ⟨.node own anyOf,page,pageSize,sort⟩
      catalog.entries []).filter fun row => row.state≠0 :=
    List.mem_filter.mpr ⟨hrow,decide_eq_true hstate⟩
  have hmem := List.mem_map_of_mem (f := activeOption catalogs language) hon
  refine List.mem_map.mpr ⟨activeOption catalogs language row,?_,rfl⟩
  simp only [active,List.mem_append]
  exact .inl (.inl (.inl (.inr hmem)))

theorem option_entry (hrequest : request.criteria=.node own anyOf) {catalog : List CatalogEntry}
    {entry : CatalogEntry} (he : entry ∈ catalog) (hbroken : ¬entry.broken) {row : OptionRow}
    (hrow : row ∈ entryOptions catalogs language own entry) :
    row ∈ options catalogs language request catalog [] := by
  rw [options,hrequest]
  refine List.mem_append.mpr (.inr (List.mem_flatMap.mpr ⟨entry,?_,hrow⟩))
  exact List.mem_filter.mpr ⟨he,decide_eq_true hbroken⟩

/-- Every criterion that decides is shown, unless it is a Boolean filter on the retired
definition. -/
theorem listed_complete (hrequest : request.criteria=.node own anyOf) (h : Established own)
    {catalog : TagCatalog}
    (hunused : ∀ f ∈ own.booleanFilters, ∀ entry ∈ catalog.entries, entry.broken →
      f.definitionId≠entry.definition.id) (hnamed : Names request.criteria target) :
    target ∈ listed catalogs language request catalog := by
  rw [hrequest] at hnamed
  obtain ⟨hbooleans,hchoices,-⟩ := List.nodup_append.mp h.distinct
  cases target with
  | name =>
    have hname : own.name≠"" := hnamed
    rw [listed,active,hrequest]
    dsimp only
    rw [if_neg hname]
    exact List.mem_cons_self
  | union =>
    have hunion : anyOf≠[] := hnamed
    rw [listed,active,hrequest]
    dsimp only
    rw [if_neg hunion,List.map_append]
    exact List.mem_append_right _ (List.mem_singleton.mpr rfl)
  | language value =>
    have hlisted : value ∈ own.languages := hnamed
    have hrow : languageOption catalogs language own value ∈
        options catalogs language request catalog.entries [] := by
      rw [options,hrequest]
      refine List.mem_append_left _ (List.mem_append_left _ (List.mem_map_of_mem ?_))
      rw [dedup_sort,mem_sortedSet,List.nil_append]
      exact hlisted
    refine listed_option hrow ?_
    rw [languageOption,if_pos hlisted]
    exact one_ne_zero
  | compatibility value =>
    have hlisted : value ∈ own.compatibilities := hnamed
    have hrow : compatibilityOption catalogs language own value ∈
        options catalogs language request catalog.entries [] := by
      rw [options,hrequest]
      refine List.mem_append_left _ (List.mem_append_right _ (List.mem_map_of_mem ?_))
      exact h.compatibilities.2 value hlisted
    refine listed_option hrow ?_
    rw [compatibilityOption,if_pos hlisted]
    exact one_ne_zero
  | boolean id =>
    obtain ⟨f,hf,rfl,hstate⟩ := hnamed
    by_cases hknown : catalog.entries.any fun entry => entry.definition.id=f.definitionId ∧
        entry.definition.kind=.boolean
    · obtain ⟨entry,hentry,hsame⟩ := List.any_eq_true.mp hknown
      obtain ⟨hid,hkind⟩ := of_decide_eq_true hsame
      have hbroken : ¬entry.broken := fun hbroken => hunused f hf entry hentry hbroken hid.symm
      have hfound : booleanState own f.definitionId≠0 := by
        have hstates := (h.booleans f hf).2
        rw [booleanState,find_filter hbooleans hf]
        dsimp only
        simp only [List.mem_cons,List.not_mem_nil,or_false] at hstates
        rcases hstates with he | he | he
        · exact absurd he hstate
        · rw [he]
          decide
        · rw [he]
          decide
      have hrow : ∃ row ∈ entryOptions catalogs language own entry,
          row.target=.boolean f.definitionId ∧ row.state≠0 := by
        rw [entryOptions,hkind]
        refine ⟨_,List.mem_singleton.mpr rfl,?_,?_⟩
        · rw [hid]
        · rw [hid]
          exact hfound
      obtain ⟨row,hrow,htarget,hstate⟩ := hrow
      rw [←htarget]
      exact listed_option (option_entry hrequest hentry hbroken hrow) hstate
    · have hmissing : (⟨.boolean f.definitionId,
          translated catalogs language "Unavailable saved criterion"++" · "++
            language.number f.definitionId.val⟩ : Active) ∈
          own.booleanFilters.flatMap (missingBoolean catalogs language catalog.entries) := by
        refine List.mem_flatMap.mpr ⟨f,hf,?_⟩
        rw [missingBoolean,if_neg hknown]
        exact List.mem_singleton.mpr rfl
      rw [listed,active,hrequest]
      exact List.mem_map.mpr ⟨_,List.mem_append_left _
        (List.mem_append_left _ (List.mem_append_right _ hmissing)),rfl⟩
  | choice definition value =>
    obtain ⟨f,hf,rfl,hvalue⟩ := hnamed
    by_cases hknown : catalog.entries.any fun entry => entry.definition.id=f.definitionId ∧
        entry.values.any fun v => v.id=value
    · obtain ⟨entry,hentry,hsame⟩ := List.any_eq_true.mp hknown
      obtain ⟨hid,hany⟩ := of_decide_eq_true hsame
      obtain ⟨v,hv,hvid⟩ := List.any_eq_true.mp hany
      have hvid := of_decide_eq_true hvid
      have hkind : entry.definition.kind=.choice := by
        cases hk : entry.definition.kind with
        | choice => rfl
        | boolean =>
          rw [catalog.valueless entry hentry hk] at hv
          exact absurd hv List.not_mem_nil
      have hbroken : ¬entry.broken := by
        intro hbroken
        have hboolean := catalog.retired entry hentry hbroken
        rw [hkind] at hboolean
        cases hboolean
      have hon : own.choiceFilters.any (fun g => g.definitionId=entry.definition.id ∧
          v.id ∈ g.valueIds) := by
        refine List.any_eq_true.mpr ⟨f,hf,decide_eq_true ⟨hid.symm,?_⟩⟩
        rw [hvid]
        exact hvalue
      have hrow : ∃ row ∈ entryOptions catalogs language own entry,
          row.target=.choice f.definitionId value ∧ row.state≠0 := by
        rw [entryOptions,hkind]
        refine ⟨_,List.mem_map_of_mem hv,?_,?_⟩
        · rw [hid,hvid]
        · rw [if_pos hon]
          exact one_ne_zero
      obtain ⟨row,hrow,htarget,hstate⟩ := hrow
      rw [←htarget]
      exact listed_option (option_entry hrequest hentry hbroken hrow) hstate
    · have hmissing : (⟨.choice f.definitionId value,
          translated catalogs language "Unavailable saved criterion"++" · "++
            language.number f.definitionId.val++" / "++language.number value.val⟩ : Active) ∈
          own.choiceFilters.flatMap (missingValues catalogs language catalog.entries) := by
        refine List.mem_flatMap.mpr ⟨f,hf,List.mem_map.mpr ⟨value,?_,rfl⟩⟩
        exact List.mem_filter.mpr ⟨hvalue,decide_eq_true hknown⟩
      rw [listed,active,hrequest]
      exact List.mem_map.mpr ⟨_,List.mem_append_left _ (List.mem_append_right _ hmissing),rfl⟩

end Complete

/-- The retired definition is used by no Boolean filter of the root. -/
def Unretired (catalog : TagCatalog) : Query → Prop
  | .node own _ => ∀ f ∈ own.booleanFilters, ∀ entry ∈ catalog.entries, entry.broken →
    f.definitionId≠entry.definition.id

def CanonicalRoot (env : CodecEnv) : Query → Prop
  | .node own _ => ∀ language ∈ own.languages, env.canonicalLanguage language=.ok language

/-- Edits of a normalized request are local: everything besides the first page and the named
criterion is kept. A toggle undoes itself, a removal adds nothing, and removing what is shown, in
any order, leaves nothing that decides. -/
theorem edits_local {env : CodecEnv} {runtime : RuntimeEnv} (hf : Frozen env runtime)
    {request : QueryRequest} (hnormal : normalizeRequest runtime request=.ok request)
    (hfixed : CanonicalRoot env request.criteria) (catalog : TagCatalog) (catalogs : Catalogs)
    (language : Language) :
    (∀ e result, edit env request e=.ok result →
      result.page=firstPage ∧ outside env e result=outside env e request) ∧
    (∀ target once, Toggled env target → edit env request (.toggle target)=.ok once →
      ∃ twice, edit env once (.toggle target)=.ok twice ∧
        Reordered request.criteria twice.criteria) ∧
    (∀ target result, edit env request (.remove target)=.ok result →
      Reduced request.criteria result.criteria) ∧
    (Unretired catalog request.criteria → ∀ order,
      order.Perm (listed catalogs language request catalog) →
      ∃ result, removeAll env request order=.ok result ∧ Emptied result.criteria) := by
  have hestablished := normalizeRequest_established hnormal
  cases hroot : request.criteria with
  | node own anyOf =>
    rw [hroot] at hestablished hfixed
    have hown : Established own := hestablished own (by
      rw [CanonicalQuery.members]
      exact List.mem_cons_self)
    have heditable : Editable env own := editable_established hown hfixed
    have hrooted : EditableRoot env request.criteria := by
      rw [hroot]
      exact heditable
    have hchoices := (List.nodup_append.mp hown.distinct).2.1
    refine ⟨fun e result hedit => edit_outside hf hrooted hedit,?_,?_,?_⟩
    · intro target once htoggled honce
      obtain ⟨q,hq,he⟩ := exceptBind_ok.mp honce
      cases he
      rw [hroot] at hq
      have htwice : ∃ q', editTarget env false q target=.ok q' ∧
          Reordered (.node own anyOf) q' := by
        cases target with
        | name => exact htoggled.elim
        | union => exact htoggled.elim
        | boolean id => exact htoggled.elim
        | language value =>
          exact ⟨_,language_twice hf heditable htoggled hq,reordered_self _⟩
        | compatibility value =>
          exact ⟨_,compatibility_twice hf heditable hq,reordered_self _⟩
        | choice definition value =>
          exact choice_twice hchoices (fun f hmem => ⟨(hown.choices f hmem).2.1,
            (hown.choices f hmem).2.2.2.1⟩) definition value hq
      obtain ⟨q',hq',hsame⟩ := htwice
      exact ⟨_,bind_of_ok hq',hsame⟩
    · intro target result hedit
      obtain ⟨q,hq,he⟩ := exceptBind_ok.mp hedit
      cases he
      rw [editTarget_removed hf hrooted target,hroot] at hq
      cases hq
      exact reduced_removed hchoices target
    · intro hunretired order horder
      obtain ⟨result,hresult,hkept,hnames⟩ := removeAll_names hf order hrooted
      refine ⟨result,hresult,emptied_of_names hkept fun target hnamed => ?_⟩
      obtain ⟨hbefore,hleft⟩ := hnames target hnamed
      exact hleft (horder.mem_iff.mpr (listed_complete hroot hown hunretired hbefore))

def shortEnv : CodecEnv :=
  { plainEnv with
    canonicalLanguage := fun language =>
      if language.length≤35 then .ok language else .error .invalid }

/-- The runtime pass over the same languages. -/
def shortRuntime : RuntimeEnv where
  normalizeRuntime name := .ok name
  canonicalLanguage := shortEnv.canonicalLanguage

theorem frozen_shortEnv : Frozen shortEnv shortRuntime where
  documented := ⟨documented_plainEnv.serializes,documented_plainEnv.integers,
    documented_plainEnv.letters⟩
  languages _ := rfl
  empty := rfl
  short language h := by
    by_contra hlong
    have he : shortEnv.canonicalLanguage language=.error .invalid := if_neg hlong
    rw [he] at h
    cases h

def fullRequest : QueryRequest where
  criteria := .node {
    name := "fox"
    languages := ["en","fr"]
    compatibilities := ["missing"]
    booleanFilters := [⟨one,"true"⟩,⟨defaultPageSize,"ignored"⟩]
    choiceFilters := [⟨two,[two,one]⟩] } [.node {} []]
  page := firstPage
  pageSize := defaultPageSize
  sort := "name_asc"

def smallCatalog : TagCatalog where
  entries := [⟨⟨⟨7,by decide⟩,"broken","Broken",.boolean,"builtin"⟩,[]⟩,
    ⟨⟨two,"mood","Mood",.choice,"user"⟩,[⟨one,"Calm"⟩]⟩]
  distinct := by decide
  valueless := by decide
  retired := by decide

def bareCatalogs : Catalogs where
  text _ _ := none

/-- Removing what is shown of the request, last first, leaves nothing that decides. -/
theorem fullRequest_emptied : ∃ result, removeAll shortEnv fullRequest
      (listed bareCatalogs .french fullRequest smallCatalog).reverse=.ok result ∧
    Emptied result.criteria := by
  have hnormal : normalizeRequest shortRuntime fullRequest=.ok fullRequest := by rfl
  have hfixed : CanonicalRoot shortEnv fullRequest.criteria := by
    change ∀ language ∈ ["en","fr"], shortEnv.canonicalLanguage language=.ok language
    rw [List.forall_mem_cons,List.forall_mem_singleton]
    exact ⟨rfl,rfl⟩
  have hunretired : Unretired smallCatalog fullRequest.criteria := by
    change ∀ f ∈ _,∀ entry ∈ smallCatalog.entries, entry.broken →
      BooleanFilter.definitionId f≠entry.definition.id
    decide
  have hedits := edits_local frozen_shortEnv hnormal hfixed smallCatalog bareCatalogs .french
  exact hedits.2.2.2 hunretired _ (List.reverse_perm _)

end Librairii.FilterEdits
