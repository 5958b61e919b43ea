import Librairii.JsonReader
import Librairii.NavigationCodec

/-!
# Navigation state survives its bytes

The value tree of a request lists its members in key order. Reading it back
finds every member under its folded key, so a restored request is the request
that was written, whatever the normalization of the copy would change. A stored
state is read back with the same frames, position and presentation.
-/

namespace Librairii.NavigationRoundTrip

open CheckedResults JsonText JsonValues WireParser SavedQuery SavedQueryRoundTrip
open QueryRequests NavigationCodec
open SavedQueryCodec hiding encode decode
open JsonReader

/-- The members of a node besides its branches, in key order. -/
def ownMembers (own : Membership) : List (String×Json) :=
  member "booleanFilters" own.booleanFilters.isEmpty
      (.array (own.booleanFilters.map booleanJson))++
    (member "brokenState" (own.brokenState="") (.string own.brokenState)++
    (member "brokenVisibility" (own.brokenVisibility="") (.string own.brokenVisibility)++
    (member "choiceFilters" own.choiceFilters.isEmpty
      (.array (own.choiceFilters.map choiceJson))++
    (member "compatibilities" own.compatibilities.isEmpty
      (.array (own.compatibilities.map .string))++
    (member "includeBroken" (!own.includeBroken) (.bool own.includeBroken)++
    (member "languages" own.languages.isEmpty (.array (own.languages.map .string))++
    member "name" (own.name="") (.string own.name)))))))

mutual

def queryValue : Query → Json
  | .node own anyOf => .object
    (member "anyOf" anyOf.isEmpty (.array (queryValues anyOf))++ownMembers own)

/-- The value trees of branches. -/
def queryValues : List Query → List Json
  | [] => []
  | branch::branches => queryValue branch::queryValues branches

end

def navigationMembers (request : QueryRequest) : List (String×Json) :=
  [("page",.number request.page.val),("pageSize",.number request.pageSize.val),
    ("sort",.string request.sort)]

/-- The keys of a node besides its branches, in order. -/
def ownKeys : List String :=
  ["booleanFilters","brokenState","brokenVisibility","choiceFilters","compatibilities",
    "includeBroken","languages","name"]

def requestKeys : List String := "anyOf"::(ownKeys++["page","pageSize","sort"])

theorem requestKeys_increasing : requestKeys.Pairwise (·<·) := by decide

theorem ownMembers_keys (own : Membership) : ((ownMembers own).map Prod.fst).Sublist ownKeys := by
  unfold ownMembers
  simp only [List.map_append]
  exact (member_keys _ _ _).append ((member_keys _ _ _).append ((member_keys _ _ _).append
    ((member_keys _ _ _).append ((member_keys _ _ _).append ((member_keys _ _ _).append
    ((member_keys _ _ _).append (member_keys _ _ _)))))))

theorem toMembers_member (key : String) (absent : Bool) (value : Json) :
    toMembers (member key absent value)=member key absent (toValue value) := by
  cases absent with
  | true => rfl
  | false => rfl

theorem toValue_booleanJson (f : BooleanFilter) : toValue (booleanJson f)=booleanJson f := by
  have hk : ["definitionId","state"].Pairwise (·<·) := by decide
  have hn : ["definitionId","state"].Nodup := by decide
  have hm : mapOf (toMembers [("definitionId",Json.number f.definitionId.val),
      ("state",.string f.state)])=
      [("definitionId",Json.number f.definitionId.val),("state",.string f.state)] :=
    mapOf_eq hn (ordered_of_sublist hk (List.Sublist.refl _)) fun _ => Iff.rfl
  rw [booleanJson,toValue,hm]

theorem toValue_choiceJson (f : ChoiceFilter) : toValue (choiceJson f)=choiceJson f := by
  have hk : ["definitionId","valueIds"].Pairwise (·<·) := by decide
  have hn : ["definitionId","valueIds"].Nodup := by decide
  have hv : toValue (.array (f.valueIds.map fun v => .number v.val))=
      .array (f.valueIds.map fun v => .number v.val) := by
    rw [toValue,toValues_map]
    rfl
  have hm : mapOf (toMembers [("definitionId",Json.number f.definitionId.val),
      ("valueIds",.array (f.valueIds.map fun v => .number v.val))])=
      [("definitionId",Json.number f.definitionId.val),
        ("valueIds",.array (f.valueIds.map fun v => .number v.val))] := by
    rw [toMembers,toMembers,hv]
    exact mapOf_eq hn (ordered_of_sublist hk (List.Sublist.refl _)) fun _ => Iff.rfl
  rw [choiceJson,toValue,hm]

theorem toValue_strings (texts : List String) :
    toValue (.array (texts.map .string))=.array (texts.map .string) := by
  rw [toValue,toValues_map]
  rfl

theorem toValue_filters {α : Type} {f : α → Json} (h : ∀ x, toValue (f x)=f x) (xs : List α) :
    toValue (.array (xs.map f))=.array (xs.map f) := by
  rw [toValue,toValues_map]
  simp only [h]

def writtenMembers (own : Membership) (anyOf : List Query) : List (String×Json) :=
  member "brokenVisibility" (own.brokenVisibility="") (.string own.brokenVisibility)++
    (member "brokenState" (own.brokenState="") (.string own.brokenState)++
    (member "anyOf" anyOf.isEmpty (.array (queryValues anyOf))++
    (member "includeBroken" (!own.includeBroken) (.bool own.includeBroken)++
    (member "name" (own.name="") (.string own.name)++
    (member "languages" own.languages.isEmpty (.array (own.languages.map .string))++
    (member "compatibilities" own.compatibilities.isEmpty
      (.array (own.compatibilities.map .string))++
    (member "booleanFilters" own.booleanFilters.isEmpty
      (.array (own.booleanFilters.map booleanJson))++
    member "choiceFilters" own.choiceFilters.isEmpty
      (.array (own.choiceFilters.map choiceJson)))))))))

theorem writtenMembers_keys (own : Membership) (anyOf : List Query) :
    ((writtenMembers own anyOf).map Prod.fst).Sublist queryKeys := by
  unfold writtenMembers
  simp only [List.map_append]
  exact (member_keys _ _ _).append ((member_keys _ _ _).append ((member_keys _ _ _).append
    ((member_keys _ _ _).append ((member_keys _ _ _).append ((member_keys _ _ _).append
    ((member_keys _ _ _).append ((member_keys _ _ _).append (member_keys _ _ _))))))))

theorem mem_writtenMembers (own : Membership) (anyOf : List Query) (entry : String×Json) :
    entry ∈ member "anyOf" anyOf.isEmpty (.array (queryValues anyOf))++ownMembers own ↔
      entry ∈ writtenMembers own anyOf := by
  unfold ownMembers writtenMembers
  simp only [List.mem_append]
  tauto

variable {own : Membership}

theorem toValue_node {anyOf : List Query}
    (hbranches : toValues (queryJsons anyOf)=queryValues anyOf) :
    toValue (queryJson (.node own anyOf))=.object (mapOf (writtenMembers own anyOf)) := by
  have hanyOf : toValue (.array (queryJsons anyOf))=.array (queryValues anyOf) := by
    rw [toValue,hbranches]
  rw [queryJson,toValue,writtenMembers]
  simp only [toMembers_append,toMembers_member,hanyOf,toValue_strings,
    toValue_filters toValue_booleanJson,toValue_filters toValue_choiceJson]
  rfl

mutual

theorem toValue_queryJson : ∀ q : Query, toValue (queryJson q)=queryValue q
  | .node own anyOf => by
    have hnode : toValue (queryJson (.node own anyOf))=_ :=
      toValue_node (toValues_queryJsons anyOf)
    have hnodup : ((writtenMembers own anyOf).map Prod.fst).Nodup := by
      have hall : queryKeys.Nodup := by decide
      exact (writtenMembers_keys own anyOf).nodup hall
    have hkeys : ((member "anyOf" anyOf.isEmpty (.array (queryValues anyOf))++
        ownMembers own).map Prod.fst).Sublist ("anyOf"::ownKeys) := by
      rw [List.map_append]
      exact (member_keys _ _ _).append (ownMembers_keys own)
    have hincreasing : ("anyOf"::ownKeys).Pairwise (·<·) := by decide
    have hmap := mapOf_eq hnodup (ordered_of_sublist hincreasing hkeys)
      (mem_writtenMembers own anyOf)
    rw [hnode,queryValue,hmap]

/-- The value trees of serialized branches. -/
theorem toValues_queryJsons : ∀ branches : List Query,
    toValues (queryJsons branches)=queryValues branches
  | [] => rfl
  | branch::branches => by
    have hfirst := toValue_queryJson branch
    have hrest := toValues_queryJsons branches
    rw [queryJsons,toValues,queryValues,hfirst,hrest]

end

def requestMembers (request : QueryRequest) : List (String×Json) :=
  match request.criteria with
  | .node own anyOf => member "anyOf" anyOf.isEmpty (.array (queryValues anyOf))++
      (ownMembers own++navigationMembers request)

theorem requestMembers_keys (request : QueryRequest) :
    ((requestMembers request).map Prod.fst).Sublist requestKeys := by
  unfold requestMembers
  cases request.criteria with
  | node own anyOf =>
    dsimp only
    rw [List.map_append,List.map_append]
    exact (member_keys _ _ _).append ((ownMembers_keys own).append (List.Sublist.refl _))

theorem requestValue_members (request : QueryRequest) :
    requestValue request=some (.object (requestMembers request)) := by
  have hordered := ordered_of_sublist requestKeys_increasing (requestMembers_keys request)
  obtain ⟨⟨own,anyOf⟩,page,pageSize,sort⟩ := request
  have hnode : toValue (queryJson (.node own anyOf))=_ :=
    toValue_node (toValues_queryJsons anyOf)
  have hnodup : ((writtenMembers own anyOf++navigationMembers
      ⟨.node own anyOf,page,pageSize,sort⟩).map Prod.fst).Nodup := by
    have hall : (queryKeys++["page","pageSize","sort"]).Nodup := by decide
    have hsub := (writtenMembers_keys own anyOf).append
      (List.Sublist.refl ((navigationMembers ⟨.node own anyOf,page,pageSize,sort⟩).map Prod.fst))
    rw [List.map_append]
    exact hsub.nodup hall
  have hmem : ∀ entry, entry ∈ requestMembers ⟨.node own anyOf,page,pageSize,sort⟩ ↔
      entry ∈ writtenMembers own anyOf++
        navigationMembers ⟨.node own anyOf,page,pageSize,sort⟩ := by
    intro entry
    rw [requestMembers]
    dsimp only
    rw [←List.append_assoc,List.mem_append,mem_writtenMembers,←List.mem_append]
  have hmap := mapOf_eq hnodup hordered hmem
  rw [requestValue,hnode,←hmap,mapOf,mapOf,List.foldl_append]
  rfl

/-- A member the node reader leaves to the query reader. -/
def LeftToQuery (key : String) : Prop := ∃ folded, field key=.ok folded ∧
  folded≠"PAGE" ∧ folded≠"PAGESIZE" ∧ folded≠"SORT" ∧ folded≠"ANYOF"

theorem ownKeys_left : ∀ key ∈ ownKeys, LeftToQuery key := by
  unfold ownKeys
  simp only [List.forall_mem_cons,List.not_mem_nil,false_implies,implies_true,and_true]
  exact ⟨⟨"BOOLEANFILTERS",by decide⟩,⟨"BROKENSTATE",by decide⟩,⟨"BROKENVISIBILITY",by decide⟩,
    ⟨"CHOICEFILTERS",by decide⟩,⟨"COMPATIBILITIES",by decide⟩,⟨"INCLUDEBROKEN",by decide⟩,
    ⟨"LANGUAGES",by decide⟩,⟨"NAME",by decide⟩⟩

variable {request : QueryRequest} {remaining : ℕ} {children : List Query}

theorem nodeFields_left {kept rest : List (String×Wire)} {entries : List (String×Json)}
    (h : ∀ entry ∈ entries, LeftToQuery entry.1) :
    nodeFields request children kept (fieldsOf entries++rest) remaining=
      nodeFields request children (kept++fieldsOf entries) rest remaining := by
  induction entries generalizing kept with
  | nil =>
    rw [fieldsOf,List.append_nil,List.nil_append]
  | cons entry entries ih =>
    obtain ⟨key,value⟩ := entry
    obtain ⟨folded,hf,hp,hs,ho,ha⟩ := h (key,value) List.mem_cons_self
    have hhash : hash (field key)=.ok folded := mapError_ok.mpr hf
    have hrest : nodeFields request children (kept++[(key,wireOf value)])
        (fieldsOf entries++rest) remaining=
        nodeFields request children (kept++[(key,wireOf value)]++fieldsOf entries) rest
          remaining := ih fun e he => h e (List.mem_cons_of_mem _ he)
    rw [fieldsOf,List.cons_append,nodeFields,bind_of_ok hhash,if_neg hp,if_neg hs,if_neg ho,
      if_neg ha,hrest,List.append_assoc]
    rfl

theorem query_ownMembers (own : Membership) :
    query (.object (fieldsOf (ownMembers own))) false=.ok (.node own []) := by
  obtain ⟨visibility,state,flag,name,languages,compatibilities,booleans,choices⟩ := own
  rw [query,ownMembers]
  dsimp only
  calc
    _ = queryFields false ⟨"","",false,"",[],[],booleans,[]⟩ [] (fieldsOf _) :=
      queryFields_member "booleanFilters" "BOOLEANFILTERS" (by decide) (by decide)
        (ownField_booleanFilters booleans) fun h => by rw [List.isEmpty_iff.mp h]
    _ = queryFields false ⟨"",state,false,"",[],[],booleans,[]⟩ [] (fieldsOf _) :=
      queryFields_member "brokenState" "BROKENSTATE" (by decide) (by decide) rfl
        fun h => by rw [of_decide_eq_true h]
    _ = queryFields false ⟨visibility,state,false,"",[],[],booleans,[]⟩ [] (fieldsOf _) :=
      queryFields_member "brokenVisibility" "BROKENVISIBILITY" (by decide) (by decide) rfl
        fun h => by rw [of_decide_eq_true h]
    _ = queryFields false ⟨visibility,state,false,"",[],[],booleans,choices⟩ []
        (fieldsOf _) :=
      queryFields_member "choiceFilters" "CHOICEFILTERS" (by decide) (by decide)
        (ownField_choiceFilters choices) fun h => by rw [List.isEmpty_iff.mp h]
    _ = queryFields false ⟨visibility,state,false,"",[],compatibilities,booleans,choices⟩ []
        (fieldsOf _) :=
      queryFields_member "compatibilities" "COMPATIBILITIES" (by decide) (by decide)
        (ownField_compatibilities compatibilities) fun h => by rw [List.isEmpty_iff.mp h]
    _ = queryFields false ⟨visibility,state,flag,"",[],compatibilities,booleans,choices⟩ []
        (fieldsOf _) :=
      queryFields_member "includeBroken" "INCLUDEBROKEN" (by decide) (by decide) rfl
        fun h => by
          cases flag with
          | false => rfl
          | true => cases h
    _ = queryFields false
        ⟨visibility,state,flag,"",languages,compatibilities,booleans,choices⟩ []
          (fieldsOf (_++[])) := by
      rw [List.append_nil]
      exact queryFields_member "languages" "LANGUAGES" (by decide) (by decide)
        (ownField_languages languages) fun h => by rw [List.isEmpty_iff.mp h]
    _ = queryFields false
        ⟨visibility,state,flag,name,languages,compatibilities,booleans,choices⟩ []
          (fieldsOf []) :=
      queryFields_member "name" "NAME" (by decide) (by decide) rfl
        fun h => by rw [of_decide_eq_true h]

variable {left : ℕ} {r : QueryRequest}

theorem finishNode_own
    (h : finishNode request children (fieldsOf (ownMembers own)) remaining=.ok (r,left)) :
    r={ request with criteria := .node own children } ∧ left=remaining := by
  have hq : hash (query (.object (fieldsOf (ownMembers own))) false)=.ok (.node own []) :=
    mapError_ok.mpr (query_ownMembers own)
  unfold finishNode at h
  obtain ⟨-,h⟩ := checked_ok.mp h
  rw [bind_of_ok hq] at h
  cases h
  exact ⟨rfl,rfl⟩

variable {rest : List (String×Json)}

theorem nodeFields_own :
    nodeFields request children [] (fieldsOf (ownMembers own++rest)) remaining=
      nodeFields request children (fieldsOf (ownMembers own)) (fieldsOf rest) remaining := by
  have hleft : ∀ entry ∈ ownMembers own, LeftToQuery entry.1 := by
    intro entry he
    exact ownKeys_left _ ((ownMembers_keys own).subset (List.mem_map_of_mem he))
  rw [fieldsOf_append,nodeFields_left hleft,List.nil_append]

/-- A taken node leaves one less. -/
theorem hashBudget_ok (h : hashBudget remaining=.ok left) : remaining=left+1 := by
  unfold hashBudget at h
  obtain ⟨hr,h⟩ := checked_ok.mp h
  cases h
  omega

theorem nodeFields_anyOf {anyOf : List Query} {x : QueryRequest×ℕ}
    (hbranches : ∀ remaining branches left,
      nodeElements (wiresOf (queryValues anyOf)) remaining=.ok (branches,left) →
        branches=anyOf ∧ remaining=nodesOf anyOf+left)
    (h : nodeFields {} [] [] (fieldsOf (member "anyOf" anyOf.isEmpty
      (.array (queryValues anyOf))++rest)) remaining=.ok x) :
    ∃ left, remaining=nodesOf anyOf+left ∧
      nodeFields {} anyOf [] (fieldsOf rest) left=.ok x := by
  cases anyOf with
  | nil => exact ⟨remaining,(Nat.zero_add _).symm,h⟩
  | cons branch branches =>
    have hf : hash (field "anyOf")=.ok "ANYOF" := mapError_ok.mpr (by decide)
    change nodeFields {} [] []
      (("anyOf",wireOf (.array (queryValues (branch::branches))))::fieldsOf rest) remaining=_
      at h
    rw [nodeFields,bind_of_ok hf,if_neg (by decide),if_neg (by decide),if_neg (by decide),
      if_pos rfl,wireOf,nodeArray] at h
    obtain ⟨⟨branches',left⟩,hb,h⟩ := exceptBind_ok.mp h
    obtain ⟨rfl,hcount⟩ := hbranches _ _ _ hb
    exact ⟨left,hcount,h⟩

mutual

/-- A branch that is read is the branch that was written. -/
theorem node_queryValue : ∀ (q : Query) (remaining : ℕ) (r : QueryRequest) (left : ℕ),
    node (wireOf (queryValue q)) remaining=.ok (r,left) →
      r={ criteria := q } ∧ remaining=nodes q+left
  | .node own anyOf,remaining,r,left,h => by
    have hbranches := nodeElements_queryValues anyOf
    rw [queryValue,wireOf,node] at h
    obtain ⟨remaining',hr,h⟩ := exceptBind_ok.mp h
    have hbudget := hashBudget_ok hr
    obtain ⟨left',hcount,h⟩ := nodeFields_anyOf hbranches h
    have hown : nodeFields {} anyOf [] (fieldsOf (ownMembers own++[])) left'=
        nodeFields {} anyOf (fieldsOf (ownMembers own)) (fieldsOf []) left' := nodeFields_own
    rw [List.append_nil] at hown
    rw [hown] at h
    obtain ⟨hr,hleft⟩ := finishNode_own h
    rw [nodes]
    exact ⟨hr,by omega⟩

/-- Branches that are read are the branches that were written. -/
theorem nodeElements_queryValues : ∀ (anyOf : List Query) (remaining : ℕ)
    (branches : List Query) (left : ℕ),
    nodeElements (wiresOf (queryValues anyOf)) remaining=.ok (branches,left) →
      branches=anyOf ∧ remaining=nodesOf anyOf+left
  | [],remaining,branches,left,h => by
    rw [queryValues,wiresOf,nodeElements] at h
    cases h
    exact ⟨rfl,(Nat.zero_add _).symm⟩
  | first::rest,remaining,branches,left,h => by
    rw [queryValues,wiresOf,nodeElements] at h
    obtain ⟨⟨r,left'⟩,hfirst,h⟩ := exceptBind_ok.mp h
    obtain ⟨⟨rest',left''⟩,hrest,h⟩ := exceptBind_ok.mp h
    cases h
    obtain ⟨rfl,hcount⟩ := node_queryValue first _ _ _ hfirst
    obtain ⟨rfl,hcount'⟩ := nodeElements_queryValues rest _ _ _ hrest
    rw [nodesOf]
    exact ⟨rfl,by omega⟩

end

theorem node_requestMembers
    (h : node (wireOf (.object (requestMembers request))) remaining=.ok (r,left)) :
    r=request ∧ remaining=nodes request.criteria+left := by
  obtain ⟨⟨own,anyOf⟩,page,pageSize,sort⟩ := request
  have hbranches := nodeElements_queryValues anyOf
  have hpage : hash (field "page")=.ok "PAGE" := mapError_ok.mpr (by decide)
  have hpageSize : hash (field "pageSize")=.ok "PAGESIZE" := mapError_ok.mpr (by decide)
  have hsort : hash (field "sort")=.ok "SORT" := mapError_ok.mpr (by decide)
  have hread : ∀ n target : I64, hash (scalarInteger (wireOf (.number n.val)) target)=.ok n :=
    fun n target => mapError_ok.mpr (scalarInteger_number n target)
  have htext : ∀ s target, hash (scalarString (wireOf (.string s)) target)=.ok s :=
    fun s target => mapError_ok.mpr rfl
  rw [wireOf,node] at h
  obtain ⟨remaining',hr,h⟩ := exceptBind_ok.mp h
  have hbudget := hashBudget_ok hr
  obtain ⟨left',hcount,h⟩ := nodeFields_anyOf hbranches h
  rw [nodeFields_own,navigationMembers,fieldsOf,nodeFields,bind_of_ok hpage,if_pos rfl,
    bind_of_ok (hread page _),fieldsOf,nodeFields,bind_of_ok hpageSize,if_neg (by decide),
    if_pos rfl,bind_of_ok (hread pageSize _),fieldsOf,nodeFields,bind_of_ok hsort,
    if_neg (by decide),if_neg (by decide),if_pos rfl,bind_of_ok (htext sort _),fieldsOf,
    nodeFields] at h
  obtain ⟨hr,hleft⟩ := finishNode_own h
  rw [nodes]
  exact ⟨hr,by omega⟩

theorem valueForm_number (n : I64) : ValueForm (.number n.val) := by
  obtain ⟨n,hlow,hhigh⟩ := n
  have hwide : n<2^64 := by omega
  exact ⟨hlow,hwide⟩

theorem valueForm_strings (texts : List String) : ValueForm (.array (texts.map .string)) := by
  have h : ∀ text : String, ValueForm (.string text) := fun _ => trivial
  exact valueForms_map h texts

theorem valueForm_booleanJson (f : BooleanFilter) : ValueForm (booleanJson f) := by
  have hk : ["definitionId","state"].Pairwise (·<·) := by decide
  have ho := ordered_of_sublist hk (List.Sublist.refl ([("definitionId",
    Json.number f.definitionId.val),("state",Json.string f.state)].map Prod.fst))
  exact ⟨ho,valueForm_number f.definitionId,trivial,trivial⟩

theorem valueForm_choiceJson (f : ChoiceFilter) : ValueForm (choiceJson f) := by
  have hk : ["definitionId","valueIds"].Pairwise (·<·) := by decide
  have ho := ordered_of_sublist hk (List.Sublist.refl ([("definitionId",
    Json.number f.definitionId.val),
    ("valueIds",Json.array (f.valueIds.map fun v => .number v.val))].map Prod.fst))
  exact ⟨ho,valueForm_number f.definitionId,valueForms_map valueForm_number f.valueIds,trivial⟩

theorem valueMembers_member (key : String) (absent : Bool) {value : Json}
    (h : ValueForm value) : ValueMembers (member key absent value) := by
  cases absent with
  | true => trivial
  | false => exact ⟨h,trivial⟩

theorem valueMembers_own (own : Membership) : ValueMembers (ownMembers own) := by
  have hb : ValueForm (.array (own.booleanFilters.map booleanJson)) :=
    valueForms_map valueForm_booleanJson own.booleanFilters
  have hc : ValueForm (.array (own.choiceFilters.map choiceJson)) :=
    valueForms_map valueForm_choiceJson own.choiceFilters
  unfold ownMembers
  simp only [valueMembers_append]
  exact ⟨valueMembers_member _ _ hb,valueMembers_member _ _ trivial,
    valueMembers_member _ _ trivial,valueMembers_member _ _ hc,
    valueMembers_member _ _ (valueForm_strings _),valueMembers_member _ _ trivial,
    valueMembers_member _ _ (valueForm_strings _),valueMembers_member _ _ trivial⟩

mutual

theorem valueForm_queryValue : ∀ q : Query, ValueForm (queryValue q)
  | .node own anyOf => by
    have hbranches : ValueForm (.array (queryValues anyOf)) := valueForms_queryValues anyOf
    have hincreasing : ("anyOf"::ownKeys).Pairwise (·<·) := by decide
    have hkeys : ((member "anyOf" anyOf.isEmpty (.array (queryValues anyOf))++
        ownMembers own).map Prod.fst).Sublist ("anyOf"::ownKeys) := by
      rw [List.map_append]
      exact (member_keys _ _ _).append (ownMembers_keys own)
    rw [queryValue,ValueForm,valueMembers_append]
    exact ⟨ordered_of_sublist hincreasing hkeys,valueMembers_member _ _ hbranches,
      valueMembers_own own⟩

theorem valueForms_queryValues : ∀ branches : List Query, ValueForms (queryValues branches)
  | [] => trivial
  | branch::branches => ⟨valueForm_queryValue branch,valueForms_queryValues branches⟩

end

theorem valueForm_requestMembers (request : QueryRequest) :
    ValueForm (.object (requestMembers request)) := by
  have hordered := ordered_of_sublist requestKeys_increasing (requestMembers_keys request)
  obtain ⟨⟨own,anyOf⟩,page,pageSize,sort⟩ := request
  have hbranches : ValueForm (.array (queryValues anyOf)) := valueForms_queryValues anyOf
  refine ⟨hordered,?_⟩
  unfold requestMembers
  simp only [valueMembers_append]
  exact ⟨valueMembers_member _ _ hbranches,valueMembers_own own,valueForm_number page,
    valueForm_number pageSize,trivial,trivial⟩

theorem height_requestMembers (request : QueryRequest) :
    height (.object (requestMembers request))≤2*nodes request.criteria+2 := by
  obtain ⟨⟨own,anyOf⟩,page,pageSize,sort⟩ := request
  have hq := height_queryJson (.node own anyOf)
  have hv := height_toValue (queryJson (.node own anyOf))
  rw [toValue_queryJson,queryValue,height] at hv
  have hsplit : requestMembers ⟨.node own anyOf,page,pageSize,sort⟩=
      (member "anyOf" anyOf.isEmpty (.array (queryValues anyOf))++ownMembers own)++
        navigationMembers ⟨.node own anyOf,page,pageSize,sort⟩ :=
    (List.append_assoc _ _ _).symm
  have hnav : heightMembers (navigationMembers ⟨.node own anyOf,page,pageSize,sort⟩)=1 := rfl
  rw [hsplit,height,heightMembers_append,hnav]
  change max _ 1≤2*nodes (.node own anyOf)+2
  omega

section Documented

variable {env : CodecEnv}

theorem fitMembers_own (hd : Documented env) (own : Membership) :
    FitMembers env.toWireEnv (ownMembers own) := by
  have hb : Fit env.toWireEnv (.array (own.booleanFilters.map booleanJson)) :=
    fitElements_map (fit_booleanJson hd) own.booleanFilters
  have hc : Fit env.toWireEnv (.array (own.choiceFilters.map choiceJson)) :=
    fitElements_map (fit_choiceJson hd) own.choiceFilters
  unfold ownMembers
  simp only [fitMembers_append]
  exact ⟨fitMembers_member _ _ hb,fitMembers_member _ _ trivial,
    fitMembers_member _ _ trivial,fitMembers_member _ _ hc,
    fitMembers_member _ _ (fit_strings _),fitMembers_member _ _ trivial,
    fitMembers_member _ _ (fit_strings _),fitMembers_member _ _ trivial⟩

theorem requestKeys_letters : ∀ key ∈ requestKeys, ∀ c ∈ key.toList, AsciiLetter c :=
  letters_of_all (by decide)

mutual

theorem fit_queryValue (hd : Documented env) : ∀ q : Query, Fit env.toWireEnv (queryValue q)
  | .node own anyOf => by
    have hbranches : Fit env.toWireEnv (.array (queryValues anyOf)) := fit_queryValues hd anyOf
    have hkeys : ((member "anyOf" anyOf.isEmpty (.array (queryValues anyOf))++
        ownMembers own).map Prod.fst).Sublist requestKeys := by
      rw [List.map_append]
      have hown := (ownMembers_keys own).trans
        (List.sublist_append_left ownKeys ["page","pageSize","sort"])
      exact (member_keys _ _ _).append hown
    rw [queryValue,Fit,fitMembers_append]
    exact ⟨keyed_letters hd requestKeys requestKeys_letters (by decide) hkeys,
      fitMembers_member _ _ hbranches,fitMembers_own hd own⟩

theorem fit_queryValues (hd : Documented env) : ∀ branches : List Query,
    FitElements env.toWireEnv (queryValues branches)
  | [] => trivial
  | branch::branches => ⟨fit_queryValue hd branch,fit_queryValues hd branches⟩

end

theorem fit_requestMembers (hd : Documented env) (request : QueryRequest) :
    Fit env.toWireEnv (.object (requestMembers request)) := by
  have hkeys := requestMembers_keys request
  obtain ⟨⟨own,anyOf⟩,page,pageSize,sort⟩ := request
  have hbranches : Fit env.toWireEnv (.array (queryValues anyOf)) := fit_queryValues hd anyOf
  refine ⟨keyed_letters hd requestKeys requestKeys_letters (by decide) hkeys,?_⟩
  unfold requestMembers
  simp only [fitMembers_append]
  exact ⟨fitMembers_member _ _ hbranches,fitMembers_own hd own,fit_number hd page,
    fit_number hd pageSize,trivial,trivial⟩

end Documented

/-- The documented behaviour of the value and state readers: they invert the
serializer on trees within their nesting bound. -/
structure DocumentedNavigation (env : NavigationEnv) : Prop where
  /-- The codec's tables and serializer behave as documented. -/
  codec : Documented env.toCodecEnv
  readsValue : ∀ value, ValueForm value → height value<127 →
    ∀ bytes, valueBytes env value=some bytes → env.readValue bytes=some value
  readsState : ∀ state : WireState, (∀ frame ∈ state.frames, ValueForm frame.request) →
    height (stateJson state)<127 → state.position<2^64 →
    ∀ bytes, valueBytes env (stateJson state)=some bytes → env.readState bytes=some state

/-- An integer within 64 bits. -/
def i64Of : Json → Option I64
  | .number n => if h : -2^63≤n ∧ n<2^63 then some ⟨n,h⟩ else none
  | _ => none

/-- A stored identity; null is none. -/
def idOf : Json → Option (Option I64)
  | .null => some none
  | j => (i64Of j).map some

def manualOrderOf : Json → Option (Option Bool)
  | .null => some none
  | .bool manualOrder => some (some manualOrder)
  | _ => none

def presentationOf (text : String) : Option Presentation :=
  if text="list" then some .list
  else if text="small_covers" then some .smallCovers
  else if text="large_covers" then some .largeCovers
  else none

/-- A stored frame from its members in their written order. -/
def frameOf : Json → Option WireFrame
  | .object [(kindKey,.string kind),(idKey,id),(orderKey,manualOrder),(requestKey,request),
      (selectionKey,.array selection)] =>
    if [kindKey,idKey,orderKey,requestKey,selectionKey]=
        ["kind","id","manualOrder","request","selection"] then do
      let id ← idOf id
      let manualOrder ← manualOrderOf manualOrder
      let selection ← selection.mapM i64Of
      some ⟨kind,id,manualOrder,request,selection⟩
    else none
  | _ => none

/-- A stored state from its members in their written order. -/
def stateOf : Json → Option WireState
  | .object [(versionKey,version),(libraryKey,.string libraryId),(framesKey,.array frames),
      (positionKey,.number position),(presentationKey,.string presentation)] =>
    if [versionKey,libraryKey,framesKey,positionKey,presentationKey]=
        ["version","libraryId","frames","position","presentation"] ∧ 0≤position then do
      let version ← i64Of version
      let frames ← frames.mapM frameOf
      let presentation ← presentationOf presentation
      some ⟨version,libraryId,frames,position.toNat,presentation⟩
    else none
  | _ => none

/-- A written integer is read back. -/
theorem i64Of_number (n : I64) : i64Of (.number n.val)=some n := dif_pos n.property

theorem mapM_written {α : Type} {f : α → Json} {read : Json → Option α}
    (h : ∀ x, read (f x)=some x) (xs : List α) : (xs.map f).mapM read=some xs := by
  induction xs with
  | nil => rfl
  | cons x xs ih =>
    rw [List.map_cons,List.mapM_cons,h x,ih]
    rfl

theorem frameOf_frameJson (frame : WireFrame) : frameOf (frameJson frame)=some frame := by
  have hselection := mapM_written i64Of_number frame.selection
  have hid : idOf (idJson frame.id)=some frame.id := by
    cases frame.id with
    | none => rfl
    | some id => exact congrArg (Option.map some) (i64Of_number id)
  have hmanual : manualOrderOf (manualOrderJson frame.manualOrder)=some frame.manualOrder := by
    cases frame.manualOrder with
    | none => rfl
    | some manualOrder => rfl
  rw [frameJson,frameOf,if_pos rfl,hid,hmanual,hselection]
  rfl

theorem stateOf_stateJson (state : WireState) : stateOf (stateJson state)=some state := by
  have hversion := i64Of_number state.version
  have hframes := mapM_written frameOf_frameJson state.frames
  have hpresentation : presentationOf state.presentation.text=some state.presentation := by
    cases state.presentation with
    | list => rfl
    | smallCovers => rfl
    | largeCovers => rfl
  rw [stateJson,stateOf,if_pos ⟨rfl,Int.natCast_nonneg _⟩,hversion,hframes,hpresentation]
  rfl

/-- The plain environment with readers of the compact texts it writes. -/
def plainNavigation : NavigationEnv where
  toCodecEnv := plainEnv
  normalizeRuntime name := .ok name
  readValue := readJson
  readState bytes := (readJson bytes).bind stateOf

theorem fit_stateJson {state : WireState}
    (h : ∀ frame ∈ state.frames, ValueForm frame.request) : Fit exactKeys (stateJson state) := by
  have hframe : ∀ frame ∈ state.frames, Fit exactKeys (frameJson frame) := by
    intro frame hf
    have hkeys : ["kind","id","manualOrder","request","selection"].Nodup := by decide
    have hid : Fit exactKeys (idJson frame.id) := by
      cases frame.id with
      | none => trivial
      | some id => rfl
    have hmanual : Fit exactKeys (manualOrderJson frame.manualOrder) := by
      cases frame.manualOrder with
      | none => trivial
      | some manualOrder => trivial
    have hnumber : ∀ id : I64, Fit exactKeys (.number id.val) := fun _ => rfl
    exact ⟨keyed_exactKeys hkeys,trivial,hid,hmanual,fit_valueForm _ (h frame hf),
      fitElements_map hnumber frame.selection,trivial⟩
  have hkeys : ["version","libraryId","frames","position","presentation"].Nodup := by decide
  have hframes : FitElements exactKeys (state.frames.map frameJson) := by
    apply fitElements_of_mem
    intro value hm
    obtain ⟨frame,hf,rfl⟩ := List.mem_map.mp hm
    exact hframe frame hf
  exact ⟨keyed_exactKeys hkeys,rfl,trivial,hframes,rfl,trivial,trivial⟩

theorem valueBytes_plain (value : Json) :
    valueBytes plainNavigation value=some (bytes (write serdeEscape value)) := by
  change some (bytes (String.ofList (write serdeEscape value)).toList)=_
  rw [String.toList_ofList]

theorem documented_plainNavigation : DocumentedNavigation plainNavigation where
  codec := documented_plainEnv
  readsValue value hform hheight text hb := by
    rw [valueBytes_plain] at hb
    cases hb
    exact readJson_write escaping_serdeEscape (fit_valueForm value hform) (by omega)
  readsState state hforms hheight hposition text hb := by
    rw [valueBytes_plain] at hb
    cases hb
    have hread := readJson_write escaping_serdeEscape (fit_stateJson hforms) (by omega)
    change (readJson _).bind stateOf=_
    rw [hread]
    exact stateOf_stateJson state

section Documented

variable {env : NavigationEnv}

theorem finishNode_ok (hp : 0≤request.page.val) (hs : 0≤request.pageSize.val)
    (hs' : request.pageSize.val≤100) (ht : request.sort ∈ ["","name_asc","imported_desc"]) :
    finishNode request children (fieldsOf (ownMembers own)) remaining=
      .ok ({ request with criteria := .node own children },remaining) := by
  have hq : hash (query (.object (fieldsOf (ownMembers own))) false)=.ok (.node own []) :=
    mapError_ok.mpr (query_ownMembers own)
  have hrange : ¬(request.page.val<0 ∨ request.pageSize.val<0 ∨ 100<request.pageSize.val ∨
      request.sort ∉ ["","name_asc","imported_desc"]) := by
    rintro (h | h | h | h)
    · omega
    · omega
    · omega
    · exact h ht
  unfold finishNode
  rw [if_neg hrange,bind_of_ok hq]

/-- The branches of a node are read from their member when they can be read. -/
theorem nodeFields_anyOf_ok {anyOf : List Query}
    (hbranches : nodeElements (wiresOf (queryValues anyOf)) remaining=.ok (anyOf,left)) :
    nodeFields {} [] [] (fieldsOf (member "anyOf" anyOf.isEmpty
      (.array (queryValues anyOf))++rest)) remaining=
      nodeFields {} anyOf [] (fieldsOf rest) left := by
  cases anyOf with
  | nil =>
    rw [queryValues,wiresOf,nodeElements] at hbranches
    cases hbranches
    rfl
  | cons branch branches =>
    have hf : hash (field "anyOf")=.ok "ANYOF" := mapError_ok.mpr (by decide)
    change nodeFields {} [] []
      (("anyOf",wireOf (.array (queryValues (branch::branches))))::fieldsOf rest) remaining=_
    rw [nodeFields,bind_of_ok hf,if_neg (by decide),if_neg (by decide),if_neg (by decide),
      if_pos rfl,wireOf,nodeArray]
    exact bind_of_ok hbranches

mutual

/-- A written branch is read when the budget covers its nodes. -/
theorem node_queryValue_ok : ∀ (q : Query) (left : ℕ),
    node (wireOf (queryValue q)) (nodes q+left)=.ok ({ criteria := q },left)
  | .node own anyOf,left => by
    have hbranches := nodeElements_queryValues_ok anyOf left
    have hbudget : hashBudget (nodesOf anyOf+1+left)=.ok (nodesOf anyOf+left) := by
      rw [hashBudget,if_neg (by omega)]
      congr 1
      omega
    have hown : nodeFields {} anyOf [] (fieldsOf (ownMembers own++[])) left=
        nodeFields {} anyOf (fieldsOf (ownMembers own)) (fieldsOf []) left := nodeFields_own
    have hfinish : finishNode {} anyOf (fieldsOf (ownMembers own)) left=
        .ok ({ criteria := .node own anyOf },left) :=
      finishNode_ok (by decide) (by decide) (by decide) (by decide)
    rw [List.append_nil] at hown
    rw [queryValue,wireOf,node,nodes,bind_of_ok hbudget,nodeFields_anyOf_ok hbranches,hown,
      fieldsOf,nodeFields]
    exact hfinish

/-- Written branches are read when the budget covers their nodes. -/
theorem nodeElements_queryValues_ok : ∀ (anyOf : List Query) (left : ℕ),
    nodeElements (wiresOf (queryValues anyOf)) (nodesOf anyOf+left)=.ok (anyOf,left)
  | [],left => by
    rw [queryValues,wiresOf,nodeElements,nodesOf,Nat.zero_add]
  | first::rest,left => by
    have hfirst := node_queryValue_ok first (nodesOf rest+left)
    have hrest := nodeElements_queryValues_ok rest left
    rw [queryValues,wiresOf,nodeElements,nodesOf,Nat.add_assoc]
    exact exceptBind_ok.mpr ⟨_,hfirst,exceptBind_ok.mpr ⟨_,hrest,rfl⟩⟩

end

theorem node_requestMembers_ok (hp : 0≤request.page.val) (hs : 0≤request.pageSize.val)
    (hs' : request.pageSize.val≤100) (ht : request.sort ∈ ["","name_asc","imported_desc"]) :
    node (wireOf (.object (requestMembers request))) (nodes request.criteria+left)=
      .ok (request,left) := by
  obtain ⟨⟨own,anyOf⟩,page,pageSize,sort⟩ := request
  have hpage : hash (field "page")=.ok "PAGE" := mapError_ok.mpr (by decide)
  have hpageSize : hash (field "pageSize")=.ok "PAGESIZE" := mapError_ok.mpr (by decide)
  have hsort : hash (field "sort")=.ok "SORT" := mapError_ok.mpr (by decide)
  have hread : ∀ n target : I64, hash (scalarInteger (wireOf (.number n.val)) target)=.ok n :=
    fun n target => mapError_ok.mpr (scalarInteger_number n target)
  have htext : ∀ s target, hash (scalarString (wireOf (.string s)) target)=.ok s :=
    fun s target => mapError_ok.mpr rfl
  have hbranches := nodeElements_queryValues_ok anyOf left
  have hbudget : hashBudget (nodes (.node own anyOf)+left)=.ok (nodesOf anyOf+left) := by
    rw [nodes,hashBudget,if_neg (by omega)]
    congr 1
    omega
  rw [wireOf,node,bind_of_ok hbudget]
  change nodeFields {} [] [] (fieldsOf (member "anyOf" anyOf.isEmpty
    (.array (queryValues anyOf))++_)) (nodesOf anyOf+left)=_
  rw [nodeFields_anyOf_ok hbranches,nodeFields_own,navigationMembers,fieldsOf,nodeFields,
    bind_of_ok hpage,if_pos rfl,bind_of_ok (hread page _),fieldsOf,nodeFields,
    bind_of_ok hpageSize,if_neg (by decide),if_pos rfl,bind_of_ok (hread pageSize _),fieldsOf,
    nodeFields,bind_of_ok hsort,if_neg (by decide),if_neg (by decide),if_pos rfl,
    bind_of_ok (htext sort _),fieldsOf,nodeFields]
  exact finishNode_ok hp hs hs' ht

variable {bytes : List UInt8}

theorem restoreRequest_value (hd : DocumentedNavigation env)
    (hb : valueBytes env (.object (requestMembers request))=some bytes)
    (h : restoreRequest env bytes=.ok r) : r=request ∧ nodes request.criteria ≤ maxNodes := by
  obtain ⟨escape,he,hs⟩ := hd.codec.serializes
  unfold valueBytes at hb
  rw [hs,Option.map_some,String.toList_ofList] at hb
  cases hb
  have hparse := parse_write he (fit_requestMembers hd.codec request)
  unfold restoreRequest at h
  obtain ⟨-,h⟩ := checked_ok.mp h
  obtain ⟨wire,hw,h⟩ := exceptBind_ok.mp h
  obtain ⟨⟨r',left⟩,hn,h⟩ := exceptBind_ok.mp h
  obtain ⟨normal,-,h⟩ := exceptBind_ok.mp h
  cases h
  have hwire := mapError_ok.mp hw
  rw [hparse] at hwire
  by_cases hheight : height (.object (requestMembers request))≤128
  · rw [if_pos hheight] at hwire
    cases hwire
    obtain ⟨hr,hcount⟩ := node_requestMembers hn
    exact ⟨hr,by omega⟩
  · rw [if_neg hheight] at hwire
    cases hwire

theorem requestBytes_ok (hd : DocumentedNavigation env) (h : requestBytes env request=.ok bytes) :
    valueBytes env (.object (requestMembers request))=some bytes ∧
      restoreRequest env bytes=.ok request ∧ nodes request.criteria ≤ maxNodes := by
  unfold requestBytes at h
  rw [requestValue_members,Option.bind_some] at h
  cases hb : valueBytes env (.object (requestMembers request)) with
  | none =>
    rw [hb] at h
    cases h
  | some written =>
    rw [hb] at h
    obtain ⟨r,hr,h⟩ := exceptBind_ok.mp h
    cases h
    obtain ⟨rfl,hn⟩ := restoreRequest_value hd hb hr
    exact ⟨rfl,hr,hn⟩

/-- A request is accepted exactly when its text is within the bound and it can be
normalized. -/
theorem requestBytes_iff (hd : DocumentedNavigation env) : requestBytes env request=.ok bytes ↔
      valueBytes env (.object (requestMembers request))=some bytes ∧ bytes.length ≤ maxBytes ∧
        ∃ normal, normalizeRequest env.toRuntimeEnv request=.ok normal := by
  constructor
  · intro h
    obtain ⟨hb,hrestore,-⟩ := requestBytes_ok hd h
    unfold restoreRequest at hrestore
    obtain ⟨hlen,hrestore⟩ := checked_ok.mp hrestore
    obtain ⟨wire,-,hrestore⟩ := exceptBind_ok.mp hrestore
    obtain ⟨⟨r,left⟩,-,hrestore⟩ := exceptBind_ok.mp hrestore
    obtain ⟨normal,hnormal,hrestore⟩ := exceptBind_ok.mp hrestore
    cases hrestore
    exact ⟨hb,Nat.not_lt.mp hlen,normal,mapError_ok.mp hnormal⟩
  · rintro ⟨hb,hlen,normal,hnormal⟩
    obtain ⟨hn,hp,hs,hs',ht⟩ := normalizeRequest_bounds hnormal
    obtain ⟨escape,he,hserialize⟩ := hd.codec.serializes
    have hheight := height_requestMembers request
    have hmax : maxNodes=50 := rfl
    have hparse := parse_write he (fit_requestMembers hd.codec request)
    rw [if_pos (by omega)] at hparse
    have hwritten : bytes=JsonText.bytes (write escape (.object (requestMembers request))) := by
      have hb' := hb
      unfold valueBytes at hb'
      rw [hserialize,Option.map_some,String.toList_ofList] at hb'
      cases hb'
      rfl
    rw [←hwritten] at hparse
    have hnode : node (wireOf (.object (requestMembers request))) maxNodes=
        .ok (request,maxNodes-nodes request.criteria) := by
      have h : node (wireOf (.object (requestMembers request)))
          (nodes request.criteria+(maxNodes-nodes request.criteria))=
          .ok (request,maxNodes-nodes request.criteria) := node_requestMembers_ok hp hs hs' ht
      rw [Nat.add_sub_cancel' hn] at h
      exact h
    have hrestore : restoreRequest env bytes=.ok request := by
      unfold restoreRequest
      rw [if_neg (Nat.not_lt.mpr hlen)]
      exact exceptBind_ok.mpr ⟨_,mapError_ok.mpr hparse,exceptBind_ok.mpr ⟨_,hnode,
        exceptBind_ok.mpr ⟨_,mapError_ok.mpr hnormal,rfl⟩⟩⟩
    unfold requestBytes
    rw [requestValue_members,Option.bind_some,hb]
    exact exceptBind_ok.mpr ⟨_,hrestore,rfl⟩

theorem readValue_request (hd : DocumentedNavigation env) (h : requestBytes env request=.ok bytes) :
    env.readValue bytes=some (.object (requestMembers request)) := by
  obtain ⟨hb,-,hn⟩ := requestBytes_ok hd h
  have hheight := height_requestMembers request
  have hmax : maxNodes=50 := rfl
  exact hd.readsValue _ (valueForm_requestMembers request) (by omega) bytes hb

theorem scopeOf_scopeFields (scope : Scope) :
    scopeOf (scopeFields scope).1 (scopeFields scope).2.1 (scopeFields scope).2.2=.ok scope := by
  cases scope with
  | library => rfl
  | custom => rfl
  | collection id =>
    obtain ⟨id,hid⟩ := id
    have hnew : newGroupId id=.ok ⟨id,hid⟩ := dif_pos hid
    change (newGroupId id).map Scope.collection=_
    rw [hnew]
    rfl
  | shelf id manualOrder =>
    obtain ⟨id,hid⟩ := id
    have hnew : newGroupId id=.ok ⟨id,hid⟩ := dif_pos hid
    change (newGroupId id).map (fun id => Scope.shelf id manualOrder)=_
    rw [hnew]
    rfl

/-- A frame that can be stored: a valid selection and an accepted request. -/
def Storable (env : NavigationEnv) (frame : Frame) : Prop :=
  validSelection [] frame.selection=true ∧
    ∃ bytes, requestBytes env frame.location.request=.ok bytes

def storedFrame (frame : Frame) : WireFrame :=
  ⟨(scopeFields frame.location.scope).1,(scopeFields frame.location.scope).2.1,
    (scopeFields frame.location.scope).2.2,.object (requestMembers frame.location.request),
    frame.selection⟩

def storedState (nav : Navigation) : WireState :=
  ⟨stateVersion,nav.library.text,nav.frames.map storedFrame,nav.position,nav.presentation⟩

theorem wireFrame_iff (hd : DocumentedNavigation env) {frame : Frame} {wire : WireFrame} :
    wireFrame env frame=.ok wire ↔ Storable env frame ∧ wire=storedFrame frame := by
  unfold wireFrame Storable
  cases hv : validSelection [] frame.selection with
  | false =>
    rw [if_pos rfl]
    constructor
    · intro h
      cases h
    · rintro ⟨⟨h,-⟩,-⟩
      cases h
  | true =>
    rw [if_neg Bool.false_ne_true.symm]
    cases hb : requestBytes env frame.location.request with
    | error e =>
      constructor
      · intro h
        cases h
      · rintro ⟨⟨-,bytes,h⟩,-⟩
        cases h
    | ok bytes =>
      dsimp only
      rw [readValue_request hd hb]
      constructor
      · intro h
        cases h
        exact ⟨⟨rfl,bytes,rfl⟩,rfl⟩
      · rintro ⟨-,rfl⟩
        rfl

variable {nav : Navigation}

/-- A state is accepted exactly when it is in bounds, its frames can be stored and
the text of its stored form is within the bound. -/
theorem encode_iff (hd : DocumentedNavigation env) :
    encode env nav=.ok bytes ↔
      (nav.frames.length ≤ maxHistory ∧ nav.position<nav.frames.length) ∧
      (∀ frame ∈ nav.frames, Storable env frame) ∧
      valueBytes env (stateJson (storedState nav))=some bytes ∧
      bytes.length ≤ maxStateBytes := by
  have hframes : (∀ frame ∈ nav.frames, Storable env frame) →
      nav.frames.mapM (wireFrame env)=.ok (nav.frames.map storedFrame) := by
    intro hall
    exact mapM_ok fun frame hm => (wireFrame_iff hd).mpr ⟨hall frame hm,rfl⟩
  unfold encode
  constructor
  · intro h
    obtain ⟨hb,h⟩ := checked_ok.mp h
    obtain ⟨wires,hw,h⟩ := exceptBind_ok.mp h
    have hall : ∀ frame ∈ nav.frames, Storable env frame := by
      intro frame hm
      obtain ⟨wire,hwire⟩ := mapM_element hw frame hm
      exact ((wireFrame_iff hd).mp hwire).1
    rw [hframes hall] at hw
    cases hw
    unfold storedState
    cases hv : valueBytes env (stateJson ⟨stateVersion,nav.library.text,
        nav.frames.map storedFrame,nav.position,nav.presentation⟩) with
    | none =>
      rw [hv] at h
      cases h
    | some written =>
      rw [hv] at h
      dsimp only at h
      obtain ⟨hlen,h⟩ := checked_ok.mp h
      cases h
      exact ⟨⟨by omega,by omega⟩,hall,rfl,by omega⟩
  · rintro ⟨⟨hhistory,hposition⟩,hall,hv,hlen⟩
    unfold storedState at hv
    rw [if_neg (by omega),bind_of_ok (hframes hall),hv]
    exact if_neg (Nat.not_lt.mpr hlen)

theorem height_frameJson (frame : WireFrame) : height (frameJson frame)≤height frame.request+2 := by
  have hid : height (idJson frame.id)=0 := by
    cases frame.id with
    | none => rfl
    | some id => rfl
  have hmanual : height (manualOrderJson frame.manualOrder)=0 := by
    cases frame.manualOrder with
    | none => rfl
    | some manualOrder => rfl
  have hselection := height_array_map (n:=0)
    (fun id : I64 => Nat.le_refl (height (.number id.val))) frame.selection
  have hkind : height (.string frame.kind)=0 := rfl
  rw [frameJson,height]
  simp only [heightMembers,hid,hmanual,hkind]
  omega

theorem height_storedState (hd : DocumentedNavigation env)
    (hall : ∀ frame ∈ nav.frames, Storable env frame) :
    height (stateJson (storedState nav))<126 := by
  have hmax : maxNodes=50 := rfl
  have hframes : heightElements ((nav.frames.map storedFrame).map frameJson)≤105 := by
    apply heightElements_le
    intro value hm
    obtain ⟨wire,hw,rfl⟩ := List.mem_map.mp hm
    obtain ⟨frame,hf,rfl⟩ := List.mem_map.mp hw
    obtain ⟨bytes,hb⟩ := (hall frame hf).2
    obtain ⟨-,-,hn⟩ := requestBytes_ok hd hb
    have hrequest : height (storedFrame frame).request≤
        2*nodes frame.location.request.criteria+2 := height_requestMembers _
    have hjson := height_frameJson (storedFrame frame)
    omega
  have he : height (stateJson (storedState nav))=
      max 1 (max 1 (max (heightElements ((nav.frames.map storedFrame).map frameJson)+1)
        (max 1 (max 1 0)))) := rfl
  omega

theorem restoreFrame_storedFrame (hd : DocumentedNavigation env) {frame : Frame}
    (hs : Storable env frame) : restoreFrame env (storedFrame frame)=.ok frame := by
  obtain ⟨hv,bytes,hb⟩ := hs
  obtain ⟨hvalue,hrestore,-⟩ := requestBytes_ok hd hb
  have hscope : scopeOf (storedFrame frame).kind (storedFrame frame).id
      (storedFrame frame).manualOrder=.ok frame.location.scope :=
    scopeOf_scopeFields frame.location.scope
  have hne : ¬validSelection [] (storedFrame frame).selection=false := by
    change ¬validSelection [] frame.selection=false
    rw [hv]
    exact Bool.false_ne_true.symm
  unfold restoreFrame
  have hrequest : valueBytes env (storedFrame frame).request=some bytes := hvalue
  rw [if_neg hne,bind_of_ok hscope,hrequest]
  dsimp only
  rw [hrestore]
  rfl

/-- Bytes that are read as the stored form of a state in bounds are decoded to its frames,
position and presentation. -/
theorem decode_storedState (hd : DocumentedNavigation env)
    (hbound : nav.frames.length ≤ maxHistory ∧ nav.position<nav.frames.length)
    (hall : ∀ frame ∈ nav.frames, Storable env frame)
    (hread : env.readState bytes=some (storedState nav)) (hbytes : bytes.length ≤ maxStateBytes)
    {generation fresh : ℕ} (hg : generation≠0) :
    decode env bytes nav.library generation fresh=
      .ok ⟨nav.library,generation,1,fresh,nav.frames,nav.position,nav.presentation⟩ := by
  obtain ⟨hhistory,hposition⟩ := hbound
  have hlen : (storedState nav).frames.length=nav.frames.length := List.length_map _
  have hposition' : (storedState nav).position=nav.position := rfl
  have hrestore : (storedState nav).frames.mapM (restoreFrame env)=.ok nav.frames :=
    mapM_map fun frame hf => restoreFrame_storedFrame hd (hall frame hf)
  have hok : ¬((storedState nav).version≠stateVersion ∨
      (storedState nav).libraryId≠nav.library.text ∨ (storedState nav).frames.length=0 ∨
      maxHistory<(storedState nav).frames.length ∨
      (storedState nav).frames.length≤(storedState nav).position) := by
    rintro (h | h | h | h | h)
    · exact h rfl
    · exact h rfl
    · omega
    · omega
    · omega
  unfold decode
  rw [if_neg (by omega),hread]
  dsimp only
  rw [if_neg hok,bind_of_ok hrestore]
  rfl

theorem valueForm_storedState (nav : Navigation) :
    ∀ frame ∈ (storedState nav).frames, ValueForm frame.request := by
  intro wire hw
  obtain ⟨frame,-,rfl⟩ := List.mem_map.mp hw
  exact valueForm_requestMembers _

theorem position_storedState
    (hbound : nav.frames.length ≤ maxHistory ∧ nav.position<nav.frames.length) :
    (storedState nav).position<2^64 := by
  have hmax : maxHistory=100 := rfl
  have hposition : (storedState nav).position=nav.position := rfl
  omega

/-- An accepted state is decoded with the same frames, position and presentation,
and the decoded state has the same bytes. -/
theorem decode_navigation (hd : DocumentedNavigation env) (h : encode env nav=.ok bytes)
    {generation fresh : ℕ} (hg : generation≠0) :
    ∃ m, decode env bytes nav.library generation fresh=.ok m ∧ m.library=nav.library ∧
      m.frames=nav.frames ∧ m.position=nav.position ∧ m.presentation=nav.presentation ∧
      encode env m=.ok bytes := by
  obtain ⟨hbound,hall,hv,hbytes⟩ := (encode_iff hd).mp h
  have hheight := height_storedState hd hall
  have hread := hd.readsState (storedState nav) (valueForm_storedState nav) (by omega)
    (position_storedState hbound) bytes hv
  exact ⟨_,decode_storedState hd hbound hall hread hbytes hg,rfl,rfl,rfl,rfl,h⟩

/-- Navigation persistence is lossless: accepted request bytes restore the request
verbatim, and an accepted state survives its bytes. -/
theorem persistence_lossless (hd : DocumentedNavigation env) :
    (∀ request bytes, requestBytes env request=.ok bytes →
      restoreRequest env bytes=.ok request) ∧
    ∀ (nav : Navigation) (bytes : List UInt8), encode env nav=.ok bytes →
      ∀ generation fresh : ℕ, generation≠0 →
        ∃ m, decode env bytes nav.library generation fresh=.ok m ∧ m.library=nav.library ∧
          m.frames=nav.frames ∧ m.position=nav.position ∧ m.presentation=nav.presentation ∧
          encode env m=.ok bytes := by
  constructor
  · intro request bytes h
    exact (requestBytes_ok hd h).2.1
  · intro nav bytes h generation fresh hg
    exact decode_navigation hd h hg

/-- A request whose texts normalization would keep but whose navigation and sort it
would default. -/
def sampleRequest : QueryRequest :=
  { criteria := .node { name := "Le \"Loup\"", languages := ["fr","en"] }
      [.node { booleanFilters := [⟨two,"ignored"⟩], choiceFilters := [⟨one,[two,one,two]⟩] } []],
    page := two }

/-- Two frames, the second with a selection. -/
def sampleNavigation : Navigation where
  library := ⟨List.replicate 16 0xab,rfl⟩
  generation := 3
  revision := 5
  identity := 8
  frames := [⟨⟨.library,{}⟩,[]⟩,⟨⟨.shelf ⟨two,by decide⟩ true,sampleRequest⟩,[two,one]⟩]
  position := 1
  presentation := .smallCovers

set_option maxRecDepth 20000 in
/-- The sample state and its request are accepted and survive. -/
theorem persistence_lossless_sample :
    (∃ bytes, requestBytes plainNavigation sampleRequest=.ok bytes ∧
      restoreRequest plainNavigation bytes=.ok sampleRequest) ∧
    ∃ bytes m, encode plainNavigation sampleNavigation=.ok bytes ∧
      decode plainNavigation bytes sampleNavigation.library 7 9=.ok m ∧
      m.library=sampleNavigation.library ∧ m.frames=sampleNavigation.frames ∧
      m.position=sampleNavigation.position ∧ m.presentation=sampleNavigation.presentation ∧
      encode plainNavigation m=.ok bytes := by
  have hd := documented_plainNavigation
  obtain ⟨hrequest,hstate⟩ := persistence_lossless hd
  have hsample : requestBytes plainNavigation sampleRequest=.ok _ :=
    (requestBytes_iff hd).mpr ⟨valueBytes_plain _,by decide,_,rfl⟩
  have hempty : requestBytes plainNavigation {}=.ok _ :=
    (requestBytes_iff hd).mpr ⟨valueBytes_plain _,by decide,_,rfl⟩
  have hstorable : ∀ frame ∈ sampleNavigation.frames, Storable plainNavigation frame := by
    change ∀ frame ∈ [⟨⟨.library,{}⟩,[]⟩,⟨⟨.shelf ⟨two,by decide⟩ true,sampleRequest⟩,[two,one]⟩],
      Storable plainNavigation frame
    rw [List.forall_mem_cons,List.forall_mem_singleton]
    exact ⟨⟨rfl,_,hempty⟩,⟨rfl,_,hsample⟩⟩
  have hencode : encode plainNavigation sampleNavigation=.ok _ :=
    (encode_iff hd).mpr ⟨by decide,hstorable,valueBytes_plain _,by decide⟩
  obtain ⟨m,hm⟩ := hstate _ _ hencode 7 9 (by decide)
  exact ⟨⟨_,hsample,hrequest _ _ hsample⟩,_,m,hencode,hm⟩

end Documented

end Librairii.NavigationRoundTrip
