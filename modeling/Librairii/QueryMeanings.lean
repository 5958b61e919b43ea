import Librairii.RuntimeNormalization
import Librairii.TagDeletion

/-!
# What a query means survives its passes

Sorting a list, dropping its repetitions and dropping ignored filters change the fields of a
node, but not the stories that meet them. A normalized request and a saved query that is read
back select the stories of the query they come from.
-/

namespace Librairii.QueryMeanings

open CheckedResults SavedQuery SavedQueryCodec CanonicalQuery NodeChanges PassSchedules
  NormalizationPasses StoryRows StoryStatements StoryQueries QueryCompilation QueryRequests
  RuntimeNormalization SavedQueryRoundTrip TagDeletion
open WireParser hiding members
open JsonText (bytes)

variable {t : StoryTables} {locale : String} {row : Listed}

/-- Fields that list the same members, ignored filters apart, are met by the same stories. -/
theorem ownHolds_listed {own other : Membership} (values : List I64 → List I64)
    (hvalues : ∀ ids v, v ∈ values ids ↔ v ∈ ids) (hname : other.name=own.name)
    (hlanguages : ∀ l, l ∈ other.languages ↔ l ∈ own.languages)
    (hcompatibilities : ∀ c, c ∈ other.compatibilities ↔ c ∈ own.compatibilities)
    (hbooleans : ∀ f, f.state≠"ignored" →
      (f ∈ other.booleanFilters ↔ f ∈ own.booleanFilters))
    (hchoices : ∀ f, f ∈ other.choiceFilters ↔
      f ∈ own.choiceFilters.map fun f => {f with valueIds := values f.valueIds}) :
    OwnHolds t locale row other ↔ OwnHolds t locale row own := by
  have hnil : ∀ xs ys : List String, (∀ x, x ∈ xs ↔ x ∈ ys) → (xs=[] ↔ ys=[]) := by
    intro xs ys h
    simp only [List.eq_nil_iff_forall_not_mem,h]
  have hl := hnil _ _ hlanguages
  have hc := hnil _ _ hcompatibilities
  have hb : ∀ P : BooleanFilter → Prop,
      (∀ f ∈ other.booleanFilters, f.state≠"ignored" → P f) ↔
        ∀ f ∈ own.booleanFilters, f.state≠"ignored" → P f := fun P =>
    forall_congr' fun f => ⟨fun h hm hs => h ((hbooleans f hs).mpr hm) hs,
      fun h hm hs => h ((hbooleans f hs).mp hm) hs⟩
  have hv : ∀ P : I64 → (I64 → Prop) → Prop,
      (∀ f ∈ other.choiceFilters, P f.definitionId (· ∈ f.valueIds)) ↔
        ∀ f ∈ own.choiceFilters, P f.definitionId (· ∈ f.valueIds) := by
    intro P
    simp only [hchoices,List.forall_mem_map,hvalues]
  have hchoice := hv fun id listed => ∃ a ∈ t.assignments, a.storyId=row.story.id ∧
    a.definitionId=id.val ∧ ∃ v, listed v ∧ a.valueId=some v.val
  constructor
  · rintro ⟨h1,h2,h3,h4,h5⟩
    simp only [hname,hl,hlanguages,hc,hcompatibilities] at h1 h2 h3
    exact ⟨h1,h2,h3,(hb _).mp h4,hchoice.mp h5⟩
  · intro h
    obtain ⟨h1,h2,h3,h4,h5⟩ := h
    refine ⟨?_,?_,?_,(hb _).mpr h4,hchoice.mpr h5⟩
    · rwa [hname]
    · simpa only [hl,hlanguages] using h2
    · simpa only [hc,hcompatibilities] using h3

section Trees

variable {ε : Type} {f : Membership → Except ε Membership}

mutual

/-- A change that every node survives with its meaning keeps the meaning of the tree. -/
theorem holds_eachNode : ∀ (q : Query) {q' : Query}, (∀ own ∈ members q, ∀ own',
    f own=.ok own' → (OwnHolds t locale row own' ↔ OwnHolds t locale row own)) →
    eachNode (fun _ => f) q=.ok q' → (Holds t locale row q' ↔ Holds t locale row q)
  | .node own anyOf,q',hf,h => by
    obtain ⟨own',anyOf',ho,hb,rfl⟩ := eachNode_ok.mp h
    rw [members,List.forall_mem_cons] at hf
    have hsame : anyOf'=[] ↔ anyOf=[] := by
      rw [←List.length_eq_zero_iff,←List.length_eq_zero_iff,
        (eachBranch_pairs.mp hb).length_eq]
    rw [Holds,Holds,hf.1 own' ho,hsame,someHolds_eachBranch anyOf hf.2 hb]

theorem someHolds_eachBranch : ∀ (branches : List Query) {branches' : List Query},
    (∀ own ∈ membersOf branches, ∀ own',
      f own=.ok own' → (OwnHolds t locale row own' ↔ OwnHolds t locale row own)) →
    eachBranch (fun _ => f) branches=.ok branches' →
    (SomeHolds t locale row branches' ↔ SomeHolds t locale row branches)
  | [],branches',_,h => by rw [eachBranch_nil.mp h]
  | branch::branches,branches',hf,h => by
    obtain ⟨b,bs,hb,hbs,rfl⟩ := eachBranch_cons.mp h
    rw [membersOf,List.forall_mem_append] at hf
    rw [SomeHolds,SomeHolds,holds_eachNode branch hf.1 hb,
      someHolds_eachBranch branches hf.2 hbs]

end

end Trees

mutual

theorem eachNode_canonical : ∀ q : Query, eachNode (fun _ => .ok ∘ canonicalOwn) q=
    (.ok (canonical q) : Except CodecError Query)
  | .node _ anyOf => eachNode_ok.mpr ⟨_,_,rfl,eachBranch_canonical anyOf,rfl⟩

theorem eachBranch_canonical : ∀ branches : List Query,
    eachBranch (fun _ => .ok ∘ canonicalOwn) branches=
      (.ok (canonicalBranches branches) : Except CodecError (List Query))
  | [] => rfl
  | branch::branches => eachBranch_cons.mpr
    ⟨_,_,eachNode_canonical branch,eachBranch_canonical branches,rfl⟩

end

theorem matchingRows_congr {q q' : Query} (uuids : Option (List String))
    (h : ∀ row, Holds t locale row q' ↔ Holds t locale row q) :
    matchingRows t locale q' uuids=matchingRows t locale q uuids :=
  List.filter_congr fun row _ => decide_eq_decide.mpr (and_congr_left' (h row))

/-- Canonical fields are met by the same stories. -/
theorem ownHolds_canonicalOwn (own : Membership) :
    OwnHolds t locale row (canonicalOwn own) ↔ OwnHolds t locale row own := by
  refine ownHolds_listed sortedSet (fun _ _ => mem_sortedSet) rfl (fun _ => mem_sortedSet)
    (fun _ => mem_sortedSet) (fun f hf => ?_) (fun f => ?_)
  · change f ∈ List.insertionSort _ _ ↔ _
    rw [(List.perm_insertionSort _ _).mem_iff,List.mem_filter]
    simp only [hf,ne_eq,not_false_eq_true,decide_true,and_true]
  · exact ((List.perm_insertionSort _ _).map canonicalChoice).mem_iff

theorem matchingRows_canonical (q : Query) (uuids : Option (List String)) :
    matchingRows t locale (canonical q) uuids=matchingRows t locale q uuids :=
  matchingRows_congr uuids fun _ => holds_eachNode q (fun own _ _ h =>
    Except.ok.inj h ▸ ownHolds_canonicalOwn own) (eachNode_canonical q)

/-- Without the filters on a retired definition, a node of an older version keeps its meaning. -/
theorem ownHolds_retireOwn {version legacyId : I64} {own : Membership}
    (h : 4≤version.val ∨ legacyId.val≤0) :
    OwnHolds t locale row (retireOwn version legacyId own) ↔ OwnHolds t locale row own := by
  have hkept : ¬(version.val<4 ∧ 0<legacyId.val) := by omega
  rw [retireOwn,if_neg hkept]
  by_cases hv : version.val<5
  · rw [if_pos hv]
    exact ⟨fun ⟨h1,h2,h3,h4,h5⟩ => ⟨h1,h2,h3,h4,h5⟩,fun ⟨h1,h2,h3,h4,h5⟩ => ⟨h1,h2,h3,h4,h5⟩⟩
  · rw [if_neg hv]

/-- Normalized fields with fixed texts are met by the same stories. -/
theorem ownHolds_normalized {runtime : RuntimeEnv} {own normal : Membership}
    (h : Normalized runtime own normal) (hfixed : FixedTexts runtime own) :
    OwnHolds t locale row normal ↔ OwnHolds t locale row own := by
  obtain ⟨name,languages,hname,hlanguages,rfl⟩ := h
  obtain rfl := Except.ok.inj (hfixed.1.symm.trans hname)
  have hm := mapM_ok hfixed.2
  rw [List.map_id',hlanguages] at hm
  obtain rfl := Except.ok.inj hm
  exact ownHolds_listed firstOccurrences (fun _ _ => mem_firstOccurrences) rfl
    (fun _ => mem_sortedSet) (fun _ => mem_sortedSet) (fun _ _ => .rfl) (fun _ => .rfl)

section Searches

variable {runtime : RuntimeEnv} {request normal : QueryRequest} {sql : List Fragment}
  {args : List Value}

theorem matchingRows_normal (h : normalizeRequest runtime request=.ok normal)
    (hfixed : ∀ own ∈ members request.criteria, FixedTexts runtime own)
    (uuids : Option (List String)) :
    matchingRows t locale normal.criteria uuids=
      matchingRows t locale request.criteria uuids := by
  obtain ⟨-,hnodes,-⟩ := normalizeRequest_ok.mp h
  refine matchingRows_congr uuids fun _ => holds_eachNode _ (fun own hm _ ho => ?_) hnodes
  exact ownHolds_normalized (runtimeOwn_established (requestOwn_ok.mp ho).2).1 (hfixed own hm)

/-- A compiled request counts certain stories, and lists them in its order. -/
def Finds (t : StoryTables) (locale : String) (normal : QueryRequest) (sql : List Fragment)
    (args : List Value) (stories : List Listed) : Prop :=
  executeCount t (countStatement sql) args=some stories.length ∧
    ∀ order sql' args', ordering normal locale sql args=(order,sql',args') →
      ∃ rows, executeRecords t (recordStatement sql' order) args'=some rows ∧
        rows.Perm stories

theorem finds_matching (ht : Keyed t)
    (h : matching runtime t request locale=.ok (normal,sql,args)) :
    Finds t locale normal sql args (matchingRows t locale normal.criteria none) := by
  obtain ⟨hnormal,-,rfl,rfl⟩ := matching_ok h
  have hexecutes := @executes_tests t locale ht normal
    (normalizeRequest_admitted hnormal) none
  exact ⟨hexecutes.counted,fun order sql' args' ho => (hexecutes.ordered order sql' args' ho).2⟩

/-- A request whose texts are normalized finds the stories of the request as it was made:
what its normal form counts and lists are the listed stories on which the criteria hold. -/
theorem request_meaning (ht : Keyed t)
    (hfixed : ∀ own ∈ members request.criteria, FixedTexts runtime own)
    (h : matching runtime t request locale=.ok (normal,sql,args)) :
    Finds t locale normal sql args (matchingRows t locale request.criteria none) := by
  have hfinds := finds_matching ht h
  rwa [matchingRows_normal (matching_ok h).1 hfixed] at hfinds

/-- The request for a name finds its stories. -/
theorem request_meaning_named : Finds oneStory "fr-FR" namedNormal
    [.from,.displayJoin,.where,.name,.and,.open,.open,.one,.close,.close]
    [.text "fr-FR",.text "te"] (matchingRows oneStory "fr-FR" namedQuery none) :=
  request_meaning keyed_oneStory (fun _ _ => ⟨rfl,fun _ _ => rfl⟩) matching_named

/-- A query that is saved, read back and searched finds its stories, in every library and
locale, on every page and in every order. -/
theorem saved_meaning {env : CodecEnv} (hd : Documented env) {q : Query} {p : String}
    (hfixed : ∀ own ∈ members q, Fixed env.toNormalEnv own ∧ FixedTexts runtime own)
    (he : encode env q=.ok p) (legacyId : I64) :
    ∃ q', decode env currentVersion (bytes p.toList) legacyId=.ok q' ∧
      ∀ t locale page pageSize sort normal sql args, Keyed t →
        matching runtime t ⟨q',page,pageSize,sort⟩ locale=.ok (normal,sql,args) →
        Finds t locale normal sql args (matchingRows t locale q none) := by
  have hcodec := fun own hm => (hfixed own hm).1
  unfold encode at he
  obtain ⟨c,hc,he⟩ := exceptBind_ok.mp he
  obtain ⟨left,hv,he⟩ := exceptBind_ok.mp he
  have hcanonical := canonicalSaved_fixed hcodec hc
  obtain ⟨hmax,-,rfl⟩ := (canonicalSaved_ok q hcodec c).mp hc
  have hn : nodes (canonical q) ≤ maxNodes := by
    rw [←length_members,members_canonical,List.length_map,length_members]
    exact hmax
  refine ⟨canonical q,?_,fun t locale page pageSize sort normal sql args ht h => ?_⟩
  · unfold decode
    rw [bind_of_ok (decodePayload_payload hd he hn hv),retire_current]
    exact hcanonical
  · have htexts : ∀ own ∈ members (canonical q), FixedTexts runtime own := by
      rw [members_canonical,List.forall_mem_map]
      intro own hm
      obtain ⟨hname,hlanguages⟩ := (hfixed own hm).2
      exact ⟨hname,fun language hl => hlanguages language (mem_sortedSet.mp hl)⟩
    have hfinds := finds_matching ht h
    rwa [matchingRows_normal (matching_ok h).1 htexts,matchingRows_canonical] at hfinds

/-- The saved query of a tag finds its stories. -/
theorem saved_meaning_tagged : ∃ q',
    decode plainEnv currentVersion (bytes (taggedText one).toList) two=.ok q' ∧
      ∀ t locale page pageSize sort normal sql args, Keyed t →
        matching plainRuntime t ⟨q',page,pageSize,sort⟩ locale=.ok (normal,sql,args) →
        Finds t locale normal sql args (matchingRows t locale (tagged one) none) :=
  saved_meaning documented_plainEnv
    (fun own hm => ⟨fixed_tagged one own hm,⟨rfl,fun _ _ => rfl⟩⟩) (exceptBind_ok.mpr
    ⟨_,canonicalSaved_tagged one (.inl rfl),exceptBind_ok.mpr
      ⟨_,validateReferences_tagged one (.inl rfl),payload_tagged one (.inl rfl)⟩⟩) two

end Searches

end Librairii.QueryMeanings
