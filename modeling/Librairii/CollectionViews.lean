import Librairii.CollectionInspection
import Librairii.RuntimeAcceptance

/-!
# The views of a saved Collection

A Collection is opened, counted in its summary, exported and used as the source of a Shelf.
Opening, counting and exporting inspect it first; a source is decoded from the stored bytes
without rewriting them. After an inspection all of them agree on whether it can be used, and
they see the same stories.
-/

namespace Librairii.CollectionViews

open CheckedResults RowTables StorageTransactions CatalogRows StoryRows StoryStatements
  CanonicalQuery NormalizationPasses SavedQueryCodec SavedQueryRoundTrip QueryReferences
  QueryRequests CollectionRows QueryCompilation StoryPages CollectionInspection
  RuntimeAcceptance
open SavedQuery hiding validateReferences validateBranches
open StoryQueries hiding validateReferences validateBranches
open WireParser hiding members

/-- The Collections and the stories of a library. -/
structure LibraryTables where
  /-- The Collections, the tags and what the stories are tagged with. -/
  saved : CollectionTables
  stories : List Story
  archives : List Archive
  catalog : Catalog

def LibraryTables.storyTables (t : LibraryTables) : StoryTables :=
  ⟨t.stories,t.archives,t.catalog,t.saved.tags,t.saved.assignments⟩

def inspectIn (env : CodecEnv) (id : ℤ) : Work LibraryTables StorageError Inspection := fun t =>
  (inspect env id t.saved).map fun r => (r.1,{ t with saved := r.2 })

/-- A refusal that is committed as data. -/
inductive Observation (α : Type) where
  | ready (value : α)
  | needsAttention (inspection : Inspection)

/-- An opened Collection. -/
structure Evaluation where
  collection : Collection
  criteria : Query
  page : Page

/-- Open a Collection with the navigation of a request. -/
def evaluate (env : CodecEnv) (queries : QueryEnv) (id : ℤ) (request : QueryRequest)
    (locale : String) : Work LibraryTables StorageError (Observation Evaluation) := fun t => do
  let (inspection,t) ← inspectIn env id t
  if inspection.isOpenable=false then .ok (.needsAttention inspection,t)
  else match inspection.query with
    | none => .error .compatibilityInvariant
    | some criteria => do
      let page ← search queries t.storyTables { request with criteria := criteria } locale
      .ok (.ready ⟨inspection.collection,criteria,page⟩,t)

def listKey (c : Collection) : ℤ ×ₗ ℤ := toLex (c.position,c.id)

/-- The Collections by position and id. -/
def list (t : CollectionTables) : Except StorageError (List Collection) :=
  ((t.collections.insertionSort fun a b => listKey a≤listKey b).map (·.id)).mapM (read t)

/-- A Collection with the number of its stories. -/
structure Summary where
  inspection : Inspection
  count : ℤ

/-- Inspect a Collection and, when it can be opened, inspect it again and count its stories. -/
def summarize (env : CodecEnv) (queries : QueryEnv) (locale : String) (c : Collection) :
    Work LibraryTables StorageError Summary := fun t => do
  let (inspection,t) ← inspectIn env c.id t
  if inspection.isOpenable=true then do
    let (opened,t) ← inspectIn env c.id t
    match opened.query with
    | none => .error .compatibilityInvariant
    | some criteria => do
      let count ← count queries t.storyTables { criteria := criteria } locale
      .ok (⟨inspection,count⟩,t)
  else .ok (⟨inspection,0⟩,t)

def summaries (env : CodecEnv) (queries : QueryEnv) (locale : String) :
    Work LibraryTables StorageError (List Summary) := fun t => do
  let rows ← list t.saved
  (rows.mapM (summarize env queries locale)).run t

/-- A source of a Shelf with the stories it matches. -/
structure SourceState where
  definition : Option Collection
  uuids : List String
  warning : Option String

/-- A refusal that a review shows as a warning. -/
def domainAttention : StorageError → Bool
  | .collection .needsAttention | .collection .criteriaUnavailable | .collection .invalidQuery
  | .collectionNotFound | .queryInput .invalidQuery => true
  | _ => false

def pushUuid (uuids : List String) (story : ExportStory) : Except StorageError (List String) :=
  .ok (uuids++[story.uuid])

def sourceMatches (env : CodecEnv) (queries : QueryEnv) (t : LibraryTables) (id : ℤ)
    (locale : String) : Except StorageError (List String) := do
  let (_,criteria) ← source env t.saved id
  let (_,uuids) ← visitScope queries t.storyTables { criteria := criteria } locale pushUuid []
  return uuids

def sourceState (env : CodecEnv) (queries : QueryEnv) (t : LibraryTables) (id : ℤ)
    (locale : String) : Except StorageError SourceState := do
  let definition ← match read t.saved id with
    | .ok c => .ok (some c)
    | .error .collectionNotFound => .ok none
    | .error e => .error e
  match sourceMatches env queries t id locale with
  | .ok uuids => .ok ⟨definition,uuids,none⟩
  | .error e =>
    if domainAttention e=true then .ok ⟨definition,[],some "source_needs_attention"⟩
    else .error e

def exportCollection {σ : Type} (env : CodecEnv) (queries : QueryEnv) (id : ℤ) (locale : String)
    (consume : σ → ExportStory → Except StorageError σ) (state : σ) :
    Work LibraryTables StorageError (List UInt8×σ) := fun t => do
  let (inspection,t) ← inspectIn env id t
  match inspection.query with
  | none => .error (.scope .invalidScope)
  | some criteria =>
    if inspection.attention.isSome=true then .error (.scope .invalidScope)
    else do
      let (_,state) ← visitScope queries t.storyTables { criteria := criteria } locale consume state
      .ok ((inspection.collection.name,state),t)

/-- The stories of a Collection that can be opened, as its views see them. -/
structure SameStories (env : CodecEnv) (queries : QueryEnv) (t : LibraryTables) (id : ℤ)
    (locale : String) (c : Collection) (q : Query) (rows : List Listed) : Prop where
  /-- They are the listed stories on which the normalized criteria hold. -/
  matched : ∃ normal, normalizeRequest queries.toRuntimeEnv { criteria := q }=.ok normal ∧
    rows.Perm (matchingRows t.storyTables locale normal.criteria none)
  /-- Opening shows their pages, in the order of the request. -/
  opened : ∀ request x, normalizeNavigation request.page request.pageSize request.sort=.ok x →
    (evaluate env queries id request locale).run t=
      (search queries t.storyTables { request with criteria := q } locale).map
        (fun page => (.ready ⟨c,q,page⟩,t)) ∧
    ∃ rows', rows'.Perm rows ∧
      Partitioned queries t.storyTables { request with criteria := q } locale x.2.2 rows'
  /-- A source matches them. -/
  sourced : ∀ uuids, sourceMatches env queries t id locale=.ok uuids →
    uuids=rows.map (·.story.uuid) ∧
      sourceState env queries t id locale=.ok ⟨some c,uuids,none⟩
  exported : ∀ {σ : Type} (consume : σ → ExportStory → Except StorageError σ) (state : σ),
    (exportCollection env queries id locale consume state).run t=
      (rows.foldlM (visitRow queries t.storyTables locale consume) (0,state)).map fun r =>
        ((c.name,r.2),t)
  counted : ∀ summaries t', (CollectionViews.summaries env queries locale).run t=.ok
    (summaries,t') →
    ∀ s ∈ summaries, s.inspection.collection.id=id → s.count=rows.length

/-- The views of an inspected Collection agree. -/
structure Agreement (env : CodecEnv) (queries : QueryEnv) (t : LibraryTables) (id : ℤ)
    (inspection : Inspection) : Prop where
  /-- Inspecting it again returns the same and writes nothing. -/
  again : (inspectIn env id).run t=.ok (inspection,t)
  /-- Its summary shows the same inspection. -/
  summarized : ∀ locale summaries t',
    (CollectionViews.summaries env queries locale).run t=.ok (summaries,t') →
      (∃ s ∈ summaries, s.inspection.collection.id=id) ∧
        ∀ s ∈ summaries, s.inspection.collection.id=id → s.inspection=inspection
  /-- A Collection that cannot be opened is refused by every view. -/
  refused : inspection.isOpenable=false →
    source env t.saved id=.error (.collection .needsAttention) ∧
    (∀ locale, sourceState env queries t id locale=
      .ok ⟨some inspection.collection,[],some "source_needs_attention"⟩) ∧
    (∀ request locale, (evaluate env queries id request locale).run t=
      .ok (.needsAttention inspection,t)) ∧
    (∀ {σ : Type} (locale : String) (consume : σ → ExportStory → Except StorageError σ) (state : σ),
      (exportCollection env queries id locale consume state).run t=
        .error (.scope .invalidScope)) ∧
    ∀ locale summaries t',
      (CollectionViews.summaries env queries locale).run t=.ok (summaries,t') →
        ∀ s ∈ summaries, s.inspection.collection.id=id → s.count=0
  /-- A Collection that can be opened is a source with the same criteria, and all views see
  the same stories. -/
  opened : inspection.isOpenable=true → ∃ q, inspection.query=some q ∧ inspection.attention=none ∧
    source env t.saved id=.ok (inspection.collection,q) ∧
    ∀ locale, ∃ rows, SameStories env queries t id locale inspection.collection q rows

section Inspected

variable {env : CodecEnv} {queries : QueryEnv} {t t' : LibraryTables} {id : ℤ} {c : Collection}
  {found : Attention⊕Migrated}

theorem inspectIn_settled (hread : read t.saved id=.ok c) (h : Settled env t.saved c found) :
    (inspectIn env id).run t=.ok (viewed c found,t) := by
  have hagain := settled_again hread h
  change ((inspect env id).run t.saved).map _=_
  rw [hagain]
  rfl

theorem inspectIn_keeps {inspection : Inspection}
    (h : (inspectIn env id).run t=.ok (inspection,t')) :
    inspection.collection.id=id ∧ KeepsOthers id t.saved t'.saved ∧
      t'.storyTables=t.storyTables := by
  obtain ⟨⟨i,saved⟩,hi,he⟩ := exceptMap_ok.mp h
  cases he
  obtain ⟨hid,hkeeps⟩ := inspect_keeps hi
  refine ⟨hid,hkeeps,?_⟩
  rw [LibraryTables.storyTables,LibraryTables.storyTables,hkeeps.tags,hkeeps.assignments]

/-- A settled row that can be opened is a migrated one that is still valid. -/
theorem openable_iff : (viewed c found).isOpenable=true ↔
    c.validity=.valid ∧ ∃ m, found=.inr m := by
  rw [Inspection.isOpenable,Bool.and_eq_true,decide_eq_true_eq]
  cases found with
  | inl reason =>
    constructor
    · intro h
      cases h.2
    · intro ⟨_,m,h⟩
      cases h
  | inr m => exact ⟨fun h => ⟨h.1,m,rfl⟩,fun h => ⟨h.1,rfl⟩⟩

theorem needsAttention_of_refused (h : Settled env t.saved c found)
    (hrefused : (viewed c found).isOpenable=false) : c.validity=.needsAttention := by
  cases hv : c.validity with
  | needsAttention => rfl
  | valid =>
    cases found with
    | inl reason =>
      have hmarked := h.2
      rw [hv] at hmarked
      cases hmarked
    | inr m =>
      have hopen := openable_iff.mpr ⟨hv,m,rfl⟩
      rw [hrefused] at hopen
      cases hopen

theorem source_needsAttention (hread : read t.saved id=.ok c)
    (hmarked : c.validity=.needsAttention) :
    source env t.saved id=.error (.collection .needsAttention) := by
  have hinvalid : c.validity≠.valid := by
    rw [hmarked]
    exact nofun
  rw [source,bind_of_ok hread,if_pos hinvalid]

theorem source_migrated {m : Migrated} (hread : read t.saved id=.ok c)
    (h : Settled env t.saved c (.inr m)) (hvalid : c.validity=.valid) :
    source env t.saved id=.ok (c,m.query) := by
  obtain ⟨b,-,hdecode,havailable,-⟩ := examine_migrated h.1
  have hstored : decode env c.queryVersion c.queryPayload t.saved.legacyId=.ok m.query := by
    rw [h.2.1,h.2.2]
    rw [decode,funext (retire_current _)] at hdecode ⊢
    exact hdecode
  have hmapped : (decode env c.queryVersion c.queryPayload t.saved.legacyId).mapError codec=
      .ok m.query := by
    rw [hstored]
    rfl
  rw [source,bind_of_ok hread,if_neg (not_not.mpr hvalid),bind_of_ok hmapped,
    if_neg (by rw [havailable]; intro he; cases he)]
  rfl

theorem acceptable_of_returned {normal : NormalEnv} {runtime : RuntimeEnv}
    (hshared : Shared normal runtime) {a b : Query} (h : Returned normal a b) {left : ℕ}
    (hleft : SavedQuery.validateReferences b maxNodes true=.ok left) :
    ∀ own ∈ members a, Acceptable runtime own := by
  intro own hown
  obtain ⟨hlanguages,hlimits⟩ := h.members own hown
  obtain ⟨name,hname,hshort⟩ := names_of_renames a passes_pos h.renames own hown
  have hwellFormed : WellFormed own true := by
    obtain ⟨o,ho,name,rfl⟩ := (members_renames b h.back).2 own hown
    have hvalid := ((validateReferences_ok b maxNodes left true).mp hleft).2 o ho
    exact ⟨hvalid.retired,hvalid.booleans,hvalid.choices,hvalid.distinct⟩
  have hdecided : ∀ f ∈ own.booleanFilters, f.state≠"ignored" := by
    rw [← h.canonical,members_canonical] at hown
    obtain ⟨o,-,rfl⟩ := List.mem_map.mp hown
    intro f hf
    rw [← dropIgnored_canonicalOwn] at hf
    exact of_decide_eq_true (List.mem_filter.mp hf).2
  refine ⟨⟨name,hshared.names _ _ hname,hshort⟩,?_,hlimits,hwellFormed,hdecided⟩
  intro language hlanguage
  rw [hshared.languages]
  exact hlanguages language hlanguage

end Inspected

section Summaries

variable {env : CodecEnv} {queries : QueryEnv} {t t' : LibraryTables} {id : ℤ} {locale : String}
  {c row : Collection} {found : Attention⊕Migrated}

/-- The number that a summary shows for an inspection. -/
structure Counted (queries : QueryEnv) (t : StoryTables) (locale : String)
    (inspection : Inspection) (n : ℤ) : Prop where
  /-- The stories of a Collection that can be opened. -/
  opened : inspection.isOpenable=true → ∃ q, inspection.query=some q ∧
    count queries t { criteria := q } locale=.ok n
  /-- Zero for one that cannot. -/
  refused : inspection.isOpenable=false → n=0

theorem summarize_keeps {summary : Summary}
    (h : (summarize env queries locale row).run t=.ok (summary,t')) :
    summary.inspection.collection.id=row.id ∧ KeepsOthers row.id t.saved t'.saved ∧
      t'.storyTables=t.storyTables := by
  change summarize env queries locale row t=_ at h
  unfold summarize at h
  obtain ⟨⟨inspection,t₁⟩,hfirst,h⟩ := exceptBind_ok.mp h
  obtain ⟨hid,hkeeps,hstories⟩ := inspectIn_keeps hfirst
  dsimp only at h
  by_cases hopen : inspection.isOpenable=true
  · rw [if_pos hopen] at h
    obtain ⟨⟨opened,t₂⟩,hsecond,h⟩ := exceptBind_ok.mp h
    obtain ⟨-,hkeeps',hstories'⟩ := inspectIn_keeps hsecond
    dsimp only at h
    cases hquery : opened.query with
    | none =>
      rw [hquery] at h
      cases h
    | some q =>
      rw [hquery] at h
      obtain ⟨n,-,h⟩ := exceptBind_ok.mp h
      cases h
      exact ⟨hid,hkeeps.trans hkeeps',hstories'.trans hstories⟩
  · rw [if_neg hopen] at h
    cases h
    exact ⟨hid,hkeeps,hstories⟩

theorem summarize_settled {summary : Summary} (hread : read t.saved row.id=.ok c)
    (hset : Settled env t.saved c found)
    (h : (summarize env queries locale row).run t=.ok (summary,t')) :
    t'=t ∧ summary.inspection=viewed c found ∧
      Counted queries t.storyTables locale (viewed c found) summary.count := by
  have hagain : inspectIn env row.id t=.ok (viewed c found,t) := inspectIn_settled hread hset
  change summarize env queries locale row t=_ at h
  unfold summarize at h
  rw [bind_of_ok hagain] at h
  dsimp only at h
  by_cases hopen : (viewed c found).isOpenable=true
  · rw [if_pos hopen,bind_of_ok hagain] at h
    dsimp only at h
    cases hquery : (viewed c found).query with
    | none =>
      rw [hquery] at h
      cases h
    | some q =>
      rw [hquery] at h
      obtain ⟨n,hn,h⟩ := exceptBind_ok.mp h
      cases h
      refine ⟨rfl,rfl,fun _ => ⟨q,hquery,hn⟩,?_⟩
      intro hrefused
      rw [hopen] at hrefused
      cases hrefused
  · rw [if_neg hopen] at h
    cases h
    exact ⟨rfl,rfl,fun hopened => absurd hopened hopen,fun _ => rfl⟩

theorem summaries_settled {rows : List Collection} {shown : List Summary}
    (h : (rows.mapM (summarize env queries locale)).run t=.ok (shown,t'))
    (hread : read t.saved id=.ok c) (hset : Settled env t.saved c found) :
    shown.map (·.inspection.collection.id)=rows.map (·.id) ∧
      ∀ s ∈ shown, s.inspection.collection.id=id → s.inspection=viewed c found ∧
        Counted queries t.storyTables locale (viewed c found) s.count := by
  induction rows generalizing t shown with
  | nil =>
    rw [List.mapM_nil] at h
    obtain ⟨rfl,-⟩ := pure_ok.mp h
    exact ⟨rfl,List.forall_mem_nil _⟩
  | cons row rows ih =>
    rw [List.mapM_cons] at h
    obtain ⟨first,t₁,hfirst,h⟩ := bind_ok.mp h
    obtain ⟨rest,t₂,hrest,h⟩ := bind_ok.mp h
    obtain ⟨rfl,rfl⟩ := pure_ok.mp h
    obtain ⟨hid,hkeeps,hstories⟩ := summarize_keeps hfirst
    by_cases hrow : row.id=id
    · rw [← hrow] at hread
      obtain ⟨rfl,hinspection,hcounted⟩ := summarize_settled hread hset hfirst
      rw [hrow] at hread
      obtain ⟨hids,hshown⟩ := ih hrest hread hset
      refine ⟨by rw [List.map_cons,List.map_cons,hids,hid],?_⟩
      rw [List.forall_mem_cons]
      exact ⟨fun _ => ⟨hinspection,hcounted⟩,hshown⟩
    · have hread' : read t₁.saved id=.ok c := by
        rw [hkeeps.others id (Ne.symm hrow)]
        exact hread
      obtain ⟨hids,hshown⟩ := ih hrest hread' (hset.congr hkeeps.tags hkeeps.legacy)
      refine ⟨by rw [List.map_cons,List.map_cons,hids,hid],?_⟩
      rw [List.forall_mem_cons,← hstories]
      exact ⟨fun hsame => absurd (hid.symm.trans hsame) hrow,hshown⟩

theorem mem_list {saved : CollectionTables} {rows : List Collection} (h : list saved=.ok rows)
    (hread : read saved id=.ok c) : id ∈ rows.map (·.id) := by
  have hstored := lookup_mem (read_ok.mp hread)
  have hids : (saved.collections.insertionSort fun a b => listKey a≤listKey b).map (·.id)=
      rows.map (·.id) := by
    rw [← List.forall₂_eq_eq_eq,List.forall₂_map_right_iff]
    exact (mapM_pairs h).imp fun _ _ hrow => (read_id hrow).symm
  rw [← hids,← hstored.2]
  exact List.mem_map_of_mem ((List.mem_insertionSort _).mpr hstored.1)

theorem summaries_shown {shown : List Summary}
    (h : (summaries env queries locale).run t=.ok (shown,t')) (hread : read t.saved id=.ok c)
    (hset : Settled env t.saved c found) :
    (∃ s ∈ shown, s.inspection.collection.id=id) ∧
      ∀ s ∈ shown, s.inspection.collection.id=id → s.inspection=viewed c found ∧
        Counted queries t.storyTables locale (viewed c found) s.count := by
  change summaries env queries locale t=_ at h
  unfold summaries at h
  obtain ⟨rows,hrows,h⟩ := exceptBind_ok.mp h
  obtain ⟨hids,hshown⟩ := summaries_settled h hread hset
  have hmem := mem_list hrows hread
  rw [← hids] at hmem
  obtain ⟨s,hs,hid⟩ := List.mem_map.mp hmem
  exact ⟨⟨s,hs,hid⟩,hshown⟩

end Summaries

section Stories

variable {env : CodecEnv} {queries : QueryEnv} {t : LibraryTables} {id : ℤ} {locale : String}
  {c : Collection} {m : Migrated} {normal : QueryRequest} {sql : List Fragment} {args : List Value}

theorem sourceMatches_ok (ht : Keyed t.storyTables)
    (hsource : source env t.saved id=.ok (c,m.query))
    (h : matching queries.toRuntimeEnv t.storyTables { criteria := m.query } locale=
      .ok (normal,sql,args)) {uuids : List String}
    (hmatches : sourceMatches env queries t id locale=.ok uuids) :
    uuids=(orderedStories t.storyTables locale normal).map (·.story.uuid) := by
  unfold sourceMatches at hmatches
  rw [bind_of_ok hsource] at hmatches
  obtain ⟨⟨n,kept⟩,hvisited,hmatches⟩ := exceptBind_ok.mp hmatches
  cases hmatches
  rw [visitScope_eq ht h] at hvisited
  obtain ⟨items,hrows,-,-,hkept⟩ := @collected queries t.storyTables locale _
    (·.uuid) _ _ _ hvisited
  rw [List.nil_append] at hkept
  rw [← hrows,List.map_map]
  exact hkept

/-- Every view refuses a settled row that cannot be opened. -/
theorem views_refuse {found : Attention⊕Migrated} (hread : read t.saved id=.ok c)
    (hset : Settled env t.saved c found) (hrefused : (viewed c found).isOpenable=false) :
    source env t.saved id=.error (.collection .needsAttention) ∧
    (∀ locale, sourceState env queries t id locale=
      .ok ⟨some (viewed c found).collection,[],some "source_needs_attention"⟩) ∧
    (∀ request locale, (evaluate env queries id request locale).run t=
      .ok (.needsAttention (viewed c found),t)) ∧
    (∀ {σ : Type} (locale : String) (consume : σ → ExportStory → Except StorageError σ) (state : σ),
      (exportCollection env queries id locale consume state).run t=
        .error (.scope .invalidScope)) ∧
    ∀ locale shown t', (summaries env queries locale).run t=.ok (shown,t') →
      ∀ s ∈ shown, s.inspection.collection.id=id → s.count=0 := by
  have hmarked := needsAttention_of_refused hset hrefused
  have hsource := @source_needsAttention env t id c hread hmarked
  have hagain : inspectIn env id t=.ok (viewed c found,t) := inspectIn_settled hread hset
  have hrow : (viewed c found).collection=c := by
    cases found <;> rfl
  refine ⟨hsource,?_,?_,?_,?_⟩
  · intro locale
    have hmatches : sourceMatches env queries t id locale=.error (.collection .needsAttention) := by
      rw [sourceMatches,hsource]
      rfl
    rw [sourceState,hread,hmatches,hrow]
    rfl
  · intro request locale
    change evaluate env queries id request locale t=_
    rw [evaluate,bind_of_ok hagain]
    dsimp only
    rw [if_pos hrefused]
  · intro σ locale consume state
    change exportCollection env queries id locale consume state t=_
    rw [exportCollection,bind_of_ok hagain]
    cases found with
    | inl reason => rfl
    | inr m =>
      have hattention : (viewed c (.inr m)).attention.isSome=true := by
        change (if c.validity=.needsAttention then some Attention.missingCriteria
          else none).isSome=true
        rw [if_pos hmarked]
        rfl
      change (if (viewed c (.inr m)).attention.isSome=true then _ else _ : Except StorageError _)=_
      rw [if_pos hattention]
  · intro locale shown t' hshown s hs hid
    exact ((summaries_shown hshown hread hset).2 s hs hid).2.refused hrefused

theorem sameStories (ht : Keyed t.storyTables) (hread : read t.saved id=.ok c)
    (hset : Settled env t.saved c (.inr m)) (hvalid : c.validity=.valid)
    (h : matching queries.toRuntimeEnv t.storyTables { criteria := m.query } locale=
      .ok (normal,sql,args)) :
    SameStories env queries t id locale c m.query (orderedStories t.storyTables locale normal) := by
  have hagain : inspectIn env id t=.ok (viewed c (.inr m),t) := inspectIn_settled hread hset
  have hopen : (viewed c (.inr m)).isOpenable=true := openable_iff.mpr ⟨hvalid,m,rfl⟩
  have hattention : ¬(viewed c (.inr m)).attention.isSome=true := by
    change ¬(if c.validity=.needsAttention then some Attention.missingCriteria else
      none).isSome=true
    rw [hvalid]
    exact nofun
  have hsource := source_migrated hread hset hvalid
  constructor
  · exact ⟨normal,(matching_ok h).1,orderedStories_perm⟩
  · intro request x hx
    have hmatching := matching_navigation h hx
    constructor
    · change evaluate env queries id request locale t=_
      unfold evaluate
      rw [bind_of_ok hagain]
      dsimp only
      rw [if_neg (by rw [hopen]; exact nofun)]
      change (search queries t.storyTables { request with criteria := m.query } locale >>= _)=_
      cases search queries t.storyTables { request with criteria := m.query } locale with
      | error e => rfl
      | ok page => rfl
    · refine ⟨orderedStories t.storyTables locale ⟨normal.criteria,x.1,x.2.1,x.2.2⟩,?_,
        orderedStories_partitioned ht hmatching⟩
      have hperm : (orderedStories t.storyTables locale normal).Perm
          (matchingRows t.storyTables locale normal.criteria none) := orderedStories_perm
      exact orderedStories_perm.trans hperm.symm
  · intro uuids hmatches
    refine ⟨sourceMatches_ok ht hsource h hmatches,?_⟩
    unfold sourceState
    rw [hread,hmatches]
    rfl
  · intro σ consume state
    change exportCollection env queries id locale consume state t=_
    unfold exportCollection
    rw [bind_of_ok hagain]
    change (if (viewed c (.inr m)).attention.isSome=true then _ else _ : Except StorageError _)=_
    rw [if_neg hattention,visitScope_eq ht h]
    cases (orderedStories t.storyTables locale normal).foldlM
        (visitRow queries t.storyTables locale consume) (0,state) with
    | error e => rfl
    | ok visited => rfl
  · intro shown t' hshown s hs hid
    obtain ⟨-,hcounted⟩ := (summaries_shown hshown hread hset).2 s hs hid
    obtain ⟨q,hq,hcount⟩ := hcounted.opened hopen
    cases hq
    rw [count_eq ht h] at hcount
    exact (Except.ok.inj hcount).symm

end Stories

/-- A library with one story and the Collections of two tags. -/
def taggedLibrary : LibraryTables :=
  ⟨TagDeletion.twoTags,oneStory.stories,oneStory.archives,oneStory.catalog⟩

/-- What an inspection finds in the Collection of the first tag. -/
def taggedQuery : Migrated :=
  ⟨TagDeletion.taggedText one,TagDeletion.taggedText one,TagDeletion.tagged one⟩

theorem settled_tagged : Settled plainEnv taggedLibrary.saved (TagDeletion.taggedCollection 1 one)
    (.inr taggedQuery) := by
  have hpayload := TagDeletion.queryPayload_tagged 1 one
  have hdecode := TagDeletion.decode_tagged one (.inl rfl)
  have hmigrate : ∀ legacyId, migrate plainEnv currentVersion
      (TagDeletion.taggedCollection 1 one).queryPayload legacyId=
        .ok (TagDeletion.taggedText one,TagDeletion.tagged one) := by
    intro legacyId
    rw [migrate,bind_of_ok (hdecode legacyId),
      bind_of_ok (TagDeletion.canonicalSaved_tagged one (.inl rfl)),
      bind_of_ok (TagDeletion.validateReferences_tagged one (.inl rfl)),
      bind_of_ok (TagDeletion.payload_tagged one (.inl rfl))]
    rfl
  refine ⟨?_,rfl,hpayload⟩
  unfold examine
  have hversion : (TagDeletion.taggedCollection 1 one).queryVersion=currentVersion := rfl
  rw [hversion,hmigrate]
  dsimp only
  rw [← hpayload,hdecode]
  dsimp only
  rw [if_neg (by decide),TagDeletion.payload_tagged one (.inl rfl)]
  rfl

end Librairii.CollectionViews
