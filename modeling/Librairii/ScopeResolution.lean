import Librairii.ExportStarts
import Librairii.KeyedOccurrences

/-!
# What a resolved scope holds

Each source of a scope has results: a query its matching stories, a selection the stories of
its ids, a Shelf its approved members. The resolved stories are the first occurrences of the
results of all sources by uuid, and the overlap counts the others.
-/

namespace Librairii.ScopeResolution

open CheckedResults RowTables QueryRequests CollectionInspection CollectionViews StoryRows
  StoryPages QueryCompilation ExportScopes KeyedOccurrences
open StoryQueries hiding validateReferences validateBranches
open SavedQuery hiding validateReferences validateBranches
open WireParser hiding members

/-- The keys of the stored tables that resolution relies on. -/
structure Stored (l : ExportScopes.Library) : Prop where
  /-- Stories and archives are stored under their keys. -/
  keyed : Keyed l.tables.storyTables
  uuids : (l.tables.stories.map (·.uuid)).Nodup
  /-- A Shelf approves a uuid once. -/
  members : (l.shelfStories.map fun m => (m.shelfId,m.storyUuid)).Nodup

section Results

variable (env : ScopeEnv) (l : ExportScopes.Library) (locale : String)

def Shown (row : Listed) (s : ExportStory) : Prop :=
  ∃ display, summary env.queries l.tables.storyTables (Record.read row) locale=.ok display ∧
    s=exportStory (Record.read row) display

/-- The stories that match a request, in its order. -/
structure Matched (request normal : QueryRequest) (stories : List ExportStory) : Prop where
  normalized : normalizeRequest env.queries.toRuntimeEnv request=.ok normal
  shown : List.Forall₂ (Shown env l locale)
    (orderedStories l.tables.storyTables locale normal) stories

/-- What a member of a Shelf contributes: its matching story, else an unavailable one unless the
query filters, and nothing when it is not selected. -/
def memberResult (filtered : Bool) (selected : Option (List String))
    (stories : List ExportStory) (m : MemberRow) : List ExportStory :=
  if selected.all (m.storyUuid ∈ ·)=true then
    match stories.find? fun s => s.uuid=m.storyUuid with
    | some story => [story]
    | none => if filtered then [] else [unavailable m.storyUuid m.cachedTitle]
  else []

/-- The results of a Shelf: those of its members in their order. Whatever is selected is a
member. -/
structure Curated (id : GroupId) (query : Option QueryRequest) (selected : Option (List String))
    (normal : QueryRequest) (stories results : List ExportStory) : Prop where
  matched : Matched env l locale (query.getD {}) normal stories
  /-- The members contribute in their order. -/
  results : results=(members l id.val).flatMap
    (memberResult (filters normal.criteria) selected stories)
  selected : ∀ uuids, selected=some uuids →
    uuids≠[] ∧ ∀ uuid ∈ uuids, uuid ∈ (members l id.val).map (·.storyUuid)

/-- The results of a Collection: the stories that match its query, which needs no attention. -/
def CollectionResult (id : ℤ) (results : List ExportStory) : Prop :=
  ∃ inspection t q normal, (inspectIn env.codec id).run l.tables=.ok (inspection,t) ∧
    inspection.query=some q ∧ inspection.attention=none ∧
      Matched env l locale { criteria := q } normal results

def SourceResults : Scope → List (List ExportStory) → Prop
  | .currentQuery request,sources =>
    ∃ normal stories, Matched env l locale request normal stories ∧ sources=[stories]
  | .selection ids,sources => ∃ normal stories chosen, Matched env l locale {} normal stories ∧
      List.Forall₂ (fun id s => s ∈ stories ∧ s.id=id) (firstBy id ids) chosen ∧ sources=[chosen]
  | .collections ids,sources =>
    List.Forall₂ (CollectionResult env l locale) (ids.map (·.val)) sources
  | .shelves ids,sources => List.Forall₂ (fun id results =>
      ∃ normal stories, Curated env l locale id none none normal stories results) ids sources
  | .shelfResult shelf request,sources => ∃ normal stories results,
      Curated env l locale shelf (some request) none normal stories results ∧ sources=[results]
  | .shelfSelection shelf uuids,sources => ∃ normal stories results,
      Curated env l locale shelf none (some uuids) normal stories results ∧ sources=[results]

variable {env l locale}

/-- Rows that collapse a list of results. -/
structure Collapsed (results : List ExportStory) (rows : Rows) : Prop where
  /-- The first occurrences are kept. -/
  stories : rows.stories=firstBy (·.uuid) results
  /-- The others are counted. -/
  overlap : rows.overlap+rows.stories.length=results.length

variable {results : List ExportStory} {alloc : Allocation} {rows' rows : Rows} {s : ExportStory}

theorem Collapsed.append (hc : Collapsed results rows) (h : rows.append alloc s=.ok rows') :
    Collapsed (results++[s]) rows' := by
  have hseen : rows.stories.any (·.uuid=s.uuid)=true ↔
      s.uuid ∈ (firstBy (fun s : ExportStory => s.uuid) results).map (·.uuid) := by
    rw [←hc.stories,List.any_eq_true,List.mem_map]
    simp only [decide_eq_true_eq]
  have hlength := hc.overlap
  unfold Rows.append at h
  by_cases hs : rows.stories.any (·.uuid=s.uuid)=true
  · rw [if_pos hs] at h
    cases h
    constructor
    · rw [firstBy_concat,if_pos (hseen.mp hs)]
      exact hc.stories
    · rw [List.length_append,List.length_singleton,←hlength]
      dsimp only
      omega
  · rw [if_neg hs] at h
    obtain ⟨hlarge,h⟩ := checked_ok.mp h
    cases h
    constructor
    · rw [firstBy_concat,if_neg (fun hm => hs (hseen.mpr hm)),←hc.stories]
    · simp only [List.length_append,List.length_singleton]
      omega

theorem Collapsed.fold (stories : List ExportStory) (hc : Collapsed results rows)
    (h : stories.foldlM (Rows.append alloc) rows=.ok rows') :
    Collapsed (results++stories) rows' := by
  induction stories generalizing results rows with
  | nil =>
    cases h
    rw [List.append_nil]
    exact hc
  | cons s stories ih =>
    rw [List.foldlM_cons] at h
    obtain ⟨next,hnext,h⟩ := exceptBind_ok.mp h
    have hall := ih (hc.append hnext) h
    rwa [List.append_assoc] at hall

theorem visited_shown {σ : Type} {consume : σ → ExportStory → Except StorageError σ}
    {rows : List Listed} {visited visited' : ℕ×σ}
    (h : rows.foldlM (visitRow env.queries l.tables.storyTables locale consume) visited=
      .ok visited') :
    ∃ stories, List.Forall₂ (Shown env l locale) rows stories ∧
      stories.foldlM consume visited.2=.ok visited'.2 := by
  induction rows generalizing visited with
  | nil =>
    cases h
    exact ⟨[],.nil,rfl⟩
  | cons row rows ih =>
    rw [List.foldlM_cons] at h
    obtain ⟨next,hnext,h⟩ := exceptBind_ok.mp h
    unfold visitRow at hnext
    obtain ⟨display,hdisplay,hnext⟩ := exceptBind_ok.mp hnext
    obtain ⟨state,hstate,hnext⟩ := exceptBind_ok.mp hnext
    obtain ⟨hfull,hnext⟩ := checked_ok.mp hnext
    cases hnext
    obtain ⟨stories,hstories,hfold⟩ := ih h
    refine ⟨_::stories,.cons ⟨display,hdisplay,rfl⟩ hstories,?_⟩
    rw [List.foldlM_cons,bind_of_ok hstate]
    exact hfold

variable {request : QueryRequest}

theorem visitScope_matched (ht : Keyed l.tables.storyTables) {σ : Type}
    {consume : σ → ExportStory → Except StorageError σ} {state state' : σ} {visited : ℕ}
    (h : visitScope env.queries l.tables.storyTables request locale consume state=
      .ok (visited,state')) :
    ∃ normal stories, Matched env l locale request normal stories ∧
      stories.foldlM consume state=.ok state' := by
  cases hm : matching env.queries.toRuntimeEnv l.tables.storyTables request locale with
  | error e =>
    unfold visitScope at h
    rw [hm] at h
    cases h
  | ok found =>
    obtain ⟨normal,sql,args⟩ := found
    rw [visitScope_eq ht hm] at h
    obtain ⟨stories,hstories,hfold⟩ := visited_shown h
    exact ⟨normal,stories,⟨(matching_ok hm).1,hstories⟩,hfold⟩

variable {stories : List ExportStory}

theorem shown_uuids {rows : List Listed} (h : List.Forall₂ (Shown env l locale) rows stories) :
    stories.map (·.uuid)=rows.map fun row => row.story.uuid := by
  induction h with
  | nil => rfl
  | cons hfirst hrest ih =>
    obtain ⟨display,-,rfl⟩ := hfirst
    rw [List.map_cons,List.map_cons,ih]
    rfl

theorem shown_ids {rows : List Listed} (h : List.Forall₂ (Shown env l locale) rows stories) :
    stories.map (·.id)=rows.map fun row => row.story.id := by
  induction h with
  | nil => rfl
  | cons hfirst hrest ih =>
    obtain ⟨display,-,rfl⟩ := hfirst
    rw [List.map_cons,List.map_cons,ih]
    rfl

theorem Matched.ids (hl : Stored l) {request normal : QueryRequest} {stories : List ExportStory}
    (h : Matched env l locale request normal stories) : (stories.map (·.id)).Nodup := by
  rw [shown_ids h.shown,(orderedStories_perm.map _).nodup_iff]
  exact (listed_ids_nodup hl.keyed).sublist (List.filter_sublist.map _)

theorem Matched.uuids (hl : Stored l) {request normal : QueryRequest} {stories : List ExportStory}
    (h : Matched env l locale request normal stories) : (stories.map (·.uuid)).Nodup := by
  have hsame := shown_uuids h.shown
  have hids : (matchingRows l.tables.storyTables locale normal.criteria none).Nodup :=
    List.Nodup.filter _ (List.Nodup.of_map _ (listed_ids_nodup hl.keyed))
  rw [hsame,(orderedStories_perm.map _).nodup_iff]
  refine List.Nodup.map_on (fun a ha b hb he => ?_) hids
  have ha := List.mem_of_mem_filter ha
  have hb := List.mem_of_mem_filter hb
  have hstory : a.story=b.story :=
    List.inj_on_of_nodup_map hl.uuids (mem_listed.mp ha).1 (mem_listed.mp hb).1 he
  exact listed_eq_of_id hl.keyed ha hb (congrArg (·.id) hstory)

theorem Matched.mem {normal : QueryRequest} (h : Matched env l locale request normal stories)
    (hs : s ∈ stories) :
    ∃ row ∈ matchingRows l.tables.storyTables locale normal.criteria none,
      Shown env l locale row s := by
  obtain ⟨row,hrow,hshown⟩ := forall₂_left h.shown.flip s hs
  exact ⟨row,orderedStories_perm.mem_iff.mp hrow,hshown⟩

theorem Matched.shows {normal : QueryRequest} (h : Matched env l locale request normal stories)
    {row : Listed} (hrow : row ∈ matchingRows l.tables.storyTables locale normal.criteria none) :
    ∃ s ∈ stories, Shown env l locale row s :=
  forall₂_left h.shown row (orderedStories_perm.mem_iff.mpr hrow)

theorem collectFound_mem {κ : Type} [DecidableEq κ] {key : ExportStory → κ} {wanted : List κ}
    (stories : List ExportStory) {found found' : Found}
    (hkeys : (stories.map key).Nodup) (hnew : ∀ s ∈ found.stories, key s ∉ stories.map key)
    (h : stories.foldlM (collectFound alloc key wanted) found=.ok found') :
    s ∈ found'.stories ↔ s ∈ found.stories ∨ s ∈ stories ∧ key s ∈ wanted := by
  induction stories generalizing found with
  | nil =>
    cases h
    simp only [List.not_mem_nil,false_and,or_false]
  | cons first stories ih =>
    rw [List.map_cons,List.nodup_cons] at hkeys
    rw [List.foldlM_cons] at h
    obtain ⟨next,hnext,h⟩ := exceptBind_ok.mp h
    have hold : ∀ s ∈ found.stories, key s≠key first ∧ key s ∉ stories.map key := by
      intro s hs
      have hs := hnew s hs
      rw [List.map_cons,List.mem_cons,not_or] at hs
      exact hs
    unfold collectFound at hnext
    by_cases hwanted : key first ∈ wanted
    · rw [if_pos hwanted] at hnext
      obtain ⟨hlarge,hnext⟩ := checked_ok.mp hnext
      have hfilter : (found.stories.filter fun s => key s≠key first)=found.stories :=
        List.filter_eq_self.mpr fun s hs => decide_eq_true (hold s hs).1
      rw [hfilter] at hnext
      cases hnext
      have hnext : ∀ s ∈ first::found.stories, key s ∉ stories.map key :=
        List.forall_mem_cons.mpr ⟨hkeys.1,fun s hs => (hold s hs).2⟩
      rw [ih hkeys.2 hnext h,List.mem_cons,List.mem_cons]
      constructor
      · rintro ((rfl | hs) | hs)
        · exact .inr ⟨.inl rfl,hwanted⟩
        · exact .inl hs
        · exact .inr ⟨.inr hs.1,hs.2⟩
      · rintro (hs | ⟨rfl | hs,hw⟩)
        · exact .inl (.inr hs)
        · exact .inl (.inl rfl)
        · exact .inr ⟨hs,hw⟩
    · rw [if_neg hwanted] at hnext
      cases hnext
      rw [ih hkeys.2 (fun s hs => (hold s hs).2) h,List.mem_cons]
      constructor
      · rintro (hs | hs)
        · exact .inl hs
        · exact .inr ⟨.inr hs.1,hs.2⟩
      · rintro (hs | ⟨rfl | hs,hw⟩)
        · exact .inl hs
        · exact absurd hw hwanted
        · exact .inr ⟨hs,hw⟩

theorem firstIds_eq (ids : List ℤ) : firstIds ids=firstBy id ids := by
  induction ids using List.reverseRecOn with
  | nil => rfl
  | append_singleton ids i ih =>
    rw [firstBy_concat,List.map_id,←ih,firstIds,List.foldl_append]
    rfl

theorem selectStories_results (ids : List ℤ) {found : List ExportStory} (hids : ids.Nodup)
    (hfound : ∀ s ∈ found, s ∈ stories) (hc : Collapsed results rows)
    (h : selectStories alloc found ids rows=.ok rows') :
    ∃ chosen, List.Forall₂ (fun id s => s ∈ stories ∧ s.id=id) ids chosen ∧
      Collapsed (results++chosen) rows' := by
  induction ids generalizing found results rows with
  | nil =>
    cases h
    exact ⟨[],.nil,by rwa [List.append_nil]⟩
  | cons id ids ih =>
    unfold selectStories at h
    cases hf : found.find? (·.id=id) with
    | none =>
      rw [hf] at h
      cases h
    | some story =>
      rw [hf] at h
      obtain ⟨next,hnext,h⟩ := exceptBind_ok.mp h
      have hstory := hfound story (List.mem_of_find?_eq_some hf)
      have hid : story.id=id := by simpa using List.find?_some hf
      obtain ⟨chosen,hchosen,hall⟩ := ih hids.of_cons
        (fun s hs => hfound s (List.mem_of_mem_filter hs)) (hc.append hnext) h
      refine ⟨story::chosen,.cons ⟨hstory,hid⟩ hchosen,?_⟩
      rwa [List.append_assoc] at hall

variable {filtered : Bool} {c' c : Curation}

theorem takeMember_result {m : MemberRow} (hkeys : (stories.map (·.uuid)).Nodup)
    (havailable : ∀ s : ExportStory, s.uuid=m.storyUuid → (s ∈ c.available ↔ s ∈ stories))
    (hc : Collapsed results c.rows) (h : takeMember alloc filtered c m=.ok c') :
    Collapsed (results++memberResult filtered none stories m) c'.rows ∧ c'.wanted=c.wanted ∧
      ∀ s : ExportStory, s.uuid≠m.storyUuid → (s ∈ c'.available ↔ s ∈ c.available) := by
  have hfind := find_key hkeys havailable
  have hresult : memberResult filtered none stories m=
      match c.available.find? fun s => s.uuid=m.storyUuid with
      | some story => [story]
      | none => if filtered then [] else [unavailable m.storyUuid m.cachedTitle] := by
    rw [memberResult,hfind]
    rfl
  unfold takeMember at h
  cases hf : c.available.find? fun s => s.uuid=m.storyUuid with
  | some story =>
    rw [hf] at h hresult
    obtain ⟨rows,hrows,h⟩ := exceptBind_ok.mp h
    cases h
    rw [hresult]
    refine ⟨hc.append hrows,rfl,fun s hs => ?_⟩
    exact ⟨List.mem_of_mem_filter,fun hm => List.mem_filter.mpr ⟨hm,decide_eq_true hs⟩⟩
  | none =>
    rw [hf] at h hresult
    rw [hresult]
    cases filtered with
    | true =>
      cases h
      exact ⟨by rwa [if_pos rfl,List.append_nil],rfl,fun _ _ => Iff.rfl⟩
    | false =>
      obtain ⟨rows,hrows,h⟩ := exceptBind_ok.mp h
      cases h
      exact ⟨hc.append hrows,rfl,fun _ _ => Iff.rfl⟩

theorem memberResult_some (filtered : Bool) (wanted : List String) (stories : List ExportStory)
    (m : MemberRow) : memberResult filtered (some wanted) stories m=
      if m.storyUuid ∈ wanted then memberResult filtered none stories m else [] := by
  unfold memberResult
  simp only [Option.all_some,Option.all_none,decide_eq_true_eq,if_true]

theorem visitMember_result {m : MemberRow} (hkeys : (stories.map (·.uuid)).Nodup)
    (havailable : ∀ s : ExportStory, s.uuid=m.storyUuid → (s ∈ c.available ↔ s ∈ stories))
    (hc : Collapsed results c.rows) (h : visitMember alloc filtered c m=.ok c') :
    Collapsed (results++memberResult filtered c.wanted stories m) c'.rows ∧
      c'.wanted=c.wanted.map (·.filter (·≠m.storyUuid)) ∧
      ∀ s : ExportStory, s.uuid≠m.storyUuid → (s ∈ c'.available ↔ s ∈ c.available) := by
  unfold visitMember at h
  cases hw : c.wanted with
  | none =>
    rw [hw] at h
    obtain ⟨hrows,hwanted,hothers⟩ := takeMember_result hkeys havailable hc h
    exact ⟨hrows,hwanted.trans hw,hothers⟩
  | some wanted =>
    rw [hw] at h
    dsimp only at h
    by_cases hmem : m.storyUuid ∈ wanted
    · rw [if_pos hmem] at h
      have htaken := takeMember_result (c:={ c with wanted := some (wanted.filter
        (·≠m.storyUuid)) })
        hkeys havailable hc h
      rw [memberResult_some,if_pos hmem]
      exact htaken
    · rw [if_neg hmem] at h
      cases h
      have hkept : wanted.filter (·≠m.storyUuid)=wanted :=
        List.filter_eq_self.mpr fun uuid huuid => decide_eq_true fun he => hmem (he ▸ huuid)
      rw [memberResult_some,if_neg hmem,List.append_nil,Option.map_some,hkept]
      exact ⟨hc,hw,fun _ _ => Iff.rfl⟩

/-- What visiting members one after the other approves, and which selected uuids are left. -/
theorem visitMembers_results (ms : List MemberRow) (hms : (ms.map (·.storyUuid)).Nodup)
    (hkeys : (stories.map (·.uuid)).Nodup)
    (havailable : ∀ m ∈ ms, ∀ s : ExportStory, s.uuid=m.storyUuid →
      (s ∈ c.available ↔ s ∈ stories))
    (hc : Collapsed results c.rows) (h : ms.foldlM (visitMember alloc filtered) c=.ok c') :
    Collapsed (results++ms.flatMap (memberResult filtered c.wanted stories)) c'.rows ∧
      c'.wanted=c.wanted.map (·.filter (· ∉ ms.map (·.storyUuid))) := by
  induction ms generalizing results c with
  | nil =>
    cases h
    rw [List.flatMap_nil,List.append_nil]
    refine ⟨hc,?_⟩
    cases c'.wanted with
    | none => rfl
    | some wanted =>
      rw [Option.map_some,List.filter_eq_self.mpr]
      exact fun uuid _ => decide_eq_true List.not_mem_nil
  | cons m ms ih =>
    rw [List.map_cons,List.nodup_cons] at hms
    rw [List.foldlM_cons] at h
    obtain ⟨next,hnext,h⟩ := exceptBind_ok.mp h
    obtain ⟨hrows,hwanted,hothers⟩ := visitMember_result hkeys
      (havailable m List.mem_cons_self) hc hnext
    have hlater : ∀ m' ∈ ms, m'.storyUuid≠m.storyUuid := by
      intro m' hm' he
      exact hms.1 (he ▸ List.mem_map_of_mem hm')
    have hrest : ∀ m' ∈ ms, ∀ s : ExportStory, s.uuid=m'.storyUuid →
        (s ∈ next.available ↔ s ∈ stories) := by
      intro m' hm' s hs
      rw [hothers s (hs ▸ hlater m' hm')]
      exact havailable m' (List.mem_cons_of_mem _ hm') s hs
    obtain ⟨hall,hleft⟩ := ih hms.2 hrest hrows h
    have hsame : ∀ m' ∈ ms, memberResult filtered next.wanted stories m'=
        memberResult filtered c.wanted stories m' := by
      intro m' hm'
      rw [hwanted]
      cases c.wanted with
      | none => rfl
      | some wanted =>
        have hmem : m'.storyUuid ∈ wanted.filter (·≠m.storyUuid) ↔ m'.storyUuid ∈ wanted := by
          rw [List.mem_filter]
          exact and_iff_left (decide_eq_true (hlater m' hm'))
        rw [Option.map_some,memberResult_some,memberResult_some]
        simp only [hmem]
    rw [List.flatMap_congr hsame,List.append_assoc] at hall
    rw [List.flatMap_cons]
    refine ⟨hall,?_⟩
    rw [hleft,hwanted,Option.map_map]
    congr 1
    funext wanted
    rw [Function.comp_apply,List.filter_filter]
    refine List.filter_congr fun uuid _ => ?_
    by_cases he : uuid=m.storyUuid
    · simp [he]
    · simp [he]

theorem members_uuids (hl : Stored l) (id : ℤ) : ((members l id).map (·.storyUuid)).Nodup := by
  have hperm : (members l id).Perm (l.shelfStories.filter fun m => m.shelfId=id) :=
    List.perm_insertionSort _ _
  rw [(hperm.map _).nodup_iff]
  have hkeys := hl.members.sublist (List.filter_sublist.map _ :
    ((l.shelfStories.filter fun m => m.shelfId=id).map fun m => (m.shelfId,m.storyUuid)).Sublist _)
  have hpairs : (l.shelfStories.filter fun m => m.shelfId=id).map (fun m =>
    (m.shelfId,m.storyUuid))=
      ((l.shelfStories.filter fun m => m.shelfId=id).map (·.storyUuid)).map fun uuid =>
        (id,uuid) := by
    rw [List.map_map]
    refine List.map_congr_left fun m hm => ?_
    rw [Function.comp_apply,of_decide_eq_true (List.mem_filter.mp hm).2]
  rw [hpairs] at hkeys
  exact hkeys.of_map _

variable {prior : List ExportStory}

theorem curated_results (hl : Stored l) {id : GroupId} {query : Option QueryRequest}
    {selected : Option (List String)} {name : String} (hc : Collapsed prior rows)
    (h : curated env l locale id query selected rows=.ok (name,rows')) :
    ∃ normal stories results, Curated env l locale id query selected normal stories results ∧
      Collapsed (prior++results) rows' := by
  obtain ⟨shelf,-,h⟩ := exceptBind_ok.mp h
  dsimp only at h
  obtain ⟨hselected,h⟩ := checked_ok.mp h
  obtain ⟨normal,hnormal,h⟩ := exceptBind_ok.mp h
  obtain ⟨⟨visited,found⟩,hfound,h⟩ := exceptBind_ok.mp h
  obtain ⟨c,hfold,h⟩ := exceptBind_ok.mp h
  have hnormal := mapError_ok.mp hnormal
  obtain ⟨normal',stories,hmatched,hcollect⟩ := visitScope_matched hl.keyed hfound
  have hsame : normal'=normal := Except.ok.inj (hmatched.normalized.symm.trans hnormal)
  rw [hsame] at hmatched
  have hkeys := hmatched.uuids hl
  have havailable : ∀ m ∈ members l id.val, ∀ s : ExportStory, s.uuid=m.storyUuid →
      (s ∈ found.stories ↔ s ∈ stories) := by
    intro m hm s hs
    rw [collectFound_mem stories hkeys (fun s hs => absurd hs List.not_mem_nil) hcollect]
    have hwanted : s.uuid ∈ (members l id.val).map (·.storyUuid) := hs ▸ List.mem_map_of_mem hm
    simp only [List.not_mem_nil,false_or,hwanted,and_true]
  obtain ⟨hrows,hleft⟩ := visitMembers_results _ (members_uuids hl id.val) hkeys havailable hc
    hfold
  obtain ⟨hwanted,h⟩ := checked_ok.mp h
  cases h
  refine ⟨normal,stories,_,⟨hmatched,rfl,?_⟩,hrows⟩
  intro uuids he
  rw [he] at hleft hselected
  refine ⟨fun hempty => hselected (congrArg some hempty),fun uuid huuid => ?_⟩
  by_contra hmissing
  refine hwanted ?_
  rw [hleft,Option.map_some,Option.any_some,Bool.not_eq_true',List.isEmpty_eq_false_iff]
  exact List.ne_nil_of_mem (List.mem_filter.mpr ⟨huuid,decide_eq_true hmissing⟩)

/-- Whether a member contributes: it is selected, and matches a query that filters. -/
def contributes (filtered : Bool) (selected : Option (List String)) (stories : List ExportStory)
    (m : MemberRow) : Bool :=
  selected.all (m.storyUuid ∈ ·) && (!filtered || m.storyUuid ∈ stories.map (·.uuid))

theorem memberResult_uuids (filtered : Bool) (selected : Option (List String))
    (stories : List ExportStory) (m : MemberRow) :
    (memberResult filtered selected stories m).map (·.uuid)=
      if contributes filtered selected stories m=true then [m.storyUuid] else [] := by
  unfold memberResult contributes
  by_cases hs : selected.all (m.storyUuid ∈ ·)=true
  · rw [if_pos hs,hs,Bool.true_and]
    cases hf : stories.find? fun s => s.uuid=m.storyUuid with
    | some story =>
      have huuid : story.uuid=m.storyUuid := by simpa using List.find?_some hf
      have hmem : m.storyUuid ∈ stories.map (·.uuid) :=
        huuid ▸ List.mem_map_of_mem (List.mem_of_find?_eq_some hf)
      simp only [List.map_cons,List.map_nil,huuid,hmem,decide_true,Bool.or_true,if_true]
    | none =>
      have hmissing : m.storyUuid ∉ stories.map (·.uuid) := by
        intro hmem
        obtain ⟨s,hs,he⟩ := List.mem_map.mp hmem
        exact List.find?_eq_none.mp hf s hs (decide_eq_true he)
      cases filtered with
      | true => simp [hmissing]
      | false => simp [unavailable]
  · rw [Bool.not_eq_true] at hs
    rw [hs]
    rfl

theorem Curated.uuids {id : GroupId} {query : Option QueryRequest}
    {selected : Option (List String)} {normal : QueryRequest} {stories results : List ExportStory}
    (h : Curated env l locale id query selected normal stories results) :
    results.map (·.uuid)=((members l id.val).filter
      (contributes (filters normal.criteria) selected stories)).map (·.storyUuid) := by
  rw [h.results]
  induction members l id.val with
  | nil => rfl
  | cons m ms ih =>
    rw [List.flatMap_cons,List.map_append,memberResult_uuids,ih]
    by_cases hm : contributes (filters normal.criteria) selected stories m=true
    · rw [if_pos hm,List.filter_cons_of_pos hm]
      rfl
    · rw [if_neg hm,List.filter_cons_of_neg hm]
      rfl

theorem Curated.distinct (hl : Stored l) {id : GroupId} {query : Option QueryRequest}
    {selected : Option (List String)} {normal : QueryRequest} {stories results : List ExportStory}
    (h : Curated env l locale id query selected normal stories results) :
    (results.map (·.uuid)).Nodup := by
  rw [h.uuids]
  exact (members_uuids hl id.val).sublist (List.filter_sublist.map _)

theorem matchingRows_unfiltered {t : StoryTables} {q : Query} (h : filters q=false) :
    matchingRows t locale q none=listed t := by
  cases q with
  | node own anyOf =>
    rw [filters,Bool.or_eq_false_iff,decide_eq_false_iff_not,not_not,Bool.not_eq_false',
      List.isEmpty_iff] at h
    obtain ⟨rfl,rfl⟩ := h
    unfold matchingRows
    rw [List.filter_eq_self]
    intro row _
    have hholds : Holds t locale row (.node {} []) := by
      rw [Holds]
      exact ⟨⟨.inl rfl,.inl rfl,.inl rfl,List.forall_mem_nil _,List.forall_mem_nil _⟩,.inl rfl⟩
    have hasked : Asked none row := by
      intro uuids he
      cases he
    simp only [hholds,hasked,and_self,decide_true]

/-- A member that is not in the library. -/
def Missing (l : ExportScopes.Library) (s : ExportStory) : Prop :=
  ∃ m ∈ l.shelfStories, s=unavailable m.storyUuid m.cachedTitle ∧
    ∀ row ∈ listed l.tables.storyTables, row.story.uuid≠m.storyUuid

/-- A result of a Shelf is a story that matches, or a member that is not in the library when the
query filters nothing. -/
theorem Curated.available {id : GroupId} {query : Option QueryRequest}
    {selected : Option (List String)} {normal : QueryRequest} {stories results : List ExportStory}
    (h : Curated env l locale id query selected normal stories results) {s : ExportStory}
    (hs : s ∈ results) : s ∈ stories ∨ filters normal.criteria=false ∧ Missing l s := by
  rw [h.results] at hs
  obtain ⟨m,hm,hs⟩ := List.mem_flatMap.mp hs
  unfold memberResult at hs
  by_cases hselected : selected.all (m.storyUuid ∈ ·)=true
  · rw [if_pos hselected] at hs
    cases hf : stories.find? fun s => s.uuid=m.storyUuid with
    | some story =>
      rw [hf] at hs
      exact .inl (List.mem_singleton.mp hs ▸ List.mem_of_find?_eq_some hf)
    | none =>
      rw [hf] at hs
      cases hfilters : filters normal.criteria with
      | true =>
        rw [hfilters,if_pos rfl] at hs
        exact absurd hs List.not_mem_nil
      | false =>
        rw [hfilters] at hs
        have hstored : m ∈ l.shelfStories :=
          List.mem_of_mem_filter ((List.perm_insertionSort _ _).mem_iff.mp hm)
        refine .inr ⟨rfl,m,hstored,List.mem_singleton.mp hs,fun row hrow he => ?_⟩
        rw [←@matchingRows_unfiltered locale _ _ hfilters] at hrow
        obtain ⟨story,hstory,display,-,rfl⟩ := h.matched.shows hrow
        exact List.find?_eq_none.mp hf _ hstory (decide_eq_true he)
  · rw [if_neg hselected] at hs
    exact absurd hs List.not_mem_nil

theorem readCollection_results (hl : Stored l) {id : ℤ} {name : List UInt8}
    (hc : Collapsed prior rows) (h : readCollection env l locale rows id=.ok (name,rows')) :
    ∃ results, CollectionResult env l locale id results ∧ Collapsed (prior++results) rows' := by
  obtain ⟨⟨⟨name₁,rows₁⟩,tables⟩,hx,h⟩ := exceptBind_ok.mp h
  dsimp only at h
  by_cases hsame : tables.saved=l.tables.saved
  · rw [if_pos hsame] at h
    cases h
    obtain ⟨⟨inspection,t⟩,hi,hx⟩ := exceptBind_ok.mp hx
    have hstories := (inspectIn_keeps hi).2.2
    dsimp only at hx
    cases hq : inspection.query with
    | none =>
      rw [hq] at hx
      cases hx
    | some criteria =>
      rw [hq] at hx
      dsimp only at hx
      cases hattention : inspection.attention with
      | some attention =>
        rw [hattention,if_pos Option.isSome_some] at hx
        cases hx
      | none =>
        rw [hattention,if_neg (by decide),hstories] at hx
        obtain ⟨⟨visited,rows₂⟩,hv,hx⟩ := exceptBind_ok.mp hx
        cases hx
        obtain ⟨normal,stories,hmatched,hfold⟩ := visitScope_matched hl.keyed hv
        exact ⟨stories,⟨inspection,_,criteria,normal,hi,hq,hattention,hmatched⟩,
          hc.fold stories hfold⟩
  · rw [if_neg hsame] at h
    cases h

theorem resolveGroups_results {resolveGroup : Rows → ℤ → Except StorageError (List UInt8×Rows)}
    {Result : ℤ → List ExportStory → Prop}
    (hgroup : ∀ id prior rows rows' name, Collapsed prior rows →
      resolveGroup rows id=.ok (name,rows') →
        ∃ results, Result id results ∧ Collapsed (prior++results) rows') (ids : List ℤ)
    {names names' : List (List UInt8)} (hc : Collapsed prior rows)
    (h : resolveGroups resolveGroup ids names rows=.ok (names',rows')) :
    ∃ sources, List.Forall₂ Result ids sources ∧ Collapsed (prior++sources.flatten) rows' := by
  induction ids generalizing names prior rows with
  | nil =>
    cases h
    exact ⟨[],.nil,by rwa [List.flatten_nil,List.append_nil]⟩
  | cons id ids ih =>
    obtain ⟨⟨name,rows₁⟩,h₁,h⟩ := exceptBind_ok.mp h
    obtain ⟨results,hresult,hnext⟩ := hgroup id prior rows rows₁ name hc h₁
    obtain ⟨sources,hsources,hall⟩ := ih hnext h
    refine ⟨results::sources,.cons hresult hsources,?_⟩
    rwa [List.flatten_cons,←List.append_assoc]

theorem readMembers_results (hl : Stored l) {id : ℤ} {name : List UInt8} (hc : Collapsed prior rows)
    (h : readMembers env l locale rows id=.ok (name,rows')) :
    ∃ results, (∃ group : GroupId, group.val=id ∧ ∃ normal stories,
      Curated env l locale group none none normal stories results) ∧
        Collapsed (prior++results) rows' := by
  obtain ⟨group,hid,h⟩ := exceptBind_ok.mp h
  obtain ⟨⟨text,rows₁⟩,hcurated,h⟩ := exceptBind_ok.mp h
  cases h
  obtain ⟨normal,stories,results,hresults,hall⟩ := curated_results hl hc hcurated
  unfold shelfId at hid
  by_cases hpositive : 0 < id
  · rw [dif_pos hpositive] at hid
    cases hid
    exact ⟨results,⟨_,rfl,normal,stories,hresults⟩,hall⟩
  · rw [dif_neg hpositive] at hid
    cases hid

theorem collapsed_nil : Collapsed [] ⟨[],0,0⟩ := ⟨rfl,rfl⟩

theorem resolveRows_results (hl : Stored l) {scope : Scope} {source : Source} {rows : Rows}
    (h : resolveRows env l locale ⟨[],0,0⟩ scope=.ok (source,rows)) :
    ∃ sources, SourceResults env l locale scope sources ∧ Collapsed sources.flatten rows := by
  cases scope with
  | currentQuery request =>
    obtain ⟨⟨visited,rows₁⟩,hv,h⟩ := exceptBind_ok.mp h
    cases h
    obtain ⟨normal,stories,hmatched,hfold⟩ := visitScope_matched hl.keyed hv
    refine ⟨[stories],⟨normal,stories,hmatched,rfl⟩,?_⟩
    rw [List.flatten_singleton]
    exact collapsed_nil.fold stories hfold
  | selection ids =>
    unfold resolveRows at h
    dsimp only at h
    obtain ⟨hlow,h⟩ := checked_ok.mp h
    obtain ⟨⟨visited,found⟩,hv,h⟩ := exceptBind_ok.mp h
    obtain ⟨rows₁,hs,h⟩ := exceptBind_ok.mp h
    cases h
    obtain ⟨normal,stories,hmatched,hfold⟩ := visitScope_matched hl.keyed hv
    have hids : (stories.map (·.id)).Nodup := hmatched.ids hl
    have hfound : ∀ s ∈ found.stories, s ∈ stories := by
      intro s hs
      have hmem := (collectFound_mem stories hids
        (fun s hs => absurd hs List.not_mem_nil) hfold).mp hs
      exact (hmem.resolve_left List.not_mem_nil).1
    have hkept : (firstIds ids).Nodup := by
      have hkept := @nodup_firstBy _ _ _ id ids
      rwa [List.map_id,←firstIds_eq] at hkept
    obtain ⟨chosen,hchosen,hall⟩ := selectStories_results _ hkept hfound collapsed_nil hs
    rw [firstIds_eq] at hchosen
    refine ⟨[chosen],⟨normal,stories,chosen,hmatched,hchosen,rfl⟩,?_⟩
    rwa [List.flatten_singleton]
  | collections ids =>
    obtain ⟨ids',hu,h⟩ := exceptBind_ok.mp h
    obtain ⟨⟨names,rows₁⟩,hg,h⟩ := exceptBind_ok.mp h
    cases h
    obtain ⟨rfl,-⟩ := unique_ok hu
    exact resolveGroups_results
      (fun _ _ _ _ _ hc hread => readCollection_results hl hc hread) _ collapsed_nil hg
  | shelves ids =>
    obtain ⟨ids',hu,h⟩ := exceptBind_ok.mp h
    obtain ⟨⟨names,rows₁⟩,hg,h⟩ := exceptBind_ok.mp h
    cases h
    obtain ⟨rfl,-⟩ := unique_ok hu
    obtain ⟨sources,hsources,hall⟩ := resolveGroups_results
      (fun _ _ _ _ _ hc hread => readMembers_results hl hc hread) _ collapsed_nil hg
    refine ⟨sources,(List.forall₂_map_left_iff.mp hsources).imp ?_,hall⟩
    rintro shelf results ⟨group,hgroup,hresults⟩
    have hsame : group=shelf := Subtype.ext hgroup
    exact hsame ▸ hresults
  | shelfResult shelf request =>
    obtain ⟨⟨name,rows₁⟩,hc,h⟩ := exceptBind_ok.mp h
    cases h
    obtain ⟨normal,stories,results,hresults,hall⟩ := curated_results hl collapsed_nil hc
    refine ⟨[results],⟨normal,stories,results,hresults,rfl⟩,?_⟩
    rwa [List.flatten_singleton]
  | shelfSelection shelf uuids =>
    obtain ⟨⟨name,rows₁⟩,hc,h⟩ := exceptBind_ok.mp h
    cases h
    obtain ⟨normal,stories,results,hresults,hall⟩ := curated_results hl collapsed_nil hc
    refine ⟨[results],⟨normal,stories,results,hresults,rfl⟩,?_⟩
    rwa [List.flatten_singleton]

/-- A scope whose Shelves are not refined: its query filters nothing. -/
def Unrefined (env : ScopeEnv) : Scope → Prop
  | .currentQuery _ | .selection _ | .collections _ => False
  | .shelves _ | .shelfSelection _ _ =>
    ∃ normal, normalizeRequest env.queries.toRuntimeEnv {}=.ok normal ∧
      filters normal.criteria=false
  | .shelfResult _ request =>
    ∃ normal, normalizeRequest env.queries.toRuntimeEnv request=.ok normal ∧
      filters normal.criteria=false

/-- What holds of a resolved scope. -/
structure Resolution (env : ScopeEnv) (l : ExportScopes.Library) (locale : String)
    (scope : Scope) (r : Resolved) : Prop where
  /-- The stories are the first occurrences of the results of the sources by uuid, and the
  overlap counts the other results. -/
  collapsed : ∃ sources, SourceResults env l locale scope sources ∧
    r.stories=firstBy (·.uuid) sources.flatten ∧
      r.collapsedOverlap+r.stories.length=sources.flatten.length
  selection : ∀ ids, scope=.selection ids → r.stories.map (·.id)=firstBy id ids ∧
    ∀ id ∈ ids, ∃ row ∈ listed l.tables.storyTables, row.story.id=id
  shelfSelection : ∀ shelf uuids, scope=.shelfSelection shelf uuids →
    uuids≠[] ∧ ∀ uuid ∈ uuids, uuid ∈ (members l shelf.val).map (·.storyUuid)
  /-- A refined Shelf has the members that match, in the order of the members. -/
  refined : ∀ shelf request, scope=.shelfResult shelf request → ¬Unrefined env scope →
    ∃ normal stories, Matched env l locale request normal stories ∧
      (∀ s ∈ r.stories, s ∈ stories) ∧ r.stories.map (·.uuid)=
        ((members l shelf.val).map (·.storyUuid)).filter (· ∈ stories.map (·.uuid))
  /-- A story is in the library, or an unavailable member of a Shelf that is not refined. -/
  available : ∀ s ∈ r.stories, (∃ row ∈ listed l.tables.storyTables, Shown env l locale row s) ∨
    Unrefined env scope ∧ Missing l s

theorem Matched.listed {request normal : QueryRequest} {stories : List ExportStory}
    (h : Matched env l locale request normal stories) {s : ExportStory} (hs : s ∈ stories) :
    ∃ row ∈ listed l.tables.storyTables, Shown env l locale row s := by
  obtain ⟨row,hrow,hshown⟩ := h.mem hs
  exact ⟨row,List.mem_of_mem_filter hrow,hshown⟩

/-- Every result of a scope is in the library, or an unavailable member of a Shelf that is not
refined. -/
theorem sources_available {scope : Scope} {sources : List (List ExportStory)}
    (h : SourceResults env l locale scope sources) {s : ExportStory} (hs : s ∈ sources.flatten) :
    (∃ row ∈ listed l.tables.storyTables, Shown env l locale row s) ∨
      Unrefined env scope ∧ Missing l s := by
  have hshelf : ∀ {id query selected normal stories results},
      Curated env l locale id query selected normal stories results → s ∈ results →
        (∃ row ∈ listed l.tables.storyTables, Shown env l locale row s) ∨
          (filters normal.criteria=false ∧ Missing l s) := by
    intro id query selected normal stories results hcurated hs
    cases hcurated.available hs with
    | inl hmatched => exact .inl (hcurated.matched.listed hmatched)
    | inr hmissing => exact .inr hmissing
  obtain ⟨results,hresults,hs'⟩ := List.mem_flatten.mp hs
  cases scope with
  | currentQuery request =>
    obtain ⟨normal,stories,hmatched,rfl⟩ := h
    exact .inl (hmatched.listed (List.mem_singleton.mp hresults ▸ hs'))
  | selection ids =>
    obtain ⟨normal,stories,chosen,hmatched,hchosen,rfl⟩ := h
    obtain ⟨id,-,hmem,-⟩ := forall₂_left hchosen.flip s (List.mem_singleton.mp hresults ▸ hs')
    exact .inl (hmatched.listed hmem)
  | collections ids =>
    obtain ⟨id,-,inspection,t,q,normal,-,-,-,hmatched⟩ := forall₂_left h.flip results hresults
    exact .inl (hmatched.listed hs')
  | shelves ids =>
    obtain ⟨id,-,normal,stories,hcurated⟩ := forall₂_left h.flip results hresults
    refine (hshelf hcurated hs').imp_right fun hmissing => ⟨?_,hmissing.2⟩
    exact ⟨normal,hcurated.matched.normalized,hmissing.1⟩
  | shelfResult shelf request =>
    obtain ⟨normal,stories,results',hcurated,rfl⟩ := h
    refine (hshelf hcurated (List.mem_singleton.mp hresults ▸ hs')).imp_right
      fun hmissing => ⟨?_,hmissing.2⟩
    exact ⟨normal,hcurated.matched.normalized,hmissing.1⟩
  | shelfSelection shelf uuids =>
    obtain ⟨normal,stories,results',hcurated,rfl⟩ := h
    refine (hshelf hcurated (List.mem_singleton.mp hresults ▸ hs')).imp_right
      fun hmissing => ⟨?_,hmissing.2⟩
    exact ⟨normal,hcurated.matched.normalized,hmissing.1⟩

theorem chosen_ids {stories chosen : List ExportStory} {ids : List ℤ}
    (h : List.Forall₂ (fun id s => s ∈ stories ∧ s.id=id) ids chosen) : chosen.map (·.id)=ids := by
  induction h with
  | nil => rfl
  | cons hfirst hrest ih => rw [List.map_cons,ih,hfirst.2]

theorem chosen_uuids {stories chosen : List ExportStory} {ids : List ℤ}
    (hkeys : (stories.map (·.uuid)).Nodup) (hids : ids.Nodup)
    (h : List.Forall₂ (fun id s => s ∈ stories ∧ s.id=id) ids chosen) :
    (chosen.map (·.uuid)).Nodup := by
  have hmem : ∀ s ∈ chosen, s ∈ stories := by
    intro s hs
    obtain ⟨id,-,hmem,-⟩ := forall₂_left h.flip s hs
    exact hmem
  have hchosen : chosen.Nodup := List.Nodup.of_map _ (chosen_ids h ▸ hids)
  exact hchosen.map_on fun a ha b hb he => List.inj_on_of_nodup_map hkeys (hmem a ha) (hmem b hb) he

/-- A scope that is resolved has the first occurrences of the results of its sources, with the
overlap they leave; a selection keeps its order and is found whole; a selection from a Shelf has
only members; a refined Shelf has the members that match, and only a Shelf that is not refined
has unavailable ones. -/
theorem resolve_collapses (hl : Stored l) {scope : Scope} {r : Resolved}
    (h : resolve env l locale scope=.ok r) : Resolution env l locale scope r := by
  obtain ⟨⟨source,rows⟩,hrows,h⟩ := exceptBind_ok.mp h
  cases h
  obtain ⟨sources,hsources,hcollapsed⟩ := resolveRows_results hl hrows
  have hstories : rows.stories=firstBy (·.uuid) sources.flatten := hcollapsed.stories
  constructor
  case collapsed => exact ⟨sources,hsources,hcollapsed.stories,hcollapsed.overlap⟩
  case selection =>
    rintro ids rfl
    obtain ⟨normal,stories,chosen,hmatched,hchosen,rfl⟩ := hsources
    have hids : (firstBy id ids).Nodup := by
      have hids := @nodup_firstBy _ _ _ id ids
      rwa [List.map_id] at hids
    have hkept : rows.stories=chosen := by
      rw [hstories,List.flatten_singleton,firstBy_self (chosen_uuids
        (hmatched.uuids hl) hids hchosen)]
    refine ⟨?_,fun i hi => ?_⟩
    · change rows.stories.map (·.id)=_
      rw [hkept,chosen_ids hchosen]
    · have hfirst : i ∈ firstBy id ids := by
        have hkeys := (@mem_keys_firstBy _ _ _ id ids i).mpr
        rw [List.map_id,List.map_id] at hkeys
        exact hkeys hi
      obtain ⟨s,-,hmem,hs⟩ := forall₂_left hchosen i hfirst
      obtain ⟨row,hrow,display,-,he⟩ := hmatched.listed hmem
      exact ⟨row,hrow,by rw [←hs,he]; rfl⟩
  case shelfSelection =>
    rintro shelf uuids rfl
    obtain ⟨normal,stories,results,hcurated,-⟩ := hsources
    exact hcurated.selected uuids rfl
  case refined =>
    rintro shelf request rfl hrefined
    obtain ⟨normal,stories,results,hcurated,rfl⟩ := hsources
    have hfilters : filters normal.criteria=true := by
      by_contra hnone
      exact hrefined ⟨normal,hcurated.matched.normalized,(Bool.not_eq_true _).mp hnone⟩
    have hkept : rows.stories=results := by
      rw [hstories,List.flatten_singleton,firstBy_self (hcurated.distinct hl)]
    refine ⟨normal,stories,hcurated.matched,?_,?_⟩
    · intro s hs
      change s ∈ rows.stories at hs
      rw [hkept] at hs
      cases hcurated.available hs with
      | inl hmatched => exact hmatched
      | inr hmissing => exact absurd (hmissing.1.symm.trans hfilters) Bool.false_ne_true
    · change rows.stories.map (·.uuid)=_
      rw [hkept,hcurated.uuids,hfilters,List.filter_map]
      rfl
  case available =>
    intro s hs
    change s ∈ rows.stories at hs
    rw [hstories] at hs
    exact sources_available hsources ((firstBy_sublist _).subset hs)

end Results

theorem stored_shelf (title : String) : Stored (ExportStarts.shelfLibrary title) where
  keyed := ⟨List.nodup_singleton _,List.nodup_singleton _,List.nodup_nil,one_lt_two.trans
    (by decide)⟩
  uuids := by
    change (["00000000-0000-0000-0000-000000000001"] : List String).Nodup
    exact List.nodup_singleton _
  members := by
    change ([(1,"00000000-0000-0000-0000-000000000001"),
      (1,"00000000-0000-0000-0000-000000000002")] : List (ℤ×String)).Nodup
    decide

/-- The Shelf resolves to its story and to the member that is not in the library. -/
theorem resolve_collapses_shelf : Resolution ExportStarts.plainStart.toScopeEnv
    (ExportStarts.shelfLibrary "Gone") "fr-FR" (.shelves [⟨1,by decide⟩])
      (ExportStarts.shelfScope "Gone") :=
  resolve_collapses (stored_shelf "Gone") (ExportStarts.resolve_shelf (by decide) (by decide))

end Librairii.ScopeResolution
