import Librairii.CollectionViews
import Librairii.DisplayNames

/-!
# Resolved export scopes

A scope is resolved in one read transaction to the stories it approves, each once and in
the order of the scope, with the source they came from. A scope names a query, selected
stories, Collections or Shelves; a member of a Shelf that is not in the library is kept as
an unavailable story. The rows that are kept are bounded by the bytes they retain.
-/

namespace Librairii.ExportScopes

open CheckedResults RowTables StorageTransactions QueryRequests SavedQueryCodec CollectionRows
  CollectionInspection CollectionViews StoryRows StoryPages FrozenText DisplayNames JsonText
open StoryQueries hiding validateReferences validateBranches
open WireParser hiding members
open SavedQuery hiding validateReferences validateBranches
open CollectionInspection hiding read source

/-- Sizes of the values in memory, and the capacities the allocator gives. -/
structure Allocation where
  wordSize : ℕ
  textSize : ℕ
  storySize : ℕ
  sourceSize : ℕ
  previewItemSize : ℕ
  preparedSize : ℕ
  destinationSize : ℕ
  newItemSize : ℕ
  newOperationSize : ℕ
  text : String → ℕ
  /-- Capacity of a byte string. -/
  octets : List UInt8 → ℕ
  /-- Capacity of a list with this number of elements. -/
  vector : ℕ → ℕ

/-- What resolution reads besides the library. -/
structure ScopeEnv where
  /-- Decoder of saved queries. -/
  codec : CodecEnv
  /-- Normalizers of a query and the parser of identities. -/
  queries : QueryEnv
  /-- The allocator. -/
  alloc : Allocation

/-- The positive id of a Collection or a Shelf. -/
abbrev GroupId := {id : ℤ // 0 < id}

/-- The name of a Shelf. -/
structure ShelfRow where
  id : ℤ
  name : String
  deriving DecidableEq

/-- A story that was approved for a Shelf. -/
structure MemberRow where
  shelfId : ℤ
  storyUuid : String
  position : ℤ
  cachedTitle : String
  deriving DecidableEq

/-- What resolution reads of a library. -/
structure Library where
  /-- Stories, Collections and tags. -/
  tables : LibraryTables
  shelves : List ShelfRow
  /-- Members of the Shelves. -/
  shelfStories : List MemberRow

/-- The scope of an export. -/
inductive Scope where
  | currentQuery (request : QueryRequest)
  | selection (ids : List ℤ)
  | collections (ids : List GroupId)
  | shelves (ids : List GroupId)
  | shelfResult (shelf : GroupId) (request : QueryRequest)
  | shelfSelection (shelf : GroupId) (uuids : List String)

/-- The kind of a resolved scope. -/
inductive ExportScopeKind where
  | currentQuery
  | selection
  | collectionUnion
  | shelfUnion
  | refinedShelf
  deriving DecidableEq

/-- Where the stories of a scope come from. -/
structure Source where
  kind : ExportScopeKind
  ids : List ℤ
  names : List (List UInt8)
  deriving DecidableEq

/-- A resolved scope. -/
structure Resolved where
  source : Source
  stories : List ExportStory
  collapsedOverlap : ℕ
  deriving DecidableEq

/-- Bound on the rows a resolution retains, in bytes. -/
def maxResolvedBytes : ℕ := 64*1024*1024

/-- Distinct positive ids, at least one. -/
def unique (ids : List ℤ) : Except StorageError (List ℤ) :=
  if (ids.all (0<·))=true ∧ ids.Nodup ∧ ids≠[] then .ok ids else .error (.scope .invalidScope)

def rowBytes (alloc : Allocation) (s : ExportStory) : ℕ :=
  alloc.storySize+128+alloc.text s.uuid*2+alloc.text s.title+alloc.text s.originalFilename+
    alloc.octets s.originalFilenameBytes+alloc.text s.detectedFormat+alloc.text s.sha256+
    alloc.text s.managedRelativePath+alloc.octets s.managedRelativePathBytes+
    alloc.text s.verification

/-- The stories approved so far, with their bytes and the number that were repeated. -/
structure Rows where
  stories : List ExportStory
  bytes : ℕ
  overlap : ℕ

/-- Approve a story once; the stories that were approved are the seen ones. -/
def Rows.append (alloc : Allocation) (rows : Rows) (story : ExportStory) :
    Except StorageError Rows :=
  if rows.stories.any (·.uuid=story.uuid)=true then
    .ok { rows with overlap := rows.overlap+1 }
  else if maxResolvedBytes<rows.bytes+rowBytes alloc story then .error (.scope .resourceLimit)
  else .ok { rows with
    stories := rows.stories++[story]
    bytes := rows.bytes+rowBytes alloc story }

/-- The story of a member that is not in the library. -/
def unavailable (uuid title : String) : ExportStory where
  broken := false
  id := 0
  uuid := uuid
  title := if title="" then uuid else title
  originalFilename := ""
  originalFilenameBytes := []
  detectedFormat := ""
  sha256 := ""
  byteSize := 0
  managedRelativePath := ""
  managedRelativePathBytes := []
  verification := ""

/-- The wanted stories a query found, with their bytes. -/
structure Found where
  bytes : ℕ
  stories : List ExportStory

/-- Keep a visited story when it is wanted; a later story replaces one with its key. -/
def collectFound {κ : Type} [DecidableEq κ] (alloc : Allocation) (key : ExportStory → κ)
    (wanted : List κ) (found : Found) (story : ExportStory) : Except StorageError Found :=
  if key story ∈ wanted then
    if maxResolvedBytes<found.bytes+rowBytes alloc story then .error (.scope .resourceLimit)
    else .ok ⟨found.bytes+rowBytes alloc story,
      story::found.stories.filter fun s => key s≠key story⟩
  else .ok found

def readShelf (l : Library) (id : ℤ) : Except StorageError ShelfRow :=
  match lookup (·.id) id l.shelves with
  | some shelf => .ok shelf
  | none => .error (.shelf .notFound)

def memberBefore (a b : MemberRow) : Bool :=
  a.position<b.position || (a.position=b.position && decide (a.storyUuid≤b.storyUuid))

def members (l : Library) (id : ℤ) : List MemberRow :=
  (l.shelfStories.filter fun m => m.shelfId=id).insertionSort fun a b => memberBefore a b

/-- The members of a Shelf that remain to be taken. -/
structure Curation where
  rows : Rows
  /-- Approved stories the query found. -/
  available : List ExportStory
  /-- Selected uuids that were not met, or nothing when all members are wanted. -/
  wanted : Option (List String)

/-- Take a wanted member: its story, or an unavailable one when the query does not filter. -/
def takeMember (alloc : Allocation) (filtered : Bool) (c : Curation) (m : MemberRow) :
    Except StorageError Curation :=
  match c.available.find? fun s => s.uuid=m.storyUuid with
  | some story => do
    let rows ← c.rows.append alloc story
    return { c with
      rows := rows
      available := c.available.filter fun s => s.uuid≠m.storyUuid }
  | none =>
    if filtered then return c
    else do
      let rows ← c.rows.append alloc (unavailable m.storyUuid m.cachedTitle)
      return { c with rows := rows }

def visitMember (alloc : Allocation) (filtered : Bool) (c : Curation) (m : MemberRow) :
    Except StorageError Curation :=
  match c.wanted with
  | none => takeMember alloc filtered c m
  | some wanted =>
    if m.storyUuid ∈ wanted then
      takeMember alloc filtered { c with wanted := some (wanted.filter (·≠m.storyUuid)) } m
    else .ok c

/-- Whether criteria differ from the ones that filter nothing. -/
def filters : Query → Bool
  | .node own anyOf => decide (own≠{}) || !anyOf.isEmpty

/-- Approve the members of a Shelf that a query keeps and a selection names. -/
def curated (env : ScopeEnv) (l : Library) (locale : String) (id : GroupId)
    (query : Option QueryRequest) (selected : Option (List String)) (rows : Rows) :
    Except StorageError (String×Rows) := do
  let shelf ← readShelf l id.val
  let approved := members l id.val
  if selected=some [] then .error (.scope .invalidScope)
  else do
    let request := query.getD {}
    let normal ← (normalizeRequest env.queries.toRuntimeEnv request).mapError .queryInput
    let (_,found) ← visitScope env.queries l.tables.storyTables request locale
      (collectFound env.alloc (·.uuid) (approved.map (·.storyUuid))) ⟨0,[]⟩
    let c ← approved.foldlM (visitMember env.alloc (filters normal.criteria))
      ⟨rows,found.stories,selected⟩
    if c.wanted.any (fun wanted => !wanted.isEmpty)=true then .error (.scope .invalidScope)
    else return (shelf.name,c.rows)

/-- Approve the stories of a Collection in a transaction that may not write. -/
def readCollection (env : ScopeEnv) (l : Library) (locale : String) (rows : Rows) (id : ℤ) :
    Except StorageError (List UInt8×Rows) := do
  let ((name,rows),tables) ← (exportCollection env.codec env.queries id locale
    (Rows.append env.alloc) rows).run l.tables
  if tables.saved=l.tables.saved then return (name,rows) else .error .sql

def selectStories (alloc : Allocation) (found : List ExportStory) :
    List ℤ → Rows → Except StorageError Rows
  | [],rows => .ok rows
  | id::ids,rows =>
    match found.find? (·.id=id) with
    | none => .error (.scope .invalidScope)
    | some story => do
      let rows ← rows.append alloc story
      selectStories alloc (found.filter (·.id≠id)) ids rows

def firstIds (ids : List ℤ) : List ℤ :=
  ids.foldl (fun seen id => if id ∈ seen then seen else seen++[id]) []

def resolveGroups (resolveGroup : Rows → ℤ → Except StorageError (List UInt8×Rows)) :
    List ℤ → List (List UInt8) → Rows → Except StorageError (List (List UInt8)×Rows)
  | [],names,rows => .ok (names,rows)
  | id::ids,names,rows => do
    let (name,rows) ← resolveGroup rows id
    resolveGroups resolveGroup ids (names++[name]) rows

def shelfId (id : ℤ) : Except StorageError GroupId :=
  if h : 0 < id then .ok ⟨id,h⟩ else .error (.scope .invalidScope)

def readMembers (env : ScopeEnv) (l : Library) (locale : String) (rows : Rows) (id : ℤ) :
    Except StorageError (List UInt8×Rows) := do
  let id ← shelfId id
  let (name,rows) ← curated env l locale id none none rows
  return (bytes name.toList,rows)

def resolveRows (env : ScopeEnv) (l : Library) (locale : String) (rows : Rows) :
    Scope → Except StorageError (Source×Rows)
  | .currentQuery request => do
    let (_,rows) ← visitScope env.queries l.tables.storyTables request locale
      (Rows.append env.alloc) rows
    return (⟨.currentQuery,[],[]⟩,rows)
  | .selection ids =>
    if ids.any (·≤0)=true then .error (.scope .invalidScope)
    else do
      let (_,found) ← visitScope env.queries l.tables.storyTables {} locale
        (collectFound env.alloc (·.id) (firstIds ids)) ⟨0,[]⟩
      let rows ← selectStories env.alloc found.stories (firstIds ids) rows
      return (⟨.selection,[],[]⟩,rows)
  | .collections ids => do
    let ids ← unique (ids.map (·.val))
    let (names,rows) ← resolveGroups (readCollection env l locale) ids [] rows
    return (⟨.collectionUnion,ids,names⟩,rows)
  | .shelves ids => do
    let ids ← unique (ids.map (·.val))
    let (names,rows) ← resolveGroups (readMembers env l locale) ids [] rows
    return (⟨.shelfUnion,ids,names⟩,rows)
  | .shelfResult shelf request => do
    let (name,rows) ← curated env l locale shelf (some request) none rows
    return (⟨.refinedShelf,[shelf.val],[bytes name.toList]⟩,rows)
  | .shelfSelection shelf uuids => do
    let (_,rows) ← curated env l locale shelf none (some uuids) rows
    return (⟨.selection,[],[]⟩,rows)

def resolve (env : ScopeEnv) (l : Library) (locale : String) (scope : Scope) :
    Except StorageError Resolved := do
  let (source,rows) ← resolveRows env l locale ⟨[],0,0⟩ scope
  return ⟨source,rows.stories,rows.overlap⟩

section Soundness

variable {env : ScopeEnv} {l : Library} {locale : String}

/-- A story that resolution approves: one that is read from the library, or a member of a
Shelf that is not in it. -/
def Approved (env : ScopeEnv) (l : Library) (s : ExportStory) : Prop :=
  (∃ row ∈ listed l.tables.storyTables, ∃ locale display,
    summary env.queries l.tables.storyTables (Record.read row) locale=.ok display ∧
      s=exportStory (Record.read row) display) ∨
  ∃ m ∈ l.shelfStories, s=unavailable m.storyUuid m.cachedTitle

/-- Approved stories, each uuid once. -/
structure RowsSound (env : ScopeEnv) (l : Library) (rows : Rows) : Prop where
  approved : ∀ s ∈ rows.stories, Approved env l s
  uuids : (rows.stories.map (·.uuid)).Nodup

theorem RowsSound.append {rows rows' : Rows} (hr : RowsSound env l rows) {s : ExportStory}
    (hs : Approved env l s) (h : rows.append env.alloc s=.ok rows') : RowsSound env l rows' := by
  unfold Rows.append at h
  by_cases hseen : rows.stories.any (·.uuid=s.uuid)=true
  · rw [if_pos hseen] at h
    cases h
    exact ⟨hr.approved,hr.uuids⟩
  · rw [if_neg hseen] at h
    obtain ⟨hlarge,h⟩ := checked_ok.mp h
    cases h
    have hnew : ∀ other ∈ rows.stories, other.uuid≠s.uuid := by
      intro other hother he
      exact hseen (List.any_eq_true.mpr ⟨other,hother,decide_eq_true he⟩)
    constructor
    · intro other hother
      cases List.mem_append.mp hother with
      | inl hold => exact hr.approved other hold
      | inr hlast => exact List.mem_singleton.mp hlast ▸ hs
    · rw [List.map_append,List.nodup_append]
      refine ⟨hr.uuids,List.nodup_singleton _,?_⟩
      intro uuid huuid uuid' huuid'
      obtain ⟨other,hother,rfl⟩ := List.mem_map.mp huuid
      rw [List.map_singleton,List.mem_singleton] at huuid'
      rw [huuid']
      exact hnew other hother

theorem visitScope_keeps (ht : Keyed l.tables.storyTables) {σ : Type} {P : σ → Prop}
    {consume : σ → ExportStory → Except StorageError σ} {request : QueryRequest}
    {state state' : σ} {visited : ℕ} (hP : P state)
    (hstep : ∀ state s state', P state → Approved env l s → consume state s=.ok state' → P state')
    (h : visitScope env.queries l.tables.storyTables request locale consume state=
      .ok (visited,state')) : P state' := by
  cases hm : matching env.queries.toRuntimeEnv l.tables.storyTables request locale with
  | error e =>
    unfold visitScope at h
    rw [hm] at h
    cases h
  | ok found =>
    obtain ⟨normal,sql,args⟩ := found
    rw [visitScope_eq ht hm] at h
    refine foldlM_keeps (P:=fun visited : ℕ×σ => P visited.2) hP ?_ h
    intro row hrow before after hbefore hvisit
    have hmatching := (orderedStories_perm).mem_iff.mp hrow
    have hlisted : row ∈ listed l.tables.storyTables := List.mem_of_mem_filter hmatching
    obtain ⟨display,hdisplay,hvisit⟩ := exceptBind_ok.mp hvisit
    obtain ⟨next,hnext,hvisit⟩ := exceptBind_ok.mp hvisit
    have happroved : Approved env l (exportStory (Record.read row) display) :=
      .inl ⟨row,hlisted,locale,display,hdisplay,rfl⟩
    have hkeep := hstep _ _ _ hbefore happroved hnext
    obtain ⟨hmax,hvisit⟩ := checked_ok.mp hvisit
    cases hvisit
    exact hkeep

theorem visitScope_sound (ht : Keyed l.tables.storyTables) {request : QueryRequest}
    {rows rows' : Rows} {visited : ℕ} (hr : RowsSound env l rows)
    (h : visitScope env.queries l.tables.storyTables request locale (Rows.append env.alloc) rows=
      .ok (visited,rows')) : RowsSound env l rows' :=
  visitScope_keeps ht hr (fun _ _ _ hbefore hs happend => hbefore.append hs happend) h

theorem visitScope_collects (ht : Keyed l.tables.storyTables) {κ : Type} [DecidableEq κ]
    {key : ExportStory → κ} {wanted : List κ} {request : QueryRequest} {found : Found}
    {visited : ℕ} (h : visitScope env.queries l.tables.storyTables request locale
      (collectFound env.alloc key wanted) ⟨0,[]⟩=.ok (visited,found)) :
    ∀ s ∈ found.stories, Approved env l s := by
  refine visitScope_keeps (P:=fun found : Found => ∀ s ∈ found.stories, Approved env l s) ht
    (fun s hs => absurd hs List.not_mem_nil) ?_ h
  intro before s after hbefore hs hcollect
  unfold collectFound at hcollect
  by_cases hwanted : key s ∈ wanted
  · rw [if_pos hwanted] at hcollect
    obtain ⟨hlarge,hcollect⟩ := checked_ok.mp hcollect
    cases hcollect
    intro other hother
    cases List.mem_cons.mp hother with
    | inl he => exact he ▸ hs
    | inr hold => exact hbefore other (List.mem_of_mem_filter hold)
  · rw [if_neg hwanted] at hcollect
    cases hcollect
    exact hbefore

/-- The stories of a Shelf that are approved so far, and those that are available. -/
def CurationSound (env : ScopeEnv) (l : Library) (c : Curation) : Prop :=
  RowsSound env l c.rows ∧ ∀ s ∈ c.available, Approved env l s

theorem takeMember_sound {filtered : Bool} {c c' : Curation} {m : MemberRow}
    (hm : m ∈ l.shelfStories) (hc : CurationSound env l c)
    (h : takeMember env.alloc filtered c m=.ok c') : CurationSound env l c' := by
  unfold takeMember at h
  cases hf : c.available.find? fun s => s.uuid=m.storyUuid with
  | some story =>
    rw [hf] at h
    obtain ⟨rows,hrows,h⟩ := exceptBind_ok.mp h
    cases h
    have hstory := hc.2 story (List.mem_of_find?_eq_some hf)
    exact ⟨hc.1.append hstory hrows,fun s hs => hc.2 s (List.mem_of_mem_filter hs)⟩
  | none =>
    rw [hf] at h
    cases hfiltered : filtered with
    | true =>
      rw [hfiltered] at h
      cases h
      exact hc
    | false =>
      rw [hfiltered] at h
      obtain ⟨rows,hrows,h⟩ := exceptBind_ok.mp h
      cases h
      exact ⟨hc.1.append (.inr ⟨m,hm,rfl⟩) hrows,hc.2⟩

theorem visitMember_sound {filtered : Bool} {c c' : Curation} {m : MemberRow}
    (hm : m ∈ l.shelfStories) (hc : CurationSound env l c)
    (h : visitMember env.alloc filtered c m=.ok c') : CurationSound env l c' := by
  unfold visitMember at h
  cases hw : c.wanted with
  | none =>
    rw [hw] at h
    exact takeMember_sound hm hc h
  | some wanted =>
    rw [hw] at h
    dsimp only at h
    by_cases hmem : m.storyUuid ∈ wanted
    · rw [if_pos hmem] at h
      have hc' : CurationSound env l { c with wanted := some (wanted.filter (·≠m.storyUuid)) } := hc
      exact takeMember_sound hm hc' h
    · rw [if_neg hmem] at h
      cases h
      exact hc

/-- Approving the members of a Shelf keeps the rows sound and returns the name of the Shelf. -/
theorem curated_sound (ht : Keyed l.tables.storyTables) {id : GroupId} {query : Option QueryRequest}
    {selected : Option (List String)} {rows rows' : Rows} {name : String}
    (hr : RowsSound env l rows) (h : curated env l locale id query selected rows=.ok (name,rows')) :
    RowsSound env l rows' ∧ ∃ shelf ∈ l.shelves, shelf.name=name := by
  obtain ⟨shelf,hshelf,h⟩ := exceptBind_ok.mp h
  have hmem : shelf ∈ l.shelves := by
    unfold readShelf at hshelf
    cases hl : lookup (·.id) id.val l.shelves with
    | none =>
      rw [hl] at hshelf
      cases hshelf
    | some found =>
      rw [hl] at hshelf
      cases hshelf
      exact (lookup_mem hl).1
  dsimp only at h
  obtain ⟨hselected,h⟩ := checked_ok.mp h
  obtain ⟨normal,-,h⟩ := exceptBind_ok.mp h
  obtain ⟨⟨visited,found⟩,hfound,h⟩ := exceptBind_ok.mp h
  obtain ⟨c,hc,h⟩ := exceptBind_ok.mp h
  have hcollected := visitScope_collects ht hfound
  have hsound : CurationSound env l c := by
    refine foldlM_keeps (P:=CurationSound env l) ⟨hr,hcollected⟩ ?_ hc
    intro m hm before after hbefore hvisit
    have hstored : m ∈ l.shelfStories :=
      List.mem_of_mem_filter ((List.perm_insertionSort _ _).mem_iff.mp hm)
    exact visitMember_sound hstored hbefore hvisit
  obtain ⟨hleft,h⟩ := checked_ok.mp h
  cases h
  exact ⟨hsound.1,shelf,hmem,rfl⟩

theorem inspect_returns {codec : CodecEnv} {t t' : CollectionTables} {id : ℤ}
    {inspection : Inspection} (h : (inspect codec id).run t=.ok (inspection,t')) :
    inspection.collection ∈ t'.collections := by
  obtain ⟨⟨r,written⟩,hr,he⟩ := exceptMap_ok.mp h
  cases he
  change (inspectCollectionWithQuery codec id).run t=_ at hr
  rw [inspect_steps] at hr
  obtain ⟨c,hread,hr⟩ := exceptBind_ok.mp hr
  obtain ⟨found,-,hr⟩ := exceptBind_ok.mp hr
  obtain ⟨c',hread',-,rfl,-⟩ := conclude_ok hread hr
  have hmem : c' ∈ written.collections := by
    unfold CollectionInspection.read at hread'
    cases hl : lookup (·.id) id written.collections with
    | none =>
      rw [hl] at hread'
      cases hread'
    | some row =>
      rw [hl] at hread'
      cases hread'
      exact (lookup_mem hl).1
  cases found <;> exact hmem

theorem readCollection_sound (ht : Keyed l.tables.storyTables) {id : ℤ} {rows rows' : Rows}
    {name : List UInt8} (hr : RowsSound env l rows)
    (h : readCollection env l locale rows id=.ok (name,rows')) :
    RowsSound env l rows' ∧ ∃ c ∈ l.tables.saved.collections, c.name=name := by
  obtain ⟨⟨⟨name₁,rows₁⟩,tables⟩,hx,h⟩ := exceptBind_ok.mp h
  dsimp only at h
  by_cases hsame : tables.saved=l.tables.saved
  · rw [if_pos hsame] at h
    cases h
    obtain ⟨⟨_,t₁⟩,hi,hx⟩ := exceptBind_ok.mp hx
    obtain ⟨⟨inspection,saved⟩,hi',he⟩ := exceptMap_ok.mp hi
    cases he
    dsimp only at hx
    cases hq : inspection.query with
    | none =>
      rw [hq] at hx
      cases hx
    | some criteria =>
      rw [hq] at hx
      dsimp only at hx
      obtain ⟨hattention,hx⟩ := checked_ok.mp hx
      obtain ⟨⟨visited,rows₂⟩,hv,hx⟩ := exceptBind_ok.mp hx
      cases hx
      have hsaved : saved=l.tables.saved := hsame
      subst hsaved
      exact ⟨visitScope_sound ht hr hv,inspection.collection,inspect_returns hi',rfl⟩
  · rw [if_neg hsame] at h
    cases h

theorem resolveGroups_sound {resolveGroup : Rows → ℤ → Except StorageError (List UInt8×Rows)}
    {Named : List UInt8 → Prop}
    (hgroup : ∀ id rows rows' name, RowsSound env l rows → resolveGroup rows id=.ok (name,rows') →
      RowsSound env l rows' ∧ Named name) (ids : List ℤ) {names names' : List (List UInt8)}
    {rows rows' : Rows} (hr : RowsSound env l rows) (hnames : ∀ name ∈ names, Named name)
    (h : resolveGroups resolveGroup ids names rows=.ok (names',rows')) :
    RowsSound env l rows' ∧ names'.length=names.length+ids.length ∧
      ∀ name ∈ names', Named name := by
  induction ids generalizing names rows with
  | nil =>
    cases h
    exact ⟨hr,rfl,hnames⟩
  | cons id ids ih =>
    obtain ⟨⟨name,rows₁⟩,h₁,h⟩ := exceptBind_ok.mp h
    obtain ⟨hr₁,hname⟩ := hgroup id rows rows₁ name hr h₁
    have hnames₁ : ∀ other ∈ names++[name], Named other := by
      intro other hother
      cases List.mem_append.mp hother with
      | inl hold => exact hnames other hold
      | inr hlast => exact List.mem_singleton.mp hlast ▸ hname
    obtain ⟨hrows,hlength,hall⟩ := ih hr₁ hnames₁ h
    refine ⟨hrows,?_,hall⟩
    rw [hlength,List.length_append,List.length_singleton,List.length_cons]
    omega

theorem selectStories_sound (ids : List ℤ) {found : List ExportStory} {rows rows' : Rows}
    (hfound : ∀ s ∈ found, Approved env l s) (hr : RowsSound env l rows)
    (h : selectStories env.alloc found ids rows=.ok rows') : RowsSound env l rows' := by
  induction ids generalizing found rows with
  | nil =>
    cases h
    exact hr
  | cons id ids ih =>
    unfold selectStories at h
    cases hf : found.find? (·.id=id) with
    | none =>
      rw [hf] at h
      cases h
    | some story =>
      rw [hf] at h
      obtain ⟨rows₁,h₁,h⟩ := exceptBind_ok.mp h
      have hstory := hfound story (List.mem_of_find?_eq_some hf)
      exact ih (fun s hs => hfound s (List.mem_of_mem_filter hs)) (hr.append hstory h₁) h

/-- A library as the writers keep it: stored ids are positive, stored identities parse and
stored names and titles are visible. -/
structure SoundLibrary (env : ScopeEnv) (l : Library) : Prop where
  /-- Rows are stored under their keys. -/
  keyed : Keyed l.tables.storyTables
  /-- The engine gives positive ids. -/
  positive : ∀ s ∈ l.tables.stories, 0<s.id
  collectionNames : ∀ c ∈ l.tables.saved.collections, textPresent (displayNativeText c.name)=true
  shelfNames : ∀ shelf ∈ l.shelves, textPresent shelf.name=true
  memberUuids : ∀ m ∈ l.shelfStories, (env.queries.parseUuid m.storyUuid).isSome=true
  /-- A cached title is a resolved one, or nothing. -/
  memberTitles : ∀ m ∈ l.shelfStories, m.cachedTitle="" ∨ textPresent m.cachedTitle=true
  parsed : ∀ uuid, (env.queries.parseUuid uuid).isSome=true → textPresent uuid=true

theorem resolved_visible {official embedded fallback : String}
    (h : textPresent fallback=true) : textPresent (resolved official embedded fallback).1=true := by
  unfold resolved
  by_cases ho : trimMatches isSpace official≠""
  · rw [if_pos ho]
    have hpresent : textPresent official=true := decide_eq_true ho
    exact textPresent_tagTrim hpresent
  · rw [if_neg ho]
    by_cases he : trimMatches isSpace embedded≠""
    · rw [if_pos he]
      have hpresent : textPresent embedded=true := decide_eq_true he
      exact textPresent_tagTrim hpresent
    · rw [if_neg he]
      exact h

theorem summary_visible {queries : QueryEnv} {t : StoryTables} {r : Record}
    {display : StorySummary} (h : summary queries t r locale=.ok display) :
    textPresent display.title=true ∧ (queries.parseUuid r.uuid).isSome=true := by
  have hfallback : textPresent ("Story " ++ r.uuid)=true := by
    have hletter : 'S' ∈ ("Story " ++ r.uuid).toList := by
      rw [String.toList_append]
      exact List.mem_append_left _ (by decide)
    exact textPresent_of_mem hletter (by decide)
  unfold summary at h
  cases hu : queries.parseUuid r.uuid with
  | none =>
    rw [hu] at h
    cases h
  | some uuid =>
    rw [hu] at h
    dsimp only at h
    obtain ⟨uuid',hu',h⟩ := exceptBind_ok.mp h
    cases hu'
    cases ho : officialRow t uuid locale with
    | none =>
      rw [ho] at h
      obtain ⟨info,-,h⟩ := exceptBind_ok.mp h
      cases h
      exact ⟨resolved_visible hfallback,rfl⟩
    | some found =>
      rw [ho] at h
      obtain ⟨info,-,h⟩ := exceptBind_ok.mp h
      cases h
      exact ⟨resolved_visible hfallback,rfl⟩

/-- The groups of a source: ids and names beside each other, and none but for groups. -/
structure SoundSource (source : Source) : Prop where
  positive : ∀ id ∈ source.ids, 0 < id
  distinct : source.ids.Nodup
  /-- Each id has a name. -/
  named : source.names.length=source.ids.length
  visible : ∀ name ∈ source.names, textPresent (displayNativeText name)=true
  grouped : source.ids=[] ↔ source.kind=.currentQuery ∨ source.kind=.selection

/-- What holds of the stories and the source of a resolved scope. -/
structure SoundScope (env : ScopeEnv) (r : Resolved) : Prop where
  uuids : (r.stories.map (·.uuid)).Nodup
  /-- A story that is in the library has an id of its own. -/
  ids : ∀ a ∈ r.stories, ∀ b ∈ r.stories, a.id≠0 → a.id=b.id → a.uuid=b.uuid
  /-- Ids are positive, or zero for a story that is not in the library. -/
  positive : ∀ s ∈ r.stories, 0 ≤ s.id
  titles : ∀ s ∈ r.stories, textPresent s.title=true
  /-- Identities parse. -/
  parsed : ∀ s ∈ r.stories, (env.queries.parseUuid s.uuid).isSome=true
  /-- The groups are sound. -/
  source : SoundSource r.source

theorem Approved.visible {s : ExportStory} (hl : SoundLibrary env l) (hs : Approved env l s) :
    textPresent s.title=true ∧ (env.queries.parseUuid s.uuid).isSome=true ∧ 0 ≤ s.id := by
  cases hs with
  | inl hlisted =>
    obtain ⟨row,hrow,locale,display,hdisplay,rfl⟩ := hlisted
    obtain ⟨htitle,hparse⟩ := summary_visible hdisplay
    obtain ⟨story,hstory,hrow⟩ := List.mem_flatMap.mp hrow
    obtain ⟨archive,-,rfl⟩ := List.mem_map.mp hrow
    have hpositive := hl.positive story hstory
    exact ⟨htitle,hparse,le_of_lt hpositive⟩
  | inr hmember =>
    obtain ⟨m,hm,rfl⟩ := hmember
    have hparse := hl.memberUuids m hm
    refine ⟨?_,hparse,le_rfl⟩
    change textPresent (if m.cachedTitle="" then m.storyUuid else m.cachedTitle)=true
    by_cases hempty : m.cachedTitle=""
    · rw [if_pos hempty]
      exact hl.parsed _ hparse
    · rw [if_neg hempty]
      exact (hl.memberTitles m hm).resolve_left hempty

theorem Approved.same {a b : ExportStory} (hl : SoundLibrary env l) (ha : Approved env l a)
    (hb : Approved env l b) (hid : a.id≠0) (h : a.id=b.id) : a.uuid=b.uuid := by
  cases ha with
  | inr hmember =>
    obtain ⟨m,-,rfl⟩ := hmember
    exact absurd rfl hid
  | inl hrowA =>
    cases hb with
    | inr hmember =>
      obtain ⟨m,-,rfl⟩ := hmember
      exact absurd h hid
    | inl hrowB =>
      obtain ⟨rowA,hlistedA,_,_,_,rfl⟩ := hrowA
      obtain ⟨rowB,hlistedB,_,_,_,rfl⟩ := hrowB
      have hrow := listed_eq_of_id hl.keyed hlistedA hlistedB h
      rw [hrow]
      rfl

theorem RowsSound.scope {rows : Rows} (hl : SoundLibrary env l) (hr : RowsSound env l rows)
    {source : Source} (hsource : SoundSource source) :
    SoundScope env ⟨source,rows.stories,rows.overlap⟩ where
  uuids := hr.uuids
  ids a ha b hb := (hr.approved a ha).same hl (hr.approved b hb)
  positive s hs := ((hr.approved s hs).visible hl).2.2
  titles s hs := ((hr.approved s hs).visible hl).1
  parsed s hs := ((hr.approved s hs).visible hl).2.1
  source := hsource

theorem ungrouped_sound {kind : ExportScopeKind} (h : kind=.currentQuery ∨ kind=.selection) :
    SoundSource ⟨kind,[],[]⟩ where
  positive _ hid := absurd hid List.not_mem_nil
  distinct := List.nodup_nil
  named := rfl
  visible _ hname := absurd hname List.not_mem_nil
  grouped := ⟨fun _ => h,fun _ => rfl⟩

theorem grouped_sound {kind : ExportScopeKind} {ids : List ℤ} {names : List (List UInt8)}
    (hkind : ¬(kind=.currentQuery ∨ kind=.selection)) (hpositive : ∀ id ∈ ids, 0 < id)
    (hdistinct : ids.Nodup) (hsome : ids≠[]) (hnamed : names.length=ids.length)
    (hvisible : ∀ name ∈ names, textPresent (displayNativeText name)=true) :
    SoundSource ⟨kind,ids,names⟩ where
  positive := hpositive
  distinct := hdistinct
  named := hnamed
  visible := hvisible
  grouped := ⟨fun h => absurd h hsome,fun h => absurd h hkind⟩

theorem unique_ok {ids ids' : List ℤ} (h : unique ids=.ok ids') :
    ids'=ids ∧ (∀ id ∈ ids, 0 < id) ∧ ids.Nodup ∧ ids≠[] := by
  unfold unique at h
  by_cases hc : (ids.all (0<·))=true ∧ ids.Nodup ∧ ids≠[]
  · rw [if_pos hc] at h
    cases h
    exact ⟨rfl,fun id hid => of_decide_eq_true (List.all_eq_true.mp hc.1 id hid),hc.2⟩
  · rw [if_neg hc] at h
    cases h

theorem shelfName_visible (hl : SoundLibrary env l) {shelf : ShelfRow} (h : shelf ∈ l.shelves) :
    textPresent (displayNativeText (bytes shelf.name.toList))=true := by
  rw [displayNativeText_bytes,String.ofList_toList]
  exact hl.shelfNames shelf h

theorem readMembers_sound (hl : SoundLibrary env l) {id : ℤ} {rows rows' : Rows} {name : List UInt8}
    (hr : RowsSound env l rows) (h : readMembers env l locale rows id=.ok (name,rows')) :
    RowsSound env l rows' ∧ textPresent (displayNativeText name)=true := by
  obtain ⟨group,-,h⟩ := exceptBind_ok.mp h
  obtain ⟨⟨text,rows₁⟩,hc,h⟩ := exceptBind_ok.mp h
  cases h
  obtain ⟨hrows,shelf,hshelf,rfl⟩ := curated_sound hl.keyed hr hc
  exact ⟨hrows,shelfName_visible hl hshelf⟩

theorem resolve_sound (hl : SoundLibrary env l) {scope : Scope} {r : Resolved}
    (h : resolve env l locale scope=.ok r) : SoundScope env r := by
  have hempty : RowsSound env l ⟨[],0,0⟩ :=
    ⟨fun s hs => absurd hs List.not_mem_nil,List.nodup_nil⟩
  obtain ⟨⟨source,rows⟩,hfound,h⟩ := exceptBind_ok.mp h
  cases h
  cases scope with
  | currentQuery request =>
    obtain ⟨⟨visited,rows₁⟩,hv,hfound⟩ := exceptBind_ok.mp hfound
    cases hfound
    exact (visitScope_sound hl.keyed hempty hv).scope hl (ungrouped_sound (.inl rfl))
  | selection ids =>
    unfold resolveRows at hfound
    dsimp only at hfound
    obtain ⟨hlow,hfound⟩ := checked_ok.mp hfound
    obtain ⟨⟨visited,found⟩,hv,hfound⟩ := exceptBind_ok.mp hfound
    obtain ⟨rows₁,hs,hfound⟩ := exceptBind_ok.mp hfound
    cases hfound
    have hrows := selectStories_sound _ (visitScope_collects hl.keyed hv) hempty hs
    exact hrows.scope hl (ungrouped_sound (.inr rfl))
  | collections ids =>
    obtain ⟨ids',hu,hfound⟩ := exceptBind_ok.mp hfound
    obtain ⟨⟨names,rows₁⟩,hg,hfound⟩ := exceptBind_ok.mp hfound
    cases hfound
    obtain ⟨rfl,hpositive,hdistinct,hsome⟩ := unique_ok hu
    have hgroup : ∀ id rows rows' name, RowsSound env l rows →
        readCollection env l locale rows id=.ok (name,rows') →
        RowsSound env l rows' ∧ textPresent (displayNativeText name)=true := by
      intro id rows rows' name hr hread
      obtain ⟨hrows,c,hc,rfl⟩ := readCollection_sound hl.keyed hr hread
      exact ⟨hrows,hl.collectionNames c hc⟩
    obtain ⟨hrows,hlength,hnames⟩ := resolveGroups_sound hgroup _ hempty
      (fun name hname => absurd hname List.not_mem_nil) hg
    rw [List.length_nil,Nat.zero_add] at hlength
    exact hrows.scope hl (grouped_sound (by decide) hpositive hdistinct hsome hlength hnames)
  | shelves ids =>
    obtain ⟨ids',hu,hfound⟩ := exceptBind_ok.mp hfound
    obtain ⟨⟨names,rows₁⟩,hg,hfound⟩ := exceptBind_ok.mp hfound
    cases hfound
    obtain ⟨rfl,hpositive,hdistinct,hsome⟩ := unique_ok hu
    obtain ⟨hrows,hlength,hnames⟩ := resolveGroups_sound
      (fun _ _ _ _ hr hread => readMembers_sound hl hr hread) _ hempty
      (fun name hname => absurd hname List.not_mem_nil) hg
    rw [List.length_nil,Nat.zero_add] at hlength
    exact hrows.scope hl (grouped_sound (by decide) hpositive hdistinct hsome hlength hnames)
  | shelfResult shelf request =>
    obtain ⟨⟨name,rows₁⟩,hc,hfound⟩ := exceptBind_ok.mp hfound
    cases hfound
    obtain ⟨hrows,row,hrow,rfl⟩ := curated_sound hl.keyed hempty hc
    refine hrows.scope hl (grouped_sound (by decide) ?_ (List.nodup_singleton _)
      (List.cons_ne_nil _ _) rfl ?_)
    · intro id hid
      exact List.mem_singleton.mp hid ▸ shelf.property
    · intro name hname
      exact List.mem_singleton.mp hname ▸ shelfName_visible hl hrow
  | shelfSelection shelf uuids =>
    obtain ⟨⟨name,rows₁⟩,hc,hfound⟩ := exceptBind_ok.mp hfound
    cases hfound
    exact (curated_sound hl.keyed hempty hc).1.scope hl (ungrouped_sound (.inr rfl))

end Soundness

end Librairii.ExportScopes
