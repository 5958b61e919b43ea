import Librairii.FrozenText
import Librairii.QueryCompilation

/-!
# Pages of stories

A search counts the matching stories and shows one page of them; a visit goes through all
of them in the same order. A deep page ordered by name selects the ids of the page first
and joins the stories to them again. Both statements show the same part of the visited
sequence, and a page behind the last one is empty without computing its offset.
-/

namespace Librairii.StoryPages

open FrozenText CheckedResults CatalogRows StoryRows StoryStatements CanonicalQuery QueryRequests
  StoryQueries QueryCompilation
open SavedQuery hiding validateReferences validateBranches

/-- The columns of a record. -/
structure Record where
  id : ℤ
  uuid : String
  title : String
  description : String
  artwork : String
  created : String
  filename : List UInt8
  checksum : String
  path : List UInt8
  format : String
  bytes : ℤ
  validation : ValidationState
  broken : Bool
  deriving DecidableEq

/-- Where the displayed texts come from. -/
structure DisplaySources where
  title : String
  description : String
  author : String
  artwork : String
  deriving DecidableEq

/-- What the catalog knows of a story. -/
structure OfficialInfo where
  locale : String
  publisher : String
  language : String
  durationSeconds : Option ℤ
  minimumAge : Option ℤ
  maximumAge : Option ℤ
  provenance : String
  sourceRecordId : String
  sourceUpdatedAt : String
  fetchedAt : String
  activatedAt : String
  deriving DecidableEq

/-- A story as a page shows it. -/
structure StorySummary where
  broken : Bool
  id : ℤ
  uuid : String
  title : String
  description : String
  author : String
  artworkId : String
  sources : DisplaySources
  detectedFormat : String
  compatibility : String
  compatibilityReason : String
  byteSize : ℤ
  importedAt : String
  official : Option OfficialInfo
  deriving DecidableEq

/-- A page of stories. -/
structure Page where
  stories : List StorySummary
  page : ℤ
  pageSize : ℤ
  totalItems : ℤ
  totalPages : ℤ
  sort : String
  deriving DecidableEq

/-- A story as an export reads it. -/
structure ExportStory where
  broken : Bool
  id : ℤ
  uuid : String
  title : String
  originalFilename : String
  originalFilenameBytes : List UInt8
  detectedFormat : String
  sha256 : String
  byteSize : ℤ
  managedRelativePath : String
  managedRelativePathBytes : List UInt8
  verification : String
  deriving DecidableEq

/-- The normalizers of a query and the parser of identities. -/
structure QueryEnv extends RuntimeEnv where
  parseUuid : String → Option String

/-- The columns of a listed story. -/
def Record.read (row : Listed) : Record where
  id := row.story.id
  uuid := row.story.uuid
  title := row.story.embeddedTitle.getD ""
  description := row.story.embeddedDescription.getD ""
  artwork := row.story.embeddedArtworkPath.getD ""
  created := row.story.createdAt
  filename := row.archive.originalFilename
  checksum := row.archive.sha256
  path := row.archive.managedPath
  format := row.archive.detectedFormat
  bytes := row.archive.byteSize
  validation := row.archive.validationState
  broken := row.story.isBroken

/-- The official text, else the embedded one, else the fallback, with its source. -/
def resolved (official embedded fallback : String) : String×String :=
  if trimMatches isSpace official≠"" then (trimMatches isSpace official,"official")
  else if trimMatches isSpace embedded≠"" then (trimMatches isSpace embedded,"embedded")
  else (fallback,"fallback")

/-- The record of a story in the active snapshot of a locale, with the snapshot. -/
def officialRow (t : StoryTables) (uuid locale : String) : Option (Metadata×Snapshot) :=
  (t.catalog.metadata.flatMap fun m =>
    (t.catalog.snapshots.filter fun c => c.id=m.snapshot).map fun c => (m,c)).find?
      fun r => r.1.storyUuid=uuid && r.2.locale=locale && r.2.active

/-- What the catalog knows of a story. An active snapshot has an activation time. -/
def officialInfo (m : Metadata) (c : Snapshot) : Except StorageError OfficialInfo :=
  match c.activatedAt with
  | none => .error .sql
  | some activatedAt => .ok {
    locale := m.locale
    publisher := m.publisher.getD ""
    language := m.language
    durationSeconds := m.durationSeconds
    minimumAge := m.minimumAge
    maximumAge := m.maximumAge
    provenance := "lunii_catalog"
    sourceRecordId := m.sourceRecordId
    sourceUpdatedAt := m.sourceUpdatedAt.getD ""
    fetchedAt := c.fetchedAt
    activatedAt := activatedAt }

/-- Why an archive cannot be used. -/
def compatibilityReason : ValidationState → String
  | .valid => ""
  | .missing => "Managed archive bytes are missing."
  | .invalid => "Managed archive verification failed."

def summary (env : QueryEnv) (t : StoryTables) (r : Record) (locale : String) :
    Except StorageError StorySummary := do
  let uuid ← match env.parseUuid r.uuid with
    | some uuid => .ok uuid
    | none => .error invalid
  let official := officialRow t uuid locale
  let info ← match official with
    | some (m,c) => (officialInfo m c).map some
    | none => .ok none
  let text (f : Metadata → String) : String := (official.map fun o => f o.1).getD ""
  let (title,titleSource) := resolved (text (·.title)) r.title ("Story " ++ r.uuid)
  let (description,descriptionSource) :=
    resolved (text fun m => m.description.getD "") r.description ""
  let (author,authorSource) := resolved (text fun m => m.author.getD "") "" ""
  let artwork := trimMatches isSpace (text fun m => m.artworkId.getD "")
  let (artworkId,artworkSource) := if artwork≠"" then (artwork,"official")
    else if r.artwork≠"" then ("embedded:" ++ toString r.id,"embedded")
    else ("","fallback")
  return {
    broken := r.broken
    id := r.id
    uuid := r.uuid
    title := title
    description := description
    author := author
    artworkId := artworkId
    sources := ⟨titleSource,descriptionSource,authorSource,artworkSource⟩
    detectedFormat := r.format
    compatibility := compatibility r.validation
    compatibilityReason := compatibilityReason r.validation
    byteSize := r.bytes
    importedAt := r.created
    official := info }

/-- The rows a statement returns, or the refusal of the engine. -/
def execute {α : Type} : Option α → Except StorageError α
  | some rows => .ok rows
  | none => .error .sql

/-- A 64-bit integer, or an overflow. -/
def checked (n : ℤ) : Except StorageError ℤ :=
  if -2^63≤n ∧ n<2^63 then .ok n else .error .overflow

/-- The number of stories that match a request. -/
def count (env : QueryEnv) (t : StoryTables) (request : QueryRequest) (locale : String) :
    Except StorageError ℤ := do
  let (_,sql,args) ← matching env.toRuntimeEnv t request locale
  let total ← execute (executeCount t (countStatement sql) args)
  checked total

def totalPages (total pageSize : ℤ) : ℤ :=
  total/pageSize+if total%pageSize≠0 then 1 else 0

def pageSql (request : QueryRequest) (sql : List Fragment) (args : List Value)
    (locale : String) : Except StorageError (List Fragment×List Value) := do
  let (order,sql,args) := ordering request locale sql args
  let offset ← checked ((request.page.val-1)*request.pageSize.val)
  let args := args++[.integer request.pageSize.val,.integer offset]
  if 1<request.page.val ∧ request.sort≠"imported_desc" then
    return (.selectPage::sql++[.orderPage,.limit,.endPage,.record,.from,.joinPage],args)
  else return (.record::sql++[order,.limit],args)

/-- One page of the stories that match a request. -/
def search (env : QueryEnv) (t : StoryTables) (request : QueryRequest) (locale : String) :
    Except StorageError Page := do
  let (request,sql,args) ← matching env.toRuntimeEnv t request locale
  let total ← execute (executeCount t (countStatement sql) args)
  let total ← checked total
  let pages ← checked (totalPages total request.pageSize.val)
  let stories ← if request.page.val≤pages then do
      let (sql,args) ← pageSql request sql args locale
      let rows ← execute (executeRecords t sql args)
      rows.mapM fun row => summary env t (Record.read row) locale
    else pure []
  return ⟨stories,request.page.val,request.pageSize.val,total,pages,request.sort⟩

def displayText (bytes : List UInt8) : String := (fromUtf8 bytes).getD ""

def exportStory (record : Record) (display : StorySummary) : ExportStory where
  broken := record.broken
  id := record.id
  uuid := record.uuid
  title := display.title
  originalFilename := displayText record.filename
  originalFilenameBytes := record.filename
  detectedFormat := record.format
  sha256 := record.checksum
  byteSize := record.bytes
  managedRelativePath := displayText record.path
  managedRelativePathBytes := record.path
  verification := display.compatibility

/-- The bound on a counter of visited stories. -/
def maxCount : ℕ := 2^64-1

def visitRow {σ : Type} (env : QueryEnv) (t : StoryTables) (locale : String)
    (consume : σ → ExportStory → Except StorageError σ) (visited : ℕ×σ) (row : Listed) :
    Except StorageError (ℕ×σ) := do
  let display ← summary env t (Record.read row) locale
  let state ← consume visited.2 (exportStory (Record.read row) display)
  if visited.1=maxCount then .error (.queryInput .resourceOverflow)
  else .ok (visited.1+1,state)

def visitScope {σ : Type} (env : QueryEnv) (t : StoryTables) (request : QueryRequest)
    (locale : String) (consume : σ → ExportStory → Except StorageError σ) (state : σ) :
    Except StorageError (ℕ×σ) := do
  let (request,sql,args) ← matching env.toRuntimeEnv t request locale
  let (order,sql,args) := ordering request locale sql args
  let rows ← execute (executeRecords t (recordStatement sql order) args)
  rows.foldlM (visitRow env t locale consume) (0,state)

/-- Keep what is visited. -/
def collectStory (stories : List ExportStory) (story : ExportStory) :
    Except StorageError (List ExportStory) := .ok (stories++[story])

/-- The part of a sequence that a page shows. -/
def pageOf {α : Type} (rows : List α) (page size : ℤ) : List α :=
  (rows.drop ((page-1)*size).toNat).take size.toNat

section Rows

variable {t : StoryTables}

theorem listed_eq_of_id (h : Keyed t) {a b : Listed} (ha : a ∈ listed t) (hb : b ∈ listed t)
    (hid : a.story.id=b.story.id) : a=b :=
  List.inj_on_of_nodup_map (listed_ids_nodup h) ha hb hid

/-- A story of a page with its name in the page. -/
def named (row : Joined) : Listed×String :=
  (row.listed,displayName row.listed.story row.official)

theorem joined_perm (h : Keyed t) {page : List Joined} (hlisted : ∀ p ∈ page, p.listed ∈ listed t)
    (hids : (page.map fun p => p.listed.story.id).Nodup) :
    ((listed t).flatMap fun row => (page.filter fun p => p.listed.story.id=row.story.id).map
      fun p => (row,displayName p.listed.story p.official)).Perm (page.map named) := by
  have hsublist : (((listed t).flatMap fun row =>
      (page.filter fun p => p.listed.story.id=row.story.id).map
        fun p => (row,displayName p.listed.story p.official)).map fun x => x.1.story.id).Sublist
          ((listed t).map fun row => row.story.id) := by
    apply map_flatMap_sublist
    · intro row
      rw [List.length_map]
      exact filter_key_le_one hids (k := row.story.id) fun p hp => of_decide_eq_true hp
    · intro row x hx
      obtain ⟨p,-,rfl⟩ := List.mem_map.mp hx
      rfl
  have hleft := (hsublist.nodup (listed_ids_nodup h)).of_map
  have hright : (page.map named).Nodup := by
    apply List.Nodup.of_map fun x => x.1.story.id
    rwa [List.map_map]
  rw [List.perm_ext_iff_of_nodup hleft hright]
  intro x
  rw [List.mem_flatMap,List.mem_map]
  constructor
  · intro ⟨row,hrow,hx⟩
    obtain ⟨p,hp,rfl⟩ := List.mem_map.mp hx
    obtain ⟨hp,hid⟩ := List.mem_filter.mp hp
    have hsame := listed_eq_of_id h (hlisted p hp) hrow (of_decide_eq_true hid)
    exact ⟨p,hp,by rw [named,hsame]⟩
  · intro ⟨p,hp,hx⟩
    refine ⟨p.listed,hlisted p hp,List.mem_map.mpr ⟨p,?_,hx⟩⟩
    exact List.mem_filter.mpr ⟨hp,decide_eq_true rfl⟩

theorem joinPage_eq (h : Keyed t) {page : List Joined} (hlisted : ∀ p ∈ page, p.listed ∈ listed t)
    (hids : (page.map fun p => p.listed.story.id).Nodup)
    (hsorted : page.Pairwise fun a b => nameKey a≤nameKey b) :
    joinPage t page=page.map (·.listed) := by
  have hperm := joined_perm h hlisted hids
  have htotal : Std.Total fun a b : Listed×String => pageKey a≤pageKey b :=
    ⟨fun a b => le_total (pageKey a) (pageKey b)⟩
  have htrans : IsTrans (Listed×String) fun a b => pageKey a≤pageKey b :=
    ⟨fun _ _ _ => le_trans⟩
  have hnamed : (page.map named).Pairwise fun a b => pageKey a≤pageKey b :=
    List.pairwise_map.mpr hsorted
  have hantisymm : ∀ a b : Listed×String, a.1 ∈ listed t → b.1 ∈ listed t →
      pageKey a≤pageKey b → pageKey b≤pageKey a → a=b := by
    intro a b ha hb hab hba
    have hkey := le_antisymm hab hba
    rw [pageKey,pageKey,toLex_inj,Prod.mk.injEq,toLex_inj,Prod.mk.injEq] at hkey
    exact Prod.ext (listed_eq_of_id h ha hb hkey.2.2) hkey.1
  have hmem : ∀ x ∈ page.map named, x.1 ∈ listed t := by
    intro x hx
    obtain ⟨p,hp,rfl⟩ := List.mem_map.mp hx
    exact hlisted p hp
  have heq := List.Perm.eq_of_pairwise (fun a b ha hb => hantisymm a b
    (hmem a (hperm.mem_iff.mp (List.mem_insertionSort _ |>.mp ha))) (hmem b hb))
    (List.pairwise_insertionSort (fun a b : Listed×String => pageKey a≤pageKey b) _) hnamed
    ((List.perm_insertionSort _ _).trans hperm)
  rw [joinPage,heq,List.map_map]
  rfl

end Rows

section Navigation

variable {env : RuntimeEnv} {t : StoryTables} {request normal : QueryRequest} {page size : I64}

theorem normalizeNavigation_other {page' size' : I64} {sort : String} {x : I64×I64×String}
    (h : normalizeNavigation page' size' sort=.ok x) (hpage : 1≤page.val)
    (hsize : 1 ≤ size.val ∧ size.val≤100) :
    normalizeNavigation page size sort=.ok (page,size,x.2.2) := by
  have hpage' : page≠zero := by
    intro hz
    rw [hz] at hpage
    exact absurd hpage (by decide)
  have hsize' : size≠zero := by
    intro hz
    rw [hz] at hsize
    exact absurd hsize.1 (by decide)
  unfold normalizeNavigation at h ⊢
  dsimp only at h ⊢
  obtain ⟨hrange,h⟩ := checked_ok.mp h
  cases h
  rw [not_or,not_or] at hrange
  have hkept : ¬(page.val<1 ∨ ¬(1 ≤ size.val ∧ size.val≤100) ∨
      (if sort="" then "name_asc" else sort) ∉ sortNames) := by
    rw [not_or,not_or]
    exact ⟨not_lt.mpr hpage,not_not.mpr hsize,hrange.2.2⟩
  rw [if_neg hpage',if_neg hsize',if_neg hkept]

theorem normalizeRequest_navigation (h : normalizeRequest env request=.ok normal)
    {page' size' : I64} {sort' : String} {x : I64×I64×String}
    (hx : normalizeNavigation page' size' sort'=.ok x) :
    normalizeRequest env ⟨request.criteria,page',size',sort'⟩=
      .ok ⟨normal.criteria,x.1,x.2.1,x.2.2⟩ := by
  unfold normalizeRequest at h ⊢
  dsimp only
  cases hcriteria : request.criteria with
  | node own anyOf =>
    rw [hcriteria] at h
    dsimp only at h ⊢
    obtain ⟨left,hleft,h⟩ := exceptBind_ok.mp h
    obtain ⟨branches,hbranches,h⟩ := exceptBind_ok.mp h
    obtain ⟨navigation,-,h⟩ := exceptBind_ok.mp h
    obtain ⟨own',hown,h⟩ := exceptBind_ok.mp h
    cases h
    rw [bind_of_ok hleft,bind_of_ok hbranches,bind_of_ok hx,bind_of_ok hown]

theorem navigation_of_normalizeRequest (h : normalizeRequest env request=.ok normal) :
    normalizeNavigation request.page request.pageSize request.sort=
      .ok (normal.page,normal.pageSize,normal.sort) := by
  unfold normalizeRequest at h
  obtain ⟨⟨own,anyOf⟩,page,pageSize,sort⟩ := request
  dsimp only at h ⊢
  obtain ⟨left,-,h⟩ := exceptBind_ok.mp h
  obtain ⟨branches,-,h⟩ := exceptBind_ok.mp h
  obtain ⟨navigation,hnavigation,h⟩ := exceptBind_ok.mp h
  obtain ⟨own',-,h⟩ := exceptBind_ok.mp h
  cases h
  exact hnavigation

variable {locale : String} {sql : List Fragment} {args : List Value}

/-- Accepted criteria are compiled to the same text and values with any accepted navigation. -/
theorem matching_navigation (h : matching env t request locale=.ok (normal,sql,args))
    {page' size' : I64} {sort' : String} {x : I64×I64×String}
    (hx : normalizeNavigation page' size' sort'=.ok x) :
    matching env t ⟨request.criteria,page',size',sort'⟩ locale=
      .ok (⟨normal.criteria,x.1,x.2.1,x.2.2⟩,sql,args) := by
  have hnormal := normalizeRequest_navigation (matching_ok h).1 hx
  unfold matching at h ⊢
  obtain ⟨normal',hnormal',h⟩ := exceptBind_ok.mp h
  obtain ⟨⟨⟩,hreferences,h⟩ := exceptBind_ok.mp h
  cases h
  rw [hnormal]
  change (validateReferences t.tags normal.criteria >>= _)=_
  rw [bind_of_ok hreferences]
  rfl

/-- Another page of an accepted request is compiled to the same text and values. -/
theorem matching_other (h : matching env t request locale=.ok (normal,sql,args))
    (hpage : 1≤page.val) (hsize : 1 ≤ size.val ∧ size.val≤100) :
    matching env t { request with page := page, pageSize := size } locale=
      .ok ({ normal with page := page, pageSize := size },sql,args) :=
  matching_navigation h (normalizeNavigation_other
    (navigation_of_normalizeRequest (matching_ok h).1) hpage hsize)

end Navigation

theorem totalPages_bounds (total : ℤ) {size : ℤ} (hsize : 0<size) :
    (totalPages total size-1)*size<total ∧ total≤totalPages total size*size := by
  have hdiv := Int.mul_ediv_add_emod total size
  have hpos := Int.emod_nonneg total hsize.ne'
  have hlt := Int.emod_lt_of_pos total hsize
  rw [mul_comm] at hdiv
  unfold totalPages
  by_cases hrest : total%size≠0
  · rw [if_pos hrest,add_sub_cancel_right,add_mul,one_mul]
    omega
  · rw [if_neg hrest,add_zero,sub_mul,one_mul]
    omega

theorem totalPages_ceil (total : ℤ) {size : ℤ} (hsize : 0<size) :
    totalPages total size=⌈(total/size : ℚ)⌉ := by
  have hbounds := totalPages_bounds total hsize
  have hpos : (0 : ℚ)<size := Int.cast_pos.mpr hsize
  symm
  rw [Int.ceil_eq_iff,lt_div_iff₀ hpos,div_le_iff₀ hpos]
  exact_mod_cast hbounds

theorem pageOf_behind {α : Type} {rows : List α} {page size : ℤ} (hsize : 0<size)
    (h : totalPages rows.length size<page) : pageOf rows page size=[] := by
  have hbounds := (totalPages_bounds rows.length hsize).2
  have hpages : totalPages rows.length size*size≤(page-1)*size :=
    mul_le_mul_of_nonneg_right (by omega) hsize.le
  rw [pageOf,List.drop_eq_nil_of_le,List.take_nil]
  omega

section Execution

variable {t : StoryTables} {locale : String} {request : QueryRequest}

/-- The selected rows of a request, with the records joined to them. -/
noncomputable def selectedRows (t : StoryTables) (locale : String) (request : QueryRequest) :
    List Joined :=
  (matchingRows t locale request.criteria none).map (withOfficial t (orderedJoin request locale))

/-- The stories of a request in its order. -/
noncomputable def orderedStories (t : StoryTables) (locale : String) (request : QueryRequest) :
    List Listed := (orderedBy request (selectedRows t locale request)).map (·.listed)

theorem selectedRows_listed {row : Joined} (h : row ∈ selectedRows t locale request) :
    row.listed ∈ listed t := by
  obtain ⟨x,hx,rfl⟩ := List.mem_map.mp h
  rw [withOfficial_listed]
  exact List.mem_of_mem_filter hx

theorem selectedRows_ids (h : Keyed t) :
    ((selectedRows t locale request).map fun p => p.listed.story.id).Nodup := by
  have hids : (selectedRows t locale request).map (fun p => p.listed.story.id)=
      (matchingRows t locale request.criteria none).map fun row => row.story.id := by
    rw [selectedRows,List.map_map]
    apply List.map_congr_left
    intro row _
    rw [Function.comp_apply,withOfficial_listed]
  rw [hids]
  exact (List.filter_sublist.map _).nodup (listed_ids_nodup h)

theorem orderedStories_perm :
    (orderedStories t locale request).Perm (matchingRows t locale request.criteria none) := by
  have hsame : (selectedRows t locale request).map (·.listed)=
      matchingRows t locale request.criteria none := by
    rw [selectedRows,List.map_map]
    conv_rhs => rw [← List.map_id (matchingRows t locale request.criteria none)]
    exact List.map_congr_left fun row _ => withOfficial_listed t _ row
  rw [← hsame]
  exact (orderedBy_perm request _).map _

theorem length_orderedStories :
    (orderedStories t locale request).length=
      (matchingRows t locale request.criteria none).length := orderedStories_perm.length_eq

theorem length_orderedStories_lt (h : Keyed t) :
    ((orderedStories t locale request).length : ℤ)<2^63 := by
  have hmatching : (matchingRows t locale request.criteria none).length≤(listed t).length :=
    List.filter_sublist.length_le
  have hlisted := length_listed h
  have hcounted := h.counted
  rw [length_orderedStories]
  omega

/-- A page of rows keeps their order. -/
theorem limited_sublist {α : Type} (count offset : ℤ) (rows : List α) :
    (limited count offset rows).Sublist rows := by
  unfold limited
  split
  · exact List.drop_sublist _ _
  · exact (List.take_sublist _ _).trans (List.drop_sublist _ _)

theorem limited_pageOf {α β : Type} (f : α → β) {page size : ℤ} (hsize : 0 ≤ size) (rows : List α) :
    (limited size ((page-1)*size) rows).map f=pageOf (rows.map f) page size := by
  rw [limited,if_neg (not_lt.mpr hsize),pageOf,List.map_take,List.map_drop]

theorem orderByName_sorted (rows : List Joined) :
    (orderByName rows).Pairwise fun a b => nameKey a≤nameKey b := by
  have htotal : Std.Total fun a b : Joined => nameKey a≤nameKey b :=
    ⟨fun a b => le_total (nameKey a) (nameKey b)⟩
  have htrans : IsTrans Joined fun a b => nameKey a≤nameKey b := ⟨fun _ _ _ => le_trans⟩
  exact List.pairwise_insertionSort _ _

theorem joinPage_limited (h : Keyed t) (count offset : ℤ) :
    joinPage t (limited count offset (orderByName (selectedRows t locale request)))=
      (limited count offset (orderByName (selectedRows t locale request))).map (·.listed) := by
  have hsublist := limited_sublist count offset (orderByName (selectedRows t locale request))
  have hperm := List.perm_insertionSort (fun a b => nameKey a≤nameKey b)
    (selectedRows t locale request)
  apply joinPage_eq h
  · intro p hp
    exact selectedRows_listed (hperm.mem_iff.mp (hsublist.subset hp))
  · exact (hsublist.map _).nodup ((hperm.map _).nodup_iff.mpr (selectedRows_ids h))
  · exact (orderByName_sorted _).sublist hsublist

def deepTail (count offset : ℤ) : List Bound :=
  [(.orderPage,[]),(.limit,[.integer count,.integer offset]),(.endPage,[]),(.record,[]),(.from,[]),
    (.joinPage,[])]

theorem length_deepTail (count offset : ℤ) : ∀ b ∈ deepTail count offset, b.2.length=b.1.arity := by
  simp only [deepTail,List.forall_mem_cons]
  exact ⟨rfl,rfl,rfl,rfl,rfl,rfl,List.forall_mem_nil _⟩

theorem executeRecords_deep (ht : Keyed t) (h : ∀ own ∈ members request.criteria, Admitted own)
    (hsort : request.sort≠"imported_desc") (count offset : ℤ) :
    executeRecords t (.selectPage::(sqlOf ⟨orderedJoin request locale,
        whereTests request.criteria none⟩++(deepTail count offset).map (·.1)))
      (argsOf ⟨orderedJoin request locale,whereTests request.criteria none⟩++
        (deepTail count offset).flatMap (·.2))=
      some ((limited count offset (orderByName (selectedRows t locale request))).map
        (·.listed)) := by
  have hbounds : ∀ b ∈ (.selectPage,[])::(Selection.bounds ⟨orderedJoin request locale,
      whereTests request.criteria none⟩++deepTail count offset), b.2.length=b.1.arity := by
    rw [List.forall_mem_cons,List.forall_mem_append]
    exact ⟨rfl,Selection.length_bounds _,length_deepTail count offset⟩
  have hbind := bind_bounds _ hbounds
  rw [List.map_cons,List.flatMap_cons,List.map_append,List.flatMap_append,List.nil_append]
    at hbind
  have hselection := @selection_bounds ⟨orderedJoin request locale,
    whereTests request.criteria none⟩ (deepTail count offset) (by
      intro b hb
      cases Option.mem_some_iff.mp hb
      rfl)
  have hrows := selectRows_tests ht h (orderedJoin_of_uses request locale) none
  have hjoin : orderedJoin request locale≠none := by
    rw [orderedJoin,if_neg hsort]
    exact Option.some_ne_none _
  rw [executeRecords,sqlOf,argsOf,hbind]
  change (selection _ >>= _)=_
  rw [hselection]
  change (selectRows t _ >>= _)=_
  rw [hrows]
  change (if orderedJoin request locale=none then none
    else some (joinPage t (limited count offset (orderByName (selectedRows t locale request)))))=_
  rw [if_neg hjoin,joinPage_limited ht]

theorem pageSql_ok (ht : Keyed t) (h : ∀ own ∈ members request.criteria, Admitted own)
    (hsize : 0≤request.pageSize.val) (hoffset : checked ((request.page.val-1)*request.pageSize.val)=
      .ok ((request.page.val-1)*request.pageSize.val)) :
    ∃ sql args, pageSql request
        (sqlOf ⟨joinedFor request.criteria locale,whereTests request.criteria none⟩)
        (argsOf ⟨joinedFor request.criteria locale,whereTests request.criteria none⟩) locale=
          .ok (sql,args) ∧ executeRecords t sql args=
            some (pageOf (orderedStories t locale request) request.page.val
              request.pageSize.val) := by
  unfold pageSql
  rw [ordering_eq]
  dsimp only
  rw [bind_of_ok hoffset]
  by_cases hdeep : 1<request.page.val ∧ request.sort≠"imported_desc"
  · have hrecords := @executeRecords_deep t locale request ht h hdeep.2 request.pageSize.val
      ((request.page.val-1)*request.pageSize.val)
    rw [if_pos hdeep]
    refine ⟨_,_,rfl,hrecords.trans ?_⟩
    rw [orderedStories,orderedBy,if_neg hdeep.2,limited_pageOf _ hsize]
  · have hlimit : orderRows ⟨orderedJoin request locale,whereTests request.criteria none⟩
        (selectedRows t locale request) [(orderOf request,[]),(.limit,
          [.integer request.pageSize.val,.integer ((request.page.val-1)*request.pageSize.val)])]=
        some (limited request.pageSize.val ((request.page.val-1)*request.pageSize.val)
          (orderedBy request (selectedRows t locale request))) := by
      rw [orderRows_orderOf]
      rfl
    have hlength : ∀ b ∈ [((orderOf request,[]) : Bound),(.limit,
        [.integer request.pageSize.val,.integer ((request.page.val-1)*request.pageSize.val)])],
        b.2.length=b.1.arity := by
      rw [List.forall_mem_cons,List.forall_mem_singleton,arity_orderOf]
      exact ⟨rfl,rfl⟩
    have hrecords := executeRecords_tests ht h (orderedJoin_of_uses request locale) none hlength
      (by
        intro b hb
        cases Option.mem_some_iff.mp hb
        exact continues_orderOf request) hlimit
    rw [if_neg hdeep]
    refine ⟨_,_,rfl,?_⟩
    rw [List.flatMap_cons,List.nil_append,List.flatMap_singleton] at hrecords
    refine hrecords.trans ?_
    rw [orderedStories,limited_pageOf _ hsize]

end Execution

section Partition

variable {env : QueryEnv} {t : StoryTables} {locale : String} {request normal : QueryRequest}
  {sql : List Fragment} {args : List Value}

/-- A number in the range is kept. -/
theorem checked_ok {n : ℤ} (hlow : 0≤n) (hhigh : n<2^63) : checked n=.ok n := by
  unfold checked
  rw [if_pos]
  omega

theorem executeRecords_ordered (ht : Keyed t) {request : QueryRequest}
    (h : ∀ own ∈ members request.criteria, Admitted own) :
    executeRecords t (recordStatement (sqlOf ⟨orderedJoin request locale,
        whereTests request.criteria none⟩) (orderOf request))
      (argsOf ⟨orderedJoin request locale,whereTests request.criteria none⟩)=
        some (orderedStories t locale request) := by
  have hlength : ∀ b ∈ [((orderOf request,[]) : Bound)], b.2.length=b.1.arity := by
    rw [List.forall_mem_singleton,arity_orderOf]
    rfl
  have hrecords := executeRecords_tests ht h (orderedJoin_of_uses request locale) none hlength
    (by
      intro b hb
      cases Option.mem_some_iff.mp hb
      exact continues_orderOf request) (orderRows_orderOf request locale _ _ [])
  rw [List.flatMap_singleton,List.append_nil] at hrecords
  exact hrecords

theorem visitScope_eq (ht : Keyed t)
    (h : matching env.toRuntimeEnv t request locale=.ok (normal,sql,args)) {σ : Type}
    (consume : σ → ExportStory → Except StorageError σ) (state : σ) :
    visitScope env t request locale consume state=
      (orderedStories t locale normal).foldlM (visitRow env t locale consume) (0,state) := by
  obtain ⟨hnormal,-,rfl,rfl⟩ := matching_ok h
  have hrecords := @executeRecords_ordered t locale ht normal (normalizeRequest_admitted hnormal)
  unfold visitScope
  rw [bind_of_ok h]
  dsimp only
  rw [ordering_eq]
  dsimp only
  rw [hrecords]
  rfl

theorem totalPages_range {total size : ℤ} (htotal : 0≤total) (hsize : 1 ≤ size) :
    0≤totalPages total size ∧ totalPages total size≤total := by
  have hbounds := totalPages_bounds total (show 0<size by omega)
  have hlow : 0≤totalPages total size := by
    have hdiv := Int.ediv_nonneg htotal (show 0 ≤ size by omega)
    unfold totalPages
    split <;> omega
  refine ⟨hlow,?_⟩
  by_cases hzero : totalPages total size=0
  · omega
  · have hle : totalPages total size-1≤(totalPages total size-1)*size :=
      le_mul_of_one_le_right (by omega) hsize
    omega

theorem offset_ok {total page size : ℤ} (hsize : 1 ≤ size) (hlt : total<2^63) (hpage : 1≤page)
    (h : page≤totalPages total size) : checked ((page-1)*size)=.ok ((page-1)*size) := by
  have hbounds := totalPages_bounds total (show 0<size by omega)
  have hle : (page-1)*size≤(totalPages total size-1)*size :=
    mul_le_mul_of_nonneg_right (by omega) (by omega)
  exact checked_ok (mul_nonneg (by omega) (by omega)) (by omega)

theorem executeCount_ordered (ht : Keyed t) (h : ∀ own ∈ members normal.criteria, Admitted own) :
    execute (executeCount t (countStatement (sqlOf ⟨joinedFor normal.criteria locale,
      whereTests normal.criteria none⟩)) (argsOf ⟨joinedFor normal.criteria locale,
        whereTests normal.criteria none⟩))=.ok (orderedStories t locale normal).length := by
  rw [executeCount_tests ht h (joinedFor_of_uses normal.criteria locale) none,
    length_orderedStories]
  rfl

theorem count_eq (ht : Keyed t)
    (h : matching env.toRuntimeEnv t request locale=.ok (normal,sql,args)) :
    count env t request locale=.ok (orderedStories t locale normal).length := by
  obtain ⟨hnormal,-,rfl,rfl⟩ := matching_ok h
  have hcount := @executeCount_ordered t locale normal ht (normalizeRequest_admitted hnormal)
  unfold count
  rw [bind_of_ok h]
  dsimp only
  rw [bind_of_ok hcount]
  exact checked_ok (by omega) (length_orderedStories_lt ht)

theorem search_eq (ht : Keyed t)
    (h : matching env.toRuntimeEnv t request locale=.ok (normal,sql,args))
    (hpage : 1≤normal.page.val) (hsize : 1≤normal.pageSize.val) :
    search env t request locale=
      ((pageOf (orderedStories t locale normal) normal.page.val normal.pageSize.val).mapM
        fun row => summary env t (Record.read row) locale).map fun stories =>
          ⟨stories,normal.page.val,normal.pageSize.val,(orderedStories t locale normal).length,
            totalPages (orderedStories t locale normal).length normal.pageSize.val,
            normal.sort⟩ := by
  obtain ⟨hnormal,-,rfl,rfl⟩ := matching_ok h
  have hadmitted := normalizeRequest_admitted hnormal
  have hcount := @executeCount_ordered t locale normal ht hadmitted
  have hlt := @length_orderedStories_lt t locale normal ht
  have hnonneg : (0 : ℤ)≤(orderedStories t locale normal).length := by omega
  have hrange := totalPages_range hnonneg hsize
  unfold search
  rw [bind_of_ok h]
  dsimp only
  rw [bind_of_ok hcount,bind_of_ok (checked_ok hnonneg hlt),
    bind_of_ok (checked_ok hrange.1 (by omega))]
  by_cases hinside : normal.page.val≤
      totalPages (orderedStories t locale normal).length normal.pageSize.val
  · obtain ⟨sql,args,hsql,hrecords⟩ := @pageSql_ok t locale normal ht hadmitted (by omega)
      (offset_ok hsize hlt hpage hinside)
    have hrows : execute (executeRecords t sql args)=.ok (pageOf (orderedStories t locale normal)
        normal.page.val normal.pageSize.val) := by
      rw [hrecords]
      rfl
    rw [if_pos hinside,bind_of_ok hsql,bind_of_ok hrows]
    cases (pageOf (orderedStories t locale normal) normal.page.val
        normal.pageSize.val).mapM fun row => summary env t (Record.read row) locale with
    | error e => rfl
    | ok stories => rfl
  · rw [if_neg hinside,pageOf_behind (by omega) (not_le.mp hinside)]
    rfl

/-- A visited sequence has every story shown, and what is kept of it is kept in order. -/
theorem collected {β : Type} {f : ExportStory → β} {rows : List Listed}
    {visited visited' : ℕ×List β}
    (h : rows.foldlM (visitRow env t locale fun kept story => .ok (kept++[f story])) visited=
      .ok visited') :
    ∃ items : List (Listed×StorySummary), items.map (·.1)=rows ∧
      (∀ item ∈ items, summary env t (Record.read item.1) locale=.ok item.2) ∧
      visited'.1=visited.1+items.length ∧
      visited'.2=visited.2++items.map fun item => f (exportStory (Record.read item.1) item.2) := by
  induction rows generalizing visited with
  | nil =>
    cases h
    exact ⟨[],rfl,List.forall_mem_nil _,rfl,(List.append_nil _).symm⟩
  | cons row rows ih =>
    rw [List.foldlM_cons] at h
    obtain ⟨next,hnext,h⟩ := exceptBind_ok.mp h
    unfold visitRow at hnext
    obtain ⟨display,hdisplay,hnext⟩ := exceptBind_ok.mp hnext
    obtain ⟨state,hstate,hnext⟩ := exceptBind_ok.mp hnext
    cases hstate
    by_cases hfull : visited.1=maxCount
    · rw [if_pos hfull] at hnext
      cases hnext
    · rw [if_neg hfull] at hnext
      cases hnext
      obtain ⟨items,rfl,hitems,hcount,hstories⟩ := ih h
      refine ⟨(row,display)::items,rfl,List.forall_mem_cons.mpr ⟨hdisplay,hitems⟩,?_,?_⟩
      · rw [hcount,List.length_cons]
        omega
      · rw [hstories,List.append_assoc]
        rfl

theorem pageOf_map {α β : Type} (f : α → β) (rows : List α) (page size : ℤ) :
    pageOf (rows.map f) page size=(pageOf rows page size).map f := by
  rw [pageOf,pageOf,List.map_take,List.map_drop]

/-- Steps that succeed on a sequence succeed on each of its pages. -/
theorem mapM_pageOf {α β ε : Type} {f : α → Except ε β} {items : List (α×β)}
    (h : ∀ item ∈ items, f item.1=.ok item.2) (page size : ℤ) :
    (pageOf (items.map (·.1)) page size).mapM f=.ok (pageOf (items.map (·.2)) page size) := by
  have hpage : ∀ item ∈ pageOf items page size, f item.1=.ok item.2 := by
    intro item hitem
    exact h item (List.mem_of_mem_drop (List.mem_of_mem_take hitem))
  rw [pageOf_map,pageOf_map,List.mapM_map]
  exact mapM_ok hpage

/-- Rows that a visit goes through, and whose parts every page shows. -/
structure Partitioned (env : QueryEnv) (t : StoryTables) (request : QueryRequest)
    (locale sort : String) (rows : List Listed) : Prop where
  /-- A visit goes through the rows. -/
  visited : ∀ {σ : Type} (consume : σ → ExportStory → Except StorageError σ) (state : σ),
    visitScope env t request locale consume state=
      rows.foldlM (visitRow env t locale consume) (0,state)
  /-- A page shows its part of the rows, and the number of rows and pages. -/
  searched : ∀ page size : I64, 1≤page.val → 1 ≤ size.val → size.val≤100 →
    search env t { request with page := page, pageSize := size } locale=
      ((pageOf rows page.val size.val).mapM fun row => summary env t (Record.read row) locale).map
        fun stories => ⟨stories,page.val,size.val,rows.length,⌈(rows.length/size.val : ℚ)⌉,sort⟩
  behind : ∀ page size : ℤ, 1 ≤ size → ⌈(rows.length/size : ℚ)⌉<page → pageOf rows page size=[]

/-- The ordered stories of an accepted request are visited, and every page shows its part of
them. -/
theorem orderedStories_partitioned (ht : Keyed t)
    (h : matching env.toRuntimeEnv t request locale=.ok (normal,sql,args)) :
    Partitioned env t request locale normal.sort (orderedStories t locale normal) := by
  have hceil : ∀ (total : ℕ) {size : ℤ}, 1 ≤ size → totalPages total size=⌈(total/size : ℚ)⌉ := by
    intro total size hsize
    have hceil := totalPages_ceil total (show 0<size by omega)
    rwa [Int.cast_natCast] at hceil
  refine ⟨visitScope_eq ht h,?_,?_⟩
  · intro page size hpage hlow hhigh
    have hsearch := search_eq ht (matching_other h hpage ⟨hlow,hhigh⟩) hpage hlow
    rw [← hceil _ hlow]
    exact hsearch
  · intro page size hsize hbehind
    rw [← hceil _ hsize] at hbehind
    exact pageOf_behind (by omega) hbehind

/-- The pages of an accepted request partition the rows that a visit goes through. When the
visit succeeds, every page shows its part of the produced sequence. -/
theorem pages_partition (env : QueryEnv) (t : StoryTables) (ht : Keyed t) (request : QueryRequest)
    (locale : String) (normal : QueryRequest) (sql : List Fragment) (args : List Value)
    (h : matching env.toRuntimeEnv t request locale=.ok (normal,sql,args)) :
    ∃ rows, Partitioned env t request locale normal.sort rows ∧
      ∀ n stories, visitScope env t request locale collectStory []=.ok (n,stories) →
        n=stories.length ∧ ∃ items : List (Listed×StorySummary), items.map (·.1)=rows ∧
          stories=items.map (fun item => exportStory (Record.read item.1) item.2) ∧
          ∀ page size : I64, 1≤page.val → 1 ≤ size.val → size.val≤100 →
            search env t { request with page := page, pageSize := size } locale=
              .ok ⟨pageOf (items.map (·.2)) page.val size.val,page.val,size.val,stories.length,
                ⌈(stories.length/size.val : ℚ)⌉,normal.sort⟩ := by
  have hpartitioned := orderedStories_partitioned ht h
  refine ⟨orderedStories t locale normal,hpartitioned,?_⟩
  intro n stories hstories
  rw [hpartitioned.visited] at hstories
  obtain ⟨items,hrows,hitems,hcount,rfl⟩ := @collected env t locale _ id _ _ _ hstories
  rw [List.nil_append,List.length_map] at *
  refine ⟨?_,items,hrows,rfl,?_⟩
  · omega
  · intro page size hpage hlow hhigh
    rw [hpartitioned.searched page size hpage hlow hhigh,← hrows,mapM_pageOf hitems,
      List.length_map]
    rfl

end Partition

/-- Normalizers that keep what is already normalized. -/
def plainQueries : QueryEnv := { plainRuntime with parseUuid := some }

theorem pages_partition_named :
    ∃ rows, Partitioned plainQueries oneStory namedRequest "fr-FR" "name_asc" rows :=
  (pages_partition plainQueries oneStory keyed_oneStory namedRequest "fr-FR" namedNormal _ _
    matching_named).imp fun _ h => h.1

end Librairii.StoryPages
