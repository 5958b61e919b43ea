import Librairii.ExportPreparation

/-!
# Operations that start prepared exports

The operation of a plan has one item per story. An item that is not ready is planned in its
terminal state; a ready item is copied later. The operation is validated again before it is
submitted, with predicates of its own and with a budget of its own: the bytes its texts and
lists retain. A sound plan passes every check but the budget.
-/

namespace Librairii.ExportStarts

open CheckedResults OperationRows OperationPolicy OperationCreation FrozenText JsonText
  DisplayNames ArchiveFormats QueryRequests StoryRows StoryPages SavedQueryRoundTrip
  QueryCompilation CollectionViews
open ExportScopes hiding Library
open ExportPlans hiding Plan
open ExportPreparation hiding step run

/-- What preparing and starting exports reads from third parties. -/
structure StartEnv extends ScopeEnv where
  /-- Serializer of id arrays. -/
  idsText : List ℤ → String
  /-- Serializer of name arrays. -/
  namesText : List String → String

def maxCommandBytes : ℕ := 16*1024*1024

def newItemSizes (alloc : Allocation) (item : NewItem) : List ℕ :=
  (match item.planned with
    | none => []
    | some plan => [(plan.outcome.code.map alloc.text).getD 0,
        (plan.outcome.message.map alloc.text).getD 0])++
    [alloc.octets item.outputName.bytes,alloc.octets item.archiveRelativePath.bytes,
      alloc.text item.storyUuid,alloc.text item.storyTitle,alloc.text item.sourceName,
      alloc.text item.archiveSha256,alloc.text item.exportSkipCode]

def exportSourceSizes (alloc : Allocation) (source : ExportSource) : List ℕ :=
  [alloc.vector source.collectionIds.length*alloc.wordSize,
    alloc.vector source.shelfIds.length*alloc.wordSize]++
    (alloc.vector source.collectionNames.length*alloc.textSize::
      source.collectionNames.map alloc.text)++
    (alloc.vector source.shelfNames.length*alloc.textSize::source.shelfNames.map alloc.text)

def newOperationSizes (alloc : Allocation) (input : NewOperation) : List ℕ :=
  [alloc.text input.id,(input.destination.map fun p => alloc.octets p.bytes).getD 0,
    alloc.vector input.items.length*alloc.newItemSize]++
    input.items.flatMap (newItemSizes alloc)++
    (input.source.map (exportSourceSizes alloc)).getD []

def operationBytes (alloc : Allocation) (input : NewOperation) : Except InputError ℕ :=
  match addAll maxCommandBytes alloc.newOperationSize (newOperationSizes alloc input) with
  | some total => .ok total
  | none => .error .resourceLimit

/-- What the creation of operations reads. -/
def StartEnv.inputs (env : StartEnv) : InputEnv where
  parsesUuid uuid := (env.queries.parseUuid uuid).isSome
  retainedBytes := operationBytes env.alloc
  idsText := env.idsText
  namesText := env.namesText

def sourceType (source : Source) : ExportSourceType :=
  match source.kind with
  | .currentQuery => .currentQuery
  | .selection => .selection
  | .collectionUnion => if source.ids.length=1 then .collection else .collections
  | .shelfUnion | .refinedShelf =>
    if source.ids.length=1 then .curatedShelf else .curatedShelves

/-- The groups a source type names. -/
inductive ExportGroupKind where
  | collection
  | curatedShelf
  deriving DecidableEq

def groupKind : ExportSourceType → Option ExportGroupKind
  | .selection | .currentQuery => none
  | .shelf | .shelves | .collection | .collections => some .collection
  | .curatedShelf | .curatedShelves => some .curatedShelf

def exportSource (source : Source) : ExportSource :=
  let type := sourceType source
  let names := source.names.map displayNativeText
  let collections : Bool := groupKind type=some .collection
  let grouped := (groupKind type).isSome
  { sourceType := type
    collectionIds := if collections then source.ids else []
    collectionNames := if collections then names else []
    shelfIds := if grouped && !collections then source.ids else []
    shelfNames := if grouped && !collections then names else [] }

def skipCodeOf : Disposition → String
  | .skipped .storyMarkedBroken => "story_marked_broken"
  | .skipped .storyUnavailable => "story_unavailable"
  | _ => ""

def plannedItem : Disposition → Option PlannedItem
  | .ready => none
  | .skipped issue => some ⟨.skipped,⟨some issue.code,some (issueMessage issue)⟩⟩
  | .conflicted => some ⟨.conflicted,⟨some "filename_conflict",
      some "A file with this name already exists in the destination."⟩⟩

/-- The name an item is shown with: the original name, or the title of a story without one. -/
def sourceName (s : ExportStory) : String :=
  if s.originalFilenameBytes=[] then s.title else outputName s

def newItem (s : ExportStory) (p : PreviewItem) : NewItem where
  storyId := s.id
  storyUuid := s.uuid
  storyTitle := s.title
  sourceName := sourceName s
  outputName := originalName s
  archiveRelativePath := managedPath s
  archiveSha256 := s.sha256
  exportSkipCode := skipCodeOf p.disposition
  totalBytes := if p.disposition=.ready then s.byteSize else 0
  planned := plannedItem p.disposition

def newOperation (plan : Prepared) (id : String) : NewOperation where
  id := id
  kind := .export
  source := some (exportSource plan.scope.source)
  destination := some plan.destination.path
  items := List.zipWith newItem plan.scope.stories plan.preview.items

def operationInput (env : StartEnv) (plan : Prepared) (id : String) :
    Except InputError NewOperation := do
  let _ ← (newOperation plan id).validate env.inputs
  return newOperation plan id

/-- An operation that may be submitted. -/
structure Start where
  input : NewOperation
  deriving DecidableEq

def admitsItems (kind : OperationKind) (count : ℕ) : Bool :=
  match kind with
  | .import => 1≤count && count≤1000
  | .metadataSync => count=1
  | .export => 0<count

/-- Accept an operation that validates. -/
def Start.new (env : StartEnv) (input : NewOperation) : Option Start :=
  if admitsItems input.kind input.items.length && (input.validate env.inputs).toBool then
    some ⟨input⟩
  else none

def plannedState : Disposition → Option ItemState
  | .ready => none
  | .skipped _ => some .skipped
  | .conflicted => some .conflicted

/-- A plan starts as its preview says: its operation is built and validates, its total is the
bytes of the ready items, the items to copy are the ready ones in order, and the items
planned in a terminal state are the skipped and conflicting ones. -/
def StartsAs (env : StartEnv) (plan : Prepared) (preview : Preview) (id : String) : Prop :=
  ∃ input start, operationInput env plan id=.ok input ∧
    input.validate env.inputs=.ok (readyBytes preview.items) ∧
    preview.bytes=readyBytes preview.items ∧
    Start.new env input=some start ∧ start.input=input ∧
    (input.items.filter fun item => item.planned.isNone).map
        (fun item => (item.storyUuid,item.totalBytes))=
      (readyItems preview.items).map (fun item => (item.uuid,item.bytes)) ∧
    input.items.filterMap (fun item => item.planned.map fun plan => (item.storyUuid,plan.state))=
      preview.items.filterMap fun item =>
        (plannedState item.disposition).map fun state => (item.uuid,state)

def plannedBytes (alloc : Allocation) : Disposition → ℕ
  | .ready => 0
  | .skipped issue => alloc.text issue.code+alloc.text (issueMessage issue)
  | .conflicted => alloc.text "filename_conflict"+
      alloc.text "A file with this name already exists in the destination."

def storyBytes (alloc : Allocation) (s : ExportStory) (p : PreviewItem) : ℕ :=
  plannedBytes alloc p.disposition+alloc.octets s.originalFilenameBytes+
    alloc.octets s.managedRelativePathBytes+alloc.text s.uuid+alloc.text s.title+
    alloc.text (sourceName s)+alloc.text s.sha256+alloc.text (skipCodeOf p.disposition)

def groupBytes (alloc : Allocation) (source : Source) : ℕ :=
  (alloc.vector source.ids.length+alloc.vector 0)*(alloc.wordSize+alloc.textSize)+
    (source.names.map fun name => alloc.text (displayNativeText name)).sum

def commandBytes (alloc : Allocation) (plan : Prepared) (id : String) : ℕ :=
  alloc.newOperationSize+alloc.text id+alloc.octets plan.destination.path.bytes+
    alloc.vector plan.scope.stories.length*alloc.newItemSize+
    (List.zipWith (storyBytes alloc) plan.scope.stories plan.preview.items).sum+
    groupBytes alloc plan.scope.source

variable {plan : Prepared}

section Validation

variable {env : StartEnv}

theorem exportSource_fields (source : Source) :
    (exportSource source).collectionFields=decide (groupKind (sourceType source)=some .collection) ∧
      (exportSource source).groupIds=
        (if (groupKind (sourceType source)).isSome then source.ids else []) ∧
      (exportSource source).groupNames=
        (if (groupKind (sourceType source)).isSome then source.names.map displayNativeText
          else []) := by
  obtain ⟨kind,ids,names⟩ := source
  by_cases hone : ids.length=1
  · cases kind <;> simp [exportSource,sourceType,groupKind,ExportSource.collectionFields,
      ExportSource.groupIds,ExportSource.groupNames,hone]
  · cases kind <;> simp [exportSource,sourceType,groupKind,ExportSource.collectionFields,
      ExportSource.groupIds,ExportSource.groupNames,hone]

theorem exportSource_valid {source : Source} (h : SoundSource source) :
    (exportSource source).validate=true := by
  obtain ⟨hfields,hids,hnames⟩ := exportSource_fields source
  have hempty : (if (exportSource source).collectionFields then
      (exportSource source).shelfIds.isEmpty && (exportSource source).shelfNames.isEmpty
      else (exportSource source).collectionIds.isEmpty &&
        (exportSource source).collectionNames.isEmpty)=true := by
    rw [hfields]
    by_cases hcollection : groupKind (sourceType source)=some .collection
    · simp [exportSource,hcollection]
    · simp [exportSource,hcollection]
  have hvisible : ∀ name ∈ source.names.map displayNativeText, textPresent name=true := by
    intro name hname
    obtain ⟨stored,hstored,rfl⟩ := List.mem_map.mp hname
    exact h.visible stored hstored
  have hcount : (exportSource source).sourceType.validCount source.ids.length=true ∧
      ((groupKind (sourceType source)).isSome=false → source.ids=[] ∧ source.names=[]) := by
    have hgrouped := h.grouped
    have hnamed := h.named
    change (sourceType source).validCount source.ids.length=true ∧ _
    by_cases hnone : source.kind=.currentQuery ∨ source.kind=.selection
    · have hnil := hgrouped.mpr hnone
      have hnameless : source.names=[] := by
        rw [hnil,List.length_nil] at hnamed
        exact List.eq_nil_of_length_eq_zero hnamed
      rw [hnil]
      refine ⟨?_,fun _ => ⟨rfl,hnameless⟩⟩
      cases hnone with
      | inl hkind => rw [sourceType,hkind]; rfl
      | inr hkind => rw [sourceType,hkind]; rfl
    · have hsome : source.ids≠[] := fun he => hnone (hgrouped.mp he)
      have hpositive := List.length_pos_iff.mpr hsome
      rw [not_or] at hnone
      by_cases hone : source.ids.length=1
      · cases hkind : source.kind with
        | currentQuery => exact absurd hkind hnone.1
        | selection => exact absurd hkind hnone.2
        | collectionUnion => simp [sourceType,hkind,hone,ExportSourceType.validCount,groupKind]
        | shelfUnion => simp [sourceType,hkind,hone,ExportSourceType.validCount,groupKind]
        | refinedShelf => simp [sourceType,hkind,hone,ExportSourceType.validCount,groupKind]
      · have htwo : 2 ≤ source.ids.length := by omega
        cases hkind : source.kind with
        | currentQuery => exact absurd hkind hnone.1
        | selection => exact absurd hkind hnone.2
        | collectionUnion =>
          simp [sourceType,hkind,hone,ExportSourceType.validCount,groupKind,htwo]
        | shelfUnion => simp [sourceType,hkind,hone,ExportSourceType.validCount,groupKind,htwo]
        | refinedShelf => simp [sourceType,hkind,hone,ExportSourceType.validCount,groupKind,htwo]
  have hgroups : (exportSource source).groupIds=source.ids ∧
      (exportSource source).groupNames=source.names.map displayNativeText := by
    rw [hids,hnames]
    by_cases hsome : (groupKind (sourceType source)).isSome=true
    · rw [if_pos hsome,if_pos hsome]
      exact ⟨rfl,rfl⟩
    · obtain ⟨hnil,hnameless⟩ := hcount.2 (Bool.eq_false_of_not_eq_true hsome)
      rw [if_neg hsome,if_neg hsome,hnil,hnameless]
      exact ⟨rfl,rfl⟩
  unfold ExportSource.validate
  rw [hgroups.1,hgroups.2,hempty,hcount.1]
  simp only [Bool.true_and,Bool.and_eq_true,decide_eq_true_eq,List.all_eq_true,List.length_map]
  exact ⟨⟨⟨h.named.symm,h.positive⟩,hvisible⟩,h.distinct⟩

theorem validDestination_path (destination : Destination) :
    validDestination (some destination.path)=true := by
  have hzero : (0x2f::destination.rest).contains 0=false := by
    rw [Bool.eq_false_iff,ne_eq,List.contains_iff_mem,List.mem_cons,not_or]
    exact ⟨by decide,destination.noZero⟩
  rw [validDestination,Option.any_some,Bool.and_eq_true]
  refine ⟨?_,?_⟩
  · change (!(0x2f::destination.rest).contains 0)=true
    rw [hzero]
    rfl
  · unfold Destination.path
    cases ht : fromUtf8 (0x2f::destination.rest) with
    | none => rfl
    | some text => exact textPresent_absolute ht

theorem validOutputName_of_supported {name format : String} (h : supportedName name format=true) :
    validOutputName name=true := by
  unfold supportedName at h
  by_cases hbad : name="" ∨ tagTrim name≠name ∨ name="." ∨ name=".." ∨
      name.toList.any fun c => c = '/' || c = '\\' || c = '\x00'
  · rw [if_pos hbad] at h
    cases h
  · simp only [not_or,not_not] at hbad
    obtain ⟨hempty,htrim,hdot,hdots,hchars⟩ := hbad
    have hvisible := textPresent_of_trim htrim hempty
    simp only [validOutputName,Bool.and_eq_true,decide_eq_true_eq]
    refine ⟨⟨⟨⟨hvisible,htrim⟩,hdot⟩,hdots⟩,?_⟩
    rw [Bool.eq_false_of_not_eq_true hchars]
    rfl

variable {s : ExportStory}

theorem sourceName_present (htitle : textPresent s.title=true) : sourceName s≠"" := by
  have htitle' : s.title≠"" := by
    intro he
    rw [he] at htitle
    cases htitle
  unfold sourceName
  by_cases hempty : s.originalFilenameBytes=[]
  · rw [if_pos hempty]
    exact htitle'
  · rw [if_neg hempty]
    exact displayNativeText_ne hempty

theorem sourceName_visible (htitle : textPresent s.title=true)
    (h : supportedName (outputName s) s.detectedFormat=true) : textPresent (sourceName s)=true := by
  unfold sourceName
  by_cases hempty : s.originalFilenameBytes=[]
  · rw [if_pos hempty]
    exact htitle
  · rw [if_neg hempty]
    have hvalid := validOutputName_of_supported h
    simp only [validOutputName,Bool.and_eq_true] at hvalid
    exact hvalid.1.1.1.1

theorem plannedItem_filled {d : Disposition} {plan : PlannedItem} (h : plannedItem d=some plan) :
    d≠.ready ∧ ((plan.state=.skipped || plan.state=.conflicted) && filled plan.outcome.code &&
      filled plan.outcome.message && (skipCodeOf d="" ||
        (skipCode (skipCodeOf d) && plan.outcome.code=some (skipCodeOf d))))=true := by
  cases d with
  | ready => cases h
  | skipped issue =>
    cases h
    refine ⟨(fun he => nomatch he),?_⟩
    cases issue <;> decide
  | conflicted =>
    cases h
    exact ⟨(fun he => nomatch he),by decide⟩

theorem validPlan_planned {p : PreviewItem} {plan : PlannedItem}
    (h : plannedItem p.disposition=some plan) : validPlan (newItem s p) plan=true := by
  obtain ⟨hnot,hfilled⟩ := plannedItem_filled h
  have hbytes : (newItem s p).totalBytes=0 := if_neg hnot
  simp only [Bool.and_eq_true] at hfilled
  obtain ⟨⟨⟨hstate,hcode⟩,hmessage⟩,hskip⟩ := hfilled
  unfold validPlan
  rw [hbytes,hstate,hcode,hmessage]
  exact hskip

variable {uuids : List String} {ids : List ℤ}

/-- An item with a planned result is passed when its name, identity and plan are admitted. -/
theorem validateItems_cons_planned {inputs : InputEnv} {item : NewItem} {items : List NewItem}
    {total : ℤ} {plan : PlannedItem} (hplanned : item.planned=some plan)
    (hname : item.sourceName≠"") (hbytes : item.totalBytes=0) (hmax : total ≤ maxInt)
    (hidentity : (!inputs.parsesUuid item.storyUuid || !textPresent item.storyTitle ||
      uuids.contains item.storyUuid)=false) (hplan : validPlan item plan=true) :
    validateItems inputs .export (item::items) total ids uuids=
      validateItems inputs .export items total ids (item.storyUuid::uuids) := by
  rw [validateItems,hidentity,hplanned,hbytes,Int.add_zero]
  have hpresent : (!textPresent item.sourceName &&
      !((some plan).isSome && decide (item.sourceName≠"")))=false := by
    simp [hname]
  rw [hpresent]
  simp only [hplan,Bool.false_eq_true,if_false,if_true,lt_irrefl,ne_eq,not_true_eq_false,
    decide_false,Bool.or_false]
  rw [if_neg (not_lt.mpr hmax)]

/-- An item to copy is passed when its name, identity and archive are admitted. -/
theorem validateItems_cons_ready {inputs : InputEnv} {item : NewItem} {items : List NewItem}
    {total : ℤ} (hplanned : item.planned=none) (hskip : item.exportSkipCode="")
    (hname : textPresent item.sourceName=true) (hbytes : 0 ≤ item.totalBytes)
    (hmax : total+item.totalBytes ≤ maxInt)
    (hidentity : (!inputs.parsesUuid item.storyUuid || !textPresent item.storyTitle ||
      uuids.contains item.storyUuid)=false)
    (hstory : 0 < item.storyId) (hfresh : item.storyId ∉ ids)
    (houtput : validOutputName (displayNativeText item.outputName.bytes)=true)
    (hpath : validRelative (displayNativeText item.archiveRelativePath.bytes)=true)
    (hhash : validHash item.archiveSha256=true) :
    validateItems inputs .export (item::items) total ids uuids=
      validateItems inputs .export items (total+item.totalBytes) (item.storyId::ids)
        (item.storyUuid::uuids) := by
  rw [validateItems,hidentity,hplanned,hskip,hname,houtput,hpath,hhash]
  have hcontains : ids.contains item.storyId=false := by
    rw [Bool.eq_false_iff,ne_eq,List.contains_iff_mem]
    exact hfresh
  have hbad : ¬(item.storyId≤0) := not_le.mpr hstory
  have hnegative : ¬(item.totalBytes<0) := not_lt.mpr hbytes
  simp only [hcontains,hbad,hnegative,Bool.not_true,Bool.false_and,Bool.false_eq_true,if_false,
    ne_eq,not_true_eq_false,decide_false,Bool.or_false]
  rw [if_neg (not_lt.mpr hmax)]

variable {stories : List ExportStory} {items : List PreviewItem} {view : FileView}

theorem readyBytes_nonneg (h : List.Forall₂ (ItemOf view) stories items) : 0≤readyBytes items := by
  induction h with
  | nil => exact le_rfl
  | @cons s item stories items hitem _ ih =>
    by_cases hready : item.disposition=.ready
    · rw [readyBytes_cons_ready items hready]
      have hsized := (hitem.2 hready).sized
      have hbytes : item.bytes=s.byteSize := by
        rw [hitem.1]
        rfl
      exact add_nonneg (hbytes ▸ hsized) ih
    · rw [readyBytes_cons_other items hready]
      exact ih

/-- The stories that remain to be validated, beside the ids and uuids of those before. -/
structure Remaining (env : StartEnv) (stories : List ExportStory) (ids : List ℤ)
    (uuids : List String) : Prop where
  titles : ∀ s ∈ stories, textPresent s.title=true
  parsed : ∀ s ∈ stories, (env.queries.parseUuid s.uuid).isSome=true
  positive : ∀ s ∈ stories, 0 ≤ s.id
  distinct : stories.Pairwise fun a b => a.uuid≠b.uuid ∧ (a.id≠0 → a.id≠b.id)
  freshUuids : ∀ s ∈ stories, s.uuid ∉ uuids
  freshIds : ∀ s ∈ stories, s.id≠0 → s.id ∉ ids

theorem Remaining.planned (h : Remaining env (s::stories) ids uuids) :
    Remaining env stories ids (s.uuid::uuids) where
  titles t ht := h.titles t (List.mem_cons_of_mem _ ht)
  parsed t ht := h.parsed t (List.mem_cons_of_mem _ ht)
  positive t ht := h.positive t (List.mem_cons_of_mem _ ht)
  distinct := h.distinct.of_cons
  freshUuids t ht := by
    rw [List.mem_cons,not_or]
    exact ⟨fun he => (List.rel_of_pairwise_cons h.distinct ht).1 he.symm,
      h.freshUuids t (List.mem_cons_of_mem _ ht)⟩
  freshIds t ht := h.freshIds t (List.mem_cons_of_mem _ ht)

theorem Remaining.copied (h : Remaining env (s::stories) ids uuids) (hid : s.id≠0) :
    Remaining env stories (s.id::ids) (s.uuid::uuids) where
  titles := h.planned.titles
  parsed := h.planned.parsed
  positive := h.planned.positive
  distinct := h.planned.distinct
  freshUuids := h.planned.freshUuids
  freshIds t ht hne := by
    rw [List.mem_cons,not_or]
    exact ⟨fun he => (List.rel_of_pairwise_cons h.distinct ht).2 hid he.symm,
      h.freshIds t (List.mem_cons_of_mem _ ht) hne⟩

theorem validateItems_planned {view : FileView}
    (hclean : ∀ path source, view.openArchive path=.ok source →
      validRelative (displayNativeText path)=true) {stories : List ExportStory}
    {items : List PreviewItem} (hall : List.Forall₂ (ItemOf view) stories items) {total : ℤ}
    {ids : List ℤ} {uuids : List String} (h : Remaining env stories ids uuids)
    (hmax : total+readyBytes items ≤ maxInt) :
    validateItems env.inputs .export (List.zipWith newItem stories items) total ids uuids=
      .ok (total+readyBytes items) := by
  induction hall generalizing total ids uuids with
  | nil => exact congrArg Except.ok (Int.add_zero total).symm
  | @cons s item stories items hitem hrest ih =>
    have htitle := h.titles s List.mem_cons_self
    have hparsed := h.parsed s List.mem_cons_self
    have hfresh := h.freshUuids s List.mem_cons_self
    have hrestBytes := readyBytes_nonneg hrest
    have hidentity : (!env.inputs.parsesUuid s.uuid || !textPresent s.title ||
        uuids.contains s.uuid)=false := by
      have hcontains : uuids.contains s.uuid=false := by
        rw [Bool.eq_false_iff,ne_eq,List.contains_iff_mem]
        exact hfresh
      change (!(env.queries.parseUuid s.uuid).isSome || !textPresent s.title ||
        uuids.contains s.uuid)=false
      rw [hparsed,htitle,hcontains]
      rfl
    rw [List.zipWith_cons_cons]
    by_cases hready : item.disposition=.ready
    · have hstory := hitem.2 hready
      have hbytes : item.bytes=s.byteSize := by
        rw [hitem.1]
        rfl
      have hsplit : readyBytes (item::items)=s.byteSize+readyBytes items := by
        rw [readyBytes_cons_ready items hready,hbytes]
      have htotal : (newItem s item).totalBytes=s.byteSize := if_pos hready
      have hplanned : (newItem s item).planned=none := by
        change plannedItem item.disposition=none
        rw [hready]
        rfl
      have hskip : (newItem s item).exportSkipCode="" := by
        change skipCodeOf item.disposition=""
        rw [hready]
        rfl
      obtain ⟨checksum,hchecksum⟩ := hstory.hashed
      obtain ⟨source,hsource⟩ := hstory.opened
      have hpositive : 0<s.id :=
        lt_of_le_of_ne (h.positive s List.mem_cons_self) hstory.stored.symm
      have hsized := hstory.sized
      have hhash : validHash s.sha256=true := hchecksum ▸ checksum.display_valid
      rw [hsplit] at hmax ⊢
      rw [validateItems_cons_ready hplanned hskip (sourceName_visible htitle hstory.supported)
        (htotal.symm ▸ hsized) (by rw [htotal]; omega) hidentity hpositive
        (h.freshIds s List.mem_cons_self hstory.stored)
        (validOutputName_of_supported hstory.supported)
        (hclean _ source hsource) hhash,htotal]
      have hrest' := @ih (total+s.byteSize) _ _ (h.copied hstory.stored) (by omega)
      change validateItems env.inputs .export (List.zipWith newItem stories items)
        (total+s.byteSize) (s.id::ids) (s.uuid::uuids)=_
      rw [hrest',Int.add_assoc]
    · have hsplit := readyBytes_cons_other items hready
      have htotal : (newItem s item).totalBytes=0 := if_neg hready
      obtain ⟨plan,hplan⟩ : ∃ plan, plannedItem item.disposition=some plan := by
        cases hd : item.disposition with
        | ready => exact absurd hd hready
        | skipped issue => exact ⟨_,rfl⟩
        | conflicted => exact ⟨_,rfl⟩
      rw [hsplit] at hmax ⊢
      rw [validateItems_cons_planned hplan (sourceName_present htitle) htotal (by omega) hidentity
        (validPlan_planned hplan)]
      exact ih h.planned hmax

theorem newItemSizes_sum (alloc : Allocation) (s : ExportStory) (p : PreviewItem) :
    (newItemSizes alloc (newItem s p)).sum=storyBytes alloc s p := by
  unfold newItemSizes newItem storyBytes
  dsimp only
  cases p.disposition with
  | ready => simp [plannedItem,plannedBytes,originalName,managedPath,Nat.add_assoc]
  | skipped issue => simp [plannedItem,plannedBytes,originalName,managedPath,Nat.add_assoc]
  | conflicted => simp [plannedItem,plannedBytes,originalName,managedPath,Nat.add_assoc]

variable (alloc : Allocation)

theorem itemsSizes_sum (stories : List ExportStory) (items : List PreviewItem) :
    ((List.zipWith newItem stories items).flatMap (newItemSizes alloc)).sum=
      (List.zipWith (storyBytes alloc) stories items).sum := by
  induction stories generalizing items with
  | nil => rfl
  | cons s stories ih =>
    cases items with
    | nil => rfl
    | cons p items =>
      rw [List.zipWith_cons_cons,List.zipWith_cons_cons,List.flatMap_cons,List.sum_append,
        newItemSizes_sum,ih,List.sum_cons]

theorem exportSourceSizes_sum {source : Source} (h : SoundSource source) :
    (exportSourceSizes alloc (exportSource source)).sum=groupBytes alloc source := by
  obtain ⟨kind,ids,names⟩ := source
  have hnamed := h.named
  have hgrouped := h.grouped
  dsimp only at hnamed hgrouped
  have hmap : (names.map displayNativeText).map alloc.text=
      names.map fun name => alloc.text (displayNativeText name) := List.map_map
  unfold exportSourceSizes groupBytes
  cases hkind : groupKind (sourceType ⟨kind,ids,names⟩) with
  | none =>
    have hnone : kind=.currentQuery ∨ kind=.selection := by
      cases kind with
      | currentQuery => exact .inl rfl
      | selection => exact .inr rfl
      | collectionUnion | shelfUnion | refinedShelf =>
        by_cases hone : ids.length=1
        · simp [sourceType,groupKind,hone] at hkind
        · simp [sourceType,groupKind,hone] at hkind
    have hnil := hgrouped.mpr hnone
    subst hnil
    rw [List.length_nil] at hnamed
    have hnameless := List.eq_nil_of_length_eq_zero hnamed
    subst hnameless
    simp [exportSource,hkind]
    ring
  | some group =>
    cases group with
    | collection =>
      simp [exportSource,hkind,hnamed,hmap]
      ring
    | curatedShelf =>
      simp [exportSource,hkind,hnamed,hmap]
      ring

theorem operationBytes_eq (id : String) (hsource : SoundSource plan.scope.source)
    (hitems : plan.scope.stories.length=plan.preview.items.length) :
    operationBytes alloc (newOperation plan id)=
      if commandBytes alloc plan id ≤ maxCommandBytes then .ok (commandBytes alloc plan id)
      else .error .resourceLimit := by
  have hlength : (newOperation plan id).items.length=plan.scope.stories.length := by
    change (List.zipWith newItem plan.scope.stories plan.preview.items).length=_
    rw [List.length_zipWith,hitems,Nat.min_self]
  have hsum : alloc.newOperationSize+(newOperationSizes alloc (newOperation plan id)).sum=
      commandBytes alloc plan id := by
    have hitemsSum := itemsSizes_sum alloc plan.scope.stories plan.preview.items
    have hgroups := exportSourceSizes_sum alloc hsource
    unfold newOperationSizes commandBytes
    rw [hlength,List.sum_append,List.sum_append]
    change _+(_+((List.zipWith newItem plan.scope.stories plan.preview.items).flatMap
      (newItemSizes alloc)).sum+(exportSourceSizes alloc (exportSource plan.scope.source)).sum)=_
    rw [hitemsSum,hgroups]
    simp only [List.sum_cons,List.sum_nil,newOperation,Option.map_some,Option.getD_some]
    omega
  have hsome : newOperationSizes alloc (newOperation plan id)≠[] := List.cons_ne_nil _ _
  have hadd := @addAll_eq maxCommandBytes alloc.newOperationSize
    (newOperationSizes alloc (newOperation plan id)) (.inr hsome)
  rw [hsum] at hadd
  rw [operationBytes,hadd]
  by_cases hfits : commandBytes alloc plan id ≤ maxCommandBytes
  · rw [if_pos hfits,if_pos hfits]
  · rw [if_neg hfits,if_neg hfits]

variable {id : String}

/-- A sound plan under an id of 36 characters, none of them zero, validates exactly within
the budget, and its total is the bytes of the ready items. -/
theorem validate_iff (hplan : PlanSound env.toScopeEnv plan) (hlength : id.length=36) (total : ℤ) :
    (newOperation plan id).validate env.inputs=.ok total ↔
      total=readyBytes plan.preview.items ∧ '\x00' ∉ id.toList ∧
        commandBytes env.alloc plan id ≤ maxCommandBytes := by
  obtain ⟨view,hclean,hall⟩ := hplan.items
  have hitems := hall.length_eq
  have hbudget := operationBytes_eq env.alloc id hplan.scope.source hitems
  have hsome : plan.preview.items≠[] := by
    intro he
    have hready := hplan.ready
    rw [he] at hready
    exact absurd hready (lt_irrefl 0)
  have hidentity : ((newOperation plan id).id.toList.contains '\x00' ||
      decide ((newOperation plan id).id.length≠36) ||
      (newOperation plan id).items.isEmpty)=id.toList.contains '\x00' := by
    have hfilled : (List.zipWith newItem plan.scope.stories plan.preview.items).isEmpty=false := by
      rw [List.isEmpty_eq_false_iff,ne_eq,List.zipWith_eq_nil_iff,not_or]
      refine ⟨?_,hsome⟩
      intro he
      rw [he,List.length_nil] at hitems
      exact hsome (List.eq_nil_of_length_eq_zero hitems.symm)
    change (id.toList.contains '\x00' || decide (id.length≠36) ||
      (List.zipWith newItem plan.scope.stories plan.preview.items).isEmpty)=_
    rw [hlength,hfilled]
    exact (Bool.or_false _).trans (Bool.or_false _)
  have hremaining : Remaining env plan.scope.stories [] [] := by
    refine ⟨hplan.scope.titles,hplan.scope.parsed,hplan.scope.positive,?_,
      fun s _ => List.not_mem_nil,fun s _ _ => List.not_mem_nil⟩
    have huuids := List.pairwise_map.mp hplan.scope.uuids
    refine huuids.imp_of_mem ?_
    intro a b ha hb hne
    exact ⟨hne,fun hid he => hne (hplan.scope.ids a ha b hb hid he)⟩
  have hmax : 0+readyBytes plan.preview.items ≤ maxInt := by
    rw [Int.zero_add,← hplan.bytes]
    exact hplan.bounded
  have hvalid := validateItems_planned hclean hall hremaining hmax
  rw [Int.zero_add] at hvalid
  unfold NewOperation.validate
  change (operationBytes env.alloc (newOperation plan id) >>= _)=_ ↔ _
  by_cases hle : commandBytes env.alloc plan id ≤ maxCommandBytes
  case neg =>
    rw [hbudget,if_neg hle]
    constructor
    · intro he
      cases he
    · intro he
      exact absurd he.2.2 hle
  case pos =>
    rw [hbudget,if_pos hle]
    rw [bind_of_ok rfl,hidentity]
    by_cases hzero : '\x00' ∈ id.toList
    · rw [if_pos (List.contains_iff_mem.mpr hzero)]
      constructor
      · intro he
        cases he
      · intro he
        exact absurd hzero he.2.1
    rw [if_neg fun he => hzero (List.contains_iff_mem.mp he)]
    change (validateItems env.inputs .export
      (List.zipWith newItem plan.scope.stories plan.preview.items) 0 [] [] >>= _)=_ ↔ _
    rw [bind_of_ok hvalid]
    have hsource : (newOperation plan id).source.any ExportSource.validate=true :=
      exportSource_valid hplan.scope.source
    have hdestination : validDestination (newOperation plan id).destination=true :=
      validDestination_path plan.destination
    have hkind : (newOperation plan id).kind=.export := rfl
    rw [if_pos hkind,hsource,hdestination]
    change Except.ok (readyBytes plan.preview.items)=_ ↔ _
    rw [Except.ok.injEq]
    exact ⟨fun he => ⟨he.symm,hzero,hle⟩,fun he => he.1.symm⟩

theorem unplanned_ready (h : List.Forall₂ (ItemOf view) stories items) :
    ((List.zipWith newItem stories items).filter fun item => item.planned.isNone).map
        (fun item => (item.storyUuid,item.totalBytes))=
      (readyItems items).map fun item => (item.uuid,item.bytes) := by
  induction h with
  | nil => rfl
  | @cons s item stories items hitem _ ih =>
    have huuid : item.uuid=s.uuid := by
      rw [hitem.1]
      rfl
    have hbytes : item.bytes=s.byteSize := by
      rw [hitem.1]
      rfl
    rw [List.zipWith_cons_cons]
    by_cases hready : item.disposition=.ready
    · have hnone : (newItem s item).planned.isNone=true := by
        change (plannedItem item.disposition).isNone=true
        rw [hready]
        rfl
      have htotal : (newItem s item).totalBytes=s.byteSize := if_pos hready
      rw [List.filter_cons_of_pos (by exact hnone),List.map_cons,ih,
        readyItems_cons_ready items hready,List.map_cons,htotal,huuid,hbytes]
      rfl
    · have hsome : ¬(newItem s item).planned.isNone=true := by
        change ¬(plannedItem item.disposition).isNone=true
        cases hd : item.disposition with
        | ready => exact absurd hd hready
        | skipped issue => exact Bool.false_ne_true
        | conflicted => exact Bool.false_ne_true
      rw [List.filter_cons_of_neg (by exact hsome),ih,readyItems_cons_other items hready]

theorem planned_others (h : List.Forall₂ (ItemOf view) stories items) :
    (List.zipWith newItem stories items).filterMap
        (fun item => item.planned.map fun plan => (item.storyUuid,plan.state))=
      items.filterMap fun item =>
        (plannedState item.disposition).map fun state => (item.uuid,state) := by
  induction h with
  | nil => rfl
  | @cons s item stories items hitem _ ih =>
    have huuid : item.uuid=s.uuid := by
      rw [hitem.1]
      rfl
    have hstate : (newItem s item).planned.map
          (fun plan => ((newItem s item).storyUuid,plan.state))=
        (plannedState item.disposition).map fun state => (item.uuid,state) := by
      change (plannedItem item.disposition).map (fun plan => (s.uuid,plan.state))=_
      rw [huuid]
      cases item.disposition <;> rfl
    rw [List.zipWith_cons_cons,List.filterMap_cons,List.filterMap_cons,hstate,ih]

/-- A sound plan starts as its preview says exactly when its id has no zero character and its
operation fits the budget. -/
theorem startsAs_iff (hplan : PlanSound env.toScopeEnv plan) (hlength : id.length=36) :
    StartsAs env plan plan.preview id ↔
      '\x00' ∉ id.toList ∧ commandBytes env.alloc plan id ≤ maxCommandBytes := by
  have hvalidate := validate_iff hplan hlength
  constructor
  · rintro ⟨input,start,hinput,hvalid,-⟩
    obtain ⟨total,htotal,hinput⟩ := exceptBind_ok.mp hinput
    cases hinput
    exact ((hvalidate _).mp htotal).2
  · intro hle
    have hvalid := (hvalidate _).mpr ⟨rfl,hle⟩
    obtain ⟨view,-,hall⟩ := hplan.items
    have hcount : 0<(newOperation plan id).items.length := by
      change 0<(List.zipWith newItem plan.scope.stories plan.preview.items).length
      have hready := hplan.ready
      have hsub : (readyItems plan.preview.items).length≤plan.preview.items.length :=
        List.filter_sublist.length_le
      rw [List.length_zipWith,hall.length_eq,Nat.min_self]
      omega
    have hstart : Start.new env (newOperation plan id)=some ⟨newOperation plan id⟩ := by
      unfold Start.new
      rw [hvalid]
      exact if_pos (Bool.and_eq_true _ _ ▸ ⟨decide_eq_true hcount,rfl⟩)
    refine ⟨newOperation plan id,⟨newOperation plan id⟩,?_,hvalid,hplan.bytes,hstart,rfl,
      unplanned_ready hall,planned_others hall⟩
    unfold operationInput
    rw [hvalid]
    rfl

theorem operationInput_refused (hplan : PlanSound env.toScopeEnv plan)
    (h : maxCommandBytes<commandBytes env.alloc plan id) :
    operationInput env plan id=.error .resourceLimit := by
  obtain ⟨view,-,hall⟩ := hplan.items
  have hbudget := operationBytes_eq env.alloc id hplan.scope.source hall.length_eq
  rw [if_neg (not_le.mpr h)] at hbudget
  unfold operationInput NewOperation.validate
  change ((operationBytes env.alloc (newOperation plan id) >>= _) >>= _)=_
  rw [hbudget]
  rfl

/-- Whatever preparation returned a preview that can be exported, in whatever registry, and
whatever calls followed: the plan that is taken under its id starts as the preview says
exactly when the operation's id has no zero character and its bytes fit the budget of a
command. -/
theorem preparation_starts_iff (before : List (Call env.toScopeEnv))
    (given : Surroundings env.toScopeEnv) (scope : Scope) {preview : Preview} {r r' : Registry}
    (hprepare : prepare env.toScopeEnv given.view given.library given.locale
      scope (ExportPreparation.run .new before)=(.ok preview,r)) (hexport : preview.canExport=true)
    (calls : List (Call env.toScopeEnv)) {taken : ℕ} (hid : preview.preparation=some taken)
    {l : ExportScopes.Library} {intents : List ℤ} {revalidated : Bool} {plan : Prepared}
    (htake : takePrepared (ExportPreparation.run r calls) taken l intents revalidated=
      (.ok plan,r')) {id : String} (hlength : id.length=36) : StartsAs env plan preview id ↔
      '\x00' ∉ id.toList ∧ commandBytes env.alloc plan id ≤ maxCommandBytes := by
  have hempty : Sound env.toScopeEnv .new := fun p hp => absurd hp List.not_mem_nil
  obtain ⟨hplan,rfl⟩ := taken_plan (run_sound before hempty) given scope hprepare hexport calls
    hid htake
  exact startsAs_iff hplan hlength

end Validation

/-- Sizes as a 64-bit layout gives them, with capacities that are the lengths. -/
def plainAllocation : Allocation where
  wordSize := 8
  textSize := 24
  storySize := 240
  sourceSize := 56
  previewItemSize := 112
  preparedSize := 512
  destinationSize := 80
  newItemSize := 264
  newOperationSize := 184
  text := String.utf8ByteSize
  octets := List.length
  vector count := count

def identityCharacter (c : Char) : Bool := c = '-' || hexDigits.contains c

/-- A parser that accepts 36 hexadecimal digits and hyphens. -/
def parseIdentity (uuid : String) : Option String :=
  if uuid.length=36 ∧ uuid.toList.all identityCharacter then some uuid else none

/-- An environment with texts that are already normalized. -/
def plainStart : StartEnv where
  codec := plainEnv
  queries := { plainRuntime with parseUuid := parseIdentity }
  alloc := plainAllocation
  idsText _ := "[]"
  namesText _ := "[]"

/-- A library with one story and a Shelf that also has a story that was removed. -/
def shelfLibrary (title : String) : ExportScopes.Library where
  tables := { taggedLibrary with
    stories := [⟨1,"00000000-0000-0000-0000-000000000001",some "Story",none,none,"2024-01-01",
      "story",false⟩]
    archives := [⟨1,bytes "story.zip".toList,"zip",String.ofList (List.replicate 64 '0'),3,
      bytes "archives/1.zip".toList,.valid⟩] }
  shelves := [⟨1,"Shelf"⟩]
  shelfStories := [⟨1,"00000000-0000-0000-0000-000000000001",0,"Story"⟩,
    ⟨1,"00000000-0000-0000-0000-000000000002",1,title⟩]

def shelvedStory : ExportStory where
  broken := false
  id := 1
  uuid := "00000000-0000-0000-0000-000000000001"
  title := "Story"
  originalFilename := "story.zip"
  originalFilenameBytes := bytes "story.zip".toList
  detectedFormat := "zip"
  sha256 := String.ofList (List.replicate 64 '0')
  byteSize := 3
  managedRelativePath := "archives/1.zip"
  managedRelativePathBytes := bytes "archives/1.zip".toList
  verification := "compatible"


def goneStory (title : String) : ExportStory :=
  unavailable "00000000-0000-0000-0000-000000000002" title

variable {title : String}

theorem goneStory_title (h : title≠"") : (goneStory title).title=title :=
  if_neg h

def shelfScope (title : String) : Resolved :=
  ⟨⟨.shelfUnion,[1],[bytes "Shelf".toList]⟩,
    [shelvedStory,goneStory title],0⟩

theorem rowBytes_gone (h : title≠"") :
    rowBytes plainAllocation (goneStory title)=440+title.utf8ByteSize := by
  have hgone := goneStory_title h
  change 240+128+36*2+(goneStory title).title.utf8ByteSize+0+0+0+0+0+0+0=_
  rw [hgone]
  omega

theorem resolve_shelf (h : title≠"") (hsize : title.utf8ByteSize≤30*1024*1024) :
    resolve plainStart.toScopeEnv (shelfLibrary title) "fr-FR" (.shelves [⟨1,by decide⟩])=
      .ok (shelfScope title) := by
  have hvisit : visitScope plainStart.queries (shelfLibrary title).tables.storyTables {} "fr-FR"
      (collectFound plainStart.alloc (·.uuid)
        ((members (shelfLibrary title) 1).map (·.storyUuid))) ⟨0,[]⟩=
      .ok (1,⟨568,[shelvedStory]⟩) := rfl
  have hbytes := rowBytes_gone h
  have happend : Rows.append plainStart.alloc ⟨[shelvedStory],568,0⟩
      (goneStory title)=
        .ok ⟨(shelfScope title).stories,1008+title.utf8ByteSize,0⟩ := by
    have hfits : ¬maxResolvedBytes<568+rowBytes plainAllocation
        (goneStory title) := by
      rw [hbytes,maxResolvedBytes]
      omega
    have hnew : ¬([shelvedStory].any fun s => s.uuid=
        (goneStory title).uuid)=true := by
      change ¬([shelvedStory].any fun s => s.uuid="00000000-0000-0000-0000-000000000002")=true
      decide
    unfold Rows.append
    rw [if_neg hnew]
    change (if maxResolvedBytes<568+rowBytes plainAllocation
        (goneStory title) then _ else _)=_
    rw [if_neg hfits]
    change (Except.ok (Rows.mk (shelfScope title).stories (568+rowBytes plainAllocation
      (goneStory title)) 0) :
        Except StoryQueries.StorageError Rows)=_
    rw [hbytes]
    have hsum : 568+(440+title.utf8ByteSize)=1008+title.utf8ByteSize := by omega
    rw [hsum]
  have hfold : (members (shelfLibrary title) 1).foldlM
      (visitMember plainStart.alloc false) ⟨⟨[],0,0⟩,[shelvedStory],none⟩=
        .ok ⟨⟨(shelfScope title).stories,1008+title.utf8ByteSize,0⟩,[],none⟩ := by
    change (visitMember plainStart.alloc false ⟨⟨[shelvedStory],568,0⟩,[],none⟩
      ⟨1,"00000000-0000-0000-0000-000000000002",1,title⟩ >>= fun c => pure c)=_
    change ((Rows.append plainStart.alloc ⟨[shelvedStory],568,0⟩
      (goneStory title) >>= fun rows => pure _) >>=
        fun c => pure c)=_
    rw [happend]
    rfl
  have hcurated : curated plainStart.toScopeEnv (shelfLibrary title) "fr-FR" ⟨1,by decide⟩ none none
      ⟨[],0,0⟩=.ok ("Shelf",⟨(shelfScope title).stories,1008+title.utf8ByteSize,0⟩) := by
    have hread : readShelf (shelfLibrary title) 1=.ok ⟨1,"Shelf"⟩ := rfl
    have hnormal : (normalizeRequest plainRuntime {}).mapError StoryQueries.StorageError.queryInput=
        .ok { page := firstPage, pageSize := defaultPageSize, sort := "name_asc" } := rfl
    unfold curated
    dsimp only
    rw [bind_of_ok hread,if_neg (by decide)]
    change ((normalizeRequest plainRuntime {}).mapError
      StoryQueries.StorageError.queryInput >>= _)=_
    rw [bind_of_ok hnormal]
    dsimp only [Option.getD_none]
    rw [bind_of_ok hvisit]
    dsimp only
    have hfilters : filters (.node {} [])=false := by decide
    rw [hfilters,bind_of_ok hfold]
    rfl
  have hmembers : readMembers plainStart.toScopeEnv (shelfLibrary title) "fr-FR" ⟨[],0,0⟩ 1=
      .ok (bytes "Shelf".toList,⟨(shelfScope title).stories,1008+title.utf8ByteSize,0⟩) := by
    have hshelf : shelfId 1=.ok ⟨1,by decide⟩ := rfl
    unfold readMembers
    rw [bind_of_ok hshelf,bind_of_ok hcurated]
    rfl
  have hgroups : resolveGroups (readMembers plainStart.toScopeEnv (shelfLibrary title) "fr-FR") [1]
      [] ⟨[],0,0⟩=.ok ([bytes "Shelf".toList],
        ⟨(shelfScope title).stories,1008+title.utf8ByteSize,0⟩) := by
    unfold resolveGroups
    rw [bind_of_ok hmembers]
    rfl
  have hunique : unique (([⟨1,by decide⟩] : List GroupId).map (·.val))=.ok [1] := rfl
  have hrows : resolveRows plainStart.toScopeEnv (shelfLibrary title) "fr-FR" ⟨[],0,0⟩
      (.shelves [⟨1,by decide⟩])=.ok ((shelfScope title).source,
        ⟨(shelfScope title).stories,1008+title.utf8ByteSize,0⟩) := by
    rw [resolveRows,bind_of_ok hunique,bind_of_ok hgroups]
    rfl
  rw [resolve,bind_of_ok hrows]
  rfl

def zeroChecksum : Checksum := ⟨List.replicate 32 0,rfl⟩

def shelfDestination : Destination := ⟨bytes "out".toList,by decide⟩

/-- A file system with the archive of the story and an empty destination. -/
def shelfView : FileView where
  destination := some shelfDestination
  readable := true
  inside := false
  probe := .removed
  holds _ := some false
  openArchive path :=
    if path=bytes "archives/1.zip".toList then .ok ⟨3,some ⟨zeroChecksum,3⟩⟩ else .error .missing

def shelfPreview (title : String) : Preview where
  preparation := none
  source := (shelfScope title).source
  destinationLabel := shelfDestination.label
  items := [previewItem shelvedStory .ready,
    previewItem (goneStory title)
      (.skipped .storyUnavailable)]
  ready := 1
  bytes := 3
  formats := ["","zip"]
  collapsedOverlap := 0
  issue := none

theorem previewOf_shelf (title : String) :
    previewOf shelfView shelfDestination (shelfScope title)=.ok (shelfPreview title) := by
  have hready : disposition shelfView [] shelvedStory=.ok (.ready,["story.zip"]) := by
    decide +kernel
  have hgone : disposition shelfView ["story.zip"]
      (goneStory title)=
        .ok (.skipped .storyUnavailable,["story.zip"]) := rfl
  have hfirst : gather shelfView ⟨[],[],[],0,0⟩ shelvedStory=
      .ok ⟨["story.zip"],["zip"],[previewItem shelvedStory .ready],1,3⟩ := by
    unfold gather
    rw [bind_of_ok hready]
    rfl
  have hsecond : gather shelfView ⟨["story.zip"],["zip"],[previewItem shelvedStory .ready],1,3⟩
      (goneStory title)=
      .ok ⟨["story.zip"],["","zip"],(shelfPreview title).items,1,3⟩ := by
    have hformats : insertText "" ["zip"]=["","zip"] := by decide +kernel
    unfold gather
    rw [bind_of_ok hgone]
    dsimp only
    change (Except.ok (Gathered.mk _ (insertText "" ["zip"]) _ _ _) :
      Except PreparationError Gathered)=_
    rw [hformats]
    rfl
  have hall : (shelfScope title).stories.foldlM (gather shelfView) ⟨[],[],[],0,0⟩=
      .ok ⟨["story.zip"],["","zip"],(shelfPreview title).items,1,3⟩ := by
    change [shelvedStory,goneStory title].foldlM
      (gather shelfView) ⟨[],[],[],0,0⟩=_
    rw [List.foldlM_cons,bind_of_ok hfirst,List.foldlM_cons,bind_of_ok hsecond]
    rfl
  unfold previewOf
  rw [bind_of_ok hall]
  rfl

/-- The preview under its id. -/
def shelfPrepared (title : String) : Preview := { shelfPreview title with preparation := some 0 }

theorem retainedBytes_shelf (h : title≠"") (hsize : title.utf8ByteSize≤30*1024*1024) :
    ∃ bytes, retainedBytes plainAllocation (shelfScope title) shelfDestination
      (shelfPrepared title)=some bytes := by
  have hrow := rowBytes_gone h
  have hshelved : rowBytes plainAllocation shelvedStory=568 := rfl
  have hrows : (shelfScope title).stories.map (rowBytes plainAllocation)=
      [568,440+title.utf8ByteSize] := by
    change [rowBytes plainAllocation shelvedStory,rowBytes plainAllocation (goneStory title)]=_
    rw [hrow,hshelved]
  have hitems : (shelfPrepared title).items.flatMap (itemSizes plainAllocation)=
      [36,5,9,3,36,title.utf8ByteSize,0,0] := by
    change [36,5,9,3,36,(goneStory title).title.utf8ByteSize,0,0]=_
    rw [goneStory_title h]
  have hsum : (retainedSizes plainAllocation (shelfScope title) shelfDestination
      (shelfPrepared title)).sum=2125+2*title.utf8ByteSize := by
    unfold retainedSizes
    have hsource : sourceSizes plainAllocation (shelfScope title).source=[56,8,24,5] := rfl
    have hformats : (shelfPrepared title).formats.map plainAllocation.text=[0,3] := rfl
    have hlabel : plainAllocation.octets (shelfPrepared title).destinationLabel=3 := rfl
    have hpath : plainAllocation.octets shelfDestination.path.bytes=4 := rfl
    have hsame : (shelfPrepared title).source=(shelfScope title).source := rfl
    rw [hrows,hitems,hsame,hsource,hformats,hlabel,hpath]
    simp only [List.sum_append,List.sum_cons,List.sum_nil]
    change 93+93+(2*240+0)+_+(2*112+0)+_+(2*24+0)+_+(3+(80+4+0))=_
    omega
  rw [retainedBytes,addAll_eq _ (.inl (by decide)),hsum,if_pos]
  · exact ⟨_,rfl⟩
  · change 512+128+_≤64*1024*1024
    omega

theorem soundLibrary_shelf (h : textPresent title=true) :
    SoundLibrary plainStart.toScopeEnv (shelfLibrary title) where
  keyed := ⟨List.nodup_singleton _,List.nodup_singleton _,List.nodup_nil,by
    change ((1 : ℕ) : ℤ)<2^63
    decide⟩
  positive s hs := by
    rw [List.mem_singleton.mp hs]
    decide
  collectionNames := by
    change ∀ c ∈ taggedLibrary.saved.collections, textPresent (displayNativeText c.name)=true
    decide +kernel
  shelfNames shelf hshelf := by
    rw [List.mem_singleton.mp hshelf]
    decide
  memberUuids m hm := by
    cases List.mem_cons.mp hm with
    | inl hfirst =>
      rw [hfirst]
      decide +kernel
    | inr hrest =>
      rw [List.mem_singleton.mp hrest]
      have hparse : plainStart.queries.parseUuid=parseIdentity := rfl
      rw [hparse]
      dsimp only
      decide +kernel
  memberTitles m hm := by
    cases List.mem_cons.mp hm with
    | inl hfirst =>
      rw [hfirst]
      exact .inr (by decide)
    | inr hrest =>
      rw [List.mem_singleton.mp hrest]
      exact .inr h
  parsed uuid huuid := by
    change (parseIdentity uuid).isSome=true at huuid
    unfold parseIdentity at huuid
    by_cases hc : uuid.length=36 ∧ uuid.toList.all identityCharacter
    · obtain ⟨c,rest,hlist⟩ := List.exists_cons_of_length_pos (l:=uuid.toList)
        (by rw [String.length_toList,hc.1]; decide)
      have hmem : c ∈ uuid.toList := hlist ▸ List.mem_cons_self
      have hcharacter := List.all_eq_true.mp hc.2 c hmem
      have hvisible : ∀ d ∈ '-'::hexDigits, isSpace d=false :=
        List.all_iff_forall_prop.mp (by decide)
      refine textPresent_of_mem hmem (hvisible c ?_)
      simp only [identityCharacter,Bool.or_eq_true,decide_eq_true_eq,List.contains_iff_mem]
        at hcharacter
      exact List.mem_cons.mpr hcharacter
    · rw [if_neg hc] at huuid
      cases huuid

def shelfGiven {title : String} (h : textPresent title=true) :
    Surroundings plainStart.toScopeEnv where
  view := shelfView
  library := shelfLibrary title
  locale := "fr-FR"
  sound := soundLibrary_shelf h
  clean path source hopen := by
    change (if path=bytes "archives/1.zip".toList then Except.ok ⟨3,some ⟨zeroChecksum,3⟩⟩
      else Except.error SourceFailure.missing)=Except.ok source at hopen
    by_cases hpath : path=bytes "archives/1.zip".toList
    · rw [hpath]
      decide +kernel
    · rw [if_neg hpath] at hopen
      cases hopen

theorem shelf_taken (h : textPresent title=true) (hsize : title.utf8ByteSize≤30*1024*1024) :
    ∃ r plan r',
    prepare plainStart.toScopeEnv shelfView (shelfLibrary title) "fr-FR"
      (.shelves [⟨1,by decide⟩]) .new=(.ok (shelfPrepared title),r) ∧
    takePrepared r 0 (shelfLibrary title) [] true=(.ok plan,r') ∧
    plan.scope=shelfScope title := by
  have hempty : title≠"" := by
    intro he
    rw [he] at h
    cases h
  obtain ⟨retained,hretained⟩ := retainedBytes_shelf hempty hsize
  have hresolve : resolveScope plainStart.toScopeEnv shelfView (shelfLibrary title) "fr-FR"
      (.shelves [⟨1,by decide⟩]) .new=.ok (shelfScope title,shelfDestination) := by
    rw [resolveScope,resolve_shelf hempty hsize]
    rfl
  have hregister : register plainStart.alloc .new (shelfScope title) shelfDestination
      (shelfPreview title)=(.ok (shelfPrepared title),⟨[⟨0,shelfScope title,
        shelfDestination,shelfPrepared title,retained⟩],0,1⟩) := by
    have hexport : (shelfPreview title).canExport=true := rfl
    unfold register
    rw [hexport,if_neg (by decide)]
    have hprepared : { shelfPreview title with preparation := some Registry.new.next }=
        shelfPrepared title := rfl
    have halloc : plainStart.alloc=plainAllocation := rfl
    dsimp only
    rw [hprepared,halloc,hretained]
    rfl
  have hprepare : prepare plainStart.toScopeEnv shelfView (shelfLibrary title) "fr-FR"
      (.shelves [⟨1,by decide⟩]) .new=(.ok (shelfPrepared title),⟨[⟨0,shelfScope title,
        shelfDestination,shelfPrepared title,retained⟩],0,1⟩) := by
    have hprobe : shelfView.probe=.removed := rfl
    rw [prepare,hresolve]
    dsimp only
    rw [hprobe]
    dsimp only
    rw [previewOf_shelf]
    exact hregister
  exact ⟨_,_,_,hprepare,rfl,rfl⟩

/-- An id of 36 characters. -/
def operationName : String := "00000000-0000-0000-0000-0000000000ff"

theorem preparation_starts_shelf : ∃ plan, plan.scope=shelfScope "Gone" ∧
    (StartsAs plainStart plan (shelfPrepared "Gone") operationName ↔
      '\x00' ∉ operationName.toList ∧
        commandBytes plainStart.alloc plan operationName ≤ maxCommandBytes) := by
  have hvisible : textPresent "Gone"=true := by decide
  obtain ⟨r,plan,r',hprepare,htake,hscope⟩ := shelf_taken hvisible (by decide)
  have hlength : operationName.length=36 := by decide +kernel
  exact ⟨plan,hscope,preparation_starts_iff [] (shelfGiven hvisible) (.shelves [⟨1,by decide⟩])
    hprepare rfl [] rfl htake hlength⟩

def longTitle : String := String.ofList (List.replicate maxCommandBytes 'a')

theorem longTitle_size : longTitle.utf8ByteSize=maxCommandBytes := by
  rw [utf8ByteSize_eq,longTitle,String.toList_ofList,length_bytes_ascii,List.length_replicate]
  intro c hc
  rw [List.eq_of_mem_replicate hc]
  decide

theorem longTitle_visible : textPresent longTitle=true := by
  have hmem : 'a' ∈ longTitle.toList := by
    rw [longTitle,String.toList_ofList]
    exact List.mem_replicate.mpr ⟨by decide,rfl⟩
  exact textPresent_of_mem hmem (by decide)

theorem commandBytes_shelf (h : title≠"") (id : String) (hscope : plan.scope=shelfScope title)
    (hitems : plan.preview=shelfPrepared title) :
    title.utf8ByteSize<commandBytes plainAllocation plan id := by
  have hgone := goneStory_title h
  have hstory : title.utf8ByteSize ≤ storyBytes plainAllocation
      (goneStory title)
      (previewItem (goneStory title)
        (.skipped .storyUnavailable)) := by
    unfold storyBytes
    rw [hgone]
    change title.utf8ByteSize≤_+_+_+_+title.utf8ByteSize+_+_+_
    omega
  have hsum : (List.zipWith (storyBytes plainAllocation) plan.scope.stories
      plan.preview.items).sum=storyBytes plainAllocation shelvedStory
        (previewItem shelvedStory .ready)+(storyBytes plainAllocation
      (goneStory title)
      (previewItem (goneStory title)
        (.skipped .storyUnavailable))+0) := by
    rw [hscope,hitems]
    rfl
  have hsize : plainAllocation.newOperationSize=184 := rfl
  unfold commandBytes
  rw [hsum,hsize]
  omega

/-- A Shelf with a removed story whose title fills the budget of a command can be prepared and
exported, but its operation is refused and the preparation is gone. -/
theorem exportable_preparation_refused : ∃ (given : Surroundings plainStart.toScopeEnv)
    (scope : Scope) (r : Registry) (plan : Prepared) (r' : Registry),
    prepare plainStart.toScopeEnv given.view given.library given.locale scope .new=
      (.ok (shelfPrepared longTitle),r) ∧
    (shelfPrepared longTitle).canExport=true ∧
    (shelfPrepared longTitle).preparation=some 0 ∧
    takePrepared r 0 given.library [] true=(.ok plan,r') ∧
    operationName.length=36 ∧ '\x00' ∉ operationName.toList ∧
    ¬StartsAs plainStart plan (shelfPrepared longTitle) operationName ∧
    operationInput plainStart plan operationName=.error .resourceLimit := by
  have hsize : longTitle.utf8ByteSize≤30*1024*1024 := by
    rw [longTitle_size,maxCommandBytes]
    omega
  have hempty : longTitle≠"" := by
    intro he
    have hvisible := longTitle_visible
    rw [he] at hvisible
    cases hvisible
  have hzero : '\x00' ∉ operationName.toList := by decide +kernel
  have hlength : operationName.length=36 := by decide +kernel
  obtain ⟨r,plan,r',hprepare,htake,hscope⟩ := shelf_taken longTitle_visible hsize
  have hnone : Sound plainStart.toScopeEnv .new := fun p hp => absurd hp List.not_mem_nil
  have hexport : (shelfPrepared longTitle).canExport=true := rfl
  obtain ⟨hplan,hpreview⟩ := taken_plan hnone (shelfGiven longTitle_visible)
    (.shelves [⟨1,by decide⟩]) hprepare hexport [] rfl htake
  have hover := commandBytes_shelf hempty operationName hscope hpreview
  rw [longTitle_size] at hover
  refine ⟨shelfGiven longTitle_visible,.shelves [⟨1,by decide⟩],r,plan,r',hprepare,hexport,rfl,
    htake,hlength,hzero,?_,?_⟩
  · intro hstarts
    rw [← hpreview] at hstarts
    have hle := ((startsAs_iff hplan hlength).mp hstarts).2
    exact absurd hle (not_le.mpr hover)
  · exact operationInput_refused hplan hover

end Librairii.ExportStarts
