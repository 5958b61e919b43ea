import Librairii.FrozenText
import Librairii.OperationPolicy

/-!
# Creation of operations with their items

A creation input is validated completely before it is submitted. The body then
either finds the same operation already stored, or inserts one header row and
one row per item. Items planned at creation enter in their terminal state and
are counted as completed in the header inserted before them.
-/

namespace Librairii.OperationCreation

open CheckedResults StorageTransactions RowTables OperationRows OperationPolicy FrozenText

/-- Literal export source discriminators. -/
inductive ExportSourceType where
  | selection
  | currentQuery
  | shelf
  | shelves
  | collection
  | collections
  | curatedShelf
  | curatedShelves
  deriving DecidableEq

def ExportSourceType.asPersisted : ExportSourceType → String
  | .selection => "selection"
  | .currentQuery => "current_query"
  | .shelf => "shelf"
  | .shelves => "shelves"
  | .collection => "collection"
  | .collections => "collections"
  | .curatedShelf => "curated_shelf"
  | .curatedShelves => "curated_shelves"

/-- Requested export source with separate collection and shelf fields. -/
structure ExportSource where
  sourceType : ExportSourceType
  collectionIds : List ℤ
  collectionNames : List String
  shelfIds : List ℤ
  shelfNames : List String
  deriving DecidableEq

def ExportSource.collectionFields (source : ExportSource) : Bool :=
  source.sourceType=.collection || source.sourceType=.collections

def ExportSource.groupIds (source : ExportSource) : List ℤ :=
  if source.collectionFields then source.collectionIds else source.shelfIds

def ExportSource.groupNames (source : ExportSource) : List String :=
  if source.collectionFields then source.collectionNames else source.shelfNames

def ExportSourceType.validCount (sourceType : ExportSourceType) (count : ℕ) : Bool :=
  match sourceType with
  | .selection | .currentQuery => count=0
  | .shelf | .collection | .curatedShelf => count=1
  | .shelves | .collections | .curatedShelves => 2≤count

/-- Source policy: only its own fields, a valid count, distinct positive ids
and visible names. -/
def ExportSource.validate (source : ExportSource) : Bool :=
  (if source.collectionFields then source.shelfIds.isEmpty && source.shelfNames.isEmpty
    else source.collectionIds.isEmpty && source.collectionNames.isEmpty) &&
  source.sourceType.validCount source.groupIds.length &&
  source.groupIds.length=source.groupNames.length &&
  source.groupIds.all (0<·) && source.groupNames.all textPresent &&
  decide source.groupIds.Nodup

/-- Terminal state and outcome planned for an item before it is stored. -/
structure PlannedItem where
  state : ItemState
  outcome : RawOutcome
  deriving DecidableEq

/-- One item of a creation input. -/
structure NewItem where
  storyId : ℤ
  storyUuid : String
  storyTitle : String
  sourceName : String
  outputName : OperationPath
  archiveRelativePath : OperationPath
  /-- Archive hash, empty when absent. -/
  archiveSha256 : String
  exportSkipCode : String
  totalBytes : ℤ
  /-- Terminal result known before the operation starts. -/
  planned : Option PlannedItem
  deriving DecidableEq

/-- A creation input. -/
structure NewOperation where
  id : String
  kind : OperationKind
  source : Option ExportSource
  destination : Option OperationPath
  items : List NewItem
  deriving DecidableEq

/-- What creation reads from third parties and from the allocator. -/
structure InputEnv where
  parsesUuid : String → Bool
  retainedBytes : NewOperation → Except InputError ℕ
  /-- Serializer of id arrays. -/
  idsText : List ℤ → String
  /-- Serializer of name arrays. -/
  namesText : List String → String

/-- The empty text is stored as NULL. -/
def nonempty (value : String) : Option String := if value="" then none else some value

def nonemptyPath (value : OperationPath) : Option OperationPath :=
  if value.bytes=[] then none else some value

def NewItem.storedStory (item : NewItem) : Option ℤ :=
  if item.storyId=0 then none else some item.storyId

def NewItem.storedOutputName (item : NewItem) : Option OperationPath :=
  nonemptyPath item.outputName

def NewItem.storedArchivePath (item : NewItem) : Option OperationPath :=
  nonemptyPath item.archiveRelativePath

def NewItem.storedArchiveHash (item : NewItem) : Option String := nonempty item.archiveSha256

/-- A relative slash path without empty, dot or parent parts; a lone parent
part is the one spelling that passes. -/
def validRelative (path : String) : Bool :=
  path≠"" && path≠"." && !(['/'].isPrefixOf path.toList) &&
  !(['.','.','/'].isPrefixOf path.toList) &&
  !(path.toList.splitOn '/').any fun part =>
    part=[] || part=['.'] || (part=['.','.'] && path≠"..")

/-- Exactly 64 lowercase hexadecimal digits. -/
def validHash (hash : String) : Bool :=
  hash.utf8ByteSize=64 && hash.toList.all fun c =>
    ('0' ≤ c && c ≤ '9') || ('a' ≤ c && c ≤ 'f')

/-- A trimmed visible name that is a single path component. -/
def validOutputName (value : String) : Bool :=
  textPresent value && tagTrim value=value && value≠"." && value≠".." &&
    !value.toList.any fun c => c = '/' || c = '\\' || c = '\x00'

/-- The two skip codes an export item may carry. -/
def skipCode (code : String) : Bool := code="story_marked_broken" || code="story_unavailable"

/-- A nullable text that is present and not empty. -/
def filled (value : Option String) : Bool := value.any fun s => s≠""

/-- Whether a planned export item is admitted. -/
def validPlan (item : NewItem) (plan : PlannedItem) : Bool :=
  (plan.state=.skipped || plan.state=.conflicted) && item.totalBytes=0 &&
    filled plan.outcome.code && filled plan.outcome.message &&
    (item.exportSkipCode="" ||
      (skipCode item.exportSkipCode && plan.outcome.code=some item.exportSkipCode))

/-- Whether a skipped but unplanned export item is admitted. -/
def validSkip (item : NewItem) : Bool :=
  skipCode item.exportSkipCode && item.totalBytes=0 && 0 ≤ item.storyId

/-- Largest 64-bit signed value. -/
def maxInt : ℤ := 2^63-1

/-- Items in order, with the byte total and the ids and UUIDs seen so far. -/
def validateItems (env : InputEnv) (kind : OperationKind) :
    List NewItem → ℤ → List ℤ → List String → Except InputError ℤ
  | [],total,_,_ => .ok total
  | item::items,total,ids,uuids =>
    if (!textPresent item.sourceName && !(item.planned.isSome && item.sourceName≠"")) ||
        item.totalBytes<0 then .error .invalid
    else if maxInt<total+item.totalBytes then .error .invalid
    else if kind≠.export then
      if item.planned.isSome then .error .invalid
      else validateItems env kind items (total+item.totalBytes) ids uuids
    else if !env.parsesUuid item.storyUuid || !textPresent item.storyTitle ||
        uuids.contains item.storyUuid then .error .invalid
    else match item.planned with
    | some plan =>
      if validPlan item plan then
        validateItems env kind items (total+item.totalBytes) ids (item.storyUuid::uuids)
      else .error .invalid
    | none =>
      if item.exportSkipCode≠"" then
        if validSkip item then
          validateItems env kind items (total+item.totalBytes) ids (item.storyUuid::uuids)
        else .error .invalid
      else if item.storyId≤0 || ids.contains item.storyId ||
          !validOutputName (displayNativeText item.outputName.bytes) ||
          !validRelative (displayNativeText item.archiveRelativePath.bytes) ||
          !validHash item.archiveSha256 then .error .invalid
      else validateItems env kind items (total+item.totalBytes) (item.storyId::ids)
        (item.storyUuid::uuids)

/-- A destination without zero bytes that is visible when it is text. -/
def validDestination (destination : Option OperationPath) : Bool :=
  destination.any fun p => !p.bytes.contains 0 &&
    match fromUtf8 p.bytes with
    | none => !p.bytes.isEmpty
    | some text => textPresent text

def NewOperation.validate (env : InputEnv) (input : NewOperation) : Except InputError ℤ := do
  let _ ← env.retainedBytes input
  if input.id.toList.contains '\x00' || input.id.length≠36 || input.items.isEmpty then
    .error .invalid
  else do
    let total ← validateItems env input.kind input.items 0 [] []
    if input.kind=.export then
      if input.source.any ExportSource.validate && validDestination input.destination then
        .ok total
      else .error .invalid
    else if input.source.isSome || input.destination.isSome then .error .invalid
    else .ok 0

/-- Export source columns of an input, with the textual escapes applied. -/
def source (env : InputEnv) (input : NewOperation) : StoredExportScope :=
  match input.source with
  | none => ⟨none,none,none⟩
  | some s => ⟨some s.sourceType.asPersisted,
      some (String.ofList (goEscapes (env.idsText s.groupIds).toList)),
      some (String.ofList (goEscapes (env.namesText s.groupNames).toList))⟩

def itemMatches (stored : OperationItem) (new : NewItem) : Bool :=
  stored.identity.resolvedStoryId=new.storedStory &&
    stored.identity.storyUuid=nonempty new.storyUuid &&
    stored.storyTitle=nonempty new.storyTitle &&
    stored.sourceName=new.sourceName &&
    stored.outputName=new.storedOutputName &&
    stored.archiveRelativePath=new.storedArchivePath &&
    stored.archiveSha256=new.storedArchiveHash &&
    stored.exportSkipCode=nonempty new.exportSkipCode &&
    stored.progress.total=new.totalBytes &&
    new.planned.all fun plan => stored.state=plan.state && stored.outcome=plan.outcome

def creationMatches (env : InputEnv) (input : NewOperation) (snapshot : OperationSnapshot) :
    Except StorageError Bool := do
  let h := snapshot.operation
  if h.identity.id≠input.id || h.kind≠input.kind || h.exportScope≠source env input ||
      h.destination≠input.destination || snapshot.items.length≠input.items.length ||
      h.counts.total≠input.items.length then .ok false
  else do
    let total ← (input.validate env).mapError .operationInput
    if h.totalBytes≠total then .ok false
    else .ok ((snapshot.items.zip input.items).all fun p => itemMatches p.1 p.2)

def exportScopeComplete (env : SchemaEnv) (row : OperationHeader) : Bool :=
  row.kind≠.export ||
  match row.exportScope.discriminator,row.exportScope.groupIds.bind env.jsonArrayLength,
    row.exportScope.groupNames.bind env.jsonArrayLength with
  | some discriminator,some ids,some names =>
    ids=names &&
    !(["selection","current_query"].contains discriminator && ids≠0) &&
    !(["shelf","collection","curated_shelf"].contains discriminator && ids≠1) &&
    !(["shelves","collections","curated_shelves"].contains discriminator && ids<2) &&
    !blankPath row.destination
  | _,_,_ => false

def metadataSlotFree (d : Database) (row : OperationHeader) : Bool :=
  !(row.kind=.metadataSync && !isTerminal row.state) ||
    !d.operations.any fun other => other.kind=.metadataSync && !isTerminal other.state

def insertOperation (env : SchemaEnv) (row : OperationHeader) : Body Unit := fun d =>
  if exportScopeComplete env row && operationChecks env row && metadataSlotFree d row &&
      (lookup (·.identity.id) row.identity.id d.operations).isNone then
    .ok ((),{d with operations := d.operations++[row]})
  else .error (.sqlite .constraintViolation)

def itemScopeComplete (d : Database) (row : OperationItem) : Bool :=
  (lookup (·.identity.id) row.operationId d.operations).all fun parent =>
    parent.kind≠.export ||
    (!blank row.identity.storyUuid && !blank row.storyTitle &&
      if row.exportSkipCode.isSome then row.progress.total=0
      else row.identity.storyId.isSome && row.identity.resolvedStoryId.isSome &&
        !blankPath row.outputName && !blankPath row.archiveRelativePath &&
        row.archiveSha256.isSome)

def nextRowId (rows : List OperationItem) : ℤ :=
  1+(rows.map (·.identity.id)).foldr max 0

def insertItem (env : SchemaEnv) (row : OperationItem) : Body Unit := fun d =>
  if itemScopeComplete d row && itemChecks row && storyReference env none row &&
      (lookup (·.identity.id) row.operationId d.operations).isSome then
    .ok ((),{d with items := d.items++[
      {row with identity := {row.identity with id := nextRowId d.items}}]})
  else .error (.sqlite .constraintViolation)

def newHeader (env : InputEnv) (input : NewOperation) (total : ℤ) (createdAt : String) :
    OperationHeader where
  identity := ⟨input.id,createdAt,none,none⟩
  kind := input.kind
  state := .queued
  exportScope := source env input
  destination := input.destination
  counts := ⟨((input.items.countP fun item => item.planned.isSome : ℕ) : ℤ),input.items.length⟩
  totalBytes := total
  cancelRequested := false
  outcome := ⟨none,none⟩

def newItemRow (id : String) (item : NewItem) : OperationItem where
  operationId := id
  identity := ⟨0,item.storedStory,item.storedStory,nonempty item.storyUuid⟩
  storyTitle := nonempty item.storyTitle
  sourceName := item.sourceName
  outputName := item.storedOutputName
  archiveRelativePath := item.storedArchivePath
  archiveSha256 := item.storedArchiveHash
  exportSkipCode := nonempty item.exportSkipCode
  state := (item.planned.map (·.state)).getD .pending
  progress := ⟨0,item.totalBytes⟩
  outcome := ⟨item.planned.bind (·.outcome.code),item.planned.bind (·.outcome.message)⟩

def insertItems (env : SchemaEnv) (id : String) : List NewItem → Body Unit
  | [] => pure ()
  | item::items => do
    insertItem env (newItemRow id item)
    insertItems env id items

/-- The body of a creation: find the same operation or insert all its rows. -/
def create (sizes : RowSizes) (inputs : InputEnv) (env : SchemaEnv) (input : NewOperation)
    (createdAt : String) : Body OperationSnapshot := do
  let total ← observe fun _ => (input.validate inputs).mapError .operationInput
  if !textPresent createdAt then throw (.operationInput .invalid)
  else do
    match ← observe fun d => snapshot sizes d input.id with
    | some existing =>
      if existing.operation.identity.createdAt≠createdAt then throw .snapshotChanged
      else do
        let same ← observe fun _ => creationMatches inputs input existing
        if same then pure existing else throw .snapshotChanged
    | none => do
      insertOperation env (newHeader inputs input total createdAt)
      insertItems env input.id input.items
      match ← observe fun d => snapshot sizes d input.id with
      | some stored => pure stored
      | none => throw (.operationInput .invalid)

theorem validateItems_planned {env : InputEnv} {kind : OperationKind} {items : List NewItem}
    {total result : ℤ} {ids : List ℤ} {uuids : List String}
    (h : validateItems env kind items total ids uuids=.ok result) :
    ∀ item ∈ items, ∀ plan, item.planned=some plan → plan.state.isTerminal=true := by
  induction items generalizing total ids uuids with
  | nil =>
    intro item hm
    exact absurd hm List.not_mem_nil
  | cons first items ih =>
    intro item hm plan hp
    have hrest : ∀ t i u, validateItems env kind items t i u=.ok result →
        (∀ plan, first.planned=some plan → plan.state.isTerminal=true) →
        plan.state.isTerminal=true := by
      intro t i u hr hf
      rcases List.mem_cons.mp hm with rfl | hm
      · exact hf plan hp
      · exact ih hr item hm plan hp
    rw [validateItems] at h
    cases hq : first.planned with
    | some known =>
      simp only [hq,Option.isSome_some] at h
      split_ifs at h with h1 h2 h3 h4 h5
      refine hrest _ _ _ h ?_
      intro plan hk
      have he : known=plan := Option.some.inj (hq.symm.trans hk)
      have hv : known.state=.skipped ∨ known.state=.conflicted := by
        simp only [validPlan,Bool.and_eq_true,Bool.or_eq_true,decide_eq_true_eq] at h5
        exact h5.1.1.1.1
      rw [←he]
      rcases hv with hv | hv <;> rw [hv] <;> rfl
    | none =>
      have hf : ∀ plan, first.planned=some plan → plan.state.isTerminal=true := by
        intro plan hk
        rw [hq] at hk
        cases hk
      simp only [hq,Option.isSome_none] at h
      split_ifs at h
      · exact hrest _ _ _ h hf
      · exact hrest _ _ _ h hf
      · exact hrest _ _ _ h hf

theorem validate_planned {env : InputEnv} {input : NewOperation} {total : ℤ}
    (h : input.validate env=.ok total) :
    ∀ item ∈ input.items, ∀ plan, item.planned=some plan → plan.state.isTerminal=true := by
  obtain ⟨retained,-,h⟩ := exceptBind_ok.mp h
  obtain ⟨-,h⟩ := checked_ok.mp h
  obtain ⟨checked,hc,-⟩ := exceptBind_ok.mp h
  exact validateItems_planned hc

theorem newItemRow_terminal {env : InputEnv} {input : NewOperation} {total : ℤ}
    (h : input.validate env=.ok total) (id : String) :
    input.items.countP (fun item => (newItemRow id item).state.isTerminal)=
      input.items.countP fun item => item.planned.isSome := by
  apply List.countP_congr
  intro item hm
  cases hp : item.planned with
  | none => simp only [newItemRow,hp,Option.map_none,Option.getD_none,Option.isSome_none,
      ItemState.isTerminal]
  | some plan =>
    have ht := validate_planned h item hm plan hp
    simp only [newItemRow,hp,Option.map_some,Option.getD_some,Option.isSome_some,ht]

theorem lt_nextRowId {rows : List OperationItem} {row : OperationItem} (h : row ∈ rows) :
    row.identity.id<nextRowId rows := by
  have hle : row.identity.id≤(rows.map (·.identity.id)).foldr max 0 := by
    induction rows with
    | nil => exact absurd h List.not_mem_nil
    | cons first rows ih =>
      rw [List.map_cons,List.foldr_cons]
      rcases List.mem_cons.mp h with rfl | hm
      · exact le_max_left _ _
      · exact (ih hm).trans (le_max_right _ _)
  unfold nextRowId
  omega

theorem insertOperation_ok {env : SchemaEnv} {row : OperationHeader} {d d' : Database}
    {u : Unit} (h : (insertOperation env row).run d=.ok (u,d')) :
    lookup (·.identity.id) row.identity.id d.operations=none ∧
      d'={d with operations := d.operations++[row]} := by
  unfold insertOperation StateT.run at h
  dsimp only at h
  split at h
  · next hc =>
    cases h
    simp only [Bool.and_eq_true,Option.isNone_iff_eq_none] at hc
    exact ⟨hc.2,rfl⟩
  · cases h

theorem insertItem_ok {env : SchemaEnv} {row : OperationItem} {d d' : Database}
    {u : Unit} (h : (insertItem env row).run d=.ok (u,d')) :
    d'={d with items := d.items++[
      {row with identity := {row.identity with id := nextRowId d.items}}]} := by
  unfold insertItem StateT.run at h
  dsimp only at h
  split at h
  · cases h
    rfl
  · cases h

/-- The inserted rows follow the input items: they belong to the operation,
count as many terminal rows and keep row ids unique. -/
theorem insertItems_ok {env : SchemaEnv} {id : String} {items : List NewItem}
    {d d' : Database} {u : Unit} (h : (insertItems env id items).run d=.ok (u,d')) :
    ∃ rows : List OperationItem, d'={d with items := d.items++rows} ∧
      rows.length=items.length ∧ (∀ row ∈ rows, row.operationId=id) ∧
      rows.countP (fun row => row.state.isTerminal)=
        items.countP (fun item => (newItemRow id item).state.isTerminal) ∧
      ((d.items.map (·.identity.id)).Nodup → (d'.items.map (·.identity.id)).Nodup) := by
  induction items generalizing d u with
  | nil =>
    obtain ⟨-,rfl⟩ := pure_ok.mp h
    refine ⟨[],?_,rfl,?_,rfl,fun hn => hn⟩
    · rw [List.append_nil]
    · intro row hm
      exact absurd hm List.not_mem_nil
  | cons item items ih =>
    obtain ⟨_,d₁,h1,h⟩ := bind_ok.mp h
    have he := insertItem_ok h1
    obtain ⟨rows,hd,hl,ho,hc,hn⟩ := ih h
    refine ⟨{newItemRow id item with identity :=
      {(newItemRow id item).identity with id := nextRowId d.items}}::rows,?_,?_,?_,?_,?_⟩
    · rw [hd,he]
      simp only [List.append_assoc,List.singleton_append]
    · rw [List.length_cons,List.length_cons,hl]
    · intro row hm
      rcases List.mem_cons.mp hm with rfl | hm
      · rfl
      · exact ho row hm
    · rw [List.countP_cons,List.countP_cons,hc]
    · intro hnd
      apply hn
      rw [he]
      dsimp only
      rw [List.map_append,List.nodup_append]
      refine ⟨hnd,List.nodup_singleton _,?_⟩
      intro a ha b hb hab
      obtain ⟨row,hm,rfl⟩ := List.mem_map.mp ha
      have hlt := lt_nextRowId hm
      rw [List.map_singleton,List.mem_singleton] at hb
      dsimp only at hab hb
      omega

section Creation

variable {sizes : RowSizes} {inputs : InputEnv} {env : SchemaEnv} {input : NewOperation}
  {createdAt : String} {d d' : Database} {stored : OperationSnapshot}

/-- What a creation that commits did: it found the same operation stored and wrote nothing, or
inserted the header and the items under a free id and read them back. -/
theorem create_cases (h : (create sizes inputs env input createdAt).run d=.ok (stored,d')) :
    ∃ total, input.validate inputs=.ok total ∧ textPresent createdAt=true ∧
      (d'=d ∧ snapshot sizes d input.id=.ok (some stored) ∧
        stored.operation.identity.createdAt=createdAt ∧
        creationMatches inputs input stored=.ok true ∨
      lookup (·.identity.id) input.id d.operations=none ∧
        (insertItems env input.id input.items).run
          {d with operations := d.operations++[newHeader inputs input total createdAt]}=
            .ok ((),d') ∧
        snapshot sizes d' input.id=.ok (some stored)) := by
  obtain ⟨total,d₁,h1,h⟩ := bind_ok.mp h
  obtain ⟨ht,rfl⟩ := observe_ok.mp h1
  refine ⟨total,mapError_ok.mp ht,?_⟩
  split at h
  · exact (throw_ok.mp h).elim
  next htext =>
  refine ⟨by simpa using htext,?_⟩
  obtain ⟨found,d₂,h2,h⟩ := bind_ok.mp h
  obtain ⟨hs,rfl⟩ := observe_ok.mp h2
  cases found with
  | some existing =>
    left
    dsimp only at h
    split at h
    · exact (throw_ok.mp h).elim
    next hat =>
    obtain ⟨same,d₃,h3,h⟩ := bind_ok.mp h
    obtain ⟨hsame,rfl⟩ := observe_ok.mp h3
    split at h
    · next htrue =>
      obtain ⟨rfl,rfl⟩ := pure_ok.mp h
      exact ⟨rfl,hs,not_not.mp hat,htrue ▸ hsame⟩
    · exact (throw_ok.mp h).elim
  | none =>
    right
    obtain ⟨_,d₃,h3,h⟩ := bind_ok.mp h
    obtain ⟨_,d₄,h4,h⟩ := bind_ok.mp h
    obtain ⟨again,d₅,h5,h⟩ := bind_ok.mp h
    obtain ⟨hfree,rfl⟩ := insertOperation_ok h3
    obtain ⟨hagain,rfl⟩ := observe_ok.mp h5
    cases again with
    | none => exact (throw_ok.mp h).elim
    | some stored =>
      obtain ⟨rfl,rfl⟩ := pure_ok.mp h
      exact ⟨hfree,h4,hagain⟩

/-- A creation that commits found the operation stored and wrote nothing, or
appended its header under a free key with all its items. -/
theorem create_ok (h : (create sizes inputs env input createdAt).run d=.ok (stored,d')) :
    d'=d ∨ ∃ total rows, lookup (·.identity.id) input.id d.operations=none ∧
      d'.operations=d.operations++[newHeader inputs input total createdAt] ∧
      d'.items=d.items++rows ∧ rows.length=input.items.length ∧
      (∀ row ∈ rows, row.operationId=input.id) ∧
      rows.countP (fun row => row.state.isTerminal)=
        input.items.countP (fun item => item.planned.isSome) ∧
      ((d.items.map (·.identity.id)).Nodup → (d'.items.map (·.identity.id)).Nodup) := by
  obtain ⟨total,hv,-,⟨he,-⟩ | ⟨hfree,hi,-⟩⟩ := create_cases h
  · exact .inl he
  · obtain ⟨rows,rfl,hl,ho,hc,hn⟩ := insertItems_ok hi
    exact .inr ⟨total,rows,hfree,rfl,rfl,hl,ho,hc.trans (newItemRow_terminal hv input.id),hn⟩

end Creation

end Librairii.OperationCreation
