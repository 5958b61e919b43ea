import Librairii.ArchiveFormats
import Librairii.ExportPlans
import Librairii.ExportScopes
import Librairii.OperationCreation

/-!
# Preparation of exports

A preparation resolves a scope, inspects the archive of every story against its row and
decides what becomes of it: skipped with an issue, in conflict with a name, or ready. A
preview with ready stories is registered under a fresh id within a budget of bytes; the
oldest preparations make room for it. A preparation is taken once.
-/

namespace Librairii.ExportPreparation

open CheckedResults OperationRows OperationCreation FrozenText JsonText DisplayNames
  SimpleLower ArchiveFormats StoryRows StoryPages
open ExportScopes hiding Library
open ExportPlans hiding Plan
open StoryQueries (ExportError)

/-- Add sizes one after the other, never past a limit. -/
def addAll (limit : ℕ) : ℕ → List ℕ → Option ℕ
  | total,[] => some total
  | total,size::sizes =>
    if limit<total+size then none else addAll limit (total+size) sizes

theorem addAll_eq {limit total : ℕ} (sizes : List ℕ) (h : total≤limit ∨ sizes≠[]) :
    addAll limit total sizes=
      if total+sizes.sum≤limit then some (total+sizes.sum) else none := by
  induction sizes generalizing total with
  | nil =>
    have hfits := h.resolve_right (fun he => he rfl)
    rw [addAll,List.sum_nil,Nat.add_zero,if_pos hfits]
  | cons size sizes ih =>
    rw [addAll,List.sum_cons,← Nat.add_assoc]
    by_cases hlarge : limit<total+size
    · rw [if_pos hlarge,if_neg (by omega)]
    · rw [if_neg hlarge,ih (.inl (not_lt.mp hlarge))]

def hexDigits : List Char :=
  ['0','1','2','3','4','5','6','7','8','9','a','b','c','d','e','f']

/-- Four bits as a lowercase hexadecimal digit. -/
def hexDigit (n : ℕ) : Char := hexDigits[n%16]?.getD '0'

/-- A checksum of 32 bytes. -/
abbrev Checksum := {octets : List UInt8 // octets.length=32}

def Checksum.display (checksum : Checksum) : String :=
  String.ofList (checksum.val.flatMap fun b => [hexDigit (b.toNat/16),hexDigit b.toNat])

/-- What was read of an archive. -/
structure Digest where
  checksum : Checksum
  bytes : ℕ

/-- An archive that was opened. -/
structure ArchiveSource where
  /-- Size when it was opened. -/
  bytes : ℕ
  /-- What reading it to the end gives, unless reading or the check after it fails. -/
  digest : Option Digest

/-- Why an archive is not opened. -/
inductive SourceFailure where
  /-- There is no such file, or its path leaves the library. -/
  | missing
  | other
  deriving DecidableEq

/-- A selected directory under an absolute path. -/
structure Destination where
  /-- The bytes after the first slash. -/
  rest : List UInt8
  noZero : 0 ∉ rest

def Destination.path (destination : Destination) : OperationPath := ⟨0x2f::destination.rest⟩

/-- The last part of the path, or the path when there is none. -/
def Destination.label (destination : Destination) : List UInt8 :=
  let last := (destination.rest.splitOn 0x2f).getLast?.getD []
  if last=[] then destination.path.bytes else last

/-- What became of the probe that is created in a destination. -/
inductive Probe where
  | removed
  | failed
  /-- The probe may still be there and stays owned. -/
  | retained
  deriving DecidableEq

/-- What a preparation finds in the file system. -/
structure FileView where
  /-- The selected destination, unless it cannot be opened. -/
  destination : Option Destination
  /-- The files of the library can be read. -/
  readable : Bool
  /-- The destination lies in the library. -/
  inside : Bool
  probe : Probe
  /-- Whether the destination has an entry of a name, unless that cannot be told. -/
  holds : OperationPath → Option Bool
  openArchive : List UInt8 → Except SourceFailure ArchiveSource

/-- The preview of an export. -/
structure Preview where
  preparation : Option ℕ
  source : Source
  destinationLabel : List UInt8
  items : List PreviewItem
  ready : ℕ
  bytes : ℤ
  formats : List String
  collapsedOverlap : ℕ
  issue : Option Issue
  deriving DecidableEq

def Preview.canExport (preview : Preview) : Bool := 0<preview.ready && preview.issue.isNone

/-- A registered preparation. -/
structure Prepared where
  id : ℕ
  scope : Resolved
  destination : Destination
  preview : Preview
  bytes : ℕ

/-- The preparations of a process, oldest first. -/
structure Registry where
  prepared : List Prepared
  /-- Number of outputs that stay owned. -/
  retained : ℕ
  next : ℕ

/-- Why a preparation fails. -/
inductive PreparationError where
  | storage (error : StoryQueries.StorageError)
  | refused (error : ExportError)
  | custodyRecoveryRequired
  | compatibilityInvariant
  | file
  deriving DecidableEq

/-- Bound on the number of preparations. -/
def maxPrepared : ℕ := 8

def maxPreparedBytes : ℕ := 64*1024*1024

def originalName (s : ExportStory) : OperationPath := ⟨s.originalFilenameBytes⟩

def managedPath (s : ExportStory) : OperationPath := ⟨s.managedRelativePathBytes⟩

def outputName (s : ExportStory) : String := displayNativeText (originalName s).bytes

def inspect (view : FileView) (s : ExportStory) : Except PreparationError (Option Issue) :=
  if s.id=0 then .ok (some .storyUnavailable)
  else if s.broken then .ok (some .storyMarkedBroken)
  else if s.verification="missing" then .ok (some .archiveMissing)
  else if s.verification≠"compatible" then .ok (some .archiveInvalid)
  else if supportedName (outputName s) s.detectedFormat=false then .ok (some .unsupportedExtension)
  else match view.openArchive s.managedRelativePathBytes with
    | .error .missing => .ok (some .archiveMissing)
    | .error .other => .error .file
    | .ok source =>
      if s.byteSize<0 ∨ (source.bytes : ℤ)≠s.byteSize then .ok (some .archiveChanged)
      else match source.digest with
        | none => .error .file
        | some digest =>
          if digest.checksum.display≠s.sha256 ∨ (digest.bytes : ℤ)≠s.byteSize then
            .ok (some .archiveChanged)
          else .ok none

/-- What a preparation has gathered so far. -/
structure Gathered where
  names : List String
  formats : List String
  items : List PreviewItem
  ready : ℕ
  bytes : ℤ

def insertText (value : String) (values : List String) : List String :=
  if value ∈ values then values else values.orderedInsert (· ≤ ·) value

/-- What becomes of a story, with the keys of the names that are taken then. -/
def disposition (view : FileView) (names : List String) (s : ExportStory) :
    Except PreparationError (Disposition×List String) := do
  match ← inspect view s with
  | some issue => return (.skipped issue,names)
  | none =>
    let key ← (lowercaseKey (outputName s)).mapError fun _ => .compatibilityInvariant
    if key ∈ names then return (.conflicted,names)
    else match view.holds (originalName s) with
      | none => .error .file
      | some true => return (.conflicted,key::names)
      | some false => return (.ready,key::names)

def previewItem (s : ExportStory) (disposition : Disposition) : PreviewItem where
  uuid := s.uuid
  title := s.title
  outputName := outputName s
  format := s.detectedFormat
  bytes := s.byteSize
  disposition := disposition

def gather (view : FileView) (g : Gathered) (s : ExportStory) :
    Except PreparationError Gathered := do
  let (found,names) ← disposition view g.names s
  let g := { g with names := names, formats := insertText s.detectedFormat g.formats }
  if found=.ready then
    if maxInt<g.bytes+s.byteSize then .error (.refused .resourceLimit)
    else return { g with
      ready := g.ready+1
      bytes := g.bytes+s.byteSize
      items := g.items++[previewItem s found] }
  else return { g with items := g.items++[previewItem s found] }

def previewIssue (stories : List ExportStory) (ready : ℕ) : Option Issue :=
  if stories=[] then some .emptyScope
  else if ready=0 then some .noExportableStories
  else none

def previewOf (view : FileView) (destination : Destination) (scope : Resolved) :
    Except PreparationError Preview := do
  let g ← scope.stories.foldlM (gather view) ⟨[],[],[],0,0⟩
  return {
    preparation := none
    source := scope.source
    destinationLabel := destination.label
    items := g.items
    ready := g.ready
    bytes := g.bytes
    formats := g.formats
    collapsedOverlap := scope.collapsedOverlap
    issue := previewIssue scope.stories g.ready }

def sourceSizes (alloc : Allocation) (source : Source) : List ℕ :=
  [alloc.sourceSize,alloc.vector source.ids.length*alloc.wordSize,
    alloc.vector source.names.length*alloc.textSize]++source.names.map alloc.octets

def itemSizes (alloc : Allocation) (item : PreviewItem) : List ℕ :=
  [alloc.text item.uuid,alloc.text item.title,alloc.text item.outputName,alloc.text item.format]

def retainedSizes (alloc : Allocation) (scope : Resolved) (destination : Destination)
    (preview : Preview) : List ℕ :=
  sourceSizes alloc scope.source++sourceSizes alloc preview.source++
    [alloc.vector scope.stories.length*alloc.storySize]++scope.stories.map (rowBytes alloc)++
    [preview.items.length*alloc.previewItemSize]++preview.items.flatMap (itemSizes alloc)++
    [alloc.vector preview.formats.length*alloc.textSize]++preview.formats.map alloc.text++
    [alloc.octets preview.destinationLabel,
      alloc.destinationSize+alloc.octets destination.path.bytes]

def retainedBytes (alloc : Allocation) (scope : Resolved) (destination : Destination)
    (preview : Preview) : Option ℕ :=
  addAll maxPreparedBytes (alloc.preparedSize+128) (retainedSizes alloc scope destination preview)

/-- Drop the oldest preparations until one more fits. -/
def evict (bytes : ℕ) : List Prepared → List Prepared
  | [] => []
  | plan::plans =>
    if maxPrepared≤(plan::plans).length ∨
        maxPreparedBytes<((plan::plans).map (·.bytes)).sum+bytes then evict bytes plans
    else plan::plans

/-- What is left after dropping the oldest preparations is the rest. -/
theorem evict_suffix (bytes : ℕ) (plans : List Prepared) : evict bytes plans <:+ plans := by
  induction plans with
  | nil => exact List.suffix_refl []
  | cons plan plans ih =>
    unfold evict
    split
    · exact ih.trans (List.suffix_cons plan plans)
    · exact List.suffix_refl _

/-- Register a preview that can be exported under a fresh id. -/
def register (alloc : Allocation) (r : Registry) (scope : Resolved) (destination : Destination)
    (preview : Preview) : Except PreparationError Preview×Registry :=
  if preview.canExport=false then (.ok preview,r)
  else
    let preview := { preview with preparation := some r.next }
    match retainedBytes alloc scope destination preview with
    | none => (.error (.refused .resourceLimit),{ r with next := r.next+1 })
    | some bytes => (.ok preview,{ r with
        next := r.next+1
        prepared := evict bytes r.prepared++[⟨r.next,scope,destination,preview,bytes⟩] })

def resolveScope (env : ScopeEnv) (view : FileView) (l : ExportScopes.Library) (locale : String)
    (scope : Scope) (r : Registry) : Except PreparationError (Resolved×Destination) := do
  let scope ← (resolve env l locale scope).mapError .storage
  match view.destination with
  | none => .error .file
  | some destination =>
    if r.retained≠0 then .error .custodyRecoveryRequired
    else if view.readable=false then .error .file
    else if view.inside then .error (.refused .destination)
    else return (scope,destination)

def prepare (env : ScopeEnv) (view : FileView) (l : ExportScopes.Library) (locale : String)
    (scope : Scope) (r : Registry) : Except PreparationError Preview×Registry :=
  match resolveScope env view l locale scope r with
  | .error e => (.error e,r)
  | .ok (scope,destination) =>
    match view.probe with
    | .failed => (.error .file,r)
    | .retained => (.error .file,{ r with retained := r.retained+1 })
    | .removed =>
      match previewOf view destination scope with
      | .error e => (.error e,r)
      | .ok preview => register env.alloc r scope destination preview

/-- The live id and broken mark of a story, or those of a story that is not in the library. -/
def liveState (l : ExportScopes.Library) (intents : List ℤ) (uuid : String) : ℤ×Bool :=
  match currentStory (listed l.tables.storyTables) intents uuid with
  | some row => (row.story.id,row.story.isBroken)
  | none => (0,false)

/-- Take a preparation once; it is gone even when it turns out stale. -/
def takePrepared (r : Registry) (id : ℕ) (l : ExportScopes.Library) (intents : List ℤ)
    (revalidated : Bool) : Except PreparationError Prepared×Registry :=
  if r.retained≠0 then (.error .custodyRecoveryRequired,r)
  else match r.prepared.find? (·.id=id) with
    | none => (.error (.refused .stale),r)
    | some plan =>
      let r := { r with prepared := r.prepared.eraseP (·.id=id) }
      if revalidated=false then (.error .file,r)
      else if plan.scope.stories.any (fun s =>
          liveState l intents s.uuid≠(s.id,s.broken)) then (.error (.refused .stale),r)
      else (.ok plan,r)

/-- Forget a preparation. -/
def discard (r : Registry) (id : ℕ) : Registry :=
  { r with prepared := r.prepared.filter (·.id≠id) }

/-- Forget every preparation. -/
def invalidate (r : Registry) : Registry := { r with prepared := [] }

theorem Checksum.display_valid (checksum : Checksum) : validHash checksum.display=true := by
  have hdigit : ∀ n, hexDigit n ∈ hexDigits := by
    intro n
    have hlt : n%16<hexDigits.length := Nat.mod_lt n (by decide)
    rw [hexDigit,List.getElem?_eq_getElem hlt,Option.getD_some]
    exact List.getElem_mem hlt
  have hsmall : ∀ c ∈ hexDigits, c.toNat<128 ∧
      (('0' ≤ c && c ≤ '9') || ('a' ≤ c && c ≤ 'f'))=true :=
    List.all_iff_forall_prop.mp (by decide)
  have hchars : ∀ c ∈ checksum.display.toList, c ∈ hexDigits := by
    intro c hc
    rw [Checksum.display,String.toList_ofList] at hc
    obtain ⟨b,-,hc⟩ := List.mem_flatMap.mp hc
    cases List.mem_cons.mp hc with
    | inl hhigh => exact hhigh ▸ hdigit _
    | inr hlow => exact List.mem_singleton.mp hlow ▸ hdigit _
  have hlength : checksum.display.toList.length=64 := by
    have hpairs : ∀ octets : List UInt8,
        (octets.flatMap fun b => [hexDigit (b.toNat/16),hexDigit b.toNat]).length=
          2*octets.length := by
      intro octets
      induction octets with
      | nil => rfl
      | cons b octets ih =>
        rw [List.flatMap_cons,List.length_append,ih,List.length_cons,List.length_cons,
          List.length_nil,List.length_cons]
        omega
    rw [Checksum.display,String.toList_ofList,hpairs,checksum.property]
  have hsize : checksum.display.utf8ByteSize=64 := by
    rw [utf8ByteSize_eq,length_bytes_ascii fun c hc => (hsmall c (hchars c hc)).1,hlength]
  rw [validHash,Bool.and_eq_true,decide_eq_true_eq,List.all_eq_true]
  exact ⟨hsize,fun c hc => (hsmall c (hchars c hc)).2⟩

/-- A story whose archive was found as its row says. -/
structure ReadyStory (view : FileView) (s : ExportStory) : Prop where
  /-- It is in the library. -/
  stored : s.id≠0
  supported : supportedName (outputName s) s.detectedFormat=true
  /-- Its size is not negative. -/
  sized : 0 ≤ s.byteSize
  hashed : ∃ checksum : Checksum, checksum.display=s.sha256
  opened : ∃ source, view.openArchive s.managedRelativePathBytes=.ok source

theorem inspect_ready {view : FileView} {s : ExportStory} (h : inspect view s=.ok none) :
    ReadyStory view s := by
  unfold inspect at h
  by_cases hid : s.id=0
  · rw [if_pos hid] at h
    cases h
  rw [if_neg hid] at h
  by_cases hbroken : s.broken=true
  · rw [if_pos hbroken] at h
    cases h
  rw [if_neg hbroken] at h
  by_cases hmissing : s.verification="missing"
  · rw [if_pos hmissing] at h
    cases h
  rw [if_neg hmissing] at h
  by_cases hinvalid : s.verification≠"compatible"
  · rw [if_pos hinvalid] at h
    cases h
  rw [if_neg hinvalid] at h
  by_cases hname : supportedName (outputName s) s.detectedFormat=false
  · rw [if_pos hname] at h
    cases h
  rw [if_neg hname] at h
  cases hopen : view.openArchive s.managedRelativePathBytes with
  | error failure =>
    rw [hopen] at h
    cases failure <;> cases h
  | ok source =>
    rw [hopen] at h
    dsimp only at h
    by_cases hsize : s.byteSize<0 ∨ (source.bytes : ℤ)≠s.byteSize
    · rw [if_pos hsize] at h
      cases h
    rw [if_neg hsize] at h
    cases hdigest : source.digest with
    | none =>
      rw [hdigest] at h
      cases h
    | some digest =>
      rw [hdigest] at h
      dsimp only at h
      by_cases hchanged : digest.checksum.display≠s.sha256 ∨ (digest.bytes : ℤ)≠s.byteSize
      · rw [if_pos hchanged] at h
        cases h
      · rw [not_or,not_not,not_not] at hchanged
        rw [not_or,not_lt] at hsize
        exact ⟨hid,Bool.eq_true_of_not_eq_false hname,hsize.1,⟨digest.checksum,hchanged.1⟩,
          ⟨source,hopen⟩⟩

theorem disposition_ready {view : FileView} {names names' : List String} {s : ExportStory}
    (h : disposition view names s=.ok (.ready,names')) : ReadyStory view s := by
  obtain ⟨issue,hinspect,h⟩ := exceptBind_ok.mp h
  cases issue with
  | some issue => cases h
  | none => exact inspect_ready hinspect

def ItemOf (view : FileView) (s : ExportStory) (item : PreviewItem) : Prop :=
  item=previewItem s item.disposition ∧ (item.disposition=.ready → ReadyStory view s)

def readyItems (items : List PreviewItem) : List PreviewItem :=
  items.filter fun item => item.disposition=.ready

def readyBytes (items : List PreviewItem) : ℤ := ((readyItems items).map (·.bytes)).sum

theorem readyItems_cons_ready {item : PreviewItem} (items : List PreviewItem)
    (h : item.disposition=.ready) : readyItems (item::items)=item::readyItems items :=
  List.filter_cons_of_pos (p:=fun item : PreviewItem => item.disposition=.ready) (decide_eq_true h)

theorem readyItems_cons_other {item : PreviewItem} (items : List PreviewItem)
    (h : item.disposition≠.ready) : readyItems (item::items)=readyItems items :=
  List.filter_cons_of_neg (p:=fun item : PreviewItem => item.disposition=.ready)
    (fun he => h (of_decide_eq_true he))

theorem readyBytes_cons_ready {item : PreviewItem} (items : List PreviewItem)
    (h : item.disposition=.ready) : readyBytes (item::items)=item.bytes+readyBytes items := by
  rw [readyBytes,readyItems_cons_ready items h,List.map_cons,List.sum_cons]
  rfl

theorem readyBytes_cons_other {item : PreviewItem} (items : List PreviewItem)
    (h : item.disposition≠.ready) : readyBytes (item::items)=readyBytes items := by
  rw [readyBytes,readyItems_cons_other items h]
  rfl

theorem gather_ok {view : FileView} {g g' : Gathered} {s : ExportStory}
    (h : gather view g s=.ok g') :
    ∃ item, g'.items=g.items++[item] ∧ ItemOf view s item ∧
      g'.ready=g.ready+(readyItems [item]).length ∧ g'.bytes=g.bytes+readyBytes [item] ∧
      (g.bytes ≤ maxInt → g'.bytes ≤ maxInt) := by
  obtain ⟨⟨found,names⟩,hfound,h⟩ := exceptBind_ok.mp h
  dsimp only at h
  by_cases hready : found=.ready
  · subst hready
    rw [if_pos rfl] at h
    obtain ⟨hlarge,h⟩ := checked_ok.mp h
    cases h
    refine ⟨previewItem s .ready,rfl,⟨rfl,fun _ => disposition_ready hfound⟩,rfl,?_,?_⟩
    · change g.bytes+s.byteSize=g.bytes+(s.byteSize+0)
      omega
    · intro _
      exact not_lt.mp hlarge
  · rw [if_neg hready] at h
    cases h
    have hnone : readyItems [previewItem s found]=[] :=
      List.filter_eq_nil_iff.mpr fun item hitem => by
        rw [List.mem_singleton.mp hitem,decide_eq_true_eq]
        exact hready
    refine ⟨previewItem s found,rfl,⟨rfl,fun hr => absurd hr hready⟩,?_,?_,fun hg => hg⟩
    · rw [hnone]
      rfl
    · rw [readyBytes,hnone]
      exact (Int.add_zero _).symm

theorem gatherAll_ok {view : FileView} (stories : List ExportStory) {g g' : Gathered}
    (h : stories.foldlM (gather view) g=.ok g') :
    ∃ items, g'.items=g.items++items ∧ List.Forall₂ (ItemOf view) stories items ∧
      g'.ready=g.ready+(readyItems items).length ∧ g'.bytes=g.bytes+readyBytes items ∧
      (g.bytes ≤ maxInt → g'.bytes ≤ maxInt) := by
  induction stories generalizing g with
  | nil =>
    cases h
    exact ⟨[],(List.append_nil _).symm,.nil,rfl,(Int.add_zero _).symm,fun hg => hg⟩
  | cons s stories ih =>
    rw [List.foldlM_cons] at h
    obtain ⟨g₁,h₁,h⟩ := exceptBind_ok.mp h
    obtain ⟨item,hitems₁,hitem,hready₁,hbytes₁,hmax₁⟩ := gather_ok h₁
    obtain ⟨items,hitems,hall,hready,hbytes,hmax⟩ := ih h
    have hsplit : readyItems (item::items)=readyItems [item]++readyItems items := by
      rw [← List.singleton_append,readyItems,List.filter_append]
      rfl
    refine ⟨item::items,?_,.cons hitem hall,?_,?_,fun hg => hmax (hmax₁ hg)⟩
    · rw [hitems,hitems₁,List.append_assoc,List.singleton_append]
    · rw [hready,hready₁,hsplit,List.length_append,Nat.add_assoc]
    · rw [hbytes,hbytes₁,readyBytes,readyBytes,readyBytes,hsplit,List.map_append,
        List.sum_append,Int.add_assoc]

/-- What holds of every registered preparation. -/
structure PlanSound (env : ScopeEnv) (plan : Prepared) : Prop where
  scope : SoundScope env plan.scope
  /-- Its preview shows the stories of the scope. -/
  items : ∃ view : FileView, (∀ path source, view.openArchive path=.ok source →
      validRelative (displayNativeText path)=true) ∧
    List.Forall₂ (ItemOf view) plan.scope.stories plan.preview.items
  bytes : plan.preview.bytes=readyBytes plan.preview.items
  /-- They are a 64-bit integer. -/
  bounded : plan.preview.bytes ≤ maxInt
  ready : 0<(readyItems plan.preview.items).length
  /-- Its preview carries its id. -/
  preparation : plan.preview.preparation=some plan.id
  exportable : plan.preview.canExport=true

/-- What a preparation is given: a sound library, and a file system that opens archives at
clean relative paths only. -/
structure Surroundings (env : ScopeEnv) where
  view : FileView
  library : ExportScopes.Library
  locale : String
  sound : SoundLibrary env library
  clean : ∀ path source, view.openArchive path=.ok source →
    validRelative (displayNativeText path)=true

/-- A call on the registry. -/
inductive Call (env : ScopeEnv) where
  | prepare (given : Surroundings env) (scope : Scope)
  | take (id : ℕ) (library : ExportScopes.Library) (intents : List ℤ) (revalidated : Bool)
  | discard (id : ℕ)
  | invalidate

/-- The registry after a call. -/
def step {env : ScopeEnv} (r : Registry) : Call env → Registry
  | .prepare given scope => (prepare env given.view given.library given.locale scope r).2
  | .take id library intents revalidated => (takePrepared r id library intents revalidated).2
  | .discard id => discard r id
  | .invalidate => invalidate r

/-- The registry after calls. -/
def run {env : ScopeEnv} (r : Registry) (calls : List (Call env)) : Registry := calls.foldl step r

def Registry.new : Registry := ⟨[],0,0⟩

section Runs

variable {env : ScopeEnv}

/-- What is left after dropping the oldest preparations. -/
theorem mem_evict {bytes : ℕ} {plan : Prepared} {plans : List Prepared}
    (h : plan ∈ evict bytes plans) : plan ∈ plans := by
  induction plans with
  | nil => exact h
  | cons first plans ih =>
    unfold evict at h
    by_cases hc : maxPrepared≤(first::plans).length ∨
        maxPreparedBytes<((first::plans).map (·.bytes)).sum+bytes
    · rw [if_pos hc] at h
      exact List.mem_cons_of_mem _ (ih h)
    · rw [if_neg hc] at h
      exact h

theorem previewOf_ok {view : FileView} {destination : Destination} {scope : Resolved}
    {preview : Preview} (h : previewOf view destination scope=.ok preview) :
    List.Forall₂ (ItemOf view) scope.stories preview.items ∧
      preview.bytes=readyBytes preview.items ∧ preview.bytes ≤ maxInt ∧
      preview.ready=(readyItems preview.items).length := by
  obtain ⟨g,hg,h⟩ := exceptBind_ok.mp h
  cases h
  obtain ⟨items,hitems,hall,hready,hbytes,hmax⟩ := gatherAll_ok scope.stories hg
  rw [List.nil_append] at hitems
  rw [Int.zero_add] at hbytes
  rw [Nat.zero_add] at hready
  dsimp only
  rw [hitems]
  exact ⟨hall,hbytes,hmax (by decide),hready⟩

/-- A preparation leaves the registry alone, counts an output that stays owned, spends an id,
or registers one sound plan under a fresh id and returns its preview. -/
theorem prepare_cases (given : Surroundings env) (scope : Scope) (r : Registry) :
    ((∀ p ∈ (prepare env given.view given.library given.locale scope r).2.prepared,
        p ∈ r.prepared) ∧
      r.next≤(prepare env given.view given.library given.locale scope r).2.next ∧
      ∀ preview, (prepare env given.view given.library given.locale scope r).1=.ok preview →
        preview.canExport=false) ∨
    ∃ plan, PlanSound env plan ∧ plan.id=r.next ∧
      (prepare env given.view given.library given.locale scope r).1=.ok plan.preview ∧
      (prepare env given.view given.library given.locale scope r).2.next=r.next+1 ∧
      ∀ p ∈ (prepare env given.view given.library given.locale scope r).2.prepared,
        p ∈ r.prepared ∨ p=plan := by
  unfold prepare
  cases hr : resolveScope env given.view given.library given.locale scope r with
  | error e => exact .inl ⟨fun p hp => hp,le_rfl,fun preview h => nomatch h⟩
  | ok found =>
    obtain ⟨resolved,destination⟩ := found
    dsimp only
    cases hprobe : given.view.probe with
    | failed => exact .inl ⟨fun p hp => hp,le_rfl,fun preview h => nomatch h⟩
    | retained => exact .inl ⟨fun p hp => hp,le_rfl,fun preview h => nomatch h⟩
    | removed =>
      dsimp only
      cases hpreview : previewOf given.view destination resolved with
      | error e => exact .inl ⟨fun p hp => hp,le_rfl,fun preview h => nomatch h⟩
      | ok preview =>
        dsimp only
        unfold register
        by_cases hexport : preview.canExport=false
        · rw [if_pos hexport]
          refine .inl ⟨fun p hp => hp,le_rfl,?_⟩
          intro preview' he
          cases he
          exact hexport
        · rw [if_neg hexport]
          dsimp only
          cases hbytes : retainedBytes env.alloc resolved destination
              { preview with preparation := some r.next } with
          | none => exact .inl ⟨fun p hp => hp,Nat.le_succ _,fun preview h => nomatch h⟩
          | some bytes =>
            obtain ⟨hall,hsum,hmax,hready⟩ := previewOf_ok hpreview
            have hcan := Bool.eq_true_of_not_eq_false hexport
            have hsome : 0<preview.ready :=
              of_decide_eq_true ((Bool.and_eq_true _ _).mp hcan).1
            obtain ⟨resolved',hresolved,hr⟩ := exceptBind_ok.mp hr
            have hscope : resolved'=resolved := by
              cases hd : given.view.destination with
              | none =>
                rw [hd] at hr
                cases hr
              | some selected =>
                rw [hd] at hr
                dsimp only at hr
                split_ifs at hr
                cases hr
                rfl
            rw [hscope] at hresolved
            have hsound := resolve_sound given.sound (mapError_ok.mp hresolved)
            refine .inr ⟨⟨r.next,resolved,destination,
              { preview with preparation := some r.next },bytes⟩,?_,rfl,rfl,rfl,?_⟩
            · exact ⟨hsound,⟨given.view,given.clean,hall⟩,hsum,hmax,hready ▸ hsome,rfl,hcan⟩
            · intro p hp
              cases List.mem_append.mp hp with
              | inl hold => exact .inl (mem_evict hold)
              | inr hlast => exact .inr (List.mem_singleton.mp hlast)

/-- Taking a preparation leaves no other ones. -/
theorem takePrepared_keeps (r : Registry) (id : ℕ) (l : ExportScopes.Library) (intents : List ℤ)
    (revalidated : Bool) :
    (∀ p ∈ (takePrepared r id l intents revalidated).2.prepared, p ∈ r.prepared) ∧
      (takePrepared r id l intents revalidated).2.next=r.next := by
  unfold takePrepared
  by_cases hcustody : r.retained≠0
  · rw [if_pos hcustody]
    exact ⟨fun p hp => hp,rfl⟩
  · rw [if_neg hcustody]
    cases hf : r.prepared.find? (·.id=id) with
    | none => exact ⟨fun p hp => hp,rfl⟩
    | some plan =>
      dsimp only
      split_ifs
      all_goals exact ⟨fun p hp => List.mem_of_mem_eraseP hp,rfl⟩

/-- A preparation that is taken is registered under its id. -/
theorem takePrepared_ok {r r' : Registry} {id : ℕ} {l : ExportScopes.Library} {intents : List ℤ}
    {revalidated : Bool} {plan : Prepared}
    (h : takePrepared r id l intents revalidated=(.ok plan,r')) :
    plan ∈ r.prepared ∧ plan.id=id := by
  unfold takePrepared at h
  by_cases hcustody : r.retained≠0
  · rw [if_pos hcustody] at h
    cases h
  · rw [if_neg hcustody] at h
    cases hf : r.prepared.find? (·.id=id) with
    | none =>
      rw [hf] at h
      cases h
    | some found =>
      rw [hf] at h
      dsimp only at h
      have hplan : found=plan := by
        by_cases hgone : revalidated=false
        · rw [if_pos hgone] at h
          cases h
        · rw [if_neg hgone] at h
          by_cases hstale : found.scope.stories.any (fun s =>
              liveState l intents s.uuid≠(s.id,s.broken))=true
          · rw [if_pos hstale] at h
            cases h
          · rw [if_neg hstale] at h
            exact Except.ok.inj (Prod.mk.inj h).1
      subst hplan
      have hid := List.find?_some hf
      exact ⟨List.mem_of_find?_eq_some hf,of_decide_eq_true hid⟩

theorem step_cases (r : Registry) (call : Call env) :
    r.next≤(step r call).next ∧ ∀ p ∈ (step r call).prepared, p ∈ r.prepared ∨
      (PlanSound env p ∧ p.id=r.next ∧ r.next<(step r call).next) := by
  cases call with
  | prepare given scope =>
    cases prepare_cases given scope r with
    | inl hkept => exact ⟨hkept.2.1,fun p hp => .inl (hkept.1 p hp)⟩
    | inr hadded =>
      obtain ⟨plan,hsound,hid,-,hnext,hplans⟩ := hadded
      have hlt : r.next<(step r (.prepare given scope)).next := by
        change r.next<(prepare env given.view given.library given.locale scope r).2.next
        omega
      refine ⟨le_of_lt hlt,fun p hp => ?_⟩
      cases hplans p hp with
      | inl hold => exact .inl hold
      | inr hnew => exact .inr ⟨hnew ▸ hsound,hnew ▸ hid,hlt⟩
  | take id library intents revalidated =>
    obtain ⟨hkept,hnext⟩ := takePrepared_keeps r id library intents revalidated
    exact ⟨le_of_eq hnext.symm,fun p hp => .inl (hkept p hp)⟩
  | discard id => exact ⟨le_rfl,fun p hp => .inl (List.mem_of_mem_filter hp)⟩
  | invalidate => exact ⟨le_rfl,fun p hp => absurd hp List.not_mem_nil⟩

/-- Registered plans are sound and older than the next id. -/
def Sound (env : ScopeEnv) (r : Registry) : Prop :=
  ∀ p ∈ r.prepared, PlanSound env p ∧ p.id<r.next

theorem step_sound {r : Registry} (h : Sound env r) (call : Call env) :
    Sound env (step r call) := by
  obtain ⟨hnext,hplans⟩ := step_cases r call
  intro p hp
  cases hplans p hp with
  | inl hold => exact ⟨(h p hold).1,lt_of_lt_of_le (h p hold).2 hnext⟩
  | inr hnew => exact ⟨hnew.1,hnew.2.1 ▸ hnew.2.2⟩

theorem run_sound (calls : List (Call env)) {r : Registry} (h : Sound env r) :
    Sound env (run r calls) := by
  induction calls generalizing r with
  | nil => exact h
  | cons call calls ih => exact ih (step_sound h call)

/-- An id that was given belongs to one plan at most. -/
def Owned (plan : Prepared) (r : Registry) : Prop :=
  plan.id<r.next ∧ ∀ p ∈ r.prepared, p.id=plan.id → p=plan

/-- No call gives an id again. -/
theorem run_owned {plan : Prepared} (calls : List (Call env)) {r : Registry} (h : Owned plan r) :
    Owned plan (run r calls) := by
  induction calls generalizing r with
  | nil => exact h
  | cons call calls ih =>
    obtain ⟨hnext,hplans⟩ := step_cases r call
    refine ih ⟨lt_of_lt_of_le h.1 hnext,fun p hp hid => ?_⟩
    cases hplans p hp with
    | inl hold => exact h.2 p hold hid
    | inr hnew =>
      have hlt := h.1
      have hfresh := hnew.2.1
      omega

/-- A preview that can be exported belongs to a sound plan, and whatever is taken under its
id later is that plan. -/
theorem taken_plan {r r' r'' : Registry} (h : Sound env r) (given : Surroundings env)
    (scope : Scope) {preview : Preview}
    (hprepare : prepare env given.view given.library given.locale scope r=(.ok preview,r'))
    (hexport : preview.canExport=true) (calls : List (Call env)) {id : ℕ}
    (hid : preview.preparation=some id) {l : ExportScopes.Library} {intents : List ℤ}
    {revalidated : Bool} {plan : Prepared}
    (htake : takePrepared (run r' calls) id l intents revalidated=(.ok plan,r'')) :
    PlanSound env plan ∧ plan.preview=preview := by
  have hcases := prepare_cases given scope r
  rw [hprepare] at hcases
  cases hcases with
  | inl hkept =>
    have hfalse := hkept.2.2 preview rfl
    rw [hfalse] at hexport
    cases hexport
  | inr hadded =>
    obtain ⟨plan₀,hsound,hfresh,hpreview,hnext,hplans⟩ := hadded
    cases hpreview
    have howned : Owned plan₀ r' := by
      refine ⟨?_,fun p hp he => ?_⟩
      · change r'.next=r.next+1 at hnext
        omega
      · cases hplans p hp with
        | inl hold =>
          have hold' := (h p hold).2
          omega
        | inr hnew => exact hnew
    obtain ⟨hmem,hplan⟩ := takePrepared_ok htake
    rw [hsound.preparation] at hid
    cases hid
    have hsame := (run_owned calls howned).2 plan hmem hplan
    rw [hsame]
    exact ⟨hsound,rfl⟩

end Runs

end Librairii.ExportPreparation
