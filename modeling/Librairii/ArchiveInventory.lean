import Librairii.ArchiveFormats
import Librairii.CheckedResults
import Librairii.SortedMaps

/-!
# The inventory of an archive and its budget

Entries of an archive are pushed one after the other into an inventory. Each is charged
against a budget of entries and declared bytes, named by its cleaned path and recorded
once. The first refusal is kept and answers everything after it. Signed sums are taken
in 64 bits; a plain operation that leaves them stops the program.
-/

namespace Librairii.ArchiveInventory

open ArchiveFormats hiding ValidationCode
open CheckedResults JsonText SortedMaps

/-- The values of a signed 64-bit integer. -/
def InI64 (n : ℤ) : Prop := -2^63≤n ∧ n<2^63

instance (n : ℤ) : Decidable (InI64 n) := inferInstanceAs (Decidable (_ ∧ _))

/-- A signed 64-bit integer. -/
abbrev I64 := {n : ℤ // InI64 n}

/-- Why an archive is refused. -/
inductive ValidationCode where
  | invalidLimits
  | invalidContainer
  | ambiguousStructure
  | unsafePath
  | linkEntry
  | entryLimit
  | expandedSizeLimit
  | compressionRatioLimit
  | nestedArchive
  deriving DecidableEq

/-- A refusal with the entry it names. -/
structure ValidationError where
  code : ValidationCode
  /-- Raw name of the entry, when the refusal is about one. -/
  entry : Option (List UInt8)
  cause : Option String
  deriving DecidableEq

/-- A refusal of one entry. -/
def ValidationError.at (code : ValidationCode) (entry : List UInt8) : ValidationError :=
  ⟨code,some entry,none⟩

def ValidationError.whole (code : ValidationCode) : ValidationError := ⟨code,none,none⟩

/-- A refusal with a message. -/
def ValidationError.causedBy (error : ValidationError) (message : String) : ValidationError :=
  {error with cause := some message}

/-- A charge is refused, or a plain operation leaves the 64 bits. -/
inductive Stop where
  | refused (error : ValidationError)
  | overflow
  deriving DecidableEq

/-- The limits of an import. The bound on the compression ratio is a float; its test on
the two sums and its own validity are taken as they are. -/
structure Limits where
  maxPathBytes : ℕ
  /-- Components of one cleaned name. -/
  maxPathDepth : ℕ
  maxEntries : ℕ
  maxExpandedBytes : I64
  /-- The bound on the ratio is finite and at least one. -/
  ratioValid : Bool
  /-- The quotient of expanded bytes and denominator is over the bound. -/
  ratioExceeded : ℤ → ℤ → Bool
  maxMetadataBytes : I64
  maxArtworkBytes : I64

def Limits.validate (limits : Limits) : Except ValidationError Unit :=
  if limits.maxPathBytes=0 || limits.maxPathDepth=0 || limits.maxEntries=0 ||
      limits.maxExpandedBytes.val≤0 || limits.maxMetadataBytes.val≤0 ||
      limits.maxArtworkBytes.val≤0 || !limits.ratioValid then
    .error (.whole .invalidLimits)
  else .ok ()

/-- The declared header of one entry. -/
structure EntryInfo where
  name : List UInt8
  compressedBytes : I64
  uncompressedBytes : I64
  isDirectory : Bool
  isLink : Bool
  deriving DecidableEq

/-- Drop empty and current components and resolve a parent component against its own. -/
def cleanComponents (parts : List (List Char)) : List (List Char) :=
  parts.foldl (fun components part =>
    if part=[] || part=['.'] then components
    else if part=['.', '.'] && components.getLast?.any (·≠['.', '.']) then components.dropLast
    else components++[part]) []

def isAsciiAlphabetic (b : UInt8) : Bool := (0x41≤b && b≤0x5a) || (0x61≤b && b≤0x7a)

def validateEntryName (name : List UInt8) (limits : Limits) : Except ValidationError String := do
  limits.validate
  if name=[] || limits.maxPathBytes<name.length || name.contains 0 || name.contains 0x5c then
    throw (.at .unsafePath name)
  match String.fromUTF8? name.toByteArray with
  | none => throw (.at .unsafePath name)
  | some text => do
    if text.toList.head?=some '/' ||
        (2≤name.length && name.head?.any isAsciiAlphabetic && name[1]?=some 0x3a) then
      throw (.at .unsafePath name)
    let components := cleanComponents (text.toList.splitOn '/')
    if components=[] || components.head?=some ['.', '.'] ||
        limits.maxPathDepth<components.length then
      throw (.at .unsafePath name)
    return String.ofList (List.intercalate ['/'] components)

/-- What a budget has been charged. -/
structure BudgetUsage where
  entries : ℕ
  expandedBytes : ℤ
  compressedBytes : ℤ
  deriving DecidableEq

/-- A budget under limits. -/
structure Budget where
  limits : Limits
  /-- The charges so far. -/
  usage : BudgetUsage

def Budget.new (limits : Limits) : Except ValidationError Budget := do
  limits.validate
  return ⟨limits,⟨0,0,0⟩⟩

def plain (n : ℤ) : Except Stop ℤ := if InI64 n then .ok n else .error .overflow

/-- The charges with one more entry and its uncompressed bytes. -/
def Budget.expandedUsage (b : Budget) (entry : EntryInfo) : Except Stop BudgetUsage := do
  let _ ← (validateEntryName entry.name b.limits).mapError .refused
  if entry.isLink then throw (.refused (.at .linkEntry entry.name))
  if entry.compressedBytes.val<0 || entry.uncompressedBytes.val<0 then
    throw (.refused ((ValidationError.at .invalidContainer entry.name).causedBy
      "negative entry size"))
  if 2^64≤b.usage.entries+1 || b.limits.maxEntries<b.usage.entries+1 then
    throw (.refused (.at .entryLimit entry.name))
  let room ← plain (b.limits.maxExpandedBytes.val-b.usage.expandedBytes)
  if room<entry.uncompressedBytes.val then
    throw (.refused (.at .expandedSizeLimit entry.name))
  let expanded ← plain (b.usage.expandedBytes+entry.uncompressedBytes.val)
  return ⟨b.usage.entries+1,expanded,b.usage.compressedBytes⟩

/-- The refusal of the ratio test, for one entry or for the container. -/
def ratioError (code : ValidationCode) : Option (List UInt8) → ValidationError
  | some name => .at code name
  | none => .whole code

/-- The ratio test on the sums; an empty denominator counts as one. -/
def Budget.checkRatio (b : Budget) (expanded compressed : ℤ) (entry : Option (List UInt8)) :
    Except ValidationError Unit :=
  if compressed<0 then
    .error ((ratioError .invalidContainer entry).causedBy "negative compressed size")
  else
    let denominator := if compressed=0 ∧ 0<expanded then 1 else compressed
    if b.limits.ratioExceeded expanded denominator then
      .error (ratioError .compressionRatioLimit entry)
    else .ok ()

/-- The charges of an entry of a ZIP container. -/
def Budget.accountUsage (b : Budget) (entry : EntryInfo) : Except Stop BudgetUsage := do
  let next ← b.expandedUsage entry
  if ¬InI64 (next.compressedBytes+entry.compressedBytes.val) then
    throw (.refused ((ValidationError.at .invalidContainer entry.name).causedBy
      "compressed size overflow"))
  let next := {next with compressedBytes := next.compressedBytes+entry.compressedBytes.val}
  (b.checkRatio next.expandedBytes next.compressedBytes (some entry.name)).mapError .refused
  return next

def Budget.charge (b : Budget) : Except Stop BudgetUsage → Except Stop Unit×Budget
  | .ok next => (.ok (),{b with usage := next})
  | .error stop => (.error stop,b)

/-- Charge an entry of a ZIP container. -/
def Budget.account (b : Budget) (entry : EntryInfo) : Except Stop Unit×Budget :=
  b.charge (b.accountUsage entry)

/-- Charge an entry of a 7z container. -/
def Budget.accountExpanded (b : Budget) (entry : EntryInfo) : Except Stop Unit×Budget :=
  b.charge (b.expandedUsage entry)

/-- The ratio test of a whole container. -/
def Budget.validateCompression (b : Budget) (wholeContainerBytes : ℤ) :
    Except ValidationError Unit :=
  b.checkRatio b.usage.expandedBytes wholeContainerBytes none

/-- How compressed bytes are accounted. -/
inductive CompressionAccounting where
  | zipEntries
  | sevenZipContainer (bytes : I64)

/-- The record of one entry. -/
structure EntryRecord where
  rawName : List UInt8
  compressedBytes : I64
  uncompressedBytes : I64
  isDirectory : Bool
  deriving DecidableEq

def recordOf (entry : EntryInfo) : EntryRecord :=
  ⟨entry.name,entry.compressedBytes,entry.uncompressedBytes,entry.isDirectory⟩

/-- The records of an archive under their cleaned names, with the charges. -/
structure Inventory where
  /-- Records by cleaned name. -/
  entries : SortedMap String EntryRecord
  /-- The charges. -/
  usage : BudgetUsage

/-- An inventory under construction. -/
structure InventoryBuilder where
  budget : Budget
  accounting : CompressionAccounting
  /-- Records by cleaned name. -/
  entries : SortedMap String EntryRecord
  /-- The first refusal. -/
  failure : Option ValidationError

def InventoryBuilder.new (limits : Limits) (accounting : CompressionAccounting) :
    Except ValidationError InventoryBuilder := do
  let budget ← Budget.new limits
  return ⟨budget,accounting,.empty,none⟩

/-- A file whose name has the suffix of an archive. -/
def nestedArchive (entry : EntryInfo) (key : String) : Bool :=
  !entry.isDirectory && (suffixMatches (bytes key.toList) ".zip" ||
    suffixMatches (bytes key.toList) ".7z" || suffixMatches (bytes key.toList) ".pk")

def InventoryBuilder.charge (b : InventoryBuilder) (entry : EntryInfo) :
    Except Stop Unit×Budget :=
  match b.accounting with
  | .zipEntries => b.budget.account entry
  | .sevenZipContainer _ => b.budget.accountExpanded entry

/-- Charge, name and record an entry. -/
def InventoryBuilder.pushChecked (b : InventoryBuilder) (entry : EntryInfo) :
    Except Stop Unit×InventoryBuilder :=
  let charged := b.charge entry
  let next := {b with budget := charged.2}
  match charged.1 with
  | .error stop => (.error stop,next)
  | .ok _ =>
    match validateEntryName entry.name next.budget.limits with
    | .error error => (.error (.refused error),next)
    | .ok key =>
      if (next.entries.get key).isSome then
        (.error (.refused (.at .ambiguousStructure entry.name)),next)
      else if nestedArchive entry key then
        (.error (.refused (.at .nestedArchive entry.name)),next)
      else (.ok (),{next with entries := next.entries.insert key (recordOf entry)})

def InventoryBuilder.push (b : InventoryBuilder) (entry : EntryInfo) :
    Except Stop Unit×InventoryBuilder :=
  match b.failure with
  | some error => (.error (.refused error),b)
  | none =>
    let result := b.pushChecked entry
    match result.1 with
    | .error (.refused error) => (result.1,{result.2 with failure := some error})
    | _ => result

def InventoryBuilder.finish (b : InventoryBuilder) : Except ValidationError Inventory :=
  match b.failure with
  | some error => .error error
  | none => do
    match b.accounting with
    | .zipEntries => pure ()
    | .sevenZipContainer bytes => b.budget.validateCompression bytes.val
    return ⟨b.entries,b.budget.usage⟩

/-- Push entries in order, with the answer to each. -/
def InventoryBuilder.pushAll (b : InventoryBuilder) :
    List EntryInfo → List (Except Stop Unit)×InventoryBuilder
  | [] => ([],b)
  | entry::rest =>
    let result := b.push entry
    let others := result.2.pushAll rest
    (result.1::others.1,others.2)

def cleanKey (limits : Limits) (entry : EntryInfo) : String :=
  match validateEntryName entry.name limits with
  | .ok key => key
  | .error _ => ""

/-- An entry that can be recorded: named, no link, of nonnegative sizes, no nested archive. -/
structure Recordable (limits : Limits) (entry : EntryInfo) : Prop where
  /-- The name has a cleaned form. -/
  named : validateEntryName entry.name limits=.ok (cleanKey limits entry)
  plain : entry.isLink=false
  sizes : 0≤entry.compressedBytes.val ∧ 0≤entry.uncompressedBytes.val
  /-- The entry is no archive file. -/
  flat : nestedArchive entry (cleanKey limits entry)=false

/-- The declared uncompressed bytes of entries. -/
def expandedSum (entries : List EntryInfo) : ℤ :=
  (entries.map fun entry => entry.uncompressedBytes.val).sum

def compressedSum (entries : List EntryInfo) : ℤ :=
  (entries.map fun entry => entry.compressedBytes.val).sum

def chargedSum : CompressionAccounting → List EntryInfo → ℤ
  | .zipEntries,entries => compressedSum entries
  | .sevenZipContainer _,_ => 0

/-- An inventory that holds exactly the entries pushed so far. -/
structure Filled (limits : Limits) (accounting : CompressionAccounting)
    (pushed : List EntryInfo) (b : InventoryBuilder) : Prop where
  /-- The limits are kept. -/
  bound : b.budget.limits=limits
  accounted : b.accounting=accounting
  /-- Nothing was refused. -/
  failure : b.failure=none
  /-- Every entry can be recorded. -/
  recordable : ∀ entry ∈ pushed, Recordable limits entry
  /-- The cleaned names are distinct. -/
  keys : (pushed.map (cleanKey limits)).Nodup
  /-- There is one record per entry. -/
  records : b.entries.entries.Perm
    (pushed.map fun entry => (cleanKey limits entry,recordOf entry))
  /-- The charges are the exact sums. -/
  usage : b.budget.usage=⟨pushed.length,expandedSum pushed,chargedSum accounting pushed⟩
  /-- The entries are within the limits. -/
  count : pushed.length<2^64 ∧ pushed.length≤limits.maxEntries
  expanded : 0≤expandedSum pushed ∧ expandedSum pushed≤limits.maxExpandedBytes.val
  /-- The compressed bytes are within the 64 bits. -/
  compressed : 0≤chargedSum accounting pushed ∧ InI64 (chargedSum accounting pushed)

theorem expandedSum_append (pushed : List EntryInfo) (entry : EntryInfo) :
    expandedSum (pushed++[entry])=expandedSum pushed+entry.uncompressedBytes.val := by
  simp [expandedSum]

theorem compressedSum_append (pushed : List EntryInfo) (entry : EntryInfo) :
    compressedSum (pushed++[entry])=compressedSum pushed+entry.compressedBytes.val := by
  simp [compressedSum]

theorem cleanKey_of_ok {limits : Limits} {entry : EntryInfo} {key : String}
    (h : validateEntryName entry.name limits=.ok key) : cleanKey limits entry=key := by
  simp only [cleanKey,h]

theorem plain_ok {n : ℤ} (h : InI64 n) : plain n=.ok n := by
  rw [plain,if_pos h]

/-- What one more entry must satisfy to be charged, without its compressed bytes. -/
structure Chargeable (limits : Limits) (usage : BudgetUsage) (entry : EntryInfo) : Prop where
  /-- The name has a cleaned form. -/
  named : validateEntryName entry.name limits=.ok (cleanKey limits entry)
  plain : entry.isLink=false
  sizes : 0≤entry.compressedBytes.val ∧ 0≤entry.uncompressedBytes.val
  /-- There is room for one entry. -/
  count : usage.entries+1<2^64 ∧ usage.entries+1≤limits.maxEntries
  room : usage.expandedBytes+entry.uncompressedBytes.val≤limits.maxExpandedBytes.val

/-- On charges within the limits an entry is charged exactly when it is chargeable, and its
refusal is no overflow. -/
theorem expandedUsage_cases {b : Budget} (entry : EntryInfo)
    (hb : 0≤b.usage.expandedBytes ∧ b.usage.expandedBytes≤b.limits.maxExpandedBytes.val) :
    (Chargeable b.limits b.usage entry ∧ b.expandedUsage entry=
      .ok ⟨b.usage.entries+1,b.usage.expandedBytes+entry.uncompressedBytes.val,
        b.usage.compressedBytes⟩) ∨
    (¬Chargeable b.limits b.usage entry ∧ ∃ error, b.expandedUsage entry=
      .error (.refused error)) := by
  have hmax := b.limits.maxExpandedBytes.property
  have hsize := entry.uncompressedBytes.property
  unfold InI64 at hmax hsize
  unfold Budget.expandedUsage
  cases hname : validateEntryName entry.name b.limits with
  | error error =>
    right
    refine ⟨fun h => ?_,error,rfl⟩
    have hkey := h.named
    rw [hname] at hkey
    cases hkey
  | ok key =>
    have hkey := cleanKey_of_ok hname
    have hroom : plain (b.limits.maxExpandedBytes.val-b.usage.expandedBytes)=
        .ok (b.limits.maxExpandedBytes.val-b.usage.expandedBytes) := by
      apply plain_ok
      unfold InI64
      omega
    by_cases hlink : entry.isLink=true
    · right
      refine ⟨fun h => ?_,.at .linkEntry entry.name,?_⟩
      · rw [h.plain] at hlink
        cases hlink
      · simp [Except.mapError,hlink,bind,Except.bind,throw,throwThe,MonadExceptOf.throw]
    by_cases hsizes : entry.compressedBytes.val<0 ∨ entry.uncompressedBytes.val<0
    · right
      refine ⟨fun h => ?_,(ValidationError.at .invalidContainer entry.name).causedBy
        "negative entry size",?_⟩
      · have := h.sizes
        omega
      · simp [Except.mapError,hlink,hsizes,bind,Except.bind,throw,throwThe,
          MonadExceptOf.throw]
    by_cases hcount : 18446744073709551615≤b.usage.entries ∨ b.limits.maxEntries≤b.usage.entries
    · right
      refine ⟨fun h => ?_,.at .entryLimit entry.name,?_⟩
      · have := h.count
        omega
      · simp [Except.mapError,hlink,hsizes,hcount,bind,Except.bind,throw,throwThe,
          MonadExceptOf.throw]
    by_cases hfit : b.limits.maxExpandedBytes.val-b.usage.expandedBytes<
        entry.uncompressedBytes.val
    · right
      refine ⟨fun h => ?_,.at .expandedSizeLimit entry.name,?_⟩
      · have := h.room
        omega
      · simp [Except.mapError,hlink,hsizes,hcount,hroom,hfit,bind,Except.bind,throw,throwThe,
          MonadExceptOf.throw]
    · left
      have hsum : plain (b.usage.expandedBytes+entry.uncompressedBytes.val)=
          .ok (b.usage.expandedBytes+entry.uncompressedBytes.val) := by
        apply plain_ok
        unfold InI64
        omega
      refine ⟨⟨hkey ▸ hname,by simpa using hlink,by omega,by omega,by omega⟩,?_⟩
      simp [Except.mapError,hlink,hsizes,hcount,hroom,hfit,hsum,bind,Except.bind,pure,
        Except.pure]

/-- The charge of a ZIP entry is the charge of its bytes, within 64 bits and the ratio. -/
theorem accountUsage_cases {b : Budget} (entry : EntryInfo)
    (hb : 0≤b.usage.expandedBytes ∧ b.usage.expandedBytes≤b.limits.maxExpandedBytes.val) :
    (Chargeable b.limits b.usage entry ∧
      InI64 (b.usage.compressedBytes+entry.compressedBytes.val) ∧
      b.accountUsage entry=.ok ⟨b.usage.entries+1,
        b.usage.expandedBytes+entry.uncompressedBytes.val,
        b.usage.compressedBytes+entry.compressedBytes.val⟩) ∨
    ∃ error, b.accountUsage entry=.error (.refused error) := by
  unfold Budget.accountUsage
  rcases expandedUsage_cases entry hb with ⟨hcharge,hok⟩ | ⟨-,error,hno⟩
  · rw [hok]
    by_cases hfit : InI64 (b.usage.compressedBytes+entry.compressedBytes.val)
    · cases hratio : b.checkRatio (b.usage.expandedBytes+entry.uncompressedBytes.val)
          (b.usage.compressedBytes+entry.compressedBytes.val) (some entry.name) with
      | ok u =>
        left
        refine ⟨hcharge,hfit,?_⟩
        simp [hfit,hratio,Except.mapError,bind,Except.bind,pure,Except.pure]
      | error error =>
        right
        refine ⟨error,?_⟩
        simp [hfit,hratio,Except.mapError,bind,Except.bind]
    · right
      refine ⟨(ValidationError.at .invalidContainer entry.name).causedBy
        "compressed size overflow",?_⟩
      simp [hfit,bind,Except.bind,throw,throwThe,MonadExceptOf.throw]
  · rw [hno]
    exact .inr ⟨error,rfl⟩

variable {limits : Limits} {accounting : CompressionAccounting} {pushed : List EntryInfo}
  {b : InventoryBuilder}

theorem Filled.budget (h : Filled limits accounting pushed b) :
    0≤b.budget.usage.expandedBytes ∧
      b.budget.usage.expandedBytes≤b.budget.limits.maxExpandedBytes.val := by
  rw [h.usage,h.bound]
  exact h.expanded

theorem Filled.charge_cases (h : Filled limits accounting pushed b) (entry : EntryInfo) :
    (Chargeable limits b.budget.usage entry ∧
      InI64 (chargedSum accounting (pushed++[entry])) ∧
      b.charge entry=(.ok (),{b.budget with usage := ⟨(pushed++[entry]).length,
        expandedSum (pushed++[entry]),chargedSum accounting (pushed++[entry])⟩})) ∨
    ∃ error, b.charge entry=(.error (.refused error),b.budget) := by
  have hbound := h.bound
  subst hbound
  unfold InventoryBuilder.charge
  rw [h.accounted]
  cases accounting with
  | zipEntries =>
    rcases accountUsage_cases entry h.budget with ⟨hcharge,hfit,hok⟩ | ⟨error,hno⟩
    · left
      refine ⟨hcharge,?_,?_⟩
      · rw [h.usage] at hfit
        simpa only [chargedSum,compressedSum_append] using hfit
      · simp only [Budget.account,hok,Budget.charge]
        rw [h.usage,expandedSum_append,List.length_append]
        simp only [chargedSum,compressedSum_append,List.length_singleton]
    · right
      exact ⟨error,by simp only [Budget.account,hno,Budget.charge]⟩
  | sevenZipContainer bytes =>
    rcases expandedUsage_cases entry h.budget with ⟨hcharge,hok⟩ | ⟨-,error,hno⟩
    · left
      refine ⟨hcharge,by simp [chargedSum,InI64],?_⟩
      simp only [Budget.accountExpanded,hok,Budget.charge]
      rw [h.usage,expandedSum_append,List.length_append]
      simp only [chargedSum,List.length_singleton]
    · right
      exact ⟨error,by simp only [Budget.accountExpanded,hno,Budget.charge]⟩

/-- A cleaned name is free exactly when no pushed entry has it. -/
theorem Filled.get_none (h : Filled limits accounting pushed b) (key : String) :
    b.entries.get key=none ↔ key ∉ pushed.map (cleanKey limits) := by
  rw [SortedMap.get_eq_none]
  constructor
  · intro hnone hm
    obtain ⟨entry,he,rfl⟩ := List.mem_map.mp hm
    exact hnone (recordOf entry) (h.records.mem_iff.mpr (List.mem_map.mpr ⟨entry,he,rfl⟩))
  · intro hnot value hm
    obtain ⟨entry,he,heq⟩ := List.mem_map.mp (h.records.mem_iff.mp hm)
    cases heq
    exact hnot (List.mem_map.mpr ⟨entry,he,rfl⟩)

/-- A record under a free name is one more member. -/
theorem insert_perm (map : SortedMap String EntryRecord) {key : String} (value : EntryRecord)
    (hfree : map.get key=none) :
    (map.insert key value).entries.Perm (map.entries++[(key,value)]) := by
  have hnone := SortedMap.get_eq_none.mp hfree
  have hkeys : ∀ m : SortedMap String EntryRecord, m.entries.Nodup := fun m =>
    List.Nodup.of_map _ m.nodup_keys
  have hnodup : (map.entries++[(key,value)]).Nodup := by
    rw [List.nodup_append]
    refine ⟨hkeys map,List.nodup_singleton _,?_⟩
    rintro entry hm other ho rfl
    rw [List.mem_singleton.mp ho] at hm
    exact hnone value hm
  rw [List.perm_ext_iff_of_nodup (hkeys _) hnodup]
  intro entry
  have hmem : entry ∈ (map.insert key value).entries ↔ _ :=
    JsonValues.mem_insertKey map.ordered entry
  rw [hmem,List.mem_append,List.mem_singleton]
  constructor
  · rintro (rfl | ⟨hm,-⟩)
    · exact .inr rfl
    · exact .inl hm
  · rintro (hm | rfl)
    · refine .inr ⟨hm,?_⟩
      rintro rfl
      exact hnone entry.2 hm
    · exact .inl rfl

/-- A push extends a filled inventory by the entry exactly when the entry is charged, has a
free name and is no archive file; otherwise it keeps its refusal. -/
theorem Filled.push_cases (h : Filled limits accounting pushed b) (entry : EntryInfo) :
    (cleanKey limits entry ∉ pushed.map (cleanKey limits) ∧
      Chargeable limits b.budget.usage entry ∧
      (b.push entry).1=.ok () ∧
      Filled limits accounting (pushed++[entry]) (b.push entry).2) ∨
    ∃ error, (b.push entry).1=.error (.refused error) ∧
      (b.push entry).2.failure=some error := by
  unfold InventoryBuilder.push
  rw [h.failure]
  dsimp only
  unfold InventoryBuilder.pushChecked
  rcases h.charge_cases entry with ⟨hcharge,hfit,hok⟩ | ⟨error,hno⟩
  · rw [hok]
    dsimp only
    rw [h.bound,hcharge.named]
    dsimp only
    cases hget : b.entries.get (cleanKey limits entry) with
    | some record => exact .inr ⟨_,rfl,rfl⟩
    | none =>
      cases hnested : nestedArchive entry (cleanKey limits entry) with
      | true => exact .inr ⟨_,rfl,rfl⟩
      | false =>
        left
        have hfree := (h.get_none _).mp hget
        simp only [Option.isSome_none,Bool.false_eq_true,if_false]
        refine ⟨hfree,hcharge,trivial,?_⟩
        have hcount := hcharge.count
        have hroom := hcharge.room
        rw [h.usage] at hcount hroom
        have hlow := h.expanded.1
        refine ⟨rfl,h.accounted,h.failure,?_,?_,?_,rfl,?_,?_,?_,hfit⟩
        · intro other hm
          rcases List.mem_append.mp hm with hm | hm
          · exact h.recordable other hm
          · rw [List.mem_singleton.mp hm]
            exact ⟨hcharge.named,hcharge.plain,hcharge.sizes,hnested⟩
        · rw [List.map_append,List.map_singleton,List.nodup_append]
          refine ⟨h.keys,List.nodup_singleton _,?_⟩
          rintro key hm other ho rfl
          rw [List.mem_singleton.mp ho] at hm
          exact hfree hm
        · rw [List.map_append,List.map_singleton]
          exact (insert_perm b.entries _ hget).trans (h.records.append_right _)
        · rw [List.length_append,List.length_singleton]
          exact hcount
        · rw [expandedSum_append]
          have := hcharge.sizes.2
          exact ⟨by omega,hroom⟩
        · have hold := h.compressed.1
          have hsize := hcharge.sizes.1
          cases accounting with
          | zipEntries =>
            simp only [chargedSum,compressedSum_append] at hold ⊢
            omega
          | sevenZipContainer bytes => exact le_refl _
  · rw [hno]
    exact .inr ⟨error,rfl,rfl⟩

theorem new_filled (h : InventoryBuilder.new limits accounting=.ok b) :
    Filled limits accounting [] b := by
  obtain ⟨budget,hbudget,h⟩ := exceptBind_ok.mp h
  obtain ⟨u,hvalid,hbudget⟩ := exceptBind_ok.mp hbudget
  cases hbudget
  cases h
  unfold Limits.validate at hvalid
  obtain ⟨-,hvalid⟩ := checked_ok.mp hvalid
  next hno =>
  have hmax : ¬limits.maxExpandedBytes.val≤0 := by
    intro hle
    simp [hle] at hno
  have hzero : chargedSum accounting []=0 := by cases accounting <;> rfl
  refine ⟨rfl,rfl,rfl,?_,List.nodup_nil,List.Perm.nil,?_,⟨by decide,Nat.zero_le _⟩,
    ⟨le_refl _,?_⟩,?_⟩
  · intro entry hm
    cases hm
  · rw [hzero]
    rfl
  · simp only [expandedSum,List.map_nil,List.sum_nil]
    omega
  · rw [hzero]
    exact ⟨le_refl _,by decide⟩

theorem pushAll_refused {error : ValidationError} (h : b.failure=some error)
    (entries : List EntryInfo) :
    b.pushAll entries=(List.replicate entries.length (.error (.refused error)),b) := by
  induction entries with
  | nil => rfl
  | cons entry rest ih =>
    have hpush : b.push entry=(.error (.refused error),b) := by
      simp only [InventoryBuilder.push,h]
    rw [InventoryBuilder.pushAll,hpush]
    dsimp only
    rw [ih]
    rfl

theorem Filled.pushAll_cases (h : Filled limits accounting pushed b) (entries : List EntryInfo) :
    ((b.pushAll entries).1=List.replicate entries.length (.ok ()) ∧
      Filled limits accounting (pushed++entries) (b.pushAll entries).2) ∨
    ∃ done entry rest error, entries=done++entry::rest ∧
      (b.pushAll entries).1=List.replicate done.length (.ok ())++
        List.replicate (rest.length+1) (.error (.refused error)) ∧
      (b.pushAll entries).2.failure=some error := by
  induction entries generalizing pushed b with
  | nil =>
    left
    refine ⟨rfl,?_⟩
    rw [List.append_nil]
    exact h
  | cons entry rest ih =>
    rw [InventoryBuilder.pushAll]
    dsimp only
    rcases h.push_cases entry with ⟨-,-,hok,hfilled⟩ | ⟨error,hno,hkept⟩
    · rcases ih hfilled with ⟨hall,hfinal⟩ | ⟨done,first,others,error,hsplit,hall,hfinal⟩
      · left
        refine ⟨?_,?_⟩
        · rw [hok,hall]
          rfl
        · rw [List.append_assoc] at hfinal
          exact hfinal
      · right
        refine ⟨entry::done,first,others,error,?_,?_,hfinal⟩
        · rw [hsplit]
          rfl
        · rw [hok,hall]
          rfl
    · right
      rw [pushAll_refused hkept]
      refine ⟨[],entry,rest,error,rfl,?_,hkept⟩
      rw [hno]
      rfl

/-- What a 7z container admits, in any order. -/
structure Acceptable (limits : Limits) (entries : List EntryInfo) : Prop where
  /-- Every entry can be recorded. -/
  recordable : ∀ entry ∈ entries, Recordable limits entry
  /-- The cleaned names are distinct. -/
  keys : (entries.map (cleanKey limits)).Nodup
  /-- The entries are within the limits. -/
  count : entries.length<2^64 ∧ entries.length≤limits.maxEntries
  expanded : expandedSum entries≤limits.maxExpandedBytes.val

/-- Acceptance does not depend on the order. -/
theorem Acceptable.perm {entries other : List EntryInfo} (h : Acceptable limits entries)
    (hp : entries.Perm other) : Acceptable limits other := by
  refine ⟨?_,(hp.map _).nodup_iff.mp h.keys,hp.length_eq ▸ h.count,?_⟩
  · intro entry hm
    exact h.recordable entry (hp.mem_iff.mpr hm)
  · have hsum : expandedSum other=expandedSum entries := ((hp.map _).sum_eq).symm
    rw [hsum]
    exact h.expanded

theorem expandedSum_nonneg {entries : List EntryInfo}
    (h : ∀ entry ∈ entries, Recordable limits entry) : 0≤expandedSum entries := by
  apply List.sum_nonneg
  intro n hm
  obtain ⟨entry,he,rfl⟩ := List.mem_map.mp hm
  exact (h entry he).sizes.2

/-- A 7z container accepts an entry that, with those before and after it, is acceptable. -/
theorem Filled.push_seven {size : I64} (h : Filled limits (.sevenZipContainer size) pushed b)
    {entry : EntryInfo} {rest : List EntryInfo} (ha : Acceptable limits (pushed++entry::rest)) :
    Filled limits (.sevenZipContainer size) (pushed++[entry]) (b.push entry).2 ∧
      (b.push entry).1=.ok () := by
  have hmem : entry ∈ pushed++entry::rest := by simp
  have hrec := ha.recordable entry hmem
  have hfree : cleanKey limits entry ∉ pushed.map (cleanKey limits) := by
    have hkeys := ha.keys
    rw [List.map_append,List.map_cons,List.nodup_append] at hkeys
    intro hm
    exact hkeys.2.2 _ hm _ List.mem_cons_self rfl
  have hcount := ha.count
  rw [List.length_append,List.length_cons] at hcount
  have hsum : expandedSum (pushed++entry::rest)=
      expandedSum pushed+(entry.uncompressedBytes.val+expandedSum rest) := by
    simp [expandedSum]
  have hrest := expandedSum_nonneg fun other hm =>
    ha.recordable other (List.mem_append_right _ (List.mem_cons_of_mem _ hm))
  have hexpanded := ha.expanded
  have hcharge : Chargeable b.budget.limits b.budget.usage entry := by
    rw [h.bound,h.usage]
    exact ⟨hrec.named,hrec.plain,hrec.sizes,by dsimp only; omega,by dsimp only; omega⟩
  rcases h.push_cases entry with ⟨-,-,hok,hfilled⟩ | ⟨error,hno,-⟩
  · exact ⟨hfilled,hok⟩
  · exfalso
    have hexp : b.budget.expandedUsage entry=.ok _ :=
      ((expandedUsage_cases entry h.budget).resolve_right fun hbad => hbad.1 hcharge).2
    have hget := (h.get_none _).mpr hfree
    unfold InventoryBuilder.push at hno
    rw [h.failure] at hno
    simp only [InventoryBuilder.pushChecked,InventoryBuilder.charge,h.accounted,
      Budget.accountExpanded,hexp,Budget.charge,h.bound,hrec.named,hget,hrec.flat,
      Option.isSome_none,Bool.false_eq_true,if_false] at hno
    cases hno

theorem Filled.pushAll_seven {size : I64}
    (h : Filled limits (.sevenZipContainer size) pushed b) (entries : List EntryInfo) :
    (∀ answer ∈ (b.pushAll entries).1, answer=.ok ()) ↔ Acceptable limits (pushed++entries) := by
  constructor
  · intro hall
    rcases h.pushAll_cases entries with ⟨-,hfilled⟩ | ⟨done,entry,rest,error,-,hanswers,-⟩
    · exact ⟨hfilled.recordable,hfilled.keys,hfilled.count,hfilled.expanded.2⟩
    · have hbad := hall (.error (.refused error)) (by
        rw [hanswers]
        exact List.mem_append_right _ (List.mem_replicate.mpr ⟨by omega,rfl⟩))
      cases hbad
  · intro ha
    induction entries generalizing pushed b with
    | nil =>
      intro answer hm
      cases hm
    | cons entry rest ih =>
      obtain ⟨hfilled,hok⟩ := h.push_seven ha
      have hrest : Acceptable limits ((pushed++[entry])++rest) := by
        rw [List.append_assoc]
        exact ha
      intro answer hm
      rw [InventoryBuilder.pushAll] at hm
      rcases List.mem_cons.mp hm with rfl | hm
      · exact hok
      · exact ih hfilled hrest answer hm

/-- The ratio test that closes a 7z inventory. -/
def FinalTest (limits : Limits) (entries : List EntryInfo) : CompressionAccounting → Prop
  | .zipEntries => True
  | .sevenZipContainer size => 0 ≤ size.val ∧
    limits.ratioExceeded (expandedSum entries)
      (if size.val=0 ∧ 0<expandedSum entries then 1 else size.val)=false

theorem Filled.finish_iff (h : Filled limits accounting pushed b) (inventory : Inventory) :
    b.finish=.ok inventory ↔
      FinalTest limits pushed accounting ∧ inventory=⟨b.entries,b.budget.usage⟩ := by
  unfold InventoryBuilder.finish
  rw [h.failure,h.accounted]
  cases accounting with
  | zipEntries => simp [FinalTest,pure,Except.pure,eq_comm]
  | sevenZipContainer size =>
    have husage := h.usage
    simp only [Budget.validateCompression,Budget.checkRatio,husage,h.bound,FinalTest]
    by_cases hneg : size.val<0
    · have hno : ¬0 ≤ size.val := not_le.mpr hneg
      simp [hneg,hno,bind,Except.bind]
    · have hyes : 0 ≤ size.val := not_lt.mp hneg
      cases hratio : limits.ratioExceeded (expandedSum pushed)
          (if size.val=0 ∧ 0<expandedSum pushed then 1 else size.val) with
      | true => simp [hneg,bind,Except.bind]
      | false => simp [hneg,hyes,bind,Except.bind,pure,Except.pure,eq_comm]

theorem finish_refused {error : ValidationError} (h : b.failure=some error) :
    b.finish=.error error := by
  simp only [InventoryBuilder.finish,h]

theorem Filled.run_closes (h : Filled limits accounting [] b) (entries : List EntryInfo) :
    (∃ inventory, (b.pushAll entries).2.finish=.ok inventory) ↔
      (∀ answer ∈ (b.pushAll entries).1, answer=.ok ()) ∧
        FinalTest limits entries accounting := by
  rcases h.pushAll_cases entries with ⟨hall,hfilled⟩ | ⟨done,entry,rest,error,-,hall,hkept⟩
  · rw [List.nil_append] at hfilled
    constructor
    · rintro ⟨inventory,hfinish⟩
      refine ⟨?_,((hfilled.finish_iff inventory).mp hfinish).1⟩
      intro answer hm
      rw [hall] at hm
      exact (List.mem_replicate.mp hm).2
    · rintro ⟨-,htest⟩
      exact ⟨_,(hfilled.finish_iff _).mpr ⟨htest,rfl⟩⟩
  · constructor
    · rintro ⟨inventory,hfinish⟩
      rw [finish_refused hkept] at hfinish
      cases hfinish
    · rintro ⟨hok,-⟩
      have hbad := hok (.error (.refused error)) (by
        rw [hall]
        exact List.mem_append_right _ (List.mem_replicate.mpr ⟨by omega,rfl⟩))
      cases hbad

/-- For valid limits and any entries, the inventory is exact: it closes exactly when every
push was accepted and the final test of a 7z container passes; it then holds one record per
entry under distinct cleaned names, no link and no archive file, and its charges are the
exact sums, within the limits. Nothing overflows, the first refusal answers everything after
it, a refused charge leaves the budget, and the order of a 7z container does not matter. -/
theorem inventory_exact (hvalid : limits.validate=.ok ()) (accounting : CompressionAccounting) :
    ∃ b, InventoryBuilder.new limits accounting=.ok b ∧
      (∀ entries,
        ((∃ inventory, (b.pushAll entries).2.finish=.ok inventory) ↔
          (∀ answer ∈ (b.pushAll entries).1, answer=.ok ()) ∧
            FinalTest limits entries accounting) ∧
        (∀ inventory, (b.pushAll entries).2.finish=.ok inventory →
          inventory.entries.entries.Perm
            (entries.map fun entry => (cleanKey limits entry,recordOf entry)) ∧
          (entries.map (cleanKey limits)).Nodup ∧
          (∀ entry ∈ entries, validateEntryName entry.name limits=.ok (cleanKey limits entry) ∧
            entry.isLink=false ∧ nestedArchive entry (cleanKey limits entry)=false) ∧
          inventory.usage=⟨entries.length,expandedSum entries,chargedSum accounting entries⟩ ∧
          entries.length≤limits.maxEntries ∧
          expandedSum entries≤limits.maxExpandedBytes.val) ∧
        (∀ answer ∈ (b.pushAll entries).1, answer≠.error .overflow) ∧
        ((∀ answer ∈ (b.pushAll entries).1, answer=.ok ()) ∨
          ∃ done entry rest error, entries=done++entry::rest ∧
            (b.pushAll entries).1=List.replicate done.length (.ok ())++
              List.replicate (rest.length+1) (.error (.refused error)) ∧
            (b.pushAll entries).2.finish=.error error)) ∧
      (∀ (budget : Budget) entry stop,
        ((budget.account entry).1=.error stop → (budget.account entry).2=budget) ∧
        ((budget.accountExpanded entry).1=.error stop →
          (budget.accountExpanded entry).2=budget)) ∧
      ∀ size, accounting=.sevenZipContainer size → ∀ entries other, entries.Perm other →
        ((∃ inventory, (b.pushAll entries).2.finish=.ok inventory) ↔
          ∃ inventory, (b.pushAll other).2.finish=.ok inventory) := by
  obtain ⟨b,hnew⟩ : ∃ b, InventoryBuilder.new limits accounting=.ok b := by
    simp only [InventoryBuilder.new,Budget.new,hvalid]
    exact ⟨_,rfl⟩
  have hb := new_filled hnew
  refine ⟨b,hnew,?_,?_,?_⟩
  · intro entries
    refine ⟨hb.run_closes entries,?_⟩
    rcases hb.pushAll_cases entries with ⟨hall,hfilled⟩ | ⟨done,entry,rest,error,hsplit,hall,hkept⟩
    · rw [List.nil_append] at hfilled
      have hok : ∀ answer ∈ (b.pushAll entries).1, answer=.ok () := by
        intro answer hm
        rw [hall] at hm
        exact (List.mem_replicate.mp hm).2
      refine ⟨?_,?_,.inl hok⟩
      · intro inventory hfinish
        obtain ⟨-,rfl⟩ := (hfilled.finish_iff inventory).mp hfinish
        refine ⟨hfilled.records,hfilled.keys,?_,hfilled.usage,hfilled.count.2,hfilled.expanded.2⟩
        intro entry hm
        have hrec := hfilled.recordable entry hm
        exact ⟨hrec.named,hrec.plain,hrec.flat⟩
      · intro answer hm hover
        rw [hok answer hm] at hover
        cases hover
    · refine ⟨?_,?_,.inr ⟨done,entry,rest,error,hsplit,hall,finish_refused hkept⟩⟩
      · intro inventory hfinish
        rw [finish_refused hkept] at hfinish
        cases hfinish
      · intro answer hm hover
        rw [hall] at hm
        rcases List.mem_append.mp hm with hm | hm
        · rw [(List.mem_replicate.mp hm).2] at hover
          cases hover
        · rw [(List.mem_replicate.mp hm).2] at hover
          cases hover
  · intro budget entry stop
    constructor
    · intro hstop
      unfold Budget.account Budget.charge at hstop ⊢
      cases haccount : budget.accountUsage entry with
      | ok next => simp [haccount] at hstop
      | error stop => rfl
    · intro hstop
      unfold Budget.accountExpanded Budget.charge at hstop ⊢
      cases haccount : budget.expandedUsage entry with
      | ok next => simp [haccount] at hstop
      | error stop => rfl
  · rintro size rfl entries other hp
    have hsum : expandedSum other=expandedSum entries := ((hp.map _).sum_eq).symm
    have haccept : Acceptable limits ([]++entries) ↔ Acceptable limits ([]++other) :=
      ⟨fun h => h.perm hp,fun h => h.perm hp.symm⟩
    rw [hb.run_closes entries,hb.run_closes other,hb.pushAll_seven entries,
      hb.pushAll_seven other,haccept,FinalTest,FinalTest,hsum]

section Example

/-- The number 1000. -/
def thousand : I64 := ⟨1000,by decide⟩

def smallLimits : Limits :=
  ⟨512,16,100,thousand,true,fun _ _ => false,⟨1,by decide⟩,⟨1,by decide⟩⟩

def smallFile : EntryInfo := ⟨[0x61],⟨5,by decide⟩,⟨7,by decide⟩,false,false⟩

def smallContainer : CompressionAccounting := .sevenZipContainer ⟨10,by decide⟩

/-- A 7z inventory does not charge the compressed bytes of its entries. -/
theorem seven_leaves_compressed :
    ∃ b inventory, InventoryBuilder.new smallLimits smallContainer=.ok b ∧
      (b.pushAll [smallFile]).2.finish=.ok inventory ∧
      inventory.usage.compressedBytes=0 ∧ compressedSum [smallFile]=5 := by
  have husage : ((InventoryBuilder.pushAll ⟨⟨smallLimits,⟨0,0,0⟩⟩,smallContainer,.empty,none⟩
      [smallFile]).2.finish.map Inventory.usage).toOption=some ⟨1,7,0⟩ := by decide +kernel
  cases hfinish : (InventoryBuilder.pushAll ⟨⟨smallLimits,⟨0,0,0⟩⟩,smallContainer,.empty,none⟩
      [smallFile]).2.finish with
  | error error =>
    rw [hfinish] at husage
    cases husage
  | ok inventory =>
    rw [hfinish] at husage
    have husage : inventory.usage=⟨1,7,0⟩ := Option.some.inj husage
    exact ⟨_,inventory,rfl,hfinish,by rw [husage],rfl⟩

theorem small_inventory :
    ∃ b, InventoryBuilder.new smallLimits smallContainer=.ok b ∧
      ∀ inventory, (b.pushAll [smallFile]).2.finish=.ok inventory →
        inventory.usage=⟨1,7,0⟩ := by
  obtain ⟨b,hnew,hall,-⟩ := @inventory_exact smallLimits (by decide) smallContainer
  exact ⟨b,hnew,fun inventory hfinish => ((hall [smallFile]).2.1 inventory hfinish).2.2.2.1⟩

end Example

end Librairii.ArchiveInventory
