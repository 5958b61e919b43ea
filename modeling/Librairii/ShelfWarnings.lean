import Librairii.NavigationRoundTrip
import Librairii.SortedMaps

/-!
# Warning acknowledgements and their bytes

A profile remembers for every shelf the key of an acknowledged mismatch and, when
members were acknowledged, the set of removals that were shown. Both maps are
stored as one list of entries in which an empty set of removals is left out. A
stored acknowledgement of no removal is therefore read back as one of a key only,
and these answer differently.
-/

namespace Librairii.ShelfWarnings

open CheckedResults JsonText JsonValues WireParser SavedQuery CanonicalQuery SavedQueryRoundTrip
open JsonReader NavigationCodec SortedMaps
open NavigationRoundTrip hiding plainNavigation

/-- A warning command or stored state is refused. -/
inductive ShelfError where
  | invalidInput
  deriving DecidableEq

/-- The bound on acknowledged shelves. -/
def maxEntries : ℕ := 1024

def maxWarningBytes : ℕ := 1024*1024

/-- The digest of a review snapshot. -/
structure WarningKey where
  bytes : List UInt8
  /-- A digest has thirty-two bytes. -/
  length_bytes : bytes.length=32
  deriving DecidableEq

/-- The acknowledgements of one library. -/
structure WarningAcknowledgements where
  library : LibraryId
  /-- The acknowledged key of a shelf. -/
  entries : SortedMap I64 WarningKey
  /-- The acknowledged removals of a shelf, in order. -/
  removals : SortedMap I64 (List String)

/-- An entry as it is stored. -/
structure Entry where
  shelfId : I64
  snapshot : WarningKey
  removals : List String

/-- A state as it is stored. -/
structure Wire where
  version : UInt8
  library : String
  entries : List Entry

/-- What the acknowledgements rely on. -/
structure WarningEnv where
  serialize : Json → Option String
  /-- Read bytes as a stored state. -/
  readWire : List UInt8 → Option Wire
  /-- A text is a story identity. -/
  parsesUuid : String → Bool

def WarningAcknowledgements.new (library : LibraryId) : WarningAcknowledgements :=
  ⟨library,.empty,.empty⟩

def needsPrompt (s : WarningAcknowledgements) (shelfId : GroupId) (key : WarningKey) : Bool :=
  s.entries.get shelfId.val≠some key

def needsPromptForMembers (s : WarningAcknowledgements) (shelfId : GroupId) (key : WarningKey)
    (removals : List String) : Bool :=
  match s.removals.get shelfId.val with
  | none => needsPrompt s shelfId key
  | some known => removals.any fun uuid => uuid ∉ known

def acknowledge (s : WarningAcknowledgements) (shelfId : GroupId) (key : WarningKey) :
    Except ShelfError WarningAcknowledgements :=
  if s.entries.get shelfId.val=none ∧ maxEntries ≤ s.entries.size then .error .invalidInput
  else .ok { s with
    entries := s.entries.insert shelfId.val key, removals := s.removals.erase shelfId.val }

def forget (s : WarningAcknowledgements) (shelfId : GroupId) : WarningAcknowledgements×Bool :=
  ({ s with
    entries := s.entries.erase shelfId.val, removals := s.removals.erase shelfId.val },
    (s.entries.get shelfId.val).isSome)

def entryJson (entry : Entry) : Json :=
  .object ([("shelf_id",.number entry.shelfId.val),
    ("snapshot",.array (entry.snapshot.bytes.map fun b => .number b.toNat))]++
    if entry.removals=[] then [] else [("removals",.array (entry.removals.map .string))])

def wireJson (wire : Wire) : Json :=
  .object [("version",.number wire.version.toNat),("library",.string wire.library),
    ("entries",.array (wire.entries.map entryJson))]

def storedEntry (s : WarningAcknowledgements) (entry : I64×WarningKey) : Entry :=
  ⟨entry.1,entry.2,(s.removals.get entry.1).getD []⟩

def storedWire (s : WarningAcknowledgements) : Wire :=
  ⟨1,s.library.text,s.entries.entries.map (storedEntry s)⟩

section Codec

variable (env : WarningEnv)

def storyReference (stored : String) : Bool := stored.utf8ByteSize=36 && env.parsesUuid stored

def acknowledgeMembers (s : WarningAcknowledgements) (shelfId : GroupId) (key : WarningKey)
    (removals : List String) : Except ShelfError WarningAcknowledgements :=
  if removals.any fun uuid => !storyReference env uuid then .error .invalidInput
  else do
    let s ← acknowledge s shelfId key
    .ok { s with removals := s.removals.insert shelfId.val (sortedSet removals) }

def wireBytes (wire : Wire) : Option (List UInt8) :=
  (env.serialize (wireJson wire)).map fun text => bytes text.toList

/-- The bytes of a state within its bound. -/
def encode (s : WarningAcknowledgements) : Except ShelfError (List UInt8) :=
  match wireBytes env (storedWire s) with
  | none => .error .invalidInput
  | some bytes => if maxWarningBytes<bytes.length then .error .invalidInput else .ok bytes

/-- Read the entries one after the other; a shelf occurs once. -/
def decodeEntries : List Entry → WarningAcknowledgements →
    Except ShelfError WarningAcknowledgements
  | [],s => .ok s
  | e::entries,s =>
    if e.removals.any fun uuid => !storyReference env uuid then .error .invalidInput
    else
      let removals := if e.removals=[] then s.removals
        else s.removals.insert e.shelfId (sortedSet e.removals)
      if e.shelfId.val≤0 ∨ s.entries.get e.shelfId≠none then .error .invalidInput
      else decodeEntries entries
        { s with entries := s.entries.insert e.shelfId e.snapshot, removals := removals }

/-- Read a state of the expected library. -/
def decode (bytes : List UInt8) (library : LibraryId) : Except ShelfError WarningAcknowledgements :=
  if maxWarningBytes<bytes.length then .error .invalidInput
  else match env.readWire bytes with
  | none => .error .invalidInput
  | some wire =>
    if wire.version≠1 ∨ wire.library≠library.text ∨ maxEntries<wire.entries.length then
      .error .invalidInput
    else decodeEntries env wire.entries (.new library)

/-- A command on the acknowledgements. -/
inductive Command where
  | acknowledge (shelfId : GroupId) (key : WarningKey)
  | acknowledgeMembers (shelfId : GroupId) (key : WarningKey) (removals : List String)
  | forget (shelfId : GroupId)

/-- The state a command asks for. -/
def attempt (s : WarningAcknowledgements) : Command → Except ShelfError WarningAcknowledgements
  | .acknowledge shelfId key => ShelfWarnings.acknowledge s shelfId key
  | .acknowledgeMembers shelfId key removals =>
    ShelfWarnings.acknowledgeMembers env s shelfId key removals
  | .forget shelfId => .ok (ShelfWarnings.forget s shelfId).1

/-- The state after a command; a refused command leaves it. -/
def step (s : WarningAcknowledgements) (command : Command) : WarningAcknowledgements :=
  match attempt env s command with
  | .ok next => next
  | .error _ => s

/-- The state after commands. -/
def run (library : LibraryId) (commands : List Command) : WarningAcknowledgements :=
  commands.foldl (step env) (.new library)

end Codec

/-- What every reachable state keeps. -/
structure Kept (env : WarningEnv) (s : WarningAcknowledgements) : Prop where
  positive : ∀ id key, s.entries.get id=some key → 0 < id.val
  bounded : s.entries.size ≤ maxEntries
  acknowledged : ∀ id known, s.removals.get id=some known → s.entries.get id≠none
  /-- Removals are ordered sets of stored identities. -/
  known : ∀ id known, s.removals.get id=some known →
    sortedSet known=known ∧ ∀ uuid ∈ known, storyReference env uuid=true

variable {s : WarningAcknowledgements} (library : LibraryId)

section Reachable

variable {env : WarningEnv}

variable {next : WarningAcknowledgements} {shelfId : GroupId} {key : WarningKey}

/-- An accepted key is recorded and its shelf's removals are forgotten. -/
theorem acknowledge_ok (h : acknowledge s shelfId key=.ok next) :
    (s.entries.get shelfId.val=none → s.entries.size < maxEntries) ∧
      next={ s with
        entries := s.entries.insert shelfId.val key,
          removals := s.removals.erase shelfId.val } := by
  unfold acknowledge at h
  obtain ⟨hfull,h⟩ := checked_ok.mp h
  cases h
  refine ⟨fun hnew => ?_,rfl⟩
  by_contra hle
  exact hfull ⟨hnew,Nat.not_lt.mp hle⟩

/-- An accepted key keeps what reachable states keep. -/
theorem acknowledge_kept (hs : Kept env s) (h : acknowledge s shelfId key=.ok next) :
    Kept env next := by
  obtain ⟨hroom,rfl⟩ := acknowledge_ok h
  refine ⟨?_,?_,?_,?_⟩
  · intro id other hid
    rw [SortedMap.get_insert] at hid
    by_cases he : id=shelfId.val
    · rw [he]
      exact shelfId.property
    · rw [if_neg he] at hid
      exact hs.positive id other hid
  · have hsize := s.entries.size_insert shelfId.val key
    have hbound := hs.bounded
    dsimp only
    by_cases hnew : s.entries.get shelfId.val=none
    · have hlt := hroom hnew
      rw [if_pos hnew] at hsize
      omega
    · rw [if_neg hnew] at hsize
      omega
  · intro id known hid
    rw [SortedMap.get_erase] at hid
    rw [SortedMap.get_insert]
    by_cases he : id=shelfId.val
    · simp [he]
    · rw [if_neg he] at hid ⊢
      exact hs.acknowledged id known hid
  · intro id known hid
    rw [SortedMap.get_erase] at hid
    by_cases he : id=shelfId.val
    · rw [if_pos he] at hid
      cases hid
    · rw [if_neg he] at hid
      exact hs.known id known hid

/-- Accepted removals keep what reachable states keep. -/
theorem acknowledgeMembers_kept (hs : Kept env s) {removals : List String}
    (h : acknowledgeMembers env s shelfId key removals=.ok next) : Kept env next := by
  unfold acknowledgeMembers at h
  obtain ⟨hbad,h⟩ := checked_ok.mp h
  obtain ⟨mid,hmid,h⟩ := exceptBind_ok.mp h
  cases h
  have hkept := acknowledge_kept hs hmid
  obtain ⟨-,rfl⟩ := acknowledge_ok hmid
  refine ⟨hkept.positive,hkept.bounded,?_,?_⟩
  · intro id known hid
    rw [SortedMap.get_insert] at hid
    by_cases he : id=shelfId.val
    · simp [he]
    · rw [if_neg he] at hid
      exact hkept.acknowledged id known hid
  · intro id known hid
    rw [SortedMap.get_insert] at hid
    by_cases he : id=shelfId.val
    · rw [if_pos he] at hid
      cases hid
      refine ⟨sortedSet_idem removals,fun uuid hm => ?_⟩
      by_contra hout
      apply hbad
      rw [List.any_eq_true]
      exact ⟨uuid,mem_sortedSet.mp hm,by simp [hout]⟩
    · rw [if_neg he] at hid
      exact hkept.known id known hid

/-- Forgetting a shelf keeps what reachable states keep. -/
theorem forget_kept (hs : Kept env s) (shelfId : GroupId) : Kept env (forget s shelfId).1 := by
  refine ⟨?_,?_,?_,?_⟩
  · intro id key hid
    change (s.entries.erase shelfId.val).get id=some key at hid
    rw [SortedMap.get_erase] at hid
    by_cases he : id=shelfId.val
    · rw [if_pos he] at hid
      cases hid
    · rw [if_neg he] at hid
      exact hs.positive id key hid
  · have hsize := s.entries.size_erase shelfId.val
    have hbound := hs.bounded
    change (s.entries.erase shelfId.val).size ≤ maxEntries
    omega
  · intro id known hid
    change (s.removals.erase shelfId.val).get id=some known at hid
    change (s.entries.erase shelfId.val).get id≠none
    rw [SortedMap.get_erase] at hid ⊢
    by_cases he : id=shelfId.val
    · rw [if_pos he] at hid
      cases hid
    · rw [if_neg he] at hid ⊢
      exact hs.acknowledged id known hid
  · intro id known hid
    change (s.removals.erase shelfId.val).get id=some known at hid
    rw [SortedMap.get_erase] at hid
    by_cases he : id=shelfId.val
    · rw [if_pos he] at hid
      cases hid
    · rw [if_neg he] at hid
      exact hs.known id known hid

/-- A command keeps what reachable states keep. -/
theorem step_kept (hs : Kept env s) (command : Command) : Kept env (step env s command) := by
  unfold step
  cases ha : attempt env s command with
  | error e => exact hs
  | ok next =>
    cases command with
    | acknowledge shelfId key => exact acknowledge_kept hs ha
    | acknowledgeMembers shelfId key removals => exact acknowledgeMembers_kept hs ha
    | forget shelfId =>
      cases ha
      exact forget_kept hs shelfId

/-- Every reachable state keeps it. -/
theorem run_kept (commands : List Command) : Kept env (run env library commands) := by
  have hnew : Kept env (.new library) := by
    refine ⟨?_,Nat.zero_le _,?_,?_⟩
    · intro id key hid
      cases hid
    · intro id known hid
      cases hid
    · intro id known hid
      cases hid
  unfold run
  generalize WarningAcknowledgements.new library=s at hnew
  induction commands generalizing s with
  | nil => exact hnew
  | cons command commands ih => exact ih _ (step_kept hnew command)

theorem run_library (commands : List Command) : (run env library commands).library=library := by
  have hstep : ∀ (s : WarningAcknowledgements) (command : Command),
      (step env s command).library=s.library := by
    intro s command
    unfold step
    cases ha : attempt env s command with
    | error e => rfl
    | ok next =>
      cases command with
      | acknowledge shelfId key =>
        obtain ⟨-,rfl⟩ := acknowledge_ok ha
        rfl
      | acknowledgeMembers shelfId key removals =>
        change acknowledgeMembers env s shelfId key removals=.ok next at ha
        unfold acknowledgeMembers at ha
        obtain ⟨-,ha⟩ := checked_ok.mp ha
        obtain ⟨mid,hmid,ha⟩ := exceptBind_ok.mp ha
        cases ha
        obtain ⟨-,rfl⟩ := acknowledge_ok hmid
        rfl
      | forget shelfId =>
        cases ha
        rfl
  have hrun : ∀ s : WarningAcknowledgements,
      (commands.foldl (step env) s).library=s.library := by
    induction commands with
    | nil => exact fun s => rfl
    | cons command commands ih =>
      intro s
      rw [List.foldl_cons,ih,hstep]
  exact hrun _

/-- Reading stored entries of a kept state adds their shelves, with the removals that are
not empty. -/
theorem decodeEntries_stored (hs : Kept env s) (rest : List (I64×WarningKey)) :
    ∀ acc : WarningAcknowledgements,
    (∀ entry ∈ rest, entry ∈ s.entries.entries) → (rest.map Prod.fst).Nodup →
    (∀ entry ∈ rest, acc.entries.get entry.1=none) →
    ∃ t, decodeEntries env (rest.map (storedEntry s)) acc=.ok t ∧ t.library=acc.library ∧
      (∀ id, t.entries.get id=
        if id ∈ rest.map Prod.fst then s.entries.get id else acc.entries.get id) ∧
      ∀ id, t.removals.get id=
        if id ∈ rest.map Prod.fst ∧ (s.removals.get id).getD []≠[] then s.removals.get id
        else acc.removals.get id := by
  induction rest with
  | nil =>
    intro acc _ _ _
    exact ⟨acc,rfl,rfl,by simp,by simp⟩
  | cons first rest ih =>
    intro acc hmem hnodup hnew
    obtain ⟨id,key⟩ := first
    rw [List.map_cons,List.nodup_cons] at hnodup
    have hout : id ∉ rest.map Prod.fst := hnodup.1
    have hid : s.entries.get id=some key :=
      SortedMap.get_eq_some.mpr (hmem _ List.mem_cons_self)
    have hpos := hs.positive id key hid
    have hfree : acc.entries.get id=none := hnew _ List.mem_cons_self
    have hgood : ¬((storedEntry s (id,key)).removals.any
        fun uuid => !storyReference env uuid)=true := by
      intro hany
      obtain ⟨uuid,hm,hbad⟩ := List.any_eq_true.mp hany
      change uuid ∈ (s.removals.get id).getD [] at hm
      cases hr : s.removals.get id with
      | none =>
        rw [hr] at hm
        cases hm
      | some known =>
        rw [hr] at hm
        have hreference := (hs.known id known hr).2 uuid hm
        simp [hreference] at hbad
    have hset : (s.removals.get id).getD []≠[] →
        s.removals.get id=some (sortedSet ((s.removals.get id).getD [])) := by
      intro hne
      cases hr : s.removals.get id with
      | none =>
        rw [hr] at hne
        exact absurd rfl hne
      | some known =>
        rw [Option.getD_some,(hs.known id known hr).1]
    have hok : ¬(id.val≤0 ∨ acc.entries.get id≠none) := by
      rintro (h | h)
      · omega
      · exact h hfree
    obtain ⟨t,ht,hlibrary,hentries,hremovals⟩ := ih
      ⟨acc.library,acc.entries.insert id key,
        if (s.removals.get id).getD []=[] then acc.removals
        else acc.removals.insert id (sortedSet ((s.removals.get id).getD []))⟩
      (fun entry hm => hmem entry (List.mem_cons_of_mem _ hm)) hnodup.2 (by
        intro entry hm
        have hne : entry.1≠id := fun he => hout (he ▸ List.mem_map_of_mem hm)
        rw [SortedMap.get_insert,if_neg hne]
        exact hnew entry (List.mem_cons_of_mem _ hm))
    refine ⟨t,?_,hlibrary,?_,?_⟩
    · rw [List.map_cons,decodeEntries,if_neg hgood]
      exact (if_neg hok).trans ht
    · intro other
      rw [hentries other,List.map_cons,SortedMap.get_insert]
      by_cases hm : other ∈ rest.map Prod.fst
      · simp [hm]
      · by_cases he : other=id
        · rw [he,if_neg hout,if_pos rfl,if_pos List.mem_cons_self,hid]
        · simp [hm,he]
    · intro other
      rw [hremovals other,List.map_cons]
      by_cases he : other=id
      · subst he
        by_cases hempty : (s.removals.get other).getD []=[]
        · simp [hempty]
        · have hvalue := hset hempty
          rw [if_neg (fun h => hout h.1),if_neg hempty,SortedMap.get_insert,if_pos rfl,
            if_pos ⟨List.mem_cons_self,hempty⟩]
          exact hvalue.symm
      · have hmem : other ∈ id::rest.map Prod.fst ↔ other ∈ rest.map Prod.fst := by
          rw [List.mem_cons,or_iff_right he]
        have hother : SortedMap.get (if (s.removals.get id).getD []=[] then acc.removals
            else acc.removals.insert id (sortedSet ((s.removals.get id).getD []))) other=
            acc.removals.get other := by
          split
          · rfl
          · rw [SortedMap.get_insert,if_neg he]
        dsimp only
        rw [hother]
        simp only [hmem]

end Reachable

/-- Serializing and reading a stored state behaves as documented. -/
structure DocumentedWarnings (env : WarningEnv) : Prop where
  /-- A serialized state is read back; removals that are left out are none. -/
  readsWire : ∀ wire bytes, wireBytes env wire=some bytes → env.readWire bytes=some wire

/-- Two states answer every prompt alike. -/
def SameAnswers (s t : WarningAcknowledgements) : Prop :=
  ∀ (shelfId : GroupId) (key : WarningKey) (removals : List String),
    needsPrompt s shelfId key=needsPrompt t shelfId key ∧
      needsPromptForMembers s shelfId key removals=needsPromptForMembers t shelfId key removals

def NoEmptyRemovals (s : WarningAcknowledgements) : Prop :=
  ∀ id : I64, s.removals.get id≠some []

section Persistence

variable {env : WarningEnv}

/-- The state read back from the bytes of a kept state: its keys, and its removals that are
not empty. -/
theorem decode_stored (hd : DocumentedWarnings env) (hs : Kept env s) {bytes : List UInt8}
    (h : encode env s=.ok bytes) :
    ∃ t, decode env bytes s.library=.ok t ∧ t.library=s.library ∧ t.entries=s.entries ∧
      ∀ id, t.removals.get id=
        if (s.removals.get id).getD []≠[] then s.removals.get id else none := by
  unfold encode at h
  cases hb : wireBytes env (storedWire s) with
  | none =>
    rw [hb] at h
    cases h
  | some written =>
    rw [hb] at h
    dsimp only at h
    obtain ⟨hlen,h⟩ := checked_ok.mp h
    cases h
    obtain ⟨t,ht,hlibrary,hentries,hremovals⟩ := decodeEntries_stored hs s.entries.entries
      (.new s.library) (fun _ hm => hm) s.entries.nodup_keys (fun _ _ => rfl)
    have hkeys : ∀ id, id ∈ s.entries.entries.map Prod.fst ↔ s.entries.get id≠none := by
      intro id
      rw [Option.ne_none_iff_exists',List.mem_map]
      constructor
      · rintro ⟨⟨id,key⟩,hm,rfl⟩
        exact ⟨key,SortedMap.get_eq_some.mpr hm⟩
      · rintro ⟨key,hk⟩
        exact ⟨(id,key),SortedMap.get_eq_some.mp hk,rfl⟩
    have hbound : ¬maxEntries<(s.entries.entries.map (storedEntry s)).length := by
      have := hs.bounded
      rw [List.length_map]
      exact Nat.not_lt.mpr this
    refine ⟨t,?_,hlibrary,SortedMap.ext_get fun id => ?_,fun id => ?_⟩
    · unfold decode
      rw [if_neg hlen,hd.readsWire _ _ hb]
      have hok : ¬((storedWire s).version≠1 ∨ (storedWire s).library≠s.library.text ∨
          maxEntries<(storedWire s).entries.length) := by
        rintro (h | h | h)
        · exact h rfl
        · exact h rfl
        · exact hbound h
      exact (if_neg hok).trans ht
    · rw [hentries id]
      by_cases hk : id ∈ s.entries.entries.map Prod.fst
      · rw [if_pos hk]
      · rw [if_neg hk]
        have hnone : s.entries.get id=none := by
          by_contra hne
          exact hk ((hkeys id).mpr hne)
        rw [hnone]
        rfl
    · rw [hremovals id]
      by_cases hne : (s.removals.get id).getD []≠[]
      · have hknown : ∃ known, s.removals.get id=some known := by
          cases hr : s.removals.get id with
          | none =>
            rw [hr] at hne
            exact absurd rfl hne
          | some known => exact ⟨known,rfl⟩
        obtain ⟨known,hr⟩ := hknown
        have hk := (hkeys id).mpr (hs.acknowledged id known hr)
        rw [if_pos ⟨hk,hne⟩,if_pos hne]
      · rw [if_neg (fun h => hne h.2),if_neg hne]
        rfl

/-- A state and the state read back answer alike exactly when no acknowledged removals are
the empty set. -/
theorem sameAnswers_iff {t : WarningAcknowledgements} (hs : Kept env s)
    (hentries : t.entries=s.entries) (hremovals : ∀ id, t.removals.get id=
      if (s.removals.get id).getD []≠[] then s.removals.get id else none) :
    SameAnswers s t ↔ NoEmptyRemovals s := by
  constructor
  · intro hsame id hempty
    obtain ⟨key,hkey⟩ := Option.ne_none_iff_exists'.mp (hs.acknowledged id [] hempty)
    have hanswer := (hsame ⟨id,hs.positive id key hkey⟩ key [""]).2
    have hread : t.removals.get id=none := by
      rw [hremovals id,hempty]
      rfl
    simp [needsPromptForMembers,needsPrompt,hempty,hread,hentries,hkey] at hanswer
  · intro hno shelfId key removals
    have hread : t.removals.get shelfId.val=s.removals.get shelfId.val := by
      rw [hremovals]
      by_cases hne : (s.removals.get shelfId.val).getD []≠[]
      · rw [if_pos hne]
      · rw [if_neg hne]
        cases hr : s.removals.get shelfId.val with
        | none => rfl
        | some known =>
          rw [hr,Option.getD_some,not_not] at hne
          exact absurd (hne ▸ hr) (hno shelfId.val)
    simp only [needsPrompt,needsPromptForMembers,hentries,hread,and_self]

def NamesRemovals : Command → Prop
  | .acknowledgeMembers _ _ removals => removals≠[]
  | _ => True

theorem step_noEmptyRemovals (hs : NoEmptyRemovals s) {command : Command}
    (hc : NamesRemovals command) : NoEmptyRemovals (step env s command) := by
  have herase : ∀ shelfId : GroupId, ∀ id : I64, (s.removals.erase shelfId.val).get id≠some [] := by
    intro shelfId id
    rw [SortedMap.get_erase]
    by_cases he : id=shelfId.val
    · simp [he]
    · rw [if_neg he]
      exact hs id
  unfold step
  cases ha : attempt env s command with
  | error e => exact hs
  | ok next =>
    cases command with
    | acknowledge shelfId key =>
      obtain ⟨-,rfl⟩ := acknowledge_ok ha
      exact herase shelfId
    | acknowledgeMembers shelfId key removals =>
      change acknowledgeMembers env s shelfId key removals=.ok next at ha
      unfold acknowledgeMembers at ha
      obtain ⟨-,ha⟩ := checked_ok.mp ha
      obtain ⟨mid,hmid,ha⟩ := exceptBind_ok.mp ha
      cases ha
      obtain ⟨-,rfl⟩ := acknowledge_ok hmid
      intro id hid
      rw [SortedMap.get_insert] at hid
      by_cases he : id=shelfId.val
      · rw [if_pos he] at hid
        exact hc (sortedSet_nil.mp (Option.some.inj hid))
      · rw [if_neg he] at hid
        exact herase shelfId id hid
    | forget shelfId =>
      cases ha
      exact herase shelfId

theorem run_noEmptyRemovals {commands : List Command}
    (hc : ∀ command ∈ commands, NamesRemovals command) :
    NoEmptyRemovals (run env library commands) := by
  have hnew : NoEmptyRemovals (.new library) := fun id h => nomatch h
  unfold run
  generalize WarningAcknowledgements.new library=s at hnew
  induction commands generalizing s with
  | nil => exact hnew
  | cons command commands ih =>
    have hstep : NoEmptyRemovals (step env s command) :=
      step_noEmptyRemovals hnew (hc command List.mem_cons_self)
    exact ih (fun other hm => hc other (List.mem_cons_of_mem _ hm)) _ hstep

/-- Every state of a run survives its bytes when each command names its removals, and
any state whose bytes are accepted survives exactly when it records no empty set. -/
theorem acknowledgements_survive (hd : DocumentedWarnings env) (library : LibraryId)
    (commands : List Command) :
    ((∀ command ∈ commands, NamesRemovals command) →
      ∀ bytes, encode env (run env library commands)=.ok bytes →
        ∃ t, decode env bytes library=.ok t ∧ SameAnswers (run env library commands) t) ∧
    ∀ bytes, encode env (run env library commands)=.ok bytes →
      ((∃ t, decode env bytes library=.ok t ∧ SameAnswers (run env library commands) t) ↔
        NoEmptyRemovals (run env library commands)) := by
  have hs : Kept env (run env library commands) := run_kept library commands
  have hiff : ∀ bytes, encode env (run env library commands)=.ok bytes →
      ((∃ t, decode env bytes library=.ok t ∧ SameAnswers (run env library commands) t) ↔
        NoEmptyRemovals (run env library commands)) := by
    intro bytes h
    obtain ⟨t,ht,-,hentries,hremovals⟩ := decode_stored hd hs h
    rw [run_library] at ht
    have hsame := sameAnswers_iff hs hentries hremovals
    constructor
    · rintro ⟨other,hother,hanswers⟩
      rw [ht] at hother
      cases hother
      exact hsame.mp hanswers
    · intro hno
      exact ⟨t,ht,hsame.mpr hno⟩
  exact ⟨fun hc bytes h => (hiff bytes h).mpr (run_noEmptyRemovals library hc),hiff⟩

end Persistence

def byteOf : Json → Option UInt8
  | .number n => if 0≤n ∧ n<256 then some (UInt8.ofNat n.toNat) else none
  | _ => none

def textOf : Json → Option String
  | .string text => some text
  | _ => none

def keyOf (values : List Json) : Option WarningKey := do
  let bytes ← values.mapM byteOf
  if h : bytes.length=32 then some ⟨bytes,h⟩ else none

/-- A stored entry from its members in their written order. -/
def entryOf : Json → Option Entry
  | .object [(shelfKey,shelf),(snapshotKey,.array snapshot)] =>
    if [shelfKey,snapshotKey]=["shelf_id","snapshot"] then do
      let shelfId ← i64Of shelf
      let key ← keyOf snapshot
      some ⟨shelfId,key,[]⟩
    else none
  | .object [(shelfKey,shelf),(snapshotKey,.array snapshot),(removalsKey,.array removals)] =>
    if [shelfKey,snapshotKey,removalsKey]=["shelf_id","snapshot","removals"] then do
      let shelfId ← i64Of shelf
      let key ← keyOf snapshot
      let removals ← removals.mapM textOf
      some ⟨shelfId,key,removals⟩
    else none
  | _ => none

/-- A stored state from its members in their written order. -/
def wireOf : Json → Option Wire
  | .object [(versionKey,version),(libraryKey,.string library),(entriesKey,.array entries)] =>
    if [versionKey,libraryKey,entriesKey]=["version","library","entries"] then do
      let version ← byteOf version
      let entries ← entries.mapM entryOf
      some ⟨version,library,entries⟩
    else none
  | _ => none

/-- A hyphenated story identity: hexadecimal digits with hyphens in four places. -/
def hyphenated (text : String) : Bool :=
  text.toList.length=36 && text.toList.zipIdx.all fun entry =>
    if entry.2 ∈ [8,13,18,23] then entry.1 = '-' else (hexDigit entry.1).isSome

/-- The plain environment, with a reader of the compact texts it writes. -/
def plainWarnings : WarningEnv where
  serialize := plainEnv.serialize
  readWire bytes := (readJson bytes).bind wireOf
  parsesUuid := hyphenated

theorem byteOf_number (b : UInt8) : byteOf (.number b.toNat)=some b := by
  have hlt : b.toNat<256 := b.toNat_lt
  rw [byteOf,if_pos ⟨Int.natCast_nonneg _,by omega⟩,Int.toNat_natCast,UInt8.ofNat_toNat]

theorem keyOf_bytes (key : WarningKey) :
    keyOf (key.bytes.map fun b => .number b.toNat)=some key := by
  have hbytes := mapM_written byteOf_number key.bytes
  unfold keyOf
  rw [hbytes]
  exact dif_pos key.length_bytes

theorem entryOf_entryJson (entry : Entry) : entryOf (entryJson entry)=some entry := by
  have hid := i64Of_number entry.shelfId
  have hkey := keyOf_bytes entry.snapshot
  have htexts : (entry.removals.map Json.string).mapM textOf=some entry.removals :=
    mapM_written (f:=Json.string) (fun _ => rfl) entry.removals
  obtain ⟨shelfId,key,removals⟩ := entry
  unfold entryJson
  by_cases hempty : removals=[]
  · subst hempty
    rw [if_pos rfl,List.append_nil,entryOf,if_pos rfl,hid,hkey]
    rfl
  · rw [if_neg hempty,List.cons_append,List.cons_append,List.nil_append,entryOf,if_pos rfl,hid,
      hkey,htexts]
    rfl

variable (wire : Wire)

/-- A written state is read back. -/
theorem wireOf_wireJson : wireOf (wireJson wire)=some wire := by
  have hversion := byteOf_number wire.version
  have hentries := mapM_written entryOf_entryJson wire.entries
  rw [wireJson,wireOf,if_pos rfl,hversion,hentries]
  rfl

/-- A stored state is admitted. -/
theorem fit_wireJson : Fit exactKeys (wireJson wire) := by
  have hkeys : ["version","library","entries"].Nodup := by decide
  have hnumber : ∀ b : UInt8, Fit exactKeys (.number b.toNat) := fun _ => rfl
  have htext : ∀ text : String, Fit exactKeys (.string text) := fun _ => trivial
  have hentry : ∀ entry : Entry, Fit exactKeys (entryJson entry) := by
    intro entry
    unfold entryJson
    by_cases hempty : entry.removals=[]
    · have hkeys : ["shelf_id","snapshot"].Nodup := by decide
      rw [if_pos hempty]
      exact ⟨keyed_exactKeys hkeys,rfl,fitElements_map hnumber entry.snapshot.bytes,trivial⟩
    · have hkeys : ["shelf_id","snapshot","removals"].Nodup := by decide
      rw [if_neg hempty]
      exact ⟨keyed_exactKeys hkeys,rfl,fitElements_map hnumber entry.snapshot.bytes,
        fitElements_map htext entry.removals,trivial⟩
  exact ⟨keyed_exactKeys hkeys,rfl,trivial,fitElements_map hentry wire.entries,trivial⟩

/-- The nesting of a stored state. -/
theorem height_wireJson : height (wireJson wire)<127 := by
  have hentry : ∀ entry : Entry, height (entryJson entry)≤2 := by
    intro entry
    have hsnapshot := height_array_map (n:=0)
      (fun b : UInt8 => Nat.le_refl (height (.number b.toNat))) entry.snapshot.bytes
    have hremovals := height_array_map (n:=0)
      (fun text : String => Nat.le_refl (height (.string text))) entry.removals
    have hshelf : height (.number entry.shelfId.val)=0 := rfl
    unfold entryJson
    by_cases hempty : entry.removals=[]
    · rw [if_pos hempty,List.append_nil,height]
      simp only [heightMembers,hshelf]
      omega
    · rw [if_neg hempty,List.cons_append,List.cons_append,List.nil_append,height]
      simp only [heightMembers,hshelf]
      omega
  have hentries := height_array_map hentry wire.entries
  have hversion : height (.number wire.version.toNat)=0 := rfl
  have hlibrary : height (.string wire.library)=0 := rfl
  rw [wireJson,height]
  simp only [heightMembers,hversion,hlibrary]
  omega

theorem wireBytes_plain :
    wireBytes plainWarnings wire=some (bytes (write serdeEscape (wireJson wire))) := by
  change some (bytes (String.ofList (write serdeEscape (wireJson wire))).toList)=_
  rw [String.toList_ofList]

theorem readWire_plain (bytes : List UInt8) :
    plainWarnings.readWire bytes=(readJson bytes).bind wireOf := rfl

theorem documented_plainWarnings : DocumentedWarnings plainWarnings where
  readsWire wire text hb := by
    have hheight := height_wireJson wire
    have hread := readJson_write escaping_serdeEscape (fit_wireJson wire) (by omega)
    rw [wireBytes_plain] at hb
    rw [readWire_plain,←Option.some.inj hb,hread,Option.bind_some,wireOf_wireJson]

/-- A state within its bound is written as its compact text. -/
theorem encode_plain
    (h : (bytes (write serdeEscape (wireJson (storedWire s)))).length ≤ maxWarningBytes) :
    encode plainWarnings s=.ok (bytes (write serdeEscape (wireJson (storedWire s)))) := by
  unfold encode
  rw [wireBytes_plain]
  exact if_neg (Nat.not_lt.mpr h)

/-- A digest of equal bytes. -/
def sampleKey : WarningKey := ⟨List.replicate 32 7,rfl⟩

def sampleStory : String := "10000000-0000-4000-8000-00000000000A"

def oneShelf (removals : List String) : WarningAcknowledgements :=
  ⟨sampleNavigation.library,⟨[(one,sampleKey)],List.pairwise_singleton _ _⟩,
    ⟨[(one,removals)],List.pairwise_singleton _ _⟩⟩

/-- Acknowledging an ordered list of stored identities records it. -/
theorem run_oneShelf {removals : List String}
    (hr : (removals.any fun uuid => !storyReference plainWarnings uuid)=false)
    (hs : sortedSet removals=removals) :
    run plainWarnings sampleNavigation.library
      [.acknowledgeMembers ⟨one,by decide⟩ sampleKey removals]=oneShelf removals := by
  have hattempt : attempt plainWarnings (.new sampleNavigation.library)
      (.acknowledgeMembers ⟨one,by decide⟩ sampleKey removals)=.ok (oneShelf
        (sortedSet removals)) := by
    change acknowledgeMembers plainWarnings _ _ _ _=_
    unfold acknowledgeMembers
    rw [hr]
    rfl
  rw [run,List.foldl_cons,List.foldl_nil,step,hattempt,hs]

set_option maxRecDepth 20000 in
/-- A shelf acknowledged with a removal survives. -/
theorem acknowledgements_survive_sample : ∃ bytes t,
    encode plainWarnings (run plainWarnings sampleNavigation.library
      [.acknowledgeMembers ⟨one,by decide⟩ sampleKey [sampleStory]])=.ok bytes ∧
    decode plainWarnings bytes sampleNavigation.library=.ok t ∧
    SameAnswers (run plainWarnings sampleNavigation.library
      [.acknowledgeMembers ⟨one,by decide⟩ sampleKey [sampleStory]]) t := by
  have hrun := run_oneShelf (by decide)
    (sortedSet_self (List.nodup_singleton sampleStory) (List.pairwise_singleton _ _))
  have hencode : encode plainWarnings (oneShelf [sampleStory])=.ok _ := encode_plain (by decide)
  rw [←hrun] at hencode
  obtain ⟨t,ht⟩ := (acknowledgements_survive documented_plainWarnings sampleNavigation.library
    [.acknowledgeMembers ⟨one,by decide⟩ sampleKey [sampleStory]]).1
    (List.forall_mem_singleton.mpr (List.cons_ne_nil _ _)) _ hencode
  exact ⟨_,t,hencode,ht⟩

set_option maxRecDepth 20000 in
/-- A shelf acknowledged with no removal is read back and prompts differently. -/
theorem empty_acknowledgement_lost : ∃ bytes t,
    encode plainWarnings (run plainWarnings sampleNavigation.library
      [.acknowledgeMembers ⟨one,by decide⟩ sampleKey []])=.ok bytes ∧
    decode plainWarnings bytes sampleNavigation.library=.ok t ∧
    needsPromptForMembers (run plainWarnings sampleNavigation.library
      [.acknowledgeMembers ⟨one,by decide⟩ sampleKey []]) ⟨one,by decide⟩ sampleKey
      [sampleStory]=true ∧
    needsPromptForMembers t ⟨one,by decide⟩ sampleKey [sampleStory]=false := by
  have hrun := run_oneShelf rfl (sortedSet_nil.mpr rfl)
  have hkept : Kept plainWarnings _ := run_kept sampleNavigation.library
    [.acknowledgeMembers ⟨one,by decide⟩ sampleKey []]
  have hencode : encode plainWarnings (oneShelf [])=.ok _ := encode_plain (by decide)
  rw [hrun] at hkept ⊢
  obtain ⟨t,ht,-,hentries,hremovals⟩ := decode_stored documented_plainWarnings hkept hencode
  have hread : t.removals.get one=none := hremovals one
  have hkey : t.entries.get one=some sampleKey := by
    rw [hentries]
    rfl
  refine ⟨_,t,hencode,ht,rfl,?_⟩
  simp [needsPromptForMembers,needsPrompt,hread,hkey]

end Librairii.ShelfWarnings
