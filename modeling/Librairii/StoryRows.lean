import Librairii.CatalogRows

/-!
# Stories, their archives and their display names

A story is listed when it has an archive. Its display name is the normalized title of the
active catalog of a locale, or its own when the catalog has none. Each story has at most
one archive, and each catalog snapshot at most one record for a story.
-/

namespace Librairii.StoryRows

open RowTables TagRows CatalogRows

/-- What the last verification of an archive found. -/
inductive ValidationState where
  | valid
  | missing
  | invalid
  deriving DecidableEq

def ValidationState.asStr : ValidationState → String
  | .valid => "valid"
  | .missing => "missing"
  | .invalid => "invalid"

/-- One row of `stories`. -/
structure Story where
  id : ℤ
  uuid : String
  embeddedTitle : Option String
  embeddedDescription : Option String
  embeddedArtworkPath : Option String
  createdAt : String
  displayNameNormalized : String
  isBroken : Bool
  deriving DecidableEq

/-- One row of `story_archives`. -/
structure Archive where
  storyId : ℤ
  originalFilename : List UInt8
  detectedFormat : String
  sha256 : String
  byteSize : ℤ
  managedPath : List UInt8
  validationState : ValidationState
  deriving DecidableEq

/-- The tables a query reads. -/
structure StoryTables where
  stories : List Story
  archives : List Archive
  catalog : Catalog
  tags : TagTables
  assignments : List Assignment
  deriving DecidableEq

/-- The unique keys of the tables, and the bound of the engine on the number of rows. -/
structure Keyed (t : StoryTables) : Prop where
  stories : (t.stories.map (·.id)).Nodup
  /-- A story has at most one archive. -/
  archives : (t.archives.map (·.storyId)).Nodup
  /-- A snapshot has at most one record for a story. -/
  metadata : (t.catalog.metadata.map fun m => (m.snapshot,m.storyUuid)).Nodup
  /-- The number of stories is a 64-bit integer. -/
  counted : (t.stories.length : ℤ)<2^63

/-- A story with an archive. -/
structure Listed where
  story : Story
  archive : Archive
  deriving DecidableEq

/-- The stories joined with their archives. -/
def listed (t : StoryTables) : List Listed :=
  t.stories.flatMap fun s => (t.archives.filter fun a => a.storyId=s.id).map fun a => ⟨s,a⟩

def activeSnapshot (t : StoryTables) (locale : String) : Option ℤ :=
  (t.catalog.snapshots.find? fun c => c.active && c.locale=locale).map (·.id)

/-- The records of a story in the active snapshot of a locale. -/
def displayMetadata (t : StoryTables) (locale : String) (s : Story) : List Metadata :=
  t.catalog.metadata.filter fun m => m.storyUuid=s.uuid && activeSnapshot t locale=some m.snapshot

def displayName (s : Story) : Option Metadata → String
  | some m => if m.titleNormalized="" then s.displayNameNormalized else m.titleNormalized
  | none => s.displayNameNormalized

def storyName (t : StoryTables) (locale : String) (s : Story) : String :=
  displayName s (displayMetadata t locale s).head?

/-- The position of the first occurrence of a part, counted from the given one, or 0. -/
def instrFrom (part : List Char) : List Char → ℕ → ℕ
  | [],n => if part=[] then n else 0
  | c::cs,n => if part <+: c::cs then n else instrFrom part cs (n+1)

/-- The position of the first occurrence of a part, or 0. -/
def instr (value part : String) : ℕ := instrFrom part.toList value.toList 1

/-- A part is found exactly when it occurs. -/
theorem instrFrom_pos {part : List Char} (value : List Char) : ∀ {n : ℕ}, 0<n →
    (0 < instrFrom part value n ↔ part <:+: value) := by
  induction value with
  | nil =>
    intro n hn
    rw [instrFrom,List.infix_nil]
    by_cases h : part=[]
    · simp only [h,if_true,hn]
    · simp only [h,if_false,Nat.lt_irrefl]
  | cons c cs ih =>
    intro n hn
    rw [instrFrom,List.infix_cons_iff]
    by_cases h : part <+: c::cs
    · simp only [h,if_true,hn,true_or]
    · rw [if_neg h,ih (Nat.succ_pos n)]
      simp only [h,false_or]

/-- A part has a position exactly when it occurs. -/
theorem instr_pos (value part : String) : 0 < instr value part ↔ part.toList <:+: value.toList :=
  instrFrom_pos value.toList Nat.one_pos

theorem filter_key_le_one {α κ : Type} {key : α → κ} {rows : List α} (hk : (rows.map key).Nodup)
    {p : α → Bool} {k : κ} (hp : ∀ row, p row=true → key row=k) : (rows.filter p).length≤1 := by
  have h := affected_le_one hk hp
  rwa [affected,List.countP_eq_length_filter] at h

/-- A story has at most one record in the active snapshot of a locale. -/
theorem displayMetadata_le_one {t : StoryTables} (h : Keyed t) (locale : String) (s : Story) :
    (displayMetadata t locale s).length≤1 := by
  cases hactive : activeSnapshot t locale with
  | none => simp [displayMetadata,hactive]
  | some id =>
    apply filter_key_le_one h.metadata (k := (id,s.uuid))
    intro m hm
    simp only [hactive,Bool.and_eq_true,decide_eq_true_eq,Option.some.injEq] at hm
    rw [hm.1,hm.2]

theorem mem_listed {t : StoryTables} {row : Listed} : row ∈ listed t ↔
    row.story ∈ t.stories ∧ row.archive ∈ t.archives ∧ row.archive.storyId=row.story.id := by
  rw [listed,List.mem_flatMap]
  constructor
  · rintro ⟨s,hs,hrow⟩
    obtain ⟨a,ha,rfl⟩ := List.mem_map.mp hrow
    obtain ⟨ha,hid⟩ := List.mem_filter.mp ha
    exact ⟨hs,ha,of_decide_eq_true hid⟩
  · rintro ⟨hs,ha,hid⟩
    exact ⟨row.story,hs,List.mem_map.mpr
      ⟨row.archive,List.mem_filter.mpr ⟨ha,decide_eq_true hid⟩,rfl⟩⟩

/-- Rows that give at most one row each, under their own key, keep the order of the keys. -/
theorem map_flatMap_sublist {α β κ : Type} {f : α → List β} {key : β → κ} {own : α → κ}
    (hone : ∀ a, (f a).length≤1) (hkey : ∀ a, ∀ b ∈ f a, key b=own a) (rows : List α) :
    ((rows.flatMap f).map key).Sublist (rows.map own) := by
  induction rows with
  | nil => exact .slnil
  | cons a rows ih =>
    rw [List.flatMap_cons,List.map_append,List.map_cons]
    have ha := hone a
    have hown := hkey a
    cases hrow : f a with
    | nil => exact ih.cons _
    | cons b rest =>
      rw [hrow,List.length_cons] at ha
      have hrest : rest=[] := List.eq_nil_of_length_eq_zero (by omega)
      rw [hrow,hrest,List.forall_mem_singleton] at hown
      rw [hrest,List.map_singleton,hown]
      exact ih.cons_cons _

theorem listed_ids_sublist {t : StoryTables} (h : Keyed t) :
    ((listed t).map fun row => row.story.id).Sublist (t.stories.map (·.id)) := by
  apply map_flatMap_sublist
  · intro s
    rw [List.length_map]
    exact filter_key_le_one h.archives (k := s.id) fun a ha => of_decide_eq_true ha
  · intro s row hrow
    obtain ⟨a,-,rfl⟩ := List.mem_map.mp hrow
    rfl

theorem listed_ids_nodup {t : StoryTables} (h : Keyed t) :
    ((listed t).map fun row => row.story.id).Nodup := (listed_ids_sublist h).nodup h.stories

theorem length_listed {t : StoryTables} (h : Keyed t) : (listed t).length≤t.stories.length := by
  have hle := (listed_ids_sublist h).length_le
  rwa [List.length_map,List.length_map] at hle

end Librairii.StoryRows
