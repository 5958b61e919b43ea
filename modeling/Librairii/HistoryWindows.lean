import Librairii.DescendingWindows
import Librairii.DisplayNames
import Librairii.OperationRows

/-!
# Windows of the operation history

The history is read in windows of twenty operations, the latest first. A window ends with the id
of its last operation when an older one remains, and the next window continues below that id. The
same windows are selected in memory from observed rows.
-/

namespace Librairii.HistoryWindows

open CheckedResults RowTables OperationRows DescendingWindows
open JsonText (bytes bytes_cons)

/-- The order of the history: the creation time, then the id. -/
abbrev CreationKey := String ×ₗ String

def creationKey (identity : StoredOperationIdentity) : CreationKey :=
  toLex (identity.createdAt,identity.id)

/-- The number of operations in a window. -/
def historyPageSize : ℕ := 20

/-- One operation more decides whether another window follows. -/
def historyLookahead : ℕ := historyPageSize+1

def boundedId (id : String) : Except StorageError String :=
  if 256 < id.utf8ByteSize then .error (.sqlite .failure) else .ok id

def keysOf (d : Database) : List CreationKey := d.operations.map fun row => creationKey row.identity

/-- Look the operation up that a window continues below. -/
def cursorOf (sizes : RowSizes) (d : Database) (before : String) :
    Except StorageError (Option CreationKey) :=
  if before="" then .ok none
  else do
    match ← header sizes d before with
    | none => .error (.operationInput .invalid)
    | some row => .ok (some (toLex (row.identity.createdAt,before)))

/-- `page_ids`: the ids of a window below an operation, or of the first window, and the id that the
next window continues below. -/
def pageIds (sizes : RowSizes) (d : Database) (before : String) :
    Except StorageError (List String×Option String) := do
  let cursor ← cursorOf sizes d before
  let selected := (descending (below cursor (keysOf d))).take historyLookahead
  let ids ← selected.mapM fun key => boundedId (ofLex key).2
  .ok (shown historyPageSize ids)

/-- Where an observed row comes from. -/
inductive ObservationKind where
  | storedSnapshot
  | provisionalPersistenceFailure
  deriving DecidableEq

/-- An observed operation with its payload. -/
structure OperationViewRow (α : Type) where
  identity : StoredOperationIdentity
  observation : ObservationKind
  payload : α

/-- The cursor of a window after its lookup. -/
inductive HistoryCursor where
  | start
  | found (key : HistoryKey)
  | missing

/-- The window below a missing operation is refused. -/
inductive HistoryError where
  | missingCursor

/-- The key that a window continues below. -/
def HistoryCursor.key : HistoryCursor → Except HistoryError (Option CreationKey)
  | .start => .ok none
  | .found key => .ok (some (toLex (key.createdAt,key.id)))
  | .missing => .error .missingCursor

/-- The cursor for an id, after its lookup in the table. -/
def lookedUp (d : Database) (before : String) : HistoryCursor :=
  if before="" then .start
  else match lookup (·.identity.id) before d.operations with
    | none => .missing
    | some row => .found row.identity.historyKey

/-- A window of observed rows. -/
structure HistoryWindow (α : Type) where
  operations : List (OperationViewRow α)
  nextBefore : Option String

variable {α : Type}

def OperationViewRow.key (row : OperationViewRow α) : CreationKey := creationKey row.identity

/-- Stored rows below the cursor are candidates for a window. -/
def candidate (before : Option CreationKey) (row : OperationViewRow α) : Bool :=
  row.observation=.storedSnapshot && before.all fun cursor => row.key<cursor

def historyWindow (rows : List (OperationViewRow α)) (cursor : HistoryCursor) :
    Except HistoryError (HistoryWindow α) := do
  let before ← cursor.key
  let selected := rows.foldl (fun selected row =>
    if candidate before row=true then keep OperationViewRow.key historyLookahead selected row
    else selected) []
  if historyPageSize<selected.length then
    let operations := selected.dropLast
    .ok ⟨operations,operations.getLast?.map (·.identity.id)⟩
  else .ok ⟨selected,none⟩

/-- What the table promises of its rows: distinct ids of 36 characters and readable texts. -/
structure Stored (sizes : RowSizes) (d : Database) : Prop where
  keys : (d.operations.map (·.identity.id)).Nodup
  frozen : ∀ row ∈ d.operations, row.identity.id.length=36
  readable : ∀ row ∈ d.operations, headerText sizes row ≤ maxRowText

/-- Later tables hold the operations of the first one and newer ones. -/
def Newer (first later : Database) : Prop :=
  ∃ added, (keysOf later).Perm (keysOf first++added) ∧ ∀ a ∈ added, ∀ b ∈ keysOf first, b<a

/-- Follow the windows from a cursor on, through the tables that the fetches find. -/
inductive Followed (sizes : RowSizes) (tables : ℕ → Database) :
    ℕ → String → List (List String) → Prop where
  | last {fetch : ℕ} {before : String} {ids : List String}
      (h : pageIds sizes (tables fetch) before=.ok (ids,none)) :
      Followed sizes tables fetch before [ids]
  | next {fetch : ℕ} {before next : String} {ids : List String} {rest : List (List String)}
      (h : pageIds sizes (tables fetch) before=.ok (ids,some next))
      (hrest : Followed sizes tables (fetch+1) next rest) :
      Followed sizes tables fetch before (ids::rest)

variable {sizes : RowSizes} {d : Database} {before : String}

def idsOf (keys : List CreationKey) : List String := keys.map fun key => (ofLex key).2

theorem Stored.keysOf (h : Stored sizes d) : (keysOf d).Nodup := by
  have hids : idsOf (HistoryWindows.keysOf d)=d.operations.map (·.identity.id) := by
    rw [idsOf,HistoryWindows.keysOf,List.map_map]
    rfl
  exact List.Nodup.of_map _ (hids ▸ h.keys)

theorem Stored.header (h : Stored sizes d) (id : String) :
    header sizes d id=.ok (lookup (·.identity.id) id d.operations) := by
  have hkeys := h.keys
  have hreadable := h.readable
  have hbudget : budget ((d.operations.filter fun row => row.identity.id=id).map
      (headerText sizes)) maxRowText=.ok () := by
    generalize d.operations=rows at hkeys hreadable
    cases hrows : rows.filter fun row => row.identity.id=id with
    | nil => rfl
    | cons row more =>
      have hmem : ∀ other ∈ row::more, other ∈ rows ∧ other.identity.id=id := fun other ho => by
        simpa using (hrows ▸ ho : other ∈ rows.filter fun row => row.identity.id=id)
      have hnodup : ((row::more).map (·.identity.id)).Nodup :=
        hrows ▸ hkeys.sublist (List.filter_sublist.map _)
      cases more with
      | nil =>
        have hread := hreadable row (hmem row List.mem_cons_self).1
        simp [budget,hread]
      | cons other more =>
        have hsame : row.identity.id=other.identity.id := (hmem row List.mem_cons_self).2.trans
          (hmem other (List.mem_cons_of_mem _ List.mem_cons_self)).2.symm
        simp [hsame] at hnodup
  rw [OperationRows.header,hbudget]
  rfl

theorem Stored.bounded (h : Stored sizes d) {keys : List CreationKey}
    (hkeys : ∀ key ∈ keys, key ∈ HistoryWindows.keysOf d) :
    keys.mapM (fun key => boundedId (ofLex key).2)=.ok (idsOf keys) := by
  refine mapM_ok fun key hk => ?_
  obtain ⟨row,hrow,rfl⟩ := List.mem_map.mp (hkeys key hk)
  have hlength := h.frozen row hrow
  have hsize : row.identity.id.utf8ByteSize ≤ 4*36 := by
    rw [DisplayNames.utf8ByteSize_eq,←hlength,←String.length_toList]
    generalize row.identity.id.toList=text
    induction text with
    | nil => rfl
    | cons c text ih =>
      have hwidth := c.utf8Size_le_four
      rw [bytes_cons,List.length_append,String.length_utf8EncodeChar,List.length_cons]
      omega
  have hfits : ¬256 < row.identity.id.utf8ByteSize := by omega
  exact if_neg hfits

theorem shown_map (size : ℕ) (keys : List CreationKey) : shown size (idsOf keys)=
    (idsOf (shown size keys).1,(shown size keys).2.map fun key => (ofLex key).2) := by
  unfold shown idsOf
  rw [List.length_map]
  split_ifs
  · rw [←List.map_take,List.getLast?_map]
  · rfl

theorem cursorOf_ok (h : Stored sizes d) {cursor : Option CreationKey} :
    cursorOf sizes d before=.ok cursor ↔ (lookedUp d before).key=.ok cursor := by
  unfold cursorOf lookedUp
  split_ifs
  · exact ⟨fun he => by cases he; rfl,fun he => by cases he; rfl⟩
  · rw [h.header]
    cases hrow : lookup (·.identity.id) before d.operations with
    | none => exact ⟨fun he => (nomatch he),fun he => (nomatch he)⟩
    | some row =>
      obtain ⟨-,rfl⟩ := lookup_mem hrow
      exact ⟨fun he => by cases he; rfl,fun he => by cases he; rfl⟩

/-- A window of the table is the window of its keys. -/
theorem pageIds_page (h : Stored sizes d) {cursor : Option CreationKey}
    (hcursor : cursorOf sizes d before=.ok cursor) :
    pageIds sizes d before=.ok (idsOf (page historyPageSize cursor (keysOf d)).1,
      (page historyPageSize cursor (keysOf d)).2.map fun key => (ofLex key).2) := by
  have hkeys : ∀ key ∈ (descending (below cursor (keysOf d))).take historyLookahead,
      key ∈ keysOf d := fun key hk =>
    (List.mem_filter.mp ((descending_perm _).mem_iff.mp (List.mem_of_mem_take hk))).1
  unfold pageIds
  rw [bind_of_ok hcursor,bind_of_ok (h.bounded hkeys),shown_map]
  rfl

theorem cursorOf_key (h : Stored sizes d) {key : CreationKey} (hkey : key ∈ keysOf d) :
    cursorOf sizes d (ofLex key).2=.ok (some key) := by
  obtain ⟨row,hrow,rfl⟩ := List.mem_map.mp hkey
  have hne : ¬row.identity.id="" := fun he => by
    have hlength := h.frozen row hrow
    rw [he] at hlength
    cases hlength
  have hfound : lookup (·.identity.id) row.identity.id d.operations=some row :=
    lookup_of_mem h.keys hrow
  have hid : (ofLex (creationKey row.identity)).2=row.identity.id := rfl
  rw [cursorOf_ok h,hid,lookedUp,if_neg hne,hfound]
  rfl

variable {tables : ℕ → Database}

/-- The windows from a position on hold the ids behind it. -/
theorem followed_from (hstored : ∀ fetch, Stored sizes (tables fetch))
    (hnewer : ∀ fetch, Newer (tables 0) (tables fetch)) {fetch count : ℕ}
    (hcount : count ≤ (descending (keysOf (tables 0))).length) (hfetch : count=0 → fetch=0)
    (hcursor : cursorOf sizes (tables fetch) before=
      .ok (cursorAt (descending (keysOf (tables 0))) count)) :
    ∃ windows, Followed sizes tables fetch before windows ∧
      windows.flatten=idsOf ((descending (keysOf (tables 0))).drop count) ∧
      (∀ window ∈ windows, window.length ≤ historyPageSize) ∧
      ∀ other, Followed sizes tables fetch before other → other=windows := by
  have hperm := descending_perm (keysOf (tables 0))
  have hs := descending_strict (hstored 0).keysOf
  have hsize : historyPageSize=20 := rfl
  generalize descending (keysOf (tables 0))=sorted at *
  induction hleft : sorted.length-count using Nat.strong_induction_on
    generalizing fetch count before with
  | _ left ih =>
    obtain ⟨added,hadded,habove⟩ := hnewer fetch
    have hfirst : count=0 → added=[] := by
      intro hzero
      rw [hfetch hzero] at hadded
      have hlength := hadded.length_eq
      rw [List.length_append] at hlength
      exact List.eq_nil_of_length_eq_zero (by omega)
    have hsize : 0<historyPageSize := by decide
    have hpage := page_at hsize hs
      (hadded.trans (hperm.symm.append_right added))
      (fun a ha b hb => habove a ha b (hperm.mem_iff.mp hb)) hcount hfirst
    have hids := pageIds_page (hstored fetch) hcursor
    rw [hpage] at hids
    have hsplit := (List.take_append_drop historyPageSize (sorted.drop count)).symm
    rw [List.drop_drop] at hsplit
    have hbound : (idsOf ((sorted.drop count).take historyPageSize)).length ≤
        historyPageSize := by
      rw [idsOf,List.length_map]
      exact List.length_take_le _ _
    by_cases hmore : count+historyPageSize<sorted.length
    · have hkey : cursorAt sorted (count+historyPageSize)≠none := by
        intro hnone
        have hlength := congrArg List.length (List.getLast?_eq_none_iff.mp hnone)
        rw [List.length_take,List.length_nil] at hlength
        omega
      obtain ⟨key,hkey⟩ := Option.ne_none_iff_exists'.mp hkey
      have hlisted : key ∈ keysOf (tables 0) :=
        hperm.mem_iff.mp (List.mem_of_mem_take (List.mem_of_getLast? hkey))
      obtain ⟨later,hlater,-⟩ := hnewer (fetch+1)
      have hnext := cursorOf_key (hstored (fetch+1))
        (hlater.mem_iff.mpr (List.mem_append_left _ hlisted))
      rw [←hkey] at hnext
      dsimp only at hids
      rw [if_pos hmore,hkey] at hids
      obtain ⟨windows,hfollowed,hflat,hsizes,hunique⟩ :=
        ih (sorted.length-(count+historyPageSize)) (by omega) (fun h => by omega) hmore.le
          hnext rfl
      refine ⟨_,.next hids hfollowed,?_,?_,?_⟩
      · rw [List.flatten_cons,hflat]
        exact List.map_append.symm.trans (congrArg idsOf hsplit.symm)
      · intro window hw
        rcases List.mem_cons.mp hw with rfl | hw
        · exact hbound
        · exact hsizes window hw
      · intro other hother
        cases hother with
        | last hlast => cases hids.symm.trans hlast
        | next hfetched hrest =>
          cases hids.symm.trans hfetched
          rw [hunique _ hrest]
    · dsimp only at hids
      rw [if_neg hmore] at hids
      refine ⟨_,.last hids,?_,?_,?_⟩
      · rw [List.flatten_singleton,List.take_of_length_le (by rw [List.length_drop]; omega)]
      · intro window hw
        rw [List.mem_singleton.mp hw]
        exact hbound
      · intro other hother
        cases hother with
        | last hlast =>
          cases hids.symm.trans hlast
          rfl
        | next hfetched hrest => cases hids.symm.trans hfetched

theorem historyWindow_page {rows : List (OperationViewRow α)} {keys : List CreationKey}
    (hn : keys.Nodup) (hrows : ((rows.filter (·.observation=.storedSnapshot)).map
      OperationViewRow.key).Perm keys) {observed : HistoryCursor} {cursor : Option CreationKey}
    (hcursor : observed.key=.ok cursor) : ∃ window, historyWindow rows observed=.ok window ∧
      window.operations.map OperationViewRow.key=(page historyPageSize cursor keys).1 ∧
      window.nextBefore=(page historyPageSize cursor keys).2.map fun key => (ofLex key).2 := by
  have hbelow : ((rows.filter (candidate cursor)).map OperationViewRow.key).Perm
      (below cursor keys) := by
    have hfilter : rows.filter (candidate cursor)=
        (rows.filter (·.observation=.storedSnapshot)).filter
          ((fun key => cursor.all fun cursor => key<cursor) ∘ OperationViewRow.key) := by
      rw [List.filter_filter]
      exact List.filter_congr fun row _ => Bool.and_comm _ _
    rw [hfilter,←List.filter_map]
    exact hrows.filter _
  have hdistinct : ((rows.filter (candidate cursor)).map OperationViewRow.key).Nodup :=
    hbelow.nodup_iff.mpr (hn.filter _)
  have hkept := foldl_keep OperationViewRow.key historyLookahead hdistinct
  have hdescending : descending ((rows.filter (candidate cursor)).map OperationViewRow.key)=
      descending (below cursor keys) := descending_unique (List.pairwise_insertionSort _ _)
        ((descending_perm _).trans hbelow.symm)
  rw [List.foldl_filter,hdescending] at hkept
  unfold historyWindow
  rw [bind_of_ok hcursor,page,shown_take]
  dsimp only
  generalize List.foldl _ _ rows=selected at hkept
  generalize descending (below cursor keys)=sorted at hkept
  have hlength := congrArg List.length hkept
  rw [List.length_map,List.length_take] at hlength
  have hsize : historyLookahead=historyPageSize+1 := rfl
  by_cases hmore : historyPageSize<selected.length
  · have hdrop : selected.dropLast.map OperationViewRow.key=sorted.take historyPageSize := by
      rw [List.map_dropLast,hkept,List.dropLast_eq_take,List.take_take,List.length_take]
      congr 1
      omega
    have hlast := congrArg List.getLast? hdrop
    rw [List.getLast?_map] at hlast
    rw [if_pos hmore,if_pos (by omega)]
    refine ⟨_,rfl,hdrop,?_⟩
    rw [←hlast,Option.map_map]
    rfl
  · rw [if_neg hmore,if_neg (by omega)]
    refine ⟨_,rfl,?_,rfl⟩
    rw [hkept,List.take_of_length_le (by omega),List.take_of_length_le (by omega)]

theorem windows_agree (h : Stored sizes d) {rows : List (OperationViewRow α)}
    (hrows : ((rows.filter (·.observation=.storedSnapshot)).map OperationViewRow.key).Perm
      (keysOf d)) (before : String) (ids : List String) (next : Option String) :
    pageIds sizes d before=.ok (ids,next) ↔ ∃ window,
      historyWindow rows (lookedUp d before)=.ok window ∧
      window.operations.map (·.identity.id)=ids ∧ window.nextBefore=next := by
  cases hcursor : (lookedUp d before).key with
  | error e =>
    have hrefused : ∀ cursor, cursorOf sizes d before≠.ok cursor := fun cursor he =>
      nomatch hcursor.symm.trans ((cursorOf_ok h).mp he)
    constructor
    · intro hids
      obtain ⟨cursor,hread,-⟩ := exceptBind_ok.mp hids
      exact absurd hread (hrefused cursor)
    · rintro ⟨window,hwindow,-⟩
      rw [historyWindow,hcursor] at hwindow
      cases hwindow
  | ok cursor =>
    obtain ⟨window,hwindow,hkeys,hnext⟩ := historyWindow_page h.keysOf hrows hcursor
    have hids : window.operations.map (·.identity.id)=
        idsOf (page historyPageSize cursor (keysOf d)).1 := by
      rw [←hkeys,idsOf,List.map_map]
      rfl
    rw [pageIds_page h ((cursorOf_ok h).mpr hcursor),←hids,←hnext]
    constructor
    · intro he
      cases he
      exact ⟨window,hwindow,rfl,rfl⟩
    · rintro ⟨other,hother,rfl,rfl⟩
      cases hwindow.symm.trans hother
      rfl

/-- Another window follows exactly when a stored operation remains below the window. -/
theorem next_iff (h : Stored sizes d) {ids : List String} {next : Option String}
    (hids : pageIds sizes d before=.ok (ids,next)) : next.isSome=true ↔ ∃ row ∈ d.operations,
      (∀ last ∈ d.operations, last.identity.id=before →
        creationKey row.identity<creationKey last.identity) ∧
      ∀ other ∈ d.operations, other.identity.id ∈ ids →
        creationKey row.identity<creationKey other.identity := by
  obtain ⟨cursor,hread,-⟩ := exceptBind_ok.mp hids
  cases hids.symm.trans (pageIds_page h hread)
  have hsame : ∀ row ∈ d.operations, ∀ other ∈ d.operations, row.identity.id=other.identity.id →
      row=other := fun row hr other ho => List.inj_on_of_nodup_map h.keys hr ho
  have hbelow : ∀ key, (cursor.all fun cursor => key<cursor)=true ↔ ∀ last ∈ d.operations,
      last.identity.id=before → key<creationKey last.identity := by
    intro key
    have hcursor := (cursorOf_ok h).mp hread
    unfold lookedUp at hcursor
    by_cases hempty : before=""
    · rw [if_pos hempty] at hcursor
      cases hcursor
      refine iff_of_true rfl fun last hl he => ?_
      have hlength := h.frozen last hl
      rw [he,hempty] at hlength
      cases hlength
    · rw [if_neg hempty] at hcursor
      cases hrow : lookup (·.identity.id) before d.operations with
      | none => rw [hrow] at hcursor; cases hcursor
      | some row =>
        rw [hrow] at hcursor
        cases hcursor
        obtain ⟨hmem,hid⟩ := lookup_mem hrow
        refine ⟨fun hk last hl he => ?_,fun hk => decide_eq_true (hk row hmem hid)⟩
        rw [hsame last hl row hmem (he.trans hid.symm)]
        exact of_decide_eq_true hk
  have hlisted : ∀ key ∈ (page historyPageSize cursor (keysOf d)).1, key ∈ keysOf d := by
    intro key hk
    rw [page,shown_take] at hk
    exact (List.mem_filter.mp ((descending_perm _).mem_iff.mp (List.mem_of_mem_take hk))).1
  have hshown : ∀ other ∈ d.operations,
      other.identity.id ∈ idsOf (page historyPageSize cursor (keysOf d)).1 ↔
        creationKey other.identity ∈ (page historyPageSize cursor (keysOf d)).1 := by
    intro other ho
    refine ⟨fun hid => ?_,fun hk => List.mem_map_of_mem hk⟩
    obtain ⟨key,hkey,hid⟩ := List.mem_map.mp hid
    obtain ⟨row,hrow,rfl⟩ := List.mem_map.mp (hlisted key hkey)
    rwa [hsame other ho row hrow hid.symm]
  have hall : ∀ key, (∀ other ∈ (page historyPageSize cursor (keysOf d)).1, key<other) ↔
      ∀ other ∈ d.operations, other.identity.id ∈
        idsOf (page historyPageSize cursor (keysOf d)).1 → key<creationKey other.identity := by
    refine fun key => ⟨fun hk other ho hid => hk _ ((hshown other ho).mp hid),fun hk other ho => ?_⟩
    obtain ⟨row,hrow,rfl⟩ := List.mem_map.mp (hlisted other ho)
    exact hk row hrow ((hshown row hrow).mpr ho)
  rw [Option.isSome_map,page_next_iff (by decide) h.keysOf]
  constructor
  · rintro ⟨key,hkey,hless⟩
    obtain ⟨hstored,hcursor⟩ := List.mem_filter.mp hkey
    obtain ⟨row,hrow,rfl⟩ := List.mem_map.mp hstored
    exact ⟨row,hrow,(hbelow _).mp hcursor,(hall _).mp hless⟩
  · rintro ⟨row,hrow,hlast,hless⟩
    have hstored : creationKey row.identity ∈ keysOf d := List.mem_map_of_mem hrow
    exact ⟨_,List.mem_filter.mpr ⟨hstored,(hbelow _).mpr hlast⟩,(hall _).mpr hless⟩

section Example

def queued (createdAt id : String) : OperationHeader where
  identity := ⟨id,createdAt,none,none⟩
  kind := .import
  state := .queued
  exportScope := ⟨none,none,none⟩
  destination := none
  counts := ⟨0,1⟩
  totalBytes := 0
  cancelRequested := false
  outcome := ⟨none,none⟩

/-- One operation at the first fetch, and a newer one at the later ones. -/
def growing (fetch : ℕ) : Database where
  operations := queued "2026-01-01T00:00:00Z" "10000000-0000-4000-8000-000000000001"::
    if fetch=0 then [] else [queued "2026-01-02T00:00:00Z" "20000000-0000-4000-8000-000000000002"]
  items := []

end Example

end Librairii.HistoryWindows
