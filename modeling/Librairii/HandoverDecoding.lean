import Librairii.NavigationHistory
import Librairii.ProfileStore
import Librairii.SortedMaps

/-!
# Decoding a preference transfer

A preference transfer lists legacy frames by their hashes. The history is rebuilt by pushing one
frame after the other and stepping back to the position. What is decoded belongs to the library
and can be stored.
-/

namespace Librairii.HandoverDecoding

open CheckedResults SortedMaps QueryRequests NavigationCodec NavigationHistory ProfileStore
open SavedQuery (I64)

/-- A transfer is refused. -/
inductive InvalidHandover where
  | refused
  deriving DecidableEq

/-- A frame of the legacy history. -/
structure LegacyFrame where
  hash : String
  kind : String
  /-- The identity of a collection or shelf. -/
  id : Option I64
  manualOrder : Option Bool

/-- A transfer document. -/
structure Document where
  format : String
  version : ℕ
  libraryId : String
  legacyBrokenTagId : I64
  /-- How stories are shown. -/
  presentation : Presentation
  dismissedOperations : List String
  syncPanelHidden : Bool
  /-- The history. -/
  frames : List LegacyFrame
  position : ℕ

/-- The parsers a transfer relies on. -/
structure HandoverEnv where
  parseDocument : List UInt8 → Option Document
  decodeHash : String → I64 → Option QueryRequest
  /-- Read a job identity, as its own text. -/
  parseJobId : String → Option String

/-- The largest identity of the legacy application. -/
def maxSafeId : ℤ := 9007199254740991

def legacyScope (frame : LegacyFrame) : Except InvalidHandover Scope :=
  let id := frame.id.filter fun id => 0 < id.val ∧ id.val ≤ maxSafeId
  if id≠frame.id then .error .refused
  else
    match id,frame.manualOrder with
    | none,none =>
      if frame.kind="library" then .ok .library
      else if frame.kind="custom" then .ok .custom
      else .error .refused
    | some id,none =>
      if frame.kind="collection" then
        ((newGroupId id).map .collection).mapError fun _ => .refused
      else .error .refused
    | some id,some manualOrder =>
      if frame.kind="shelf" then
        ((newGroupId id).map fun id => .shelf id manualOrder).mapError fun _ => .refused
      else .error .refused
    | none,some _ => .error .refused

section Decoding

variable (nenv : NavigationEnv) (henv : HandoverEnv)

/-- The dismissed jobs, each once and in its own text. -/
def dismissedOf (seen : SortedMap String Unit) :
    List String → Except InvalidHandover (SortedMap String Unit)
  | [] => .ok seen
  | id::ids =>
    match henv.parseJobId id with
    | none => .error .refused
    | some text =>
      if text≠id ∨ (seen.get id).isSome then .error .refused
      else dismissedOf (seen.insert id ()) ids

/-- Open the history with its first frame, or push a further one. -/
def addFrame (library : LibraryId) (generation fresh : ℕ) (legacyId : I64)
    (navigation : Option Navigation) (frame : LegacyFrame) :
    Except InvalidHandover (Option Navigation) := do
  let scope ← legacyScope frame
  match henv.decodeHash frame.hash legacyId with
  | none => .error .refused
  | some request =>
    let location : Location := ⟨scope,request⟩
    match navigation with
    | none =>
      ((newNavigation nenv library generation location fresh).map some).mapError fun _ => .refused
    | some navigation =>
      ((push nenv navigation ⟨location,[]⟩ fresh).map some).mapError fun _ => .refused

def stepBack (fresh : ℕ) : ℕ → Navigation → Except InvalidHandover Navigation
  | 0,navigation => .ok navigation
  | n+1,navigation => do
    let (_,navigation) ← (back navigation fresh).mapError fun _ => .refused
    stepBack fresh n navigation

def decode (bytes : List UInt8) (library : LibraryId) (generation fresh : ℕ) :
    Except InvalidHandover HandoverPreferences :=
  if maxStateBytes<bytes.length then .error .refused
  else
    match henv.parseDocument bytes with
    | none => .error .refused
    | some document =>
      if document.format≠"librairii.preference-handover" ∨ document.version≠1 ∨
          document.libraryId≠library.text ∨
          ¬(0≤document.legacyBrokenTagId.val ∧ document.legacyBrokenTagId.val ≤ maxSafeId) ∨
          document.frames=[] ∨ maxHistory<document.frames.length ∨
          document.frames.length≤document.position ∨
          4096<document.dismissedOperations.length then .error .refused
      else do
        let dismissed ← dismissedOf henv .empty document.dismissedOperations
        let navigation ← document.frames.foldlM
          (addFrame nenv henv library generation fresh document.legacyBrokenTagId) none
        match navigation with
        | none => .error .refused
        | some navigation =>
          let navigation ← stepBack fresh (document.frames.length-(document.position+1)) navigation
          let navigation := setPresentation navigation document.presentation
          match encode nenv navigation with
          | .error _ => .error .refused
          | .ok _ =>
            .ok ⟨navigation,dismissed.entries.map Prod.fst,document.syncPanelHidden⟩

variable {nenv henv}

theorem addFrame_library {library : LibraryId} {generation fresh : ℕ} {legacyId : I64}
    {frame : LegacyFrame} {navigation result : Option Navigation}
    (hnav : ∀ n, navigation=some n → n.library=library)
    (h : addFrame nenv henv library generation fresh legacyId navigation frame=.ok result) :
    ∀ n, result=some n → n.library=library := by
  obtain ⟨scope,_,h⟩ := exceptBind_ok.mp h
  cases hhash : henv.decodeHash frame.hash legacyId with
  | none => simp [hhash] at h
  | some request =>
    simp only [hhash] at h
    cases navigation with
    | none =>
      obtain ⟨opened,hopened,he⟩ := exceptMap_ok.mp (mapError_ok.mp h)
      intro n hn
      rw [←he] at hn
      cases hn
      rw [newNavigation] at hopened
      obtain ⟨-,hopened⟩ := checked_ok.mp hopened
      obtain ⟨_,_,hopened⟩ := exceptBind_ok.mp hopened
      cases hopened
      rfl
    | some navigation =>
      obtain ⟨pushed,hpushed,he⟩ := exceptMap_ok.mp (mapError_ok.mp h)
      intro n hn
      rw [←he] at hn
      cases hn
      rw [push] at hpushed
      obtain ⟨_,_,hpushed⟩ := exceptBind_ok.mp hpushed
      obtain ⟨_,_,hpushed⟩ := exceptBind_ok.mp hpushed
      cases hpushed
      exact hnav navigation rfl

theorem stepBack_library {fresh : ℕ} (n : ℕ) {navigation result : Navigation}
    (h : stepBack fresh n navigation=.ok result) : result.library=navigation.library := by
  induction n generalizing navigation with
  | zero =>
    cases h
    rfl
  | succ n ih =>
    rw [stepBack] at h
    obtain ⟨⟨moved,next⟩,hback,h⟩ := exceptBind_ok.mp h
    have hback := mapError_ok.mp hback
    rw [ih h]
    rw [back] at hback
    split at hback
    · cases hback
      rfl
    · obtain ⟨_,_,hback⟩ := exceptBind_ok.mp hback
      cases hback
      rfl

/-- What is decoded belongs to the library, can be stored, and lists dismissed jobs in order. -/
theorem decode_sound {bytes : List UInt8} {library : LibraryId} {generation fresh : ℕ}
    {imported : HandoverPreferences}
    (h : decode nenv henv bytes library generation fresh=.ok imported) :
    imported.navigation.library=library ∧ Persistable nenv imported.navigation ∧
      imported.dismissedOperations.Pairwise (·<·) := by
  rw [decode] at h
  obtain ⟨-,h⟩ := checked_ok.mp h
  split at h
  · cases h
  · split at h
    · cases h
    · rename_i document _ _
      obtain ⟨dismissed,_,h⟩ := exceptBind_ok.mp h
      obtain ⟨navigation,hfold,h⟩ := exceptBind_ok.mp h
      have hnone : ∀ n, (none : Option Navigation)=some n → n.library=library := by
        intro n hn
        cases hn
      have hlibrary : ∀ n, navigation=some n → n.library=library :=
        foldlM_keeps (P:=fun s => ∀ n, s=some n → n.library=library) hnone
          (fun _ _ _ _ hs hstep => addFrame_library hs hstep) hfold
      cases navigation with
      | none => cases h
      | some navigation =>
        obtain ⟨stepped,hstepped,h⟩ := exceptBind_ok.mp h
        simp only at h
        split at h
        · cases h
        · rename_i encoded hencode
          cases h
          refine ⟨?_,⟨encoded,hencode⟩,List.pairwise_map.mpr dismissed.ordered⟩
          exact (stepBack_library _ hstepped).trans (hlibrary navigation rfl)

end Decoding

end Librairii.HandoverDecoding
