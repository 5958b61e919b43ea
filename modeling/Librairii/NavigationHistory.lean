import Librairii.NavigationRoundTrip

/-!
# Histories of a navigation state

A state is opened new or from stored bytes and then changed by calls. A new
state, a pushed or replaced frame and a selection are encoded before they are
committed. A presentation, a step back and a step forward are committed
unchecked, and stored bytes are accepted without being written again. Every
state of a history can be encoded exactly when the text of the state has room
for what the unchecked calls add to it.
-/

namespace Librairii.NavigationHistory

open CheckedResults JsonText JsonValues WireParser SavedQuery SavedQueryRoundTrip QueryRequests
open SavedQueryCodec hiding encode decode
open NavigationCodec NavigationRoundTrip

/-- What identifies a query position of a navigation state. -/
structure QueryStamp where
  library : LibraryId
  generation : ℕ
  revision : ℕ
  identity : ℕ

def stamp (nav : Navigation) : QueryStamp :=
  ⟨nav.library,nav.generation,nav.revision,nav.identity⟩

def accepts (nav : Navigation) (s : QueryStamp) : Bool :=
  nav.library.bytes=s.library.bytes && nav.generation=s.generation && nav.revision=s.revision &&
    nav.identity=s.identity

/-- A call on a navigation state; a fresh identity stamps it. -/
inductive Call where
  | setPresentation (mode : Presentation)
  | push (frame : Frame) (fresh : ℕ)
  | replace (frame : Frame) (fresh : ℕ)
  | select (selection : List I64)
  | back (fresh : ℕ)
  | forward (fresh : ℕ)

/-- How a navigation state is opened. -/
inductive Opening where
  | new (library : LibraryId) (generation : ℕ) (location : Location) (fresh : ℕ)
  | decode (bytes : List UInt8) (expected : LibraryId) (generation fresh : ℕ)

def nextRevision (revision : ℕ) : Except InvalidNavigation ℕ :=
  if revision+1<2^64 then .ok (revision+1) else .error .refused

/-- Change how stories are shown. -/
def setPresentation (nav : Navigation) (mode : Presentation) : Navigation :=
  { nav with presentation := mode }

/-- Move back; at the first frame nothing changes. -/
def back (nav : Navigation) (fresh : ℕ) : Except InvalidNavigation (Bool×Navigation) :=
  if nav.position=0 then .ok (false,nav)
  else do
    let revision ← nextRevision nav.revision
    .ok (true,{ nav with position := nav.position-1, revision := revision, identity := fresh })

/-- Move forward; at the last frame nothing changes. -/
def forward (nav : Navigation) (fresh : ℕ) : Except InvalidNavigation (Bool×Navigation) :=
  if nav.position+1=nav.frames.length then .ok (false,nav)
  else do
    let revision ← nextRevision nav.revision
    .ok (true,{ nav with position := nav.position+1, revision := revision, identity := fresh })

/-- The frames after a push: those after the position are dropped, and the first when
there are too many. -/
def pushedFrames (nav : Navigation) (frame : Frame) : List Frame :=
  let frames := nav.frames.take (nav.position+1)++[frame]
  if maxHistory<frames.length then frames.tail else frames

section Calls

variable (env : NavigationEnv)

/-- Open a state with one frame. -/
def newNavigation (library : LibraryId) (generation : ℕ) (location : Location) (fresh : ℕ) :
    Except InvalidNavigation Navigation :=
  if generation=0 then .error .refused
  else do
    let nav : Navigation := ⟨library,generation,1,fresh,[⟨location,[]⟩],0,.list⟩
    let _ ← encode env nav
    .ok nav

/-- Add a frame after the current one. -/
def push (nav : Navigation) (frame : Frame) (fresh : ℕ) : Except InvalidNavigation Navigation := do
  let frames := pushedFrames nav frame
  let revision ← nextRevision nav.revision
  let next := { nav with
    frames := frames, position := frames.length-1, revision := revision, identity := fresh }
  let _ ← encode env next
  .ok next

def replace (nav : Navigation) (frame : Frame) (fresh : ℕ) :
    Except InvalidNavigation Navigation := do
  let revision ← nextRevision nav.revision
  let next := { nav with
    frames := nav.frames.set nav.position frame, revision := revision, identity := fresh }
  let _ ← encode env next
  .ok next

def select (nav : Navigation) (selection : List I64) : Except InvalidNavigation Navigation := do
  let next := { nav with
    frames := nav.frames.modify nav.position fun frame => { frame with selection := selection } }
  let _ ← encode env next
  .ok next

/-- The state a call asks for. -/
def attempt (nav : Navigation) : Call → Except InvalidNavigation Navigation
  | .setPresentation mode => .ok (setPresentation nav mode)
  | .push frame fresh => push env nav frame fresh
  | .replace frame fresh => replace env nav frame fresh
  | .select selection => select env nav selection
  | .back fresh => (back nav fresh).map Prod.snd
  | .forward fresh => (forward nav fresh).map Prod.snd

/-- The state after a call; a refused call leaves it. -/
def step (nav : Navigation) (call : Call) : Navigation :=
  match attempt env nav call with
  | .ok next => next
  | .error _ => nav

/-- The state after calls. -/
def run (nav : Navigation) (calls : List Call) : Navigation := calls.foldl (step env) nav

def openNavigation : Opening → Except InvalidNavigation Navigation
  | .new library generation location fresh => newNavigation env library generation location fresh
  | .decode bytes expected generation fresh => decode env bytes expected generation fresh

/-- A state can be encoded. -/
def Persistable (nav : Navigation) : Prop := ∃ bytes, encode env nav=.ok bytes

/-- The number of bytes of a value's text. -/
def size (value : Json) : ℕ := ((valueBytes env value).getD []).length

/-- The number of bytes of a state's text. -/
def stateSize (nav : Navigation) : ℕ := size env (stateJson (storedState nav))

/-- There is room for what a call adds to the text without checking: the longer name of
a presentation, or the second digit of the position. -/
def Roomy (nav : Navigation) : Call → Prop
  | .setPresentation mode => stateSize env nav+size env (.string mode.text)≤
      maxStateBytes+size env (.string nav.presentation.text)
  | .forward _ => nav.position=9 → nav.position+1<nav.frames.length → nav.revision+1<2^64 →
      stateSize env nav+1 ≤ maxStateBytes
  | _ => True

def RoomyRun : Navigation → List Call → Prop
  | _,[] => True
  | nav,call::calls => Roomy env nav call ∧ RoomyRun (step env nav call) calls

/-- A stored frame whose request is written as it is restored. -/
def rewrittenFrame (frame : WireFrame) : WireFrame :=
  match (valueBytes env frame.request).map (restoreRequest env) with
  | some (.ok request) => { frame with request := .object (requestMembers request) }
  | _ => frame

/-- There is room for writing again what opens a state: every stored request as it is
restored, and with these the state. -/
def RoomyOpening : Opening → Prop
  | .new _ _ _ _ => True
  | .decode bytes _ _ _ => ∀ wire, env.readState bytes=some wire →
      (∀ frame ∈ wire.frames, size env (rewrittenFrame env frame).request ≤ maxBytes) ∧
      size env (stateJson { wire with frames := wire.frames.map (rewrittenFrame env) })≤
        maxStateBytes

end Calls

section Documented

variable {env : NavigationEnv}

/-- Sizes are those of the texts of one escaping. -/
theorem size_documented (hd : DocumentedNavigation env) :
    ∃ escape, ∀ value, valueBytes env value=some (bytes (write escape value)) ∧
      size env value=textSize escape value := by
  obtain ⟨escape,-,hs⟩ := hd.codec.serializes
  refine ⟨escape,fun value => ?_⟩
  have hbytes : valueBytes env value=some (bytes (write escape value)) := by
    rw [valueBytes,hs,Option.map_some,String.toList_ofList]
  rw [size,hbytes]
  exact ⟨rfl,rfl⟩

/-- A state can be encoded exactly when it is in bounds, its frames can be stored and
its text is within the bound. -/
theorem persistable_iff (hd : DocumentedNavigation env) {nav : Navigation} :
    Persistable env nav ↔ (nav.frames.length ≤ maxHistory ∧ nav.position<nav.frames.length) ∧
      (∀ frame ∈ nav.frames, Storable env frame) ∧ stateSize env nav ≤ maxStateBytes := by
  obtain ⟨escape,hsize⟩ := size_documented hd
  obtain ⟨hbytes,htext⟩ := hsize (stateJson (storedState nav))
  constructor
  · rintro ⟨bytes,h⟩
    obtain ⟨hbounds,hframes,hb,hlen⟩ := (encode_iff hd).mp h
    have hs : stateSize env nav=bytes.length := by
      rw [stateSize,size,hb]
      rfl
    exact ⟨hbounds,hframes,hs ▸ hlen⟩
  · rintro ⟨hbounds,hframes,hlen⟩
    rw [stateSize,htext] at hlen
    exact ⟨_,(encode_iff hd).mpr ⟨hbounds,hframes,hbytes,hlen⟩⟩

theorem stateSize_presentation (hd : DocumentedNavigation env) (nav : Navigation)
    (mode : Presentation) :
    stateSize env (setPresentation nav mode)+size env (.string nav.presentation.text)=
      stateSize env nav+size env (.string mode.text) := by
  obtain ⟨escape,hsize⟩ := size_documented hd
  simp only [stateSize,(hsize _).2]
  exact textSize_exchange [("version",_),("libraryId",_),("frames",_),("position",_)] []
    "presentation" (.string mode.text) (.string nav.presentation.text)

theorem stateSize_position (hd : DocumentedNavigation env) (nav : Navigation)
    (position revision fresh : ℕ) :
    stateSize env
        { nav with position := position, revision := revision, identity := fresh }+
        size env (.number nav.position)=
      stateSize env nav+size env (.number position) := by
  obtain ⟨escape,hsize⟩ := size_documented hd
  simp only [stateSize,(hsize _).2]
  exact textSize_exchange [("version",_),("libraryId",_),("frames",_)] [("presentation",_)]
    "position" (.number position) (.number nav.position)

theorem size_position (hd : DocumentedNavigation env) (position : ℕ) (h : position<99) :
    size env (.number (position+1 : ℕ))=
      size env (.number position)+if position=9 then 1 else 0 := by
  obtain ⟨escape,hsize⟩ := size_documented hd
  have hall : ∀ p<99, (bytes (decimal (p+1 : ℕ))).length=
      (bytes (decimal p)).length+if p=9 then 1 else 0 := by
    decide
  rw [(hsize _).2,(hsize _).2]
  exact hall position h

/-- A frame with a valid selection and a request that can be normalized can be stored
exactly when there is room for its request. -/
theorem storable_iff (hd : DocumentedNavigation env) {frame : Frame}
    (hv : validSelection [] frame.selection=true) {normal : QueryRequest}
    (hn : normalizeRequest env.toRuntimeEnv frame.location.request=.ok normal) :
    Storable env frame ↔ size env (storedFrame frame).request ≤ maxBytes := by
  obtain ⟨escape,hsize⟩ := size_documented hd
  obtain ⟨hbytes,htext⟩ := hsize (storedFrame frame).request
  rw [htext]
  constructor
  · rintro ⟨-,bytes,h⟩
    obtain ⟨hb,hlen,-⟩ := (requestBytes_iff hd).mp h
    change valueBytes env (storedFrame frame).request=_ at hb
    rw [hbytes] at hb
    cases hb
    exact hlen
  · intro hlen
    exact ⟨hv,_,(requestBytes_iff hd).mpr ⟨hbytes,hlen,normal,hn⟩⟩

theorem restoreRequest_normal {bytes : List UInt8} {request : QueryRequest}
    (h : restoreRequest env bytes=.ok request) :
    ∃ normal, normalizeRequest env.toRuntimeEnv request=.ok normal := by
  unfold restoreRequest at h
  obtain ⟨hlen,h⟩ := checked_ok.mp h
  obtain ⟨wire,-,h⟩ := exceptBind_ok.mp h
  obtain ⟨⟨r,left⟩,-,h⟩ := exceptBind_ok.mp h
  obtain ⟨normal,hnormal,h⟩ := exceptBind_ok.mp h
  cases h
  exact ⟨normal,mapError_ok.mp hnormal⟩

theorem scopeFields_scopeOf {kind : String} {id : Option I64} {manualOrder : Option Bool}
    {scope : Scope} (h : scopeOf kind id manualOrder=.ok scope) :
    scopeFields scope=(kind,id,manualOrder) := by
  have hgroup : ∀ {value : I64} {group : GroupId}, newGroupId value=.ok group →
      group.val=value := by
    intro value group hg
    unfold newGroupId at hg
    split at hg
    · cases hg
      rfl
    · cases hg
  unfold scopeOf at h
  cases id with
  | none =>
    cases manualOrder with
    | none =>
      dsimp only at h
      by_cases hl : kind="library"
      · rw [if_pos hl] at h
        cases h
        rw [hl]
        rfl
      · rw [if_neg hl] at h
        by_cases hc : kind="custom"
        · rw [if_pos hc] at h
          cases h
          rw [hc]
          rfl
        · rw [if_neg hc] at h
          cases h
    | some manualOrder => cases h
  | some id =>
    cases manualOrder with
    | none =>
      dsimp only at h
      by_cases hc : kind="collection"
      · rw [if_pos hc] at h
        obtain ⟨group,hg,rfl⟩ := exceptMap_ok.mp h
        rw [scopeFields,hgroup hg,hc]
      · rw [if_neg hc] at h
        cases h
    | some manualOrder =>
      dsimp only at h
      by_cases hs : kind="shelf"
      · rw [if_pos hs] at h
        obtain ⟨group,hg,rfl⟩ := exceptMap_ok.mp h
        rw [scopeFields,hgroup hg,hs]
      · rw [if_neg hs] at h
        cases h

/-- A restored frame has a valid selection, a request that can be normalized, and the
stored frame written again as its stored form. -/
theorem restoreFrame_ok {wire : WireFrame} {frame : Frame}
    (h : restoreFrame env wire=.ok frame) : validSelection [] frame.selection=true ∧
      (∃ normal, normalizeRequest env.toRuntimeEnv frame.location.request=.ok normal) ∧
      rewrittenFrame env wire=storedFrame frame := by
  unfold restoreFrame at h
  obtain ⟨hv,h⟩ := checked_ok.mp h
  obtain ⟨scope,hscope,h⟩ := exceptBind_ok.mp h
  cases hb : valueBytes env wire.request with
  | none =>
    rw [hb] at h
    cases h
  | some bytes =>
    rw [hb] at h
    dsimp only at h
    cases hr : restoreRequest env bytes with
    | error e =>
      rw [hr] at h
      cases h
    | ok request =>
      rw [hr] at h
      cases h
      refine ⟨eq_true_of_ne_false hv,restoreRequest_normal hr,?_⟩
      rw [rewrittenFrame,hb,Option.map_some,hr,storedFrame,scopeFields_scopeOf hscope]

theorem restoredFrames {wires : List WireFrame} {frames : List Frame}
    (h : List.Forall₂ (fun wire frame => restoreFrame env wire=.ok frame) wires frames) :
    frames.map storedFrame=wires.map (rewrittenFrame env) := by
  induction h with
  | nil => rfl
  | cons hframe _ ih => rw [List.map_cons,List.map_cons,ih,(restoreFrame_ok hframe).2.2]

/-- Decoded frames can all be stored exactly when there is room for every stored request
written again. -/
theorem storable_restored (hd : DocumentedNavigation env) {wires : List WireFrame}
    {frames : List Frame}
    (h : List.Forall₂ (fun wire frame => restoreFrame env wire=.ok frame) wires frames) :
    (∀ frame ∈ frames, Storable env frame) ↔
      ∀ wire ∈ wires, size env (rewrittenFrame env wire).request ≤ maxBytes := by
  induction h with
  | nil => exact iff_of_true (List.forall_mem_nil _) (List.forall_mem_nil _)
  | cons hframe _ ih =>
    obtain ⟨hv,⟨normal,hn⟩,hw⟩ := restoreFrame_ok hframe
    rw [List.forall_mem_cons,List.forall_mem_cons,ih,hw,storable_iff hd hv hn]

/-- A decoded state can be encoded exactly when there is room for writing it again. -/
theorem decode_persistable (hd : DocumentedNavigation env) {bytes : List UInt8}
    {expected : LibraryId} {generation fresh : ℕ} {nav : Navigation}
    (h : decode env bytes expected generation fresh=.ok nav) :
    Persistable env nav ↔ RoomyOpening env (.decode bytes expected generation fresh) := by
  unfold decode at h
  obtain ⟨hb,h⟩ := checked_ok.mp h
  cases hr : env.readState bytes with
  | none =>
    rw [hr] at h
    cases h
  | some wire =>
    rw [hr] at h
    dsimp only at h
    split at h
    · cases h
    · next hok =>
      obtain ⟨frames,hframes,h⟩ := exceptBind_ok.mp h
      cases h
      have hpairs := mapM_pairs hframes
      have hlen := hpairs.length_eq
      have hbounds : frames.length ≤ maxHistory ∧ wire.position<frames.length := by omega
      have hversion : wire.version=stateVersion := by
        by_contra hne
        exact hok (.inl hne)
      have hlibrary : wire.libraryId=expected.text := by
        by_contra hne
        exact hok (.inr (.inl hne))
      have hstate : storedState
          ⟨expected,generation,1,fresh,frames,wire.position,wire.presentation⟩=
          { wire with frames := wire.frames.map (rewrittenFrame env) } := by
        rw [storedState,restoredFrames hpairs,←hversion,←hlibrary]
      have hroom : RoomyOpening env (.decode bytes expected generation fresh) ↔
          (∀ frame ∈ wire.frames, size env (rewrittenFrame env frame).request ≤ maxBytes) ∧
          size env (stateJson { wire with frames := wire.frames.map (rewrittenFrame env) })≤
            maxStateBytes := by
        constructor
        · intro hall
          exact hall wire hr
        · intro hwire wire' hr'
          rw [hr] at hr'
          cases hr'
          exact hwire
      rw [persistable_iff hd,hroom,stateSize,hstate,storable_restored hd hpairs]
      exact and_iff_right hbounds

theorem openNavigation_persistable (hd : DocumentedNavigation env) {opening : Opening}
    {nav : Navigation} (h : openNavigation env opening=.ok nav) :
    Persistable env nav ↔ RoomyOpening env opening := by
  cases opening with
  | new library generation location fresh =>
    change newNavigation env library generation location fresh=_ at h
    unfold newNavigation at h
    obtain ⟨hg,h⟩ := checked_ok.mp h
    obtain ⟨bytes,hb,h⟩ := exceptBind_ok.mp h
    cases h
    exact iff_of_true ⟨bytes,hb⟩ trivial
  | decode bytes expected generation fresh => exact decode_persistable hd h

theorem persistable_commit {next m : Navigation}
    (h : (encode env next >>= fun _ => .ok next)=.ok m) : Persistable env m := by
  obtain ⟨bytes,hb,h⟩ := exceptBind_ok.mp h
  cases h
  exact ⟨bytes,hb⟩

/-- A checked call gives a state that can be encoded. -/
theorem attempt_persistable {nav next : Navigation} {call : Call}
    (hcall : (∃ frame fresh, call=.push frame fresh) ∨ (∃ frame fresh, call=.replace frame fresh) ∨
      ∃ selection, call=.select selection)
    (h : attempt env nav call=.ok next) : Persistable env next := by
  rcases hcall with ⟨frame,fresh,rfl⟩ | ⟨frame,fresh,rfl⟩ | ⟨selection,rfl⟩
  · obtain ⟨revision,-,h⟩ := exceptBind_ok.mp h
    exact persistable_commit h
  · obtain ⟨revision,-,h⟩ := exceptBind_ok.mp h
    exact persistable_commit h
  · exact persistable_commit h

theorem step_checked {nav : Navigation} {call : Call}
    (hcall : (∃ frame fresh, call=.push frame fresh) ∨ (∃ frame fresh, call=.replace frame fresh) ∨
      ∃ selection, call=.select selection)
    (h : Persistable env nav) : Persistable env (step env nav call) := by
  unfold step
  cases ha : attempt env nav call with
  | error e => exact h
  | ok next => exact attempt_persistable hcall ha

/-- A presentation keeps that a state can be encoded exactly when there is room for its
name. -/
theorem setPresentation_persistable (hd : DocumentedNavigation env) {nav : Navigation}
    (h : Persistable env nav) (mode : Presentation) :
    Persistable env (setPresentation nav mode) ↔ Roomy env nav (.setPresentation mode) := by
  have hsize := stateSize_presentation hd nav mode
  obtain ⟨hbounds,hframes,-⟩ := (persistable_iff hd).mp h
  constructor
  · intro hnext
    obtain ⟨-,-,hlen⟩ := (persistable_iff hd).mp hnext
    change _≤_
    omega
  · intro hroom
    change _≤_ at hroom
    exact (persistable_iff hd).mpr ⟨hbounds,hframes,by omega⟩

theorem back_persistable (hd : DocumentedNavigation env) {nav : Navigation}
    (h : Persistable env nav) (fresh : ℕ) : Persistable env (step env nav (.back fresh)) := by
  have hmax : maxHistory=100 := rfl
  unfold step
  cases ha : attempt env nav (.back fresh) with
  | error e => exact h
  | ok next =>
    obtain ⟨⟨moved,_⟩,hback,rfl⟩ := exceptMap_ok.mp ha
    unfold back at hback
    by_cases hz : nav.position=0
    · rw [if_pos hz] at hback
      cases hback
      exact h
    · rw [if_neg hz] at hback
      obtain ⟨revision,-,hback⟩ := exceptBind_ok.mp hback
      cases hback
      obtain ⟨⟨hhistory,hposition⟩,hframes,hlen⟩ := (persistable_iff hd).mp h
      have hsize := stateSize_position hd nav (nav.position-1) revision fresh
      have hdigits : size env (.number nav.position)=
          size env (.number (nav.position-1 : ℕ))+if nav.position-1=9 then 1 else 0 := by
        have hp : nav.position-1+1=nav.position := by omega
        have hgrow := size_position hd (nav.position-1) (by omega)
        rw [hp] at hgrow
        exact hgrow
      refine (persistable_iff hd).mpr ⟨⟨hhistory,?_⟩,hframes,?_⟩
      · change nav.position-1<nav.frames.length
        omega
      · dsimp only
        omega

/-- A step forward keeps that a state can be encoded exactly when there is room for a
second digit of the position. -/
theorem forward_persistable (hd : DocumentedNavigation env) {nav : Navigation}
    (h : Persistable env nav) (fresh : ℕ) :
    Persistable env (step env nav (.forward fresh)) ↔ Roomy env nav (.forward fresh) := by
  have hmax : maxHistory=100 := rfl
  obtain ⟨⟨hhistory,hposition⟩,hframes,hlen⟩ := (persistable_iff hd).mp h
  unfold step attempt forward
  dsimp only
  by_cases hlast : nav.position+1=nav.frames.length
  · rw [if_pos hlast]
    exact iff_of_true h fun _ hlt _ => absurd hlt (by omega)
  · rw [if_neg hlast]
    by_cases hrevision : nav.revision+1<2^64
    · have hnext : nextRevision nav.revision=.ok (nav.revision+1) := if_pos hrevision
      rw [bind_of_ok hnext]
      have hsize := stateSize_position hd nav (nav.position+1) (nav.revision+1) fresh
      have hdigits := size_position hd nav.position (by omega)
      change Persistable env
        { nav with position := nav.position+1, revision := nav.revision+1, identity := fresh } ↔ _
      rw [persistable_iff hd]
      constructor
      · rintro ⟨-,-,hnextlen⟩ hnine - -
        rw [if_pos hnine] at hdigits
        omega
      · intro hroom
        refine ⟨⟨hhistory,?_⟩,hframes,?_⟩
        · change nav.position+1<nav.frames.length
          omega
        · by_cases hnine : nav.position=9
          · have := hroom hnine (by omega) hrevision
            rw [if_pos hnine] at hdigits
            omega
          · rw [if_neg hnine] at hdigits
            omega
    · have hnext : nextRevision nav.revision=.error .refused := if_neg hrevision
      rw [hnext]
      exact iff_of_true h fun _ _ hlt => absurd hlt hrevision

/-- A call keeps that a state can be encoded exactly when there is room for it. -/
theorem step_persistable_iff (hd : DocumentedNavigation env) {nav : Navigation}
    (h : Persistable env nav) (call : Call) :
    Persistable env (step env nav call) ↔ Roomy env nav call := by
  cases call with
  | setPresentation mode => exact setPresentation_persistable hd h mode
  | push frame fresh => exact iff_of_true (step_checked (.inl ⟨_,_,rfl⟩) h) trivial
  | replace frame fresh => exact iff_of_true (step_checked (.inr (.inl ⟨_,_,rfl⟩)) h) trivial
  | select selection => exact iff_of_true (step_checked (.inr (.inr ⟨_,rfl⟩)) h) trivial
  | back fresh => exact iff_of_true (back_persistable hd h fresh) trivial
  | forward fresh => exact forward_persistable hd h fresh

/-- Every state of a run can be encoded exactly when the first can and there is room at
every call. -/
theorem run_persistable_iff (hd : DocumentedNavigation env) (calls : List Call) :
    ∀ nav : Navigation, (∀ taken, taken <+: calls → Persistable env (run env nav taken)) ↔
      Persistable env nav ∧ RoomyRun env nav calls := by
  induction calls with
  | nil =>
    intro nav
    constructor
    · intro hall
      exact ⟨hall [] (List.prefix_refl _),trivial⟩
    · rintro ⟨h,-⟩ taken htaken
      rw [List.prefix_nil.mp htaken]
      exact h
  | cons call calls ih =>
    intro nav
    constructor
    · intro hall
      have h := hall [] List.nil_prefix
      have hrest : ∀ taken, taken <+: calls → Persistable env (run env (step env nav call) taken) :=
        fun taken htaken => hall (call::taken) (List.cons_prefix_cons.mpr ⟨rfl,htaken⟩)
      obtain ⟨hstep,hroom⟩ := (ih _).mp hrest
      exact ⟨h,(step_persistable_iff hd h call).mp hstep,hroom⟩
    · rintro ⟨h,hroom,hrooms⟩ taken htaken
      have hstep := (step_persistable_iff hd h call).mpr hroom
      cases taken with
      | nil => exact h
      | cons first taken =>
        obtain ⟨rfl,hrest⟩ := List.cons_prefix_cons.mp htaken
        exact (ih _).mpr ⟨hstep,hrooms⟩ taken hrest

end Documented

theorem validSelection_iff (ids : List I64) : ∀ seen : List I64, validSelection seen ids=true ↔
    (∀ id ∈ ids, 0 < id.val ∧ id ∉ seen) ∧ ids.Nodup := by
  induction ids with
  | nil =>
    intro seen
    exact iff_of_true rfl ⟨List.forall_mem_nil _,List.nodup_nil⟩
  | cons id ids ih =>
    intro seen
    rw [validSelection,Bool.and_eq_true,Bool.and_eq_true,decide_eq_true_iff,decide_eq_true_iff,
      ih,List.forall_mem_cons,List.nodup_cons]
    constructor
    · rintro ⟨hid,hall,hnodup⟩
      refine ⟨⟨hid,fun other hm => ?_⟩,fun hm => (hall id hm).2 List.mem_cons_self,hnodup⟩
      obtain ⟨hpos,hnew⟩ := hall other hm
      exact ⟨hpos,fun hseen => hnew (List.mem_cons_of_mem _ hseen)⟩
    · rintro ⟨⟨hid,hall⟩,hout,hnodup⟩
      refine ⟨hid,fun other hm => ⟨(hall other hm).1,fun hseen => ?_⟩,hnodup⟩
      rcases List.mem_cons.mp hseen with rfl | hseen
      · exact hout hm
      · exact (hall other hm).2 hseen

/-- An identity of nineteen digits. -/
def wideId (i : ℕ) : I64 := ⟨10^18+(i%10^18 : ℕ),by omega⟩

def wideSelection (count : ℕ) : List I64 := (List.range count).map wideId

/-- An identity of nineteen digits takes nineteen bytes. -/
theorem textSize_wideId (escape : Char → List Char) (i : ℕ) :
    textSize escape (.number (wideId i).val)=19 := by
  have hrange : 10^18≤10^18+i%10^18 ∧ 10^18+i%10^18<10^19 := by omega
  have hlog : Nat.log 10 (10^18+i%10^18)=18 :=
    Nat.log_eq_of_pow_le_of_lt_pow hrange.1 hrange.2
  have hlen : (Nat.digits 10 (10^18+i%10^18)).length=19 := by
    rw [Nat.length_digits 10 _ (by decide) (by omega),hlog]
  have hdigits : ∀ c ∈ decimalNat (10^18+i%10^18), c.toNat<128 := by
    intro c hc
    have := (decimalNat_digits _).2 c hc
    omega
  have hdecimal : decimal (wideId i).val=decimalNat (10^18+i%10^18) := if_neg (by
    change ¬(10^18+(i%10^18 : ℕ) : ℤ)<0
    omega)
  rw [textSize,write,hdecimal,length_bytes_ascii hdigits,decimalNat,if_neg (by omega),
    List.length_reverse,List.length_map,hlen]

theorem textSize_wideSelection (escape : Char → List Char) (count : ℕ) :
    textSize escape (.array ((wideSelection (count+1)).map fun id => .number id.val))=
      20*(count+1)+1 := by
  have hall : ∀ value ∈ (wideSelection (count+1)).map fun id => Json.number id.val,
      textSize escape value=19 := by
    intro value hm
    obtain ⟨id,hid,rfl⟩ := List.mem_map.mp hm
    obtain ⟨i,-,rfl⟩ := List.mem_map.mp hid
    exact textSize_wideId escape i
  have hlen : ((wideSelection (count+1)).map fun id => Json.number id.val).length=count+1 := by
    rw [List.length_map,wideSelection,List.length_map,List.length_range]
  cases hs : (wideSelection (count+1)).map fun id => Json.number id.val with
  | nil =>
    rw [hs] at hlen
    cases hlen
  | cons value values =>
    rw [hs] at hall hlen
    rw [textSize_array hall,Nat.succ.inj hlen]

theorem wideSelection_valid {count : ℕ} (h : count≤10^18) :
    validSelection [] (wideSelection count)=true := by
  rw [validSelection_iff]
  constructor
  · intro id hid
    obtain ⟨i,-,rfl⟩ := List.mem_map.mp hid
    refine ⟨?_,List.not_mem_nil⟩
    change (0 : ℤ)<10^18+(i%10^18 : ℕ)
    omega
  · refine List.nodup_range.map_on ?_
    intro i hi j hj he
    have hij : (10^18+(i%10^18 : ℕ) : ℤ)=10^18+(j%10^18 : ℕ) := congrArg Subtype.val he
    rw [List.mem_range] at hi hj
    omega

/-- A library request for a short name. -/
def smallLocation : Location := ⟨.library,{ criteria := .node { name := "a" } [] }⟩

def oneFrame (selection : List I64) (mode : Presentation) : Navigation :=
  ⟨sampleNavigation.library,1,1,0,[⟨smallLocation,selection⟩],0,mode⟩

set_option maxRecDepth 20000 in
/-- The state with a valid selection can be encoded while its text is within the bound. -/
theorem oneFrame_persistable {selection : List I64} {mode : Presentation}
    (hv : validSelection [] selection=true) :
    Persistable plainNavigation (oneFrame selection mode) ↔
      stateSize plainNavigation (oneFrame selection mode) ≤ maxStateBytes := by
  have hrequest : requestBytes plainNavigation smallLocation.request=.ok _ :=
    (requestBytes_iff documented_plainNavigation).mpr ⟨valueBytes_plain _,by decide,_,rfl⟩
  rw [persistable_iff documented_plainNavigation]
  constructor
  · exact fun h => h.2.2
  · intro hlen
    refine ⟨⟨Nat.le_of_ble_eq_true rfl,Nat.zero_lt_one⟩,?_,hlen⟩
    intro frame hm
    rw [List.mem_singleton.mp hm]
    exact ⟨hv,_,hrequest⟩

theorem size_plain (value : Json) : size plainNavigation value=textSize serdeEscape value := by
  rw [size,valueBytes_plain]
  rfl

set_option maxRecDepth 20000 in
/-- The bytes of a state without a selection. -/
theorem oneFrame_empty : stateSize plainNavigation (oneFrame [] .list)=228 := by
  rw [stateSize,size_plain]
  decide

theorem oneFrame_size (count : ℕ) :
    stateSize plainNavigation (oneFrame (wideSelection (count+1)) .list)=20*(count+1)+227 := by
  have hempty := oneFrame_empty
  have hnone : textSize serdeEscape (.array [])=2 := rfl
  have hwide := textSize_wideSelection serdeEscape count
  have hframes : ∀ ids, stateSize plainNavigation (oneFrame ids .list)+
      textSize serdeEscape (.array [frameJson (storedFrame ⟨smallLocation,[]⟩)])=
      stateSize plainNavigation (oneFrame [] .list)+
        textSize serdeEscape (.array [frameJson (storedFrame ⟨smallLocation,ids⟩)]) := by
    intro ids
    simp only [stateSize,size_plain]
    exact textSize_exchange [("version",_),("libraryId",_)] [("position",_),("presentation",_)]
      "frames" _ _
  have hselection : ∀ ids : List I64,
      textSize serdeEscape (frameJson (storedFrame ⟨smallLocation,ids⟩))+textSize serdeEscape
        (.array [])=
      textSize serdeEscape (frameJson (storedFrame ⟨smallLocation,[]⟩))+
        textSize serdeEscape (.array (ids.map fun id => .number id.val)) := by
    intro ids
    exact textSize_exchange [("kind",_),("id",_),("manualOrder",_),("request",_)] []
      "selection" _ _
  have hf := hframes (wideSelection (count+1))
  have hs := hselection (wideSelection (count+1))
  rw [textSize_singleton,textSize_singleton] at hf
  omega

/-- A small state can be encoded. -/
theorem oneFrame_new : Persistable plainNavigation (oneFrame [] .list) := by
  have hmax : maxStateBytes=8388608 := rfl
  have hempty := oneFrame_empty
  exact (oneFrame_persistable rfl).mpr (by omega)

theorem openNavigation_oneFrame : openNavigation plainNavigation
    (.new sampleNavigation.library 1 smallLocation 0)=.ok (oneFrame [] .list) := by
  obtain ⟨bytes,hb⟩ := oneFrame_new
  exact bind_of_ok hb

theorem select_oneFrame {selection : List I64}
    (h : Persistable plainNavigation (oneFrame selection .list)) :
    step plainNavigation (oneFrame [] .list) (.select selection)=oneFrame selection .list := by
  obtain ⟨bytes,hb⟩ := h
  have hattempt : attempt plainNavigation (oneFrame [] .list) (.select selection)=
      .ok (oneFrame selection .list) := bind_of_ok hb
  rw [step,hattempt]

theorem roomy_largeCovers (selection : List I64) :
    Roomy plainNavigation (oneFrame selection .list) (.setPresentation .largeCovers) ↔
      stateSize plainNavigation (oneFrame selection .list)+8 ≤ maxStateBytes := by
  have hlong : size plainNavigation (.string Presentation.largeCovers.text)=14 := size_plain _
  have hshort : size plainNavigation (.string Presentation.list.text)=6 := size_plain _
  change _+_≤_+size plainNavigation (.string Presentation.list.text) ↔ _
  rw [hlong,hshort]
  omega

/-- A selection that fills a state of one frame can be persisted until large covers are
shown. -/
theorem overflows_when_full {selection : List I64} (hv : validSelection [] selection=true)
    (hfits : stateSize plainNavigation (oneFrame selection .list) ≤ maxStateBytes)
    (hfull : maxStateBytes<stateSize plainNavigation (oneFrame selection .list)+8) :
    Persistable plainNavigation (run plainNavigation (oneFrame [] .list) [.select selection]) ∧
    ¬Persistable plainNavigation (run plainNavigation (oneFrame [] .list)
      [.select selection,.setPresentation .largeCovers]) := by
  have hselected := (oneFrame_persistable hv).mpr hfits
  have hstep := select_oneFrame hselected
  simp only [run,List.foldl_cons,List.foldl_nil,hstep]
  refine ⟨hselected,fun h => ?_⟩
  have hroom := (step_persistable_iff documented_plainNavigation hselected _).mp h
  rw [roomy_largeCovers] at hroom
  omega

/-- Every state of a history can be encoded exactly when there is room for what opened it
and at every call. -/
theorem history_persistable_iff {env : NavigationEnv} (hd : DocumentedNavigation env)
    {opening : Opening} {nav : Navigation} (h : openNavigation env opening=.ok nav)
    (calls : List Call) :
    (∀ taken, taken <+: calls → Persistable env (run env nav taken)) ↔
      RoomyOpening env opening ∧ RoomyRun env nav calls := by
  rw [run_persistable_iff hd calls nav,openNavigation_persistable hd h]

/-- A small state keeps being persistable when it shows large covers and moves. -/
theorem history_persistable_small : Persistable plainNavigation
    (run plainNavigation (oneFrame [] .list)
      [Call.select (wideSelection 3),.setPresentation .largeCovers,.forward 7]) := by
  have hmax : maxStateBytes=8388608 := rfl
  have hsize : stateSize plainNavigation (oneFrame (wideSelection 3) .list)=287 := oneFrame_size 2
  have hselected : Persistable plainNavigation (oneFrame (wideSelection 3) .list) :=
    (oneFrame_persistable (wideSelection_valid (by omega))).mpr (by omega)
  refine (history_persistable_iff documented_plainNavigation openNavigation_oneFrame
    [.select (wideSelection 3),.setPresentation .largeCovers,.forward 7]).mpr
      ⟨trivial,trivial,?_,?_,trivial⟩ _ (List.prefix_refl _)
  · rw [select_oneFrame hselected,roomy_largeCovers]
    omega
  · rw [select_oneFrame hselected]
    intro hnine
    cases hnine

/-- A state opened new and filled with a selection can be encoded; once it shows large
covers it cannot. -/
theorem set_presentation_overflows : ∃ nav,
    openNavigation plainNavigation (.new sampleNavigation.library 1 smallLocation 0)=.ok nav ∧
    Persistable plainNavigation (run plainNavigation nav [.select (wideSelection 419419)]) ∧
    ¬Persistable plainNavigation (run plainNavigation nav
      [.select (wideSelection 419419),.setPresentation .largeCovers]) := by
  have hmax : maxStateBytes=8388608 := rfl
  have hsize : stateSize plainNavigation (oneFrame (wideSelection 419419) .list)=8388607 :=
    oneFrame_size 419418
  exact ⟨_,openNavigation_oneFrame,overflows_when_full (wideSelection_valid (by omega)) (by omega)
    (by omega)⟩

end Librairii.NavigationHistory
