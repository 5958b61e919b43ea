import Librairii.BrowserHistories
import Librairii.NavigationHistory

/-!
# Navigation as a browser history

Navigation values are opened, cloned and changed, and stamps of their query positions are taken.
Every value shows a browser history, and a stamp is accepted exactly by the values that have not
moved since it was taken. An identity may be used again only when no value and no stamp has it.
-/

namespace Librairii.NavigationZippers

open CheckedResults BrowserHistories NavigationCodec NavigationHistory
open SavedQuery (I64)

/-- A call is a move of the query position. -/
def moves : Call → Bool
  | .push _ _ | .replace _ _ | .back _ | .forward _ => true
  | _ => false

/-- A call with another identity. -/
def withFresh (fresh : ℕ) : Call → Call
  | .setPresentation mode => .setPresentation mode
  | .push frame _ => .push frame fresh
  | .replace frame _ => .replace frame fresh
  | .select selection => .select selection
  | .back _ => .back fresh
  | .forward _ => .forward fresh

def openFresh (fresh : ℕ) : Opening → Opening
  | .new library generation location _ => .new library generation location fresh
  | .decode bytes expected generation _ => .decode bytes expected generation fresh

/-- What a call does to a browser history. -/
def follow (z : Zipper Frame) : Call → Zipper Frame
  | .setPresentation _ => z
  | .push frame _ => z.push maxHistory frame
  | .replace frame _ => z.modify fun _ => frame
  | .select selection => z.modify fun frame => {frame with selection := selection}
  | .back _ => z.back.getD z
  | .forward _ => z.forward.getD z

/-- A navigation value with the history it should show and its last move. -/
structure Tracked where
  nav : Navigation
  history : Zipper Frame
  moved : ℕ

/-- A stamp with the last move of the value it was taken of. -/
structure Taken where
  stamp : QueryStamp
  /-- When that value had last moved. -/
  moved : ℕ

/-- Values and stamps that are alive. -/
structure World where
  values : List Tracked
  stamps : List Taken
  /-- How many events there were. -/
  clock : ℕ

/-- What happens. -/
inductive Event where
  | opening (opening : Opening) (fresh : ℕ)
  /-- A value is cloned. -/
  | clone (value : ℕ)
  | call (value : ℕ) (call : Call) (fresh : ℕ)
  /-- A stamp of a value is taken. -/
  | take (value : ℕ)
  | dropValue (value : ℕ)
  | dropStamp (stamp : ℕ)

/-- The stamps of values and those taken. -/
def World.marks (w : World) : List Taken :=
  w.values.map (fun value => ⟨stamp value.nav,value.moved⟩)++w.stamps

/-- An identity that nothing has. -/
def World.free (w : World) (fresh : ℕ) : Bool := w.marks.all fun mark => mark.stamp.identity≠fresh

section Steps

variable (env : NavigationEnv)

def changed (nav : Navigation) (call : Call) : Bool :=
  match call with
  | .push frame fresh => (push env nav frame fresh).isOk
  | .replace frame fresh => (replace env nav frame fresh).isOk
  | .back fresh => ((back nav fresh).map Prod.fst).toOption.getD false
  | .forward fresh => ((forward nav fresh).map Prod.fst).toOption.getD false
  | _ => false

/-- A call on a value. Its history follows when it succeeds, and a move is noted. -/
def Tracked.call (value : Tracked) (call : Call) (clock : ℕ) : Tracked :=
  match attempt env value.nav call with
  | .error _ => value
  | .ok nav => ⟨nav,follow value.history call,
      if changed env value.nav call then clock else value.moved⟩

def World.step (w : World) : Event → World
  | .opening opening fresh =>
    if w.free fresh then
      match openNavigation env (openFresh fresh opening) with
      | .error _ => {w with clock := w.clock+1}
      | .ok nav =>
        match zipperOf nav.frames nav.position with
        | none => {w with clock := w.clock+1}
        | some history => ⟨w.values++[⟨nav,history,w.clock⟩],w.stamps,w.clock+1⟩
    else w
  | .clone value =>
    match w.values[value]? with
    | none => w
    | some tracked => ⟨w.values++[tracked],w.stamps,w.clock+1⟩
  | .call value call fresh =>
    if w.free fresh then
      ⟨w.values.modify value fun tracked => tracked.call env (withFresh fresh call) w.clock,
        w.stamps,w.clock+1⟩
    else w
  | .take value =>
    match w.values[value]? with
    | none => w
    | some tracked => ⟨w.values,w.stamps++[⟨stamp tracked.nav,tracked.moved⟩],w.clock+1⟩
  | .dropValue value => ⟨w.values.eraseIdx value,w.stamps,w.clock+1⟩
  | .dropStamp stamp => ⟨w.values,w.stamps.eraseIdx stamp,w.clock+1⟩

/-- Events one after the other. -/
def World.run (w : World) (events : List Event) : World := events.foldl (World.step env) w

/-- Nothing is open. -/
def World.new : World := ⟨[],[],0⟩

end Steps

theorem opened_bounds {env : NavigationEnv} {opening : Opening} {nav : Navigation}
    (h : openNavigation env opening=.ok nav) :
    nav.frames.length ≤ maxHistory ∧ nav.position<nav.frames.length := by
  cases opening with
  | new library generation location fresh =>
    change newNavigation env library generation location fresh=_ at h
    rw [newNavigation] at h
    obtain ⟨-,h⟩ := checked_ok.mp h
    obtain ⟨_,_,h⟩ := exceptBind_ok.mp h
    cases h
    exact ⟨by change 1≤100; decide,Nat.zero_lt_one⟩
  | decode bytes expected generation fresh =>
    change decode env bytes expected generation fresh=_ at h
    rw [decode] at h
    obtain ⟨-,h⟩ := checked_ok.mp h
    split at h
    · cases h
    · rename_i wire _
      obtain ⟨hbounds,h⟩ := checked_ok.mp h
      obtain ⟨frames,hframes,h⟩ := exceptBind_ok.mp h
      cases h
      have hlength := (mapM_pairs hframes).length_eq
      change frames.length ≤ maxHistory ∧ wire.position<frames.length
      push Not at hbounds
      omega

theorem attempt_shows {env : NavigationEnv} {nav next : Navigation} {z : Zipper Frame}
    (h : Shows nav.frames nav.position z) (hbound : nav.frames.length ≤ maxHistory) {call : Call}
    (hnext : attempt env nav call=.ok next) :
    Shows next.frames next.position (follow z call) ∧ next.frames.length ≤ maxHistory := by
  cases call with
  | setPresentation mode =>
    cases hnext
    exact ⟨h,hbound⟩
  | push frame fresh =>
    obtain ⟨revision,_,hnext⟩ := exceptBind_ok.mp hnext
    obtain ⟨_,_,hnext⟩ := exceptBind_ok.mp hnext
    cases hnext
    exact h.push hbound (by decide) frame
  | replace frame fresh =>
    obtain ⟨revision,_,hnext⟩ := exceptBind_ok.mp hnext
    obtain ⟨_,_,hnext⟩ := exceptBind_ok.mp hnext
    cases hnext
    exact ⟨h.set frame,(List.length_set ..).trans_le hbound⟩
  | select selection =>
    obtain ⟨_,_,hnext⟩ := exceptBind_ok.mp hnext
    cases hnext
    exact ⟨h.modify _,(List.length_modify ..).trans_le hbound⟩
  | back fresh =>
    obtain ⟨⟨moved,found⟩,hback,he⟩ := exceptMap_ok.mp hnext
    cases he
    rw [back] at hback
    by_cases hfirst : nav.position=0
    · rw [if_pos hfirst] at hback
      cases hback
      have hnone := h.back_none.mpr hfirst
      rw [follow,hnone]
      exact ⟨h,hbound⟩
    · rw [if_neg hfirst] at hback
      obtain ⟨revision,_,hback⟩ := exceptBind_ok.mp hback
      cases hback
      obtain ⟨past,hpast,hshows⟩ := h.back hfirst
      rw [follow,hpast]
      exact ⟨hshows,hbound⟩
  | forward fresh =>
    obtain ⟨⟨moved,found⟩,hforward,he⟩ := exceptMap_ok.mp hnext
    cases he
    rw [forward] at hforward
    by_cases hlast : nav.position+1=nav.frames.length
    · rw [if_pos hlast] at hforward
      cases hforward
      have hnone := h.forward_none.mpr hlast
      rw [follow,hnone]
      exact ⟨h,hbound⟩
    · rw [if_neg hlast] at hforward
      obtain ⟨revision,_,hforward⟩ := exceptBind_ok.mp hforward
      cases hforward
      obtain ⟨ahead,hahead,hshows⟩ := h.forward hlast
      rw [follow,hahead]
      exact ⟨hshows,hbound⟩

theorem attempt_stamp {env : NavigationEnv} {nav next : Navigation} {call : Call} {fresh : ℕ}
    (hnext : attempt env nav (withFresh fresh call)=.ok next) :
    if changed env nav (withFresh fresh call) then (stamp next).identity=fresh
    else stamp next=stamp nav := by
  cases call with
  | setPresentation mode =>
    cases hnext
    rfl
  | push frame other =>
    have hpush : push env nav frame fresh=.ok next := hnext
    have hchanged : changed env nav (.push frame fresh)=true := by
      rw [changed,hpush]
      rfl
    rw [withFresh,if_pos hchanged]
    obtain ⟨revision,_,hnext⟩ := exceptBind_ok.mp hpush
    obtain ⟨_,_,hnext⟩ := exceptBind_ok.mp hnext
    cases hnext
    rfl
  | replace frame other =>
    have hreplace : replace env nav frame fresh=.ok next := hnext
    have hchanged : changed env nav (.replace frame fresh)=true := by
      rw [changed,hreplace]
      rfl
    rw [withFresh,if_pos hchanged]
    obtain ⟨revision,_,hnext⟩ := exceptBind_ok.mp hreplace
    obtain ⟨_,_,hnext⟩ := exceptBind_ok.mp hnext
    cases hnext
    rfl
  | select selection =>
    obtain ⟨_,_,hnext⟩ := exceptBind_ok.mp hnext
    cases hnext
    rfl
  | back other =>
    obtain ⟨⟨moved,found⟩,hback,he⟩ := exceptMap_ok.mp hnext
    cases he
    have hchanged : changed env nav (.back fresh)=moved := by
      rw [changed,hback]
      rfl
    rw [withFresh,hchanged]
    rw [back] at hback
    by_cases hfirst : nav.position=0
    · rw [if_pos hfirst] at hback
      cases hback
      rfl
    · rw [if_neg hfirst] at hback
      obtain ⟨revision,_,hback⟩ := exceptBind_ok.mp hback
      cases hback
      rfl
  | forward other =>
    obtain ⟨⟨moved,found⟩,hforward,he⟩ := exceptMap_ok.mp hnext
    cases he
    have hchanged : changed env nav (.forward fresh)=moved := by
      rw [changed,hforward]
      rfl
    rw [withFresh,hchanged]
    rw [forward] at hforward
    by_cases hlast : nav.position+1=nav.frames.length
    · rw [if_pos hlast] at hforward
      cases hforward
      rfl
    · rw [if_neg hlast] at hforward
      obtain ⟨revision,_,hforward⟩ := exceptBind_ok.mp hforward
      cases hforward
      rfl

theorem accepts_iff (nav : Navigation) (s : QueryStamp) : accepts nav s=true ↔ stamp nav=s := by
  obtain ⟨library,generation,revision,identity⟩ := s
  simp only [accepts,stamp,Bool.and_eq_true,decide_eq_true_eq,QueryStamp.mk.injEq]
  constructor
  · rintro ⟨⟨⟨hbytes,hgeneration⟩,hrevision⟩,hidentity⟩
    refine ⟨?_,hgeneration,hrevision,hidentity⟩
    cases hlibrary : nav.library with
    | mk bytes length =>
      cases library with
      | mk others length' =>
        rw [hlibrary] at hbytes
        cases hbytes
        rfl
  · rintro ⟨hlibrary,hgeneration,hrevision,hidentity⟩
    exact ⟨⟨⟨congrArg _ hlibrary,hgeneration⟩,hrevision⟩,hidentity⟩

/-- Stamps know the last move of their value. -/
structure Marked (marks : List Taken) (clock : ℕ) : Prop where
  past : ∀ mark ∈ marks, mark.moved<clock
  identity : ∀ mark ∈ marks, ∀ other ∈ marks,
    mark.stamp.identity=other.stamp.identity → mark.moved=other.moved
  stamp : ∀ mark ∈ marks, ∀ other ∈ marks, mark.moved=other.moved → mark.stamp=other.stamp

theorem Marked.extend {marks newer : List Taken} {clock : ℕ} (h : Marked marks clock)
    (fresh : QueryStamp) (hfree : ∀ mark ∈ marks, mark.stamp.identity≠fresh.identity)
    (hnewer : ∀ mark ∈ newer, mark ∈ marks ∨ mark=⟨fresh,clock⟩) : Marked newer (clock+1) := by
  refine ⟨?_,?_,?_⟩
  · intro mark hm
    cases hnewer mark hm with
    | inl hold => exact Nat.lt_succ_of_lt (h.past mark hold)
    | inr hnew =>
      rw [hnew]
      exact Nat.lt_succ_self clock
  · intro mark hm other ho he
    cases hnewer mark hm with
    | inl hold =>
      cases hnewer other ho with
      | inl hother => exact h.identity mark hold other hother he
      | inr hother =>
        rw [hother] at he
        exact absurd he (hfree mark hold)
    | inr hnew =>
      cases hnewer other ho with
      | inl hother =>
        rw [hnew] at he
        exact absurd he.symm (hfree other hother)
      | inr hother => rw [hnew,hother]
  · intro mark hm other ho he
    cases hnewer mark hm with
    | inl hold =>
      cases hnewer other ho with
      | inl hother => exact h.stamp mark hold other hother he
      | inr hother =>
        have hpast := h.past mark hold
        rw [he,hother] at hpast
        exact absurd hpast (Nat.lt_irrefl clock)
    | inr hnew =>
      cases hnewer other ho with
      | inl hother =>
        have hpast := h.past other hother
        rw [←he,hnew] at hpast
        exact absurd hpast (Nat.lt_irrefl clock)
      | inr hother => rw [hnew,hother]

theorem Marked.fewer {marks newer : List Taken} {clock : ℕ} (h : Marked marks clock)
    (hnewer : ∀ mark ∈ newer, mark ∈ marks) : Marked newer (clock+1) :=
  ⟨fun mark hm => Nat.lt_succ_of_lt (h.past mark (hnewer mark hm)),
    fun mark hm other ho => h.identity mark (hnewer mark hm) other (hnewer other ho),
    fun mark hm other ho => h.stamp mark (hnewer mark hm) other (hnewer other ho)⟩

/-- A value shows its history. -/
def Tracked.Shown (value : Tracked) : Prop :=
  Shows value.nav.frames value.nav.position value.history ∧
    value.nav.frames.length ≤ maxHistory

/-- Every value shows its history, and stamps know the last moves. -/
structure Sound (w : World) : Prop where
  /-- Values show their histories. -/
  shown : ∀ value ∈ w.values, value.Shown
  /-- Stamps know the last moves. -/
  marked : Marked w.marks w.clock

/-- What a list has where one element is changed. -/
theorem mem_modify {α : Type} {f : α → α} {list : List α} {position : ℕ} {a : α}
    (h : a ∈ list.modify position f) : a ∈ list ∨ ∃ b ∈ list, list[position]?=some b ∧ a=f b := by
  induction list generalizing position with
  | nil => exact absurd (List.modify_nil .. ▸ h) List.not_mem_nil
  | cons first list ih =>
    cases position with
    | zero =>
      cases List.mem_cons.mp h with
      | inl hfirst => exact Or.inr ⟨first,List.mem_cons_self,rfl,hfirst⟩
      | inr hrest => exact Or.inl (List.mem_cons_of_mem _ hrest)
    | succ position =>
      cases List.mem_cons.mp h with
      | inl hfirst => exact Or.inl (hfirst ▸ List.mem_cons_self)
      | inr hrest =>
        cases ih hrest with
        | inl hold => exact Or.inl (List.mem_cons_of_mem _ hold)
        | inr hnew =>
          obtain ⟨b,hb,hat,he⟩ := hnew
          exact Or.inr ⟨b,List.mem_cons_of_mem _ hb,hat,he⟩

/-- A call on a value keeps its history, and its stamp is the old one or has a free identity. -/
theorem Tracked.call_cases (env : NavigationEnv) {value : Tracked} (h : value.Shown)
    (call : Call) (fresh clock : ℕ) :
    (value.call env (withFresh fresh call) clock).Shown ∧
      ((stamp (value.call env (withFresh fresh call) clock).nav=stamp value.nav ∧
        (value.call env (withFresh fresh call) clock).moved=value.moved) ∨
      (stamp (value.call env (withFresh fresh call) clock).nav).identity=fresh ∧
        (value.call env (withFresh fresh call) clock).moved=clock) := by
  rw [Tracked.call]
  cases hattempt : attempt env value.nav (withFresh fresh call) with
  | error e => exact ⟨h,Or.inl ⟨rfl,rfl⟩⟩
  | ok next =>
    have hstamp := attempt_stamp hattempt
    refine ⟨attempt_shows h.1 h.2 hattempt,?_⟩
    simp only
    by_cases hchanged : changed env value.nav (withFresh fresh call)=true
    · rw [if_pos hchanged] at hstamp ⊢
      exact Or.inr ⟨hstamp,rfl⟩
    · rw [if_neg hchanged] at hstamp ⊢
      exact Or.inl ⟨hstamp,rfl⟩

theorem free_iff {w : World} {fresh : ℕ} (h : w.free fresh=true) :
    ∀ mark ∈ w.marks, mark.stamp.identity≠fresh := by
  intro mark hm
  exact of_decide_eq_true (List.all_eq_true.mp h mark hm)

theorem mark_value {w : World} {value : Tracked} (h : value ∈ w.values) :
    ⟨stamp value.nav,value.moved⟩ ∈ w.marks :=
  List.mem_append_left _ (List.mem_map_of_mem (f:=fun v => (⟨stamp v.nav,v.moved⟩ : Taken)) h)

theorem mark_cases {w : World} {mark : Taken} (h : mark ∈ w.marks) :
    (∃ value ∈ w.values, mark=⟨stamp value.nav,value.moved⟩) ∨ mark ∈ w.stamps := by
  cases List.mem_append.mp h with
  | inl hvalue =>
    obtain ⟨value,hm,he⟩ := List.mem_map.mp hvalue
    exact Or.inl ⟨value,hm,he.symm⟩
  | inr htaken => exact Or.inr htaken

/-- Dropping values or stamps keeps the rest. -/
theorem Sound.fewer {w : World} (h : Sound w) {values : List Tracked} {stamps : List Taken}
    (hvalues : ∀ value ∈ values, value ∈ w.values)
    (hstamps : ∀ taken ∈ stamps, taken ∈ w.marks) : Sound ⟨values,stamps,w.clock+1⟩ := by
  refine ⟨fun value hm => h.shown value (hvalues value hm),h.marked.fewer fun mark hm => ?_⟩
  cases mark_cases hm with
  | inl hvalue =>
    obtain ⟨value,hm,he⟩ := hvalue
    rw [he]
    exact mark_value (hvalues value hm)
  | inr htaken => exact hstamps mark htaken

theorem Sound.opening {w : World} (h : Sound w) {env : NavigationEnv} {opening : Opening}
    {fresh : ℕ} (hfree : w.free fresh=true) {nav : Navigation} {history : Zipper Frame}
    (hopen : openNavigation env (openFresh fresh opening)=.ok nav)
    (hhistory : zipperOf nav.frames nav.position=some history) :
    Sound ⟨w.values++[⟨nav,history,w.clock⟩],w.stamps,w.clock+1⟩ := by
  obtain ⟨hbound,hposition⟩ := opened_bounds hopen
  obtain ⟨z,hz,hshows⟩ := zipperOf_shows hposition
  rw [hhistory] at hz
  cases hz
  have hidentity : (stamp nav).identity=fresh := by
    cases opening with
    | new library generation location other =>
      change newNavigation env library generation location fresh=_ at hopen
      rw [newNavigation] at hopen
      obtain ⟨-,hopen⟩ := checked_ok.mp hopen
      obtain ⟨_,_,hopen⟩ := exceptBind_ok.mp hopen
      cases hopen
      rfl
    | decode bytes expected generation other =>
      change decode env bytes expected generation fresh=_ at hopen
      rw [decode] at hopen
      obtain ⟨-,hopen⟩ := checked_ok.mp hopen
      split at hopen
      · cases hopen
      · obtain ⟨-,hopen⟩ := checked_ok.mp hopen
        obtain ⟨frames,_,hopen⟩ := exceptBind_ok.mp hopen
        cases hopen
        rfl
  refine ⟨?_,h.marked.extend (stamp nav) ?_ ?_⟩
  · intro value hm
    cases List.mem_append.mp hm with
    | inl hold => exact h.shown value hold
    | inr hnew =>
      rw [List.mem_singleton.mp hnew]
      exact ⟨hshows,hbound⟩
  · rw [hidentity]
    exact free_iff hfree
  · intro mark hm
    cases mark_cases hm with
    | inl hvalue =>
      obtain ⟨value,hm,he⟩ := hvalue
      cases List.mem_append.mp hm with
      | inl hold =>
        rw [he]
        exact Or.inl (mark_value hold)
      | inr hnew =>
        rw [he,List.mem_singleton.mp hnew]
        exact Or.inr rfl
    | inr htaken => exact Or.inl (List.mem_append_right _ htaken)

theorem Sound.call {w : World} (h : Sound w) (env : NavigationEnv) (value : ℕ) (call : Call)
    {fresh : ℕ} (hfree : w.free fresh=true) :
    Sound ⟨w.values.modify value fun tracked => tracked.call env (withFresh fresh call) w.clock,
      w.stamps,w.clock+1⟩ := by
  constructor
  · intro tracked hm
    cases mem_modify hm with
    | inl hold => exact h.shown tracked hold
    | inr hnew =>
      obtain ⟨old,hold,_,he⟩ := hnew
      rw [he]
      exact (Tracked.call_cases env (h.shown old hold) call fresh w.clock).1
  · cases hat : w.values[value]? with
    | none =>
      apply h.marked.fewer
      intro mark hm
      cases mark_cases hm with
      | inr htaken => exact List.mem_append_right _ htaken
      | inl hvalue =>
        obtain ⟨tracked,hm,he⟩ := hvalue
        rw [he]
        cases mem_modify hm with
        | inl hold => exact mark_value hold
        | inr hnew =>
          obtain ⟨old,_,hsome,_⟩ := hnew
          rw [hat] at hsome
          cases hsome
    | some old =>
      have hold := List.mem_of_getElem? hat
      cases (Tracked.call_cases env (h.shown old hold) call fresh w.clock).2 with
      | inl hsame =>
        apply h.marked.fewer
        intro mark hm
        cases mark_cases hm with
        | inr htaken => exact List.mem_append_right _ htaken
        | inl hvalue =>
          obtain ⟨tracked,hm,he⟩ := hvalue
          rw [he]
          cases mem_modify hm with
          | inl hold => exact mark_value hold
          | inr hnew =>
            obtain ⟨found,_,hsome,he⟩ := hnew
            rw [hat] at hsome
            cases hsome
            rw [he,hsame.1,hsame.2]
            exact mark_value hold
      | inr hmoved =>
        apply h.marked.extend (stamp (old.call env (withFresh fresh call) w.clock).nav)
        · rw [hmoved.1]
          exact free_iff hfree
        · intro mark hm
          cases mark_cases hm with
          | inr htaken => exact Or.inl (List.mem_append_right _ htaken)
          | inl hvalue =>
            obtain ⟨tracked,hm,he⟩ := hvalue
            rw [he]
            cases mem_modify hm with
            | inl hold => exact Or.inl (mark_value hold)
            | inr hnew =>
              obtain ⟨found,_,hsome,he⟩ := hnew
              rw [hat] at hsome
              cases hsome
              rw [he]
              exact Or.inr (congrArg _ hmoved.2)

/-- Every event keeps the histories, and stamps know the last moves. -/
theorem step_sound (env : NavigationEnv) {w : World} (h : Sound w) (event : Event) :
    Sound (w.step env event) := by
  have hmarks : ∀ taken ∈ w.stamps, taken ∈ w.marks :=
    fun taken hm => List.mem_append_right _ hm
  have hlater : Sound {w with clock := w.clock+1} := h.fewer (fun _ hm => hm) hmarks
  cases event with
  | opening opening fresh =>
    rw [World.step]
    by_cases hfree : w.free fresh=true
    · rw [if_pos hfree]
      cases hopen : openNavigation env (openFresh fresh opening) with
      | error e => exact hlater
      | ok nav =>
        simp only
        cases hhistory : zipperOf nav.frames nav.position with
        | none => exact hlater
        | some history => exact h.opening hfree hopen hhistory
    · rw [if_neg hfree]
      exact h
  | clone value =>
    rw [World.step]
    cases hat : w.values[value]? with
    | none => exact h
    | some tracked =>
      have hm := List.mem_of_getElem? hat
      refine h.fewer (fun other ho => ?_) hmarks
      cases List.mem_append.mp ho with
      | inl hold => exact hold
      | inr hnew => exact List.mem_singleton.mp hnew ▸ hm
  | call value call fresh =>
    rw [World.step]
    by_cases hfree : w.free fresh=true
    · rw [if_pos hfree]
      exact h.call env value call hfree
    · rw [if_neg hfree]
      exact h
  | take value =>
    rw [World.step]
    cases hat : w.values[value]? with
    | none => exact h
    | some tracked =>
      have hm := List.mem_of_getElem? hat
      refine h.fewer (fun _ hv => hv) (fun taken ht => ?_)
      cases List.mem_append.mp ht with
      | inl hold => exact hmarks taken hold
      | inr hnew =>
        rw [List.mem_singleton.mp hnew]
        exact mark_value hm
  | dropValue value =>
    exact h.fewer (fun _ hm => (List.eraseIdx_sublist ..).mem hm) hmarks
  | dropStamp stamp =>
    exact h.fewer (fun _ hm => hm)
      (fun taken hm => hmarks taken ((List.eraseIdx_sublist ..).mem hm))

theorem run_sound (env : NavigationEnv) {w : World} (h : Sound w) (events : List Event) :
    Sound (w.run env events) := by
  induction events generalizing w with
  | nil => exact h
  | cons event events ih => exact ih (step_sound env h event)

theorem new_sound : Sound World.new :=
  ⟨fun _ hm => absurd hm List.not_mem_nil,fun _ hm => absurd hm List.not_mem_nil,
    fun _ hm => absurd hm List.not_mem_nil,fun _ hm => absurd hm List.not_mem_nil⟩

theorem Tracked.Shown.zipperOf {value : Tracked} (h : value.Shown) :
    BrowserHistories.zipperOf value.nav.frames value.nav.position=some value.history := by
  have hlength := h.1.length
  have hposition : value.nav.position<value.nav.frames.length := by omega
  obtain ⟨z,hz,hshows⟩ := zipperOf_shows hposition
  rw [hz,hshows.unique h.1]

theorem back_forward_inverse {nav : Navigation} {z : Zipper Frame}
    (h : Shows nav.frames nav.position z) (fresh later : ℕ) :
    (∀ next last, back nav fresh=.ok (true,next) → forward next later=.ok last →
      last.1=true ∧ last.2.frames=nav.frames ∧ last.2.position=nav.position) ∧
    ∀ next last, forward nav fresh=.ok (true,next) → back next later=.ok last →
      last.1=true ∧ last.2.frames=nav.frames ∧ last.2.position=nav.position := by
  have hlength := h.length
  constructor
  · intro next last hback hforward
    rw [back] at hback
    split at hback
    · cases hback
    · rename_i hfirst
      obtain ⟨revision,_,hback⟩ := exceptBind_ok.mp hback
      cases hback
      rw [forward,if_neg (by
        change ¬nav.position-1+1=nav.frames.length
        omega)] at hforward
      obtain ⟨revision,_,hforward⟩ := exceptBind_ok.mp hforward
      cases hforward
      exact ⟨rfl,rfl,Nat.succ_pred hfirst⟩
  · intro next last hforward hback
    rw [forward] at hforward
    split at hforward
    · cases hforward
    · obtain ⟨revision,_,hforward⟩ := exceptBind_ok.mp hforward
      cases hforward
      rw [back,if_neg (Nat.succ_ne_zero nav.position)] at hback
      obtain ⟨revision,_,hback⟩ := exceptBind_ok.mp hback
      cases hback
      exact ⟨rfl,rfl,rfl⟩

/-- Every navigation value is the browser history that its successful calls make of the one it
was opened or cloned with, a refused call leaves it, stepping back and forward undo each other,
and a stamp is accepted exactly by the values whose last move is the one it was taken after. -/
theorem navigation_refines_history (env : NavigationEnv) (events : List Event) :
    let w := World.new.run env events
    (∀ value ∈ w.values,
      BrowserHistories.zipperOf value.nav.frames value.nav.position=some value.history ∧
      value.nav.frames.length ≤ maxHistory ∧
      (∀ call e, attempt env value.nav call=.error e →
        NavigationHistory.step env value.nav call=value.nav) ∧
      ∀ fresh later next last,
        (back value.nav fresh=.ok (true,next) → forward next later=.ok last →
          last.1=true ∧ last.2.frames=value.nav.frames ∧
            last.2.position=value.nav.position) ∧
        (forward value.nav fresh=.ok (true,next) → back next later=.ok last →
          last.1=true ∧ last.2.frames=value.nav.frames ∧
            last.2.position=value.nav.position)) ∧
    (∀ opening nav, openNavigation env opening=.ok nav →
      (BrowserHistories.zipperOf nav.frames nav.position).isSome=true) ∧
    (∀ z moved : Zipper Frame, z.back=some moved ↔ moved.forward=some z) ∧
    ∀ value ∈ w.values, ∀ taken ∈ w.stamps,
      (accepts value.nav taken.stamp=true ↔ value.moved=taken.moved) := by
  have h : Sound (World.new.run env events) := run_sound env new_sound events
  refine ⟨fun value hm => ⟨(h.shown value hm).zipperOf,(h.shown value hm).2,?_,?_⟩,?_,?_,?_⟩
  · intro call e he
    rw [NavigationHistory.step,he]
  · intro fresh later next last
    have hinverse := back_forward_inverse (h.shown value hm).1 fresh later
    exact ⟨hinverse.1 next last,hinverse.2 next last⟩
  · intro opening nav hopen
    obtain ⟨z,hz,_⟩ := zipperOf_shows (opened_bounds hopen).2
    rw [hz]
    rfl
  · exact fun z moved => ⟨Zipper.forward_back,Zipper.back_forward⟩
  · intro value hm taken ht
    have hvalue := mark_value hm
    have htaken : taken ∈ (World.new.run env events).marks := List.mem_append_right _ ht
    rw [accepts_iff]
    constructor
    · intro hsame
      exact h.marked.identity _ hvalue _ htaken (congrArg QueryStamp.identity hsame)
    · exact h.marked.stamp _ hvalue _ htaken

end Librairii.NavigationZippers
