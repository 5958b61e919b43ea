import Librairii.AgeSteps

/-!
# Derived ages under interleaved imports and activations

Refreshes and imports run in any order of each other. The catalog depends on the
refreshes only and the stories on the imports only. A story that is stored before the
last activation has the band of the activated snapshot, and a story that is imported
after it the band of the latest active snapshot that has it. The derived ages do not
depend on the order exactly when the two bands are the same for every imported story.
-/

namespace Librairii.AgeOrder

open CheckedResults RowTables TagRows AgeFacets CatalogRows AgeProjection AgeSteps
open CatalogRefresh hiding Event step run

def Interleaves (refreshes : List Action) (imports : List (String×String))
    (events : List Event) : Prop :=
  events.filterMap Event.action=refreshes ∧ events.filterMap Event.candidate=imports

def derivedTags (d : CatalogDatabase) : List Assignment :=
  d.assignments.filter fun a => a.source=.derived

def lastActivated (env : CatalogEnv) : CatalogDatabase → List Action → Option ℤ
  | _,[] => none
  | d,action::actions =>
    (lastActivated env (step env d (.refresh action)) actions).or (activated env d action)

/-- Each imported story has the same band in the snapshot activated last and in the latest
active snapshot that has it. -/
def Agree (env : CatalogEnv) (d : CatalogDatabase) (refreshes : List Action)
    (imports : List (String×String)) : Prop :=
  ∀ last, lastActivated env d refreshes=some last →
    ∀ story ∈ (run env d (imports.map fun p => .import p.1 p.2)).stories, story ∉ d.stories →
      bandOf (snapshotAges (run env d (refreshes.map .refresh)).catalog last story.uuid)=
        bandOf (latestAges (run env d (refreshes.map .refresh)).catalog story.uuid)

variable {env : CatalogEnv} {definition : ℤ} {values : List ℤ} {tags : TagTables}
  {initial : CatalogDatabase}

/-- A run with what it did: the snapshot activated last, and the ids of the stories that
were imported since. -/
structure Trace where
  database : CatalogDatabase
  last : Option ℤ
  recent : List ℤ

/-- Whether a story is new is decided by reading the stories. -/
instance (d : CatalogDatabase) (uuid sha256 : String) : Decidable (New d uuid sha256) :=
  inferInstanceAs (Decidable (_ ∧ _))

/-- One event of a traced run. -/
def traceStep (env : CatalogEnv) (t : Trace) : Event → Trace
  | .refresh action =>
    let database := step env t.database (.refresh action)
    match activated env t.database action with
    | some id => ⟨database,some id,[]⟩
    | none => ⟨database,t.last,t.recent⟩
  | .import uuid sha256 =>
    let database := step env t.database (.import uuid sha256)
    if New t.database uuid sha256 then
      ⟨database,t.last,(newStory t.database uuid sha256).id::t.recent⟩
    else ⟨database,t.last,t.recent⟩

def trace (env : CatalogEnv) (t : Trace) (events : List Event) : Trace :=
  events.foldl (traceStep env) t

def Trace.start (d : CatalogDatabase) : Trace := ⟨d,none,[]⟩

@[simp] theorem traceStep_database (t : Trace) (event : Event) :
    (traceStep env t event).database=step env t.database event := by
  cases event with
  | refresh action =>
    simp only [traceStep]
    split <;> rfl
  | «import» uuid sha256 =>
    simp only [traceStep]
    split <;> rfl

theorem trace_database (events : List Event) : ∀ t : Trace,
    (trace env t events).database=run env t.database events := by
  induction events with
  | nil => exact fun t => rfl
  | cons event events ih =>
    intro t
    rw [run,List.foldl_cons,← traceStep_database]
    exact ih (traceStep env t event)

/-- The age row a story has after a trace. -/
def Aged (definition : ℤ) (values : List ℤ) (initial : CatalogDatabase) (t : Trace)
    (a : Assignment) : Prop :=
  (∃ s ∈ t.database.stories, s.id ∈ t.recent ∧
    a ∈ ageRows definition values s.id (latestAges t.database.catalog s.uuid)) ∨
  match t.last with
  | none => a ∈ initial.assignments
  | some last => ∃ s ∈ t.database.stories, s.id ∉ t.recent ∧
    a ∈ ageRows definition values s.id (snapshotAges t.database.catalog last s.uuid)

/-- What a trace says of the library it leads to. -/
structure Traced (definition : ℤ) (values : List ℤ) (tags : TagTables)
    (initial : CatalogDatabase) (t : Trace) : Prop where
  sound : Sound definition values tags t.database
  /-- Other assignments are kept. -/
  others : ∀ a, ¬(a.definitionId=definition ∧ a.source=.derived) →
    (a ∈ t.database.assignments ↔ a ∈ initial.assignments)
  /-- The derived ages are those of the last activation and of the recent stories. -/
  ages : ∀ a, a.definitionId=definition → a.source=.derived →
    (a ∈ t.database.assignments ↔ Aged definition values initial t a)
  last : ∀ id, t.last=some id → id ∈ t.database.catalog.snapshots.map (·.id)
  kept : ∀ s ∈ initial.stories, s ∈ t.database.stories ∧ s.id ∉ t.recent
  recent : ∀ id ∈ t.recent, ∃ s ∈ t.database.stories, s.id=id
  /-- Every new story is recent before the first activation. -/
  new : t.last=none → ∀ s ∈ t.database.stories, s ∉ initial.stories → s.id ∈ t.recent

/-- The first trace. -/
theorem Traced.start (hd : Sound definition values tags initial) :
    Traced definition values tags initial (.start initial) := by
  refine ⟨hd,fun a _ => Iff.rfl,?_,(fun id h => nomatch h),?_,?_,?_⟩
  · intro a _ _
    simp [Aged,Trace.start]
  · exact fun s hs => ⟨hs,List.not_mem_nil⟩
  · exact fun id h => absurd h List.not_mem_nil
  · exact fun _ s hs hnew => absurd hs hnew

variable {t : Trace}

theorem Traced.other (ht : Traced definition values tags initial t) {action : Action}
    (h : activated env t.database action=none) :
    Traced definition values tags initial (traceStep env t (.refresh action)) := by
  obtain ⟨⟨hretained,htags,hassignments⟩,hkeeps⟩ := refresh_other h
  have hstep : traceStep env t (.refresh action)=
      ⟨step env t.database (.refresh action),t.last,t.recent⟩ := by
    simp only [traceStep,h]
  rw [hstep]
  refine ⟨ht.sound.refresh action,?_,?_,?_,?_,?_,?_⟩
  · intro a ha
    dsimp only
    rw [hassignments]
    exact ht.others a ha
  · intro a hdefinition hsource
    dsimp only
    rw [hassignments,ht.ages a hdefinition hsource]
    simp only [Aged,hkeeps.stories,latestAges_retained hretained]
    cases hlast : t.last with
    | none => exact Iff.rfl
    | some last =>
      have hages := fun uuid => snapshotAges_kept (hkeeps.metadata last (ht.last last hlast)) uuid
      simp only [hages]
  · exact fun id hid => hkeeps.snapshots id (ht.last id hid)
  · dsimp only
    rw [hkeeps.stories]
    exact ht.kept
  · dsimp only
    rw [hkeeps.stories]
    exact ht.recent
  · dsimp only
    rw [hkeeps.stories]
    exact ht.new

theorem Traced.activated (ht : Traced definition values tags initial t) {action : Action} {id : ℤ}
    (h : activated env t.database action=some id) :
    Traced definition values tags initial (traceStep env t (.refresh action)) := by
  obtain ⟨hstored,hkeeps,htags,hassignments⟩ := refresh_activated h ht.sound
  have hstep : traceStep env t (.refresh action)=
      ⟨step env t.database (.refresh action),some id,[]⟩ := by
    simp only [traceStep,h]
  rw [hstep]
  refine ⟨ht.sound.refresh action,?_,?_,?_,?_,?_,?_⟩
  · intro a ha
    dsimp only
    rw [hassignments,← ht.others a ha,List.mem_append,List.mem_filter]
    constructor
    · rintro (hold | hnew)
      · exact hold.1
      · obtain ⟨s,-,hrow⟩ := (mem_projected ht.sound.metadata).mp hnew
        obtain ⟨value,-,rfl⟩ := mem_ageRows.mp hrow
        exact absurd ⟨rfl,rfl⟩ ha
    · intro hold
      refine .inl ⟨hold,?_⟩
      simp only [Bool.not_eq_true',Bool.and_eq_false_iff,decide_eq_false_iff_not]
      exact not_and_or.mp ha
  · intro a hdefinition hsource
    have hages := fun uuid => snapshotAges_kept (hkeeps.metadata id hstored) uuid
    dsimp only
    rw [hassignments,List.mem_append,List.mem_filter,mem_projected ht.sound.metadata]
    simp [Aged,hdefinition,hsource,hkeeps.stories,hages]
  · intro last hlast
    obtain rfl := Option.some.inj hlast
    exact hkeeps.snapshots id hstored
  · intro s hs
    dsimp only
    rw [hkeeps.stories]
    exact ⟨(ht.kept s hs).1,List.not_mem_nil⟩
  · exact fun id h => absurd h List.not_mem_nil
  · exact fun h => nomatch h

variable {stories : List Story} {p : Story → Prop}

theorem exists_recent_append {recent : List ℤ} {new : Story} (hother : ∀ s ∈ stories, s.id≠new.id) :
    (∃ s ∈ stories++[new], s.id ∈ new.id::recent ∧ p s) ↔
      (∃ s ∈ stories, s.id ∈ recent ∧ p s) ∨ p new := by
  constructor
  · rintro ⟨s,hs,hid,hp⟩
    rcases List.mem_append.mp hs with hs | hs
    · rcases List.mem_cons.mp hid with hid | hid
      · exact absurd hid (hother s hs)
      · exact .inl ⟨s,hs,hid,hp⟩
    · rw [List.mem_singleton.mp hs] at hp
      exact .inr hp
  · rintro (⟨s,hs,hid,hp⟩ | hp)
    · exact ⟨s,List.mem_append_left _ hs,List.mem_cons_of_mem _ hid,hp⟩
    · exact ⟨new,by simp,List.mem_cons_self,hp⟩

theorem exists_other_append {recent : List ℤ} {new : Story} (hother : ∀ s ∈ stories, s.id≠new.id) :
    (∃ s ∈ stories++[new], s.id ∉ new.id::recent ∧ p s) ↔
      ∃ s ∈ stories, s.id ∉ recent ∧ p s := by
  constructor
  · rintro ⟨s,hs,hid,hp⟩
    rw [List.mem_cons,not_or] at hid
    rcases List.mem_append.mp hs with hs | hs
    · exact ⟨s,hs,hid.2,hp⟩
    · exact absurd (congrArg Story.id (List.mem_singleton.mp hs)) hid.1
  · rintro ⟨s,hs,hid,hp⟩
    refine ⟨s,List.mem_append_left _ hs,?_,hp⟩
    rw [List.mem_cons,not_or]
    exact ⟨hother s hs,hid⟩

theorem Traced.imported (ht : Traced definition values tags initial t) (uuid sha256 : String) :
    Traced definition values tags initial (traceStep env t (.import uuid sha256)) := by
  by_cases hnew : New t.database uuid sha256
  · have hstep : traceStep env t (.import uuid sha256)=
        ⟨step env t.database (.import uuid sha256),t.last,
          (newStory t.database uuid sha256).id::t.recent⟩ := by
      simp only [traceStep,if_pos hnew]
    have hsound := ht.sound.import env uuid sha256
    rw [hstep]
    rw [import_new ht.sound hnew] at hsound ⊢
    have hother := newStory_id t.database uuid sha256
    refine ⟨hsound,?_,?_,ht.last,?_,?_,?_⟩
    · intro a ha
      dsimp only
      rw [List.mem_append,← ht.others a ha]
      constructor
      · rintro (hold | hrow)
        · exact hold
        · obtain ⟨value,-,rfl⟩ := mem_ageRows.mp hrow
          exact absurd ⟨rfl,rfl⟩ ha
      · exact .inl
    · intro a hdefinition hsource
      dsimp only
      rw [List.mem_append,ht.ages a hdefinition hsource]
      simp only [Aged]
      rw [exists_recent_append hother,newStory_uuid]
      cases t.last with
      | none =>
        exact or_right_comm
      | some last =>
        simp only
        rw [exists_other_append hother]
        exact or_right_comm
    · intro s hs
      obtain ⟨hmem,hold⟩ := ht.kept s hs
      refine ⟨List.mem_append_left _ hmem,?_⟩
      rw [List.mem_cons]
      rintro (hid | hrecent)
      · exact hother s hmem hid
      · exact hold hrecent
    · intro id hid
      rcases List.mem_cons.mp hid with rfl | hid
      · exact ⟨newStory t.database uuid sha256,by simp,rfl⟩
      · obtain ⟨s,hs,hid⟩ := ht.recent id hid
        exact ⟨s,List.mem_append_left _ hs,hid⟩
    · intro hlast s hs hfresh
      rcases List.mem_append.mp hs with hs | hs
      · exact List.mem_cons_of_mem _ (ht.new hlast s hs hfresh)
      · rw [List.mem_singleton.mp hs]
        exact List.mem_cons_self
  · have hstep : traceStep env t (.import uuid sha256)=
        ⟨step env t.database (.import uuid sha256),t.last,t.recent⟩ := by
      simp only [traceStep,if_neg hnew]
    rw [hstep,import_known hnew]
    exact ht

theorem Traced.step (ht : Traced definition values tags initial t) (event : Event) :
    Traced definition values tags initial (traceStep env t event) := by
  cases event with
  | refresh action =>
    cases h : AgeSteps.activated env t.database action with
    | none => exact ht.other h
    | some id => exact ht.activated h
  | «import» uuid sha256 => exact ht.imported uuid sha256

theorem Traced.trace (env : CatalogEnv) (events : List Event) : ∀ {t : Trace},
    Traced definition values tags initial t →
      Traced definition values tags initial (AgeOrder.trace env t events) := by
  induction events with
  | nil => exact fun ht => ht
  | cons event events ih => exact fun ht => ih (ht.step event)

theorem traceStep_import (env : CatalogEnv) (ht : Traced definition values tags initial t)
    (uuid sha256 : String) :
    (traceStep env t (.import uuid sha256)).database.catalog=t.database.catalog ∧
      (traceStep env t (.import uuid sha256)).last=t.last := by
  rw [traceStep_database]
  constructor
  · by_cases hnew : New t.database uuid sha256
    · rw [import_new ht.sound hnew]
    · rw [import_known hnew]
  · simp only [traceStep]
    split <;> rfl

theorem refresh_stories (d : CatalogDatabase) (action : Action) :
    (step env d (.refresh action)).stories=d.stories := by
  simp only [step]
  cases hbody : body env action d with
  | error e => rfl
  | ok result =>
    obtain ⟨answer,d'⟩ := result
    exact (body_keeps hbody).stories

theorem trace_catalog (env : CatalogEnv) (events : List Event) : ∀ {t u : Trace},
    Traced definition values tags initial t → Traced definition values tags initial u →
    t.database.catalog=u.database.catalog → t.last=u.last →
      (trace env t events).database.catalog=
          (trace env u ((events.filterMap Event.action).map .refresh)).database.catalog ∧
        (trace env t events).last=
          (trace env u ((events.filterMap Event.action).map .refresh)).last := by
  induction events with
  | nil => exact fun _ _ hcatalog hlast => ⟨hcatalog,hlast⟩
  | cons event events ih =>
    intro t u ht hu hcatalog hlast
    cases event with
    | «import» uuid sha256 =>
      obtain ⟨hc,hl⟩ := traceStep_import env ht uuid sha256
      exact ih (ht.step (.import uuid sha256)) hu (hc.trans hcatalog) (hl.trans hlast)
    | refresh action =>
      obtain ⟨hc,hactivated⟩ := refresh_catalog env hu.sound ht.sound hcatalog action
      apply ih (ht.step (.refresh action)) (hu.step (.refresh action))
      · rw [traceStep_database,traceStep_database,hc]
      · simp only [traceStep,hactivated]
        cases AgeSteps.activated env u.database action with
        | none => exact hlast
        | some id => rfl

theorem trace_stories (env : CatalogEnv) (events : List Event) : ∀ {t u : Trace},
    Traced definition values tags initial t → Traced definition values tags initial u →
    t.database.stories=u.database.stories →
      (trace env t events).database.stories=(trace env u
        ((events.filterMap Event.candidate).map fun p => .import p.1 p.2)).database.stories := by
  induction events with
  | nil => exact fun _ _ h => h
  | cons event events ih =>
    intro t u ht hu hstories
    cases event with
    | refresh action =>
      apply ih (ht.step (.refresh action)) hu
      rw [traceStep_database,refresh_stories,hstories]
    | «import» uuid sha256 =>
      apply ih (ht.step (.import uuid sha256)) (hu.step (.import uuid sha256))
      rw [traceStep_database,traceStep_database]
      exact import_stories hu.sound ht.sound hstories uuid sha256

variable (actions : List Action)

theorem trace_last : ∀ t : Trace, (trace env t (actions.map .refresh)).last=
      (lastActivated env t.database actions).or t.last := by
  induction actions with
  | nil => exact fun t => rfl
  | cons action actions ih =>
    intro t
    have hrest := ih (traceStep env t (.refresh action))
    rw [traceStep_database] at hrest
    rw [List.map_cons,trace,List.foldl_cons,lastActivated]
    rw [trace] at hrest
    rw [hrest,Option.or_assoc]
    congr 1
    simp only [traceStep]
    cases AgeSteps.activated env t.database action with
    | none => rfl
    | some id => rfl

theorem trace_recent : ∀ t : Trace, (t.last.isSome=true → t.recent=[]) →
      (trace env t (actions.map .refresh)).last.isSome=true →
        (trace env t (actions.map .refresh)).recent=[] := by
  induction actions with
  | nil => exact fun t ht => ht
  | cons action actions ih =>
    intro t ht
    apply ih (traceStep env t (.refresh action))
    simp only [traceStep]
    cases AgeSteps.activated env t.database action with
    | none => exact ht
    | some id => exact fun _ => rfl

theorem trace_imports (env : CatalogEnv) (imports : List (String×String)) : ∀ {t : Trace},
    Traced definition values tags initial t →
    (∀ s ∈ t.database.stories, s ∉ initial.stories → s.id ∈ t.recent) →
      ∀ s ∈ (trace env t (imports.map fun p => .import p.1 p.2)).database.stories,
        s ∉ initial.stories →
          s.id ∈ (trace env t (imports.map fun p => .import p.1 p.2)).recent := by
  induction imports with
  | nil => exact fun _ h => h
  | cons p imports ih =>
    intro t ht h
    apply ih (ht.step (.import p.1 p.2))
    intro s hs hnew
    rw [traceStep_database] at hs
    by_cases hfresh : New t.database p.1 p.2
    · rw [import_new ht.sound hfresh] at hs
      simp only [traceStep,if_pos hfresh]
      rcases List.mem_append.mp hs with hs | hs
      · exact List.mem_cons_of_mem _ (h s hs hnew)
      · rw [List.mem_singleton.mp hs]
        exact List.mem_cons_self
    · rw [import_known hfresh] at hs
      simp only [traceStep,if_neg hfresh]
      exact h s hs hnew

variable {ages : Option Ages}

theorem bandOf_lt {index : ℕ} (h : bandOf ages=some index) :
    index<AgeConfig.default.bands.length := by
  obtain ⟨a,-,h⟩ := Option.bind_eq_some_iff.mp h
  unfold AgeConfig.matchingBand at h
  split at h
  · split at h
    · cases h
    · split at h
      · rename_i found hfound
        obtain rfl := Option.some.inj h
        have hmem := List.mem_singleton_self found
        rw [← hfound,List.mem_findIdxs_iff_exists_getElem_pos] at hmem
        exact hmem.1
      · cases h
  · cases h

variable {a : Assignment}

theorem mem_ageRows_congr {story : ℤ} {ages' : Option Ages} (h : bandOf ages=bandOf ages') :
    a ∈ ageRows definition values story ages ↔ a ∈ ageRows definition values story ages' := by
  rw [mem_ageRows,mem_ageRows,h]

theorem bandOf_of_ageRows {story : ℤ} {ages' : Option Ages} (hnodup : values.Nodup)
    (hlength : values.length=AgeConfig.default.bands.length)
    (h : ∀ a, a.storyId=story → (a ∈ ageRows definition values story ages ↔
      a ∈ ageRows definition values story ages')) : bandOf ages=bandOf ages' := by
  have hvalue : ∀ {ages ages' : Option Ages} {index : ℕ},
      (∀ a : Assignment, a.storyId=story → (a ∈ ageRows definition values story ages ↔
        a ∈ ageRows definition values story ages')) →
      bandOf ages=some index → bandOf ages'=some index := by
    intro ages ages' index h hband
    have hbound : index<values.length := by
      rw [hlength]
      exact bandOf_lt hband
    have hrow : (⟨story,definition,some values[index],.derived⟩ : Assignment) ∈
        ageRows definition values story ages := by
      refine mem_ageRows.mpr ⟨values[index],?_,rfl⟩
      rw [hband,Option.bind_some,List.getElem?_eq_getElem hbound]
    obtain ⟨value,hfound,hsame⟩ := mem_ageRows.mp ((h _ rfl).mp hrow)
    obtain ⟨index',hband',hget⟩ := Option.bind_eq_some_iff.mp hfound
    obtain ⟨hbound',hget⟩ := List.getElem?_eq_some_iff.mp hget
    have hequal : values[index]=values[index'] := by
      rw [hget]
      simpa using hsame
    rw [hband',(hnodup.getElem_inj_iff.mp hequal)]
  apply Option.ext
  intro index
  exact ⟨hvalue h,hvalue fun a ha => (h a ha).symm⟩

variable {imports : List (String×String)} {refreshes : List Action} {events : List Event}
  {d : CatalogDatabase}

/-- A run of interleaved events leads to the catalog of its refreshes and the stories of its
imports. -/
theorem interleaved_trace (env : CatalogEnv) (hd : Sound definition values tags d)
    (h : Interleaves refreshes imports events) :
    Traced definition values tags d (trace env (.start d) events) ∧
      (trace env (.start d) events).database=run env d events ∧
      (trace env (.start d) events).database.catalog=
        (run env d (refreshes.map .refresh)).catalog ∧
      (trace env (.start d) events).last=lastActivated env d refreshes ∧
      (trace env (.start d) events).database.stories=
        (run env d (imports.map fun p => .import p.1 p.2)).stories := by
  have hstart := Traced.start hd
  obtain ⟨hcatalog,hlast⟩ := trace_catalog env events hstart hstart rfl rfl
  have hstories := trace_stories env events hstart hstart rfl
  rw [h.1] at hcatalog hlast
  rw [h.2] at hstories
  refine ⟨hstart.trace env events,trace_database events _,?_,?_,?_⟩
  · rw [hcatalog,trace_database]
    rfl
  · rw [hlast,trace_last]
    exact Option.or_none
  · rw [hstories,trace_database]
    rfl

/-- Where the bands agree, the derived ages are those of the last activation. -/
theorem agreed_ages (hd : Sound definition values tags d) (h : Interleaves refreshes imports events)
    (hagree : Agree env d refreshes imports) (hdefinition : a.definitionId=definition)
    (hsource : a.source=.derived) :
    a ∈ (run env d events).assignments ↔
      match lastActivated env d refreshes with
      | none => a ∈ d.assignments ∨
        ∃ s ∈ (run env d (imports.map fun p => .import p.1 p.2)).stories, s ∉ d.stories ∧
          a ∈ ageRows definition values s.id
            (latestAges (run env d (refreshes.map .refresh)).catalog s.uuid)
      | some last =>
        ∃ s ∈ (run env d (imports.map fun p => .import p.1 p.2)).stories,
          a ∈ ageRows definition values s.id
            (snapshotAges (run env d (refreshes.map .refresh)).catalog last s.uuid) := by
  obtain ⟨ht,hdatabase,hcatalog,hlast,hstories⟩ := interleaved_trace env hd h
  have hrecent : ∀ s ∈ (trace env (.start d) events).database.stories,
      s.id ∈ (trace env (.start d) events).recent → s ∉ d.stories :=
    fun s _ hid hold => (ht.kept s hold).2 hid
  have hnew := ht.new
  rw [← hdatabase,ht.ages a hdefinition hsource,Aged]
  simp only [hcatalog,hlast,hstories] at hrecent hnew ⊢
  cases hcase : lastActivated env d refreshes with
  | none =>
    constructor
    · rintro (⟨s,hs,hid,hrow⟩ | hold)
      · exact .inr ⟨s,hs,hrecent s hs hid,hrow⟩
      · exact .inl hold
    · rintro (hold | ⟨s,hs,hfresh,hrow⟩)
      · exact .inr hold
      · exact .inl ⟨s,hs,hnew hcase s hs hfresh,hrow⟩
  | some last =>
    constructor
    · rintro (⟨s,hs,hid,hrow⟩ | ⟨s,hs,-,hrow⟩)
      · have hband := hagree last hcase s hs (hrecent s hs hid)
        exact ⟨s,hs,(mem_ageRows_congr hband).mpr hrow⟩
      · exact ⟨s,hs,hrow⟩
    · rintro ⟨s,hs,hrow⟩
      by_cases hid : s.id ∈ (trace env (.start d) events).recent
      · have hband := hagree last hcase s hs (hrecent s hs hid)
        exact .inl ⟨s,hs,hid,(mem_ageRows_congr hband).mp hrow⟩
      · exact .inr ⟨s,hs,hid,hrow⟩

theorem run_drifted (events : List Event) : ∀ {d : CatalogDatabase} {e : StorageError},
    ensureAgeFacets AgeConfig.default d.tags=.error e →
      (run env d events).assignments=d.assignments := by
  induction events with
  | nil => exact fun _ => rfl
  | cons event events ih =>
    intro d e h
    obtain ⟨htags,hassignments,-⟩ := step_drifted env h event
    exact (ih (by rw [htags]; exact h)).trans hassignments

theorem lastActivated_drifted : ∀ {d : CatalogDatabase} {e : StorageError}
    , ensureAgeFacets AgeConfig.default d.tags=.error e →
      lastActivated env d actions=none := by
  induction actions with
  | nil => exact fun _ => rfl
  | cons action actions ih =>
    intro d e h
    obtain ⟨htags,-,hnone⟩ := step_drifted env h (.refresh action)
    have hrest : lastActivated env (step env d (.refresh action)) actions=none :=
      ih (by rw [htags]; exact h)
    rw [lastActivated,hrest,hnone action rfl]
    rfl

variable {story : Story}

theorem exists_own_row (hid : (stories.map (·.id)).Nodup) (hstory : story ∈ stories)
    (ha : a.storyId=story.id) {ages : Story → Option Ages} :
    (∃ s ∈ stories, p s ∧ a ∈ ageRows definition values s.id (ages s)) ↔
      p story ∧ a ∈ ageRows definition values story.id (ages story) := by
  constructor
  · rintro ⟨s,hs,hp,hrow⟩
    have hsame : s.id=story.id := by
      obtain ⟨value,-,rfl⟩ := mem_ageRows.mp hrow
      exact ha
    rw [List.inj_on_of_nodup_map hid hs hstory hsame] at hp hrow
    exact ⟨hp,hrow⟩
  · exact fun h => ⟨story,hstory,h⟩

theorem refreshed_first (hd : Sound definition values tags d) (hevents : events=
      refreshes.map Event.refresh++imports.map fun p => .import p.1 p.2)
    (h : Interleaves refreshes imports events) {last : ℤ}
    (hlast : lastActivated env d refreshes=some last)
    (hstory : story ∈ (run env d (imports.map fun p => .import p.1 p.2)).stories)
    (hnew : story ∉ d.stories) (hdefinition : a.definitionId=definition)
    (hsource : a.source=.derived) (hid : a.storyId=story.id) :
    a ∈ (run env d events).assignments ↔ a ∈ ageRows definition values story.id
      (latestAges (run env d (refreshes.map .refresh)).catalog story.uuid) := by
  obtain ⟨ht,hdatabase,hcatalog,hactivated,hstories⟩ := interleaved_trace env hd h
  have hrecent : story.id ∈ (trace env (.start d) events).recent := by
    have hmiddle := (Traced.start hd).trace env (refreshes.map .refresh)
    have hall := trace_imports env imports hmiddle
    rw [← hstories,hevents,trace,List.foldl_append] at hstory
    rw [hevents,trace,List.foldl_append]
    refine hall ?_ story hstory hnew
    intro s hs hfresh
    have hkept := trace_stories env (refreshes.map .refresh) (Traced.start hd)
      (Traced.start hd) rfl
    rw [hkept] at hs
    have hnone : (refreshes.map Event.refresh).filterMap Event.candidate=[] := by
      rw [List.filterMap_map,List.filterMap_eq_nil_iff]
      exact fun _ _ => rfl
    rw [hnone] at hs
    exact absurd hs hfresh
  have hids := ht.sound.ids
  rw [← hdatabase,ht.ages a hdefinition hsource,Aged]
  simp only [hcatalog,hactivated,hstories,hlast] at hids ⊢
  rw [exists_own_row hids hstory hid,exists_own_row hids hstory hid]
  simp [hrecent]

theorem imported_first (hd : Sound definition values tags d) (hevents : events=
      imports.map (fun p => Event.import p.1 p.2)++refreshes.map Event.refresh)
    (h : Interleaves refreshes imports events) {last : ℤ}
    (hlast : lastActivated env d refreshes=some last)
    (hstory : story ∈ (run env d (imports.map fun p => .import p.1 p.2)).stories)
    (hdefinition : a.definitionId=definition) (hsource : a.source=.derived)
    (hid : a.storyId=story.id) :
    a ∈ (run env d events).assignments ↔ a ∈ ageRows definition values story.id
      (snapshotAges (run env d (refreshes.map .refresh)).catalog last story.uuid) := by
  obtain ⟨ht,hdatabase,hcatalog,hactivated,hstories⟩ := interleaved_trace env hd h
  have hnone : (imports.map fun p => Event.import p.1 p.2).filterMap Event.action=[] := by
    rw [List.filterMap_map,List.filterMap_eq_nil_iff]
    exact fun _ _ => rfl
  have hempty : (trace env (.start d) events).recent=[] := by
    have hsplit : trace env (.start d) events=
        trace env (trace env (.start d) (imports.map fun p => .import p.1 p.2))
          (refreshes.map .refresh) := by
      rw [hevents,trace,trace,trace,List.foldl_append]
    have hbefore := (trace_catalog env (imports.map fun p => .import p.1 p.2)
      (Traced.start hd) (Traced.start hd) rfl rfl).2
    rw [hnone] at hbefore
    rw [hsplit] at hactivated ⊢
    apply trace_recent
    · intro hsome
      rw [hbefore] at hsome
      cases hsome
    · rw [hactivated,hlast]
      rfl
  have hids := ht.sound.ids
  rw [← hdatabase,ht.ages a hdefinition hsource,Aged]
  simp only [hcatalog,hactivated,hstories,hlast,hempty] at hids ⊢
  rw [exists_own_row hids hstory hid,exists_own_row hids hstory hid]
  simp

/-- The derived assignments of every interleaving of refreshes and imports are the same exactly
when each imported story has the same band in the snapshot activated last and in the latest
active snapshot that has it. -/
theorem derived_tags_order_independent (env : CatalogEnv) {d : CatalogDatabase}
    (hd : Stored d) (refreshes : List Action) (imports : List (String×String)) :
    (∀ events events', Interleaves refreshes imports events →
      Interleaves refreshes imports events' →
        ∀ a, a ∈ derivedTags (run env d events) ↔ a ∈ derivedTags (run env d events')) ↔
      Agree env d refreshes imports := by
  cases hfacets : ensureAgeFacets AgeConfig.default d.tags with
  | error e =>
    constructor
    · intro _ last hlast
      rw [lastActivated_drifted refreshes hfacets] at hlast
      cases hlast
    · intro _ events events' _ _ a
      rw [derivedTags,derivedTags,run_drifted events hfacets,run_drifted events' hfacets]
  | ok found =>
    obtain ⟨⟨definition,values⟩,tags⟩ := found
    have hsound := hd.sound hfacets
    constructor
    · intro hsame last hlast story hstory hnew
      have hfirst : Interleaves refreshes imports
          (refreshes.map Event.refresh++imports.map fun p => .import p.1 p.2) := by
        simp [Interleaves,List.filterMap_append,List.filterMap_map,Function.comp_def,
          Event.action,Event.candidate]
      have hsecond : Interleaves refreshes imports
          (imports.map (fun p => Event.import p.1 p.2)++refreshes.map Event.refresh) := by
        simp [Interleaves,List.filterMap_append,List.filterMap_map,Function.comp_def,
          Event.action,Event.candidate]
      have hlength := (ensureAgeFacets_values hfacets).2.length_eq.symm
      have hnodup := ensureAgeFacets_nodup hfacets (by decide) hd.values
      have hrows : ∀ a : Assignment, a.storyId=story.id →
          (a ∈ ageRows definition values story.id (snapshotAges
            (run env d (refreshes.map .refresh)).catalog last story.uuid) ↔
          a ∈ ageRows definition values story.id (latestAges
            (run env d (refreshes.map .refresh)).catalog story.uuid)) := by
        intro a hid
        by_cases hage : a.definitionId=definition ∧ a.source=.derived
        · have hboth := hsame _ _ hfirst hsecond a
          simp only [derivedTags,List.mem_filter,hage.2,decide_true,and_true] at hboth
          rw [← refreshed_first hsound rfl hfirst hlast hstory hnew hage.1 hage.2 hid,
            ← imported_first hsound rfl hsecond hlast hstory hage.1 hage.2 hid,hboth]
        · have hnone : ∀ ages, a ∉ ageRows definition values story.id ages := by
            intro ages hrow
            obtain ⟨value,-,rfl⟩ := mem_ageRows.mp hrow
            exact hage ⟨rfl,rfl⟩
          exact iff_of_false (hnone _) (hnone _)
      exact bandOf_of_ageRows hnodup hlength hrows
    · intro hagree events events' hevents hevents' a
      simp only [derivedTags,List.mem_filter,decide_eq_true_eq]
      by_cases hsource : a.source=.derived
      · simp only [hsource,and_true]
        by_cases hdefinition : a.definitionId=definition
        · rw [agreed_ages hsound hevents hagree hdefinition hsource,
            agreed_ages hsound hevents' hagree hdefinition hsource]
        · obtain ⟨ht,hdatabase,-⟩ := interleaved_trace env hsound hevents
          obtain ⟨ht',hdatabase',-⟩ := interleaved_trace env hsound hevents'
          have hother : ¬(a.definitionId=definition ∧ a.source=.derived) :=
            fun h => hdefinition h.1
          rw [← hdatabase,← hdatabase',ht.others a hother,ht'.others a hother]
      · simp [hsource]

/-- A schema whose texts pass and whose titles are their own keys. -/
def plainEnv : CatalogEnv := ⟨.ok,fun _ => true⟩

def emptyLibrary : CatalogDatabase := unsynced [] ⟨[],[]⟩ []

theorem emptyLibrary_stored : Stored emptyLibrary := by
  constructor <;> simp [emptyLibrary,unsynced]

/-- The checksum of the raw catalog `{}`. -/
def emptyObjectHash : String :=
  "44136fa355b3678a1146ad16f7e8649e94fb4fc21fe77e8310c060f61caaff8a"

/-- A refresh of a catalog with one story for ages 3 to 5, from its begin to its activation. -/
def refreshOf (id : String) (snapshot : ℤ) (locale uuid time : String) : List Action :=
  let catalog : NormalizedCatalog := ⟨[0x7b,0x7d],emptyObjectHash,locale,
    [⟨uuid,"a","","","",locale,none,some 3,some 5,none,uuid,none⟩],[]⟩
  [.begin id locale time,.stage id catalog (locale++".json") time,.activate snapshot time]

def frenchRefresh : List Action :=
  refreshOf "10000000-0000-4000-8000-000000000001" 1 "fr"
    "20000000-0000-4000-8000-000000000001" "2026-01-01T00:00:00Z"

def englishRefresh : List Action :=
  refreshOf "10000000-0000-4000-8000-000000000002" 2 "en"
    "20000000-0000-4000-8000-000000000002" "2026-01-02T00:00:00Z"

def frenchArchive : String×String :=
  ("20000000-0000-4000-8000-000000000001",emptyObjectHash)

theorem one_refresh_order_independent : frenchRefresh≠[] ∧ ∀ events events',
    Interleaves frenchRefresh [frenchArchive] events →
      Interleaves frenchRefresh [frenchArchive] events' →
        ∀ a, a ∈ derivedTags (run plainEnv emptyLibrary events) ↔
          a ∈ derivedTags (run plainEnv emptyLibrary events') := by
  refine ⟨List.cons_ne_nil _ _,?_⟩
  refine (derived_tags_order_independent plainEnv emptyLibrary_stored _ _).mpr ?_
  intro last hlast
  have hfirst : lastActivated plainEnv emptyLibrary frenchRefresh=some 1 := by decide +kernel
  rw [hfirst] at hlast
  obtain rfl := Option.some.inj hlast
  decide +kernel

/-- After a French and then an English activation, a story of the French catalog has its
age when it is imported last and none when it is imported first. -/
theorem two_locales_order_dependent : ¬∀ events events',
    Interleaves (frenchRefresh++englishRefresh) [frenchArchive] events →
      Interleaves (frenchRefresh++englishRefresh) [frenchArchive] events' →
        ∀ a, a ∈ derivedTags (run plainEnv emptyLibrary events) ↔
          a ∈ derivedTags (run plainEnv emptyLibrary events') := by
  intro h
  have hsame := h
    ((frenchRefresh++englishRefresh).map Event.refresh++
      [.import frenchArchive.1 frenchArchive.2])
    (.import frenchArchive.1 frenchArchive.2::(frenchRefresh++englishRefresh).map Event.refresh)
    ⟨rfl,rfl⟩ ⟨rfl,rfl⟩ ⟨1,1,some 1,.derived⟩
  revert hsame
  decide +kernel

end Librairii.AgeOrder
