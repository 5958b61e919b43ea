import Librairii.ExportStarts

/-!
# The worker of export previews

One worker prepares the requested previews of exports. A newer request supersedes an older one,
a cancellation drops it, and the plans of previews that nobody takes are discarded. The critical
sections of the handles and of the worker interleave in any order.
-/

namespace Librairii.PreviewWorker

open ExportScopes (Scope ScopeEnv Library)
open ExportPreparation (Registry Preview Prepared PreparationError Surroundings)

/-- Why a preparation has no preview. -/
inductive Failure where
  | cancelled
  | preparation (error : PreparationError)
  deriving DecidableEq

/-- The result of a preparation. -/
abbrev Outcome := Except Failure Preview

/-- A request that waits, with its own cancellation token. -/
structure Request where
  serial : ℕ
  scope : Scope

/-- What the handles and the worker share. -/
structure State where
  serial : ℕ
  queued : Option Request
  /-- Whether the token of the request in the hands of the worker is cancelled. -/
  active : Option Bool
  result : Option (ℕ×Outcome)
  discards : List ℕ
  stopping : Bool
  failed : Bool
  recovery : Bool

/-- Nothing was requested. -/
def State.new : State := ⟨0,none,none,none,[],false,false,false⟩

/-- Why a handle refuses a call. -/
inductive HandleError where
  | runtimeFenced
  | intakeClosed
  | queueFull
  | custodyRecoveryRequired
  deriving DecidableEq

/-- The plan that a result keeps registered. -/
def planOf : Outcome → List ℕ
  | .ok preview => preview.preparation.toList
  | .error _ => []

def waitingPlan (result : Option (ℕ×Outcome)) : List ℕ :=
  match result with
  | some (_,outcome) => planOf outcome
  | none => []

/-- Drop the request that waits, the result in the slot and the one being prepared. -/
def supersede (s : State) : State :=
  {s with
    active := s.active.map fun _ => true
    queued := none
    result := none
    discards := s.discards++waitingPlan s.result}

/-- Request a preview. -/
def prepare (scope : Scope) (s : State) : Except HandleError ℕ×State :=
  if s.stopping || s.failed || s.recovery then (.error .intakeClosed,s)
  else
    let s := supersede s
    if s.serial+1<2^64 then
      (.ok (s.serial+1),{s with
        serial := s.serial+1,queued := some ⟨s.serial+1,scope⟩})
    else (.error .runtimeFenced,s)

def discard (id : ℕ) (s : State) : Except HandleError Unit×State :=
  if 8 ≤ s.discards.length then (.error .queueFull,s)
  else (.ok (),{s with discards := s.discards++[id]})

def cancel (s : State) : State :=
  {supersede s with serial := if s.serial+1<2^64 then s.serial+1 else s.serial}

def takeResult (s : State) : Except HandleError (Option (ℕ×Outcome))×State :=
  if s.recovery then (.error .custodyRecoveryRequired,s)
  else if s.failed then (.error .runtimeFenced,s)
  else (.ok s.result,{s with result := none})

/-- Where the worker stands. -/
inductive Place where
  | waiting
  /-- About to discard plans. -/
  | settling (request : Option Request) (discards : List ℕ) (stopping : Bool)
  /-- About to prepare, with the registry locked. -/
  | preparing (request : Request)
  /-- About to publish, with the registry locked. -/
  | publishing (request : Request) (outcome : Outcome)
  | exited

def Place.request : Place → Option Request
  | .settling request _ _ => request
  | .preparing request | .publishing request _ => some request
  | .waiting | .exited => none

/-- The plans the worker is about to discard. -/
def Place.discards : Place → List ℕ
  | .settling _ discards _ => discards
  | _ => []

def Place.ending : Place → Bool
  | .settling _ _ stopping => stopping
  | .exited => true
  | _ => false

def Place.plan : Place → List ℕ
  | .publishing _ outcome => planOf outcome
  | _ => []

/-- The shared state, the registry and the worker, with a record of what was registered and
delivered, of the serial of the latest request that was not cancelled, and of the end. -/
structure World where
  state : State
  registry : Registry
  place : Place
  registered : List ℕ
  delivered : List (ℕ×Outcome)
  latest : Option ℕ
  /-- The first critical section of a stop has run. -/
  ended : Bool
  /-- A request was accepted after that. -/
  late : Bool

/-- A worker before its first step. -/
def World.new : World := ⟨.new,.new,.waiting,[],[],none,false,false⟩

/-- What the surroundings decide in a step of the worker. -/
structure Answer (env : ScopeEnv) where
  given : Surroundings env
  /-- The preparation ends as cancelled. -/
  interrupted : Bool
  /-- The files need a recovery. -/
  recovering : Bool

/-- Forget the plans of a registry. -/
def discardAll (r : Registry) (ids : List ℕ) : Registry := ids.foldl ExportPreparation.discard r

/-- Prepare a preview, unless that ends as cancelled. -/
def prepareFor {env : ScopeEnv} (a : Answer env) (scope : Scope) (r : Registry) :
    Outcome×Registry :=
  if a.interrupted then (.error .cancelled,r)
  else
    let reply := ExportPreparation.prepare env a.given.view a.given.library "en-GB" scope r
    (reply.1.mapError .preparation,reply.2)

def workerStep {env : ScopeEnv} (a : Answer env) (w : World) : World :=
  let s := w.state
  match w.place with
  | .waiting =>
    if !s.stopping && s.queued.isNone && s.discards.isEmpty then w
    else {w with
      state := {s with queued := none,active := s.queued.map fun _ => false,discards := []}
      place := .settling s.queued s.discards s.stopping}
  | .settling request discards stopping =>
    let registry := discardAll w.registry discards
    if stopping && registry.retained≠0 then {w with registry := registry,place := .waiting}
    else if stopping then {w with registry := registry,place := .exited}
    else match request with
      | none => {w with registry := registry,place := .waiting}
      | some request => {w with registry := registry,place := .preparing request}
  | .preparing request =>
    let reply := prepareFor a request.scope w.registry
    {w with
      registry := reply.2
      place := .publishing request reply.1
      registered := planOf reply.1++w.registered}
  | .publishing request outcome =>
    let cancelled := s.active=some true
    let s := {s with active := none}
    if w.registry.retained≠0 || a.recovering then {w with
      state := {s with recovery := true,queued := none,result := none},place := .waiting}
    else if s.stopping=false ∧ s.serial=request.serial ∧ ¬cancelled then {w with
      state := {s with result := some (request.serial,outcome)},place := .waiting}
    else {w with
      state := s
      registry := discardAll w.registry (planOf outcome)
      place := .waiting}
  | .exited => w

/-- The worker holds the registry. -/
def Place.locked : Place → Bool
  | .preparing _ | .publishing _ _ => true
  | _ => false

/-- What happens, in any order. -/
inductive Event (env : ScopeEnv) where
  | prepare (scope : Scope)
  | discard (id : ℕ)
  | cancel
  | takeResult
  /-- The first critical section of a stop. -/
  | stopCancel
  /-- The second critical section of a stop. -/
  | stopFlag
  /-- A plan is taken to start its export. -/
  | take (id : ℕ) (library : Library) (intents : List ℤ) (revalidated : Bool)
  | worker (answer : Answer env)

/-- One critical section. -/
def step {env : ScopeEnv} (w : World) : Event env → World
  | .prepare scope =>
    let reply := prepare scope w.state
    match reply.1 with
    | .ok serial => {w with
        state := reply.2,latest := some serial,late := w.late || w.ended}
    | .error _ => {w with state := reply.2}
  | .discard id => {w with state := (discard id w.state).2}
  | .cancel => {w with state := cancel w.state,latest := none}
  | .takeResult =>
    let reply := takeResult w.state
    match reply.1 with
    | .ok (some result) => {w with state := reply.2,delivered := result::w.delivered}
    | _ => {w with state := reply.2}
  | .stopCancel => {w with state := cancel w.state,latest := none,ended := true}
  | .stopFlag => if w.ended then {w with state := {w.state with stopping := true}} else w
  | .take id library intents revalidated =>
    if w.place.locked then w
    else {w with
      registry := (ExportPreparation.takePrepared w.registry id library intents revalidated).2}
  | .worker a => workerStep a w

/-- The worker and the handles after some critical sections. -/
def run {env : ScopeEnv} (events : List (Event env)) : World := events.foldl step .new

def World.serials (w : World) : List ℕ := w.delivered.map (·.1)

def World.plans (w : World) : List ℕ := w.delivered.flatMap fun d => planOf d.2

/-- Only the latest request is on its way, and no serial is delivered twice. -/
structure Single (w : World) : Prop where
  once : w.serials.Nodup
  bound : ∀ n ∈ w.serials, n≤w.state.serial
  slot : ∀ n outcome, w.state.result=some (n,outcome) → w.latest=some n ∧ n ∉ w.serials
  current : ∀ n, w.latest=some n → n≤w.state.serial
  /-- The request that waits is the latest one, and has no result. -/
  queued : ∀ request, w.state.queued=some request → w.latest=some request.serial ∧
    request.serial ∉ w.serials ∧ w.state.result=none
  /-- A request in the hands of the worker is cancelled, or the latest one without a result. -/
  held : ∀ request, w.place.request=some request → w.state.active=some true ∨
    (w.state.active=some false ∧ w.latest=some request.serial ∧ request.serial ∉ w.serials ∧
      w.state.result=none ∧ w.state.queued=none)
  /-- Between the sections of a stop nothing is on its way. -/
  ended : w.ended=true → w.late=false → w.state.result=none ∧ w.state.queued=none ∧
    ∀ request, w.place.request=some request → w.state.active=some true
  stopping : w.state.stopping=true → w.ended=true

variable {env : ScopeEnv} {w : World}

theorem Single.cancelled (h : Single w) {request : Request}
    (hheld : w.place.request=some request) : (supersede w.state).active=some true := by
  unfold supersede
  dsimp only
  rcases h.held request hheld with ha | ⟨ha,-⟩
  · rw [ha]
    rfl
  · rw [ha]
    rfl

theorem Single.superseded (h : Single w) {state : State} {latest : Option ℕ} {ended late : Bool}
    (hserial : w.state.serial ≤ state.serial) (hresult : state.result=none)
    (hactive : state.active=(supersede w.state).active)
    (hlatest : ∀ n, latest=some n → n ≤ state.serial)
    (hqueued : ∀ request, state.queued=some request → latest=some request.serial ∧
      request.serial ∉ w.serials) (hlate : ended=true → late=false → state.queued=none)
    (hstopping : state.stopping=true → ended=true) :
    Single {w with state := state,latest := latest,ended := ended,late := late} := by
  refine ⟨h.once,fun n hn => (h.bound n hn).trans hserial,?_,hlatest,?_,?_,?_,hstopping⟩
  · intro n outcome hr
    change state.result=some (n,outcome) at hr
    rw [hresult] at hr
    cases hr
  · intro request hq
    obtain ⟨h1,h2⟩ := hqueued request hq
    exact ⟨h1,h2,hresult⟩
  · intro request hheld
    exact .inl (hactive.trans (h.cancelled hheld))
  · intro he hl
    exact ⟨hresult,hlate he hl,fun request hheld => hactive.trans (h.cancelled hheld)⟩

/-- A request is refused, or supersedes what was on its way, with or without a serial. -/
theorem prepare_cases (w : World) (scope : Scope) :
    step w (.prepare scope : Event env)=w ∨
    step w (.prepare scope : Event env)={w with state := supersede w.state} ∨
    (w.state.stopping=false ∧ step w (.prepare scope : Event env)={w with
      state := {supersede w.state with
        serial := w.state.serial+1,queued := some ⟨w.state.serial+1,scope⟩}
      latest := some (w.state.serial+1)
      late := w.late || w.ended}) := by
  by_cases hclosed : (w.state.stopping || w.state.failed || w.state.recovery)=true
  · left
    simp only [step,prepare,hclosed,if_true]
  · right
    have hopen : w.state.stopping=false := by
      cases hs : w.state.stopping with
      | false => rfl
      | true => exact absurd (by rw [hs]; rfl) hclosed
    by_cases hroom : w.state.serial+1<2^64
    · right
      refine ⟨hopen,?_⟩
      simp only [step,prepare,if_neg hclosed]
      rw [show (supersede w.state).serial=w.state.serial from rfl,if_pos hroom]
    · left
      simp only [step,prepare,if_neg hclosed]
      rw [show (supersede w.state).serial=w.state.serial from rfl,if_neg hroom]

theorem takeResult_cases (w : World) : step w (.takeResult : Event env)=w ∨
    ∃ n outcome, w.state.result=some (n,outcome) ∧ step w (.takeResult : Event env)={w with
      state := {w.state with result := none}
      delivered := (n,outcome)::w.delivered} := by
  by_cases hr : w.state.recovery=true
  · left
    simp only [step,takeResult,hr,if_true]
  by_cases hf : w.state.failed=true
  · left
    simp only [step,takeResult,if_neg hr,hf,if_true]
  cases hresult : w.state.result with
  | none =>
    left
    simp only [step,takeResult,if_neg hr,if_neg hf,hresult]
    rw [←hresult]
  | some result =>
    right
    refine ⟨result.1,result.2,rfl,?_⟩
    simp only [step,takeResult,if_neg hr,if_neg hf,hresult]

/-- A request supersedes what was on its way. -/
theorem Single.prepare (h : Single w) (scope : Scope) :
    Single (step w (.prepare scope : Event env)) := by
  rcases @prepare_cases env w scope with he | he | ⟨-,he⟩
  · rw [he]
    exact h
  · rw [he]
    exact h.superseded (le_refl _) rfl rfl h.current (fun _ hq => nomatch hq) (fun _ _ => rfl)
      h.stopping
  · rw [he]
    refine h.superseded (Nat.le_succ _) rfl rfl ?_ ?_ ?_ h.stopping
    · intro n hn
      cases hn
      exact le_refl _
    · intro request hq
      cases hq
      refine ⟨rfl,fun hn => ?_⟩
      have hle := h.bound _ hn
      change w.state.serial+1≤w.state.serial at hle
      omega
    · intro hended hlate
      rw [hended,Bool.or_true] at hlate
      cases hlate

/-- A cancellation drops what was on its way. -/
theorem Single.cancel (h : Single w) (ended : Bool) (hended : w.ended=true → ended=true) :
    Single {w with state := cancel w.state,latest := none,ended := ended} := by
  have hserial : w.state.serial≤(PreviewWorker.cancel w.state).serial := by
    unfold PreviewWorker.cancel
    dsimp only
    split
    · exact Nat.le_succ _
    · exact le_refl _
  exact h.superseded hserial rfl rfl (fun _ hn => nomatch hn) (fun _ hq => nomatch hq)
    (fun _ _ => rfl)
    fun hs => hended (h.stopping hs)

theorem Single.same (h : Single w) {w' : World} (hserials : w'.serials=w.serials)
    (hserial : w'.state.serial=w.state.serial) (hlatest : w'.latest=w.latest)
    (hresult : w'.state.result=w.state.result) (hqueued : w'.state.queued=w.state.queued)
    (hplace : ∀ request, w'.place.request=some request → w.place.request=some request ∧
      w'.state.active=w.state.active) (hended : w'.ended=w.ended) (hlate : w'.late=w.late)
    (hstopping : w'.state.stopping=true → w.ended=true) : Single w' := by
  constructor
  · rw [hserials]
    exact h.once
  · rw [hserials,hserial]
    exact h.bound
  · rw [hresult,hlatest,hserials]
    exact h.slot
  · rw [hlatest,hserial]
    exact h.current
  · rw [hqueued,hlatest,hserials,hresult]
    exact h.queued
  · intro request hr
    obtain ⟨hheld,hactive⟩ := hplace request hr
    rw [hactive,hlatest,hserials,hresult,hqueued]
    exact h.held request hheld
  · rw [hended,hlate,hresult,hqueued]
    intro he hl
    obtain ⟨h1,h2,h3⟩ := h.ended he hl
    refine ⟨h1,h2,fun request hr => ?_⟩
    obtain ⟨hheld,hactive⟩ := hplace request hr
    exact hactive.trans (h3 request hheld)
  · rw [hended]
    exact hstopping

/-- While a result is in the slot nothing waits and what the worker holds is cancelled. -/
theorem Single.delivering (h : Single w) {result : ℕ×Outcome}
    (hresult : w.state.result=some result) : w.state.queued=none ∧
      ∀ request, w.place.request=some request → w.state.active=some true := by
  constructor
  · cases hq : w.state.queued with
    | none => rfl
    | some request =>
      obtain ⟨-,-,hno⟩ := h.queued request hq
      rw [hresult] at hno
      cases hno
  · intro request hheld
    rcases h.held request hheld with ha | ⟨-,-,-,hno,-⟩
    · exact ha
    · rw [hresult] at hno
      cases hno

theorem Single.takeResult (h : Single w) : Single (step w (.takeResult : Event env)) := by
  rcases @takeResult_cases env w with he | ⟨n,outcome,hresult,he⟩
  · rw [he]
    exact h
  · obtain ⟨hlatest,hfresh⟩ := h.slot n outcome hresult
    obtain ⟨hqueued,hcancelled⟩ := h.delivering hresult
    rw [he]
    refine ⟨List.nodup_cons.mpr ⟨hfresh,h.once⟩,?_,?_,h.current,?_,?_,?_,h.stopping⟩
    · intro m hm
      rcases List.mem_cons.mp hm with rfl | hm
      · exact h.current _ hlatest
      · exact h.bound m hm
    · exact fun _ _ hr => nomatch hr
    · intro request hq
      change w.state.queued=some request at hq
      rw [hqueued] at hq
      cases hq
    · exact fun request hr => .inl (hcancelled request hr)
    · exact fun _ _ => ⟨rfl,hqueued,hcancelled⟩

theorem Single.worker (h : Single w) (a : Answer env) : Single (workerStep a w) := by
  have hsame : ∀ {registry : Registry} {place : Place} {registered : List ℕ},
      (∀ request, place.request=some request → w.place.request=some request) →
      Single {w with registry := registry,place := place,registered := registered} :=
    fun hp => h.same rfl rfl rfl rfl rfl (fun request hr => ⟨hp request hr,rfl⟩) rfl rfl h.stopping
  unfold workerStep
  dsimp only
  cases hplace : w.place with
  | waiting =>
    dsimp only
    split
    · exact h
    · refine ⟨h.once,h.bound,h.slot,h.current,(fun _ hq => nomatch hq),?_,?_,h.stopping⟩
      · intro request hr
        obtain ⟨h1,h2,h3⟩ := h.queued request hr
        right
        refine ⟨?_,h1,h2,h3,rfl⟩
        change w.state.queued.map _=_
        rw [show w.state.queued=some request from hr]
        rfl
      · intro he hl
        obtain ⟨h1,h2,-⟩ := h.ended he hl
        refine ⟨h1,rfl,?_⟩
        intro request hr
        change w.state.queued=some request at hr
        rw [h2] at hr
        cases hr
  | settling request discards stopping =>
    dsimp only
    split
    · exact hsame fun _ hr => nomatch hr
    split
    · exact hsame fun _ hr => nomatch hr
    · cases request with
      | none => exact hsame fun _ hr => nomatch hr
      | some request =>
        refine hsame fun other hr => ?_
        rw [hplace]
        exact hr
  | preparing request =>
    refine hsame fun other hr => ?_
    rw [hplace]
    exact hr
  | publishing request outcome =>
    dsimp only
    split
    · exact ⟨h.once,h.bound,(fun _ _ hr => nomatch hr),h.current,(fun _ hq => nomatch hq),
        (fun _ hr => nomatch hr),(fun _ _ => ⟨rfl,rfl,fun _ hr => nomatch hr⟩),h.stopping⟩
    split
    · next hpublish =>
      obtain ⟨hopen,-,hactive⟩ := hpublish
      have hheld := h.held request (by rw [hplace]; rfl)
      rcases hheld with ha | ⟨-,hlatest,hfresh,-,hqueued⟩
      · exact absurd ha hactive
      · refine ⟨h.once,h.bound,?_,h.current,?_,(fun _ hr => nomatch hr),?_,h.stopping⟩
        · intro n other hr
          cases hr
          exact ⟨hlatest,hfresh⟩
        · intro other hq
          change w.state.queued=some other at hq
          rw [hqueued] at hq
          cases hq
        · intro he hl
          exact absurd ((h.ended he hl).2.2 request (by rw [hplace]; rfl)) hactive
    · exact h.same rfl rfl rfl rfl rfl (fun _ hr => nomatch hr) rfl rfl h.stopping
  | exited => exact h

/-- Every critical section keeps to the latest request. -/
theorem step_single (h : Single w) (event : Event env) : Single (step w event) := by
  cases event with
  | prepare scope => exact h.prepare scope
  | discard id =>
    have hdiscard : ∀ s : State, (discard id s).2={s with discards :=
      (discard id s).2.discards} := by
      intro s
      unfold PreviewWorker.discard
      split <;> rfl
    change Single {w with state := (discard id w.state).2}
    rw [hdiscard]
    exact h.same rfl rfl rfl rfl rfl (fun _ hr => ⟨hr,rfl⟩) rfl rfl h.stopping
  | cancel => exact h.cancel w.ended id
  | takeResult => exact h.takeResult
  | stopCancel => exact h.cancel true fun _ => rfl
  | stopFlag =>
    simp only [step]
    split
    · next he => exact h.same rfl rfl rfl rfl rfl (fun _ hr => ⟨hr,rfl⟩) rfl rfl fun _ => he
    · exact h
  | take id library intents revalidated =>
    simp only [step]
    split
    · exact h
    · exact h.same rfl rfl rfl rfl rfl (fun _ hr => ⟨hr,rfl⟩) rfl rfl h.stopping
  | worker a => exact h.worker a

/-- Where the plan of a preparation may still be registered. -/
structure Traced (w : World) : Prop where
  /-- A registered plan was delivered, waits in the slot, or is about to be discarded or
  published. -/
  plans : w.state.recovery=false → ∀ plan ∈ w.registry.prepared, plan.id ∈ w.plans ∨
    plan.id ∈ waitingPlan w.state.result ∨ plan.id ∈ w.state.discards ∨
    plan.id ∈ w.place.discards ∨ plan.id ∈ w.place.plan
  /-- Once the worker ends, it was delivered or is about to be discarded. -/
  ending : w.state.recovery=false → w.late=false → w.place.ending=true →
    w.ended=true ∧ ∀ plan ∈ w.registry.prepared, plan.id ∈ w.plans ∨ plan.id ∈ w.place.discards

theorem discardAll_mem {ids : List ℕ} : ∀ {r : Registry} {plan : Prepared},
    plan ∈ (discardAll r ids).prepared → plan ∈ r.prepared ∧ plan.id ∉ ids := by
  induction ids with
  | nil => exact fun h => ⟨h,List.not_mem_nil⟩
  | cons id ids ih =>
    intro r plan h
    obtain ⟨hmem,hnot⟩ := ih (r:=ExportPreparation.discard r id) h
    obtain ⟨hold,hne⟩ := List.mem_filter.mp hmem
    refine ⟨hold,?_⟩
    rintro hin
    rcases List.mem_cons.mp hin with he | hin
    · exact of_decide_eq_true hne he
    · exact hnot hin

/-- What is registered after a preparation. -/
theorem prepareFor_mem {a : Answer env} {scope : Scope} {r : Registry} {plan : Prepared}
    (h : plan ∈ (prepareFor a scope r).2.prepared) :
    plan ∈ r.prepared ∨ plan.id ∈ planOf (prepareFor a scope r).1 := by
  unfold prepareFor at h ⊢
  split
  · next hi =>
    rw [if_pos hi] at h
    exact .inl h
  next hi =>
  rw [if_neg hi] at h
  dsimp only at h ⊢
  unfold ExportPreparation.prepare at h ⊢
  split
  · next he =>
    rw [he] at h
    exact .inl h
  next scope' destination he =>
  rw [he] at h
  dsimp only at h ⊢
  cases hprobe : a.given.view.probe with
  | failed =>
    rw [hprobe] at h
    exact .inl h
  | retained =>
    rw [hprobe] at h
    exact .inl h
  | removed =>
    rw [hprobe] at h
    dsimp only at h ⊢
    cases hpreview : ExportPreparation.previewOf a.given.view destination scope' with
    | error e =>
      rw [hpreview] at h
      exact .inl h
    | ok preview =>
      rw [hpreview] at h
      dsimp only at h ⊢
      unfold ExportPreparation.register at h ⊢
      split
      · next hx =>
        rw [if_pos hx] at h
        exact .inl h
      next hx =>
      rw [if_neg hx] at h
      dsimp only at h ⊢
      split
      · next hb =>
        rw [hb] at h
        exact .inl h
      · next bytes hb =>
        rw [hb] at h
        rcases List.mem_append.mp h with hold | hnew
        · exact .inl ((ExportPreparation.evict_suffix bytes r.prepared).subset hold)
        · right
          rw [List.mem_singleton.mp hnew]
          exact List.mem_singleton.mpr rfl

/-- What is registered after a plan was taken. -/
theorem takePrepared_mem {r : Registry} {id : ℕ} {library : Library} {intents : List ℤ}
    {revalidated : Bool} {plan : Prepared}
    (h : plan ∈ (ExportPreparation.takePrepared r id library intents revalidated).2.prepared) :
    plan ∈ r.prepared := by
  unfold ExportPreparation.takePrepared at h
  split at h
  · exact h
  split at h
  · exact h
  dsimp only at h
  split at h
  · exact List.mem_of_mem_eraseP h
  split at h
  · exact List.mem_of_mem_eraseP h
  · exact List.mem_of_mem_eraseP h

theorem Traced.superseded (h : Traced w) {state : State} {latest : Option ℕ} {ended late : Bool}
    (hresult : waitingPlan state.result=[])
    (hdiscards : state.discards=w.state.discards++waitingPlan w.state.result)
    (hrecovery : state.recovery=w.state.recovery)
    (hlate : late=false → w.late=false ∧ (w.ended=true → ended=true)) :
    Traced {w with state := state,latest := latest,ended := ended,late := late} := by
  constructor
  · intro hr plan hplan
    dsimp only at hr ⊢
    rw [hresult,hdiscards]
    rcases h.plans (hrecovery.symm.trans hr) plan hplan with h1 | h1 | h1 | h1 | h1
    · exact .inl h1
    · exact .inr (.inr (.inl (List.mem_append_right _ h1)))
    · exact .inr (.inr (.inl (List.mem_append_left _ h1)))
    · exact .inr (.inr (.inr (.inl h1)))
    · exact .inr (.inr (.inr (.inr h1)))
  · intro hr hl hending
    obtain ⟨hold,hended⟩ := hlate hl
    obtain ⟨he,hplans⟩ := h.ending (hrecovery.symm.trans hr) hold hending
    exact ⟨hended he,hplans⟩

theorem Traced.fewer (h : Traced w) {registry : Registry}
    (hsub : ∀ plan ∈ registry.prepared, plan ∈ w.registry.prepared) :
    Traced {w with registry := registry} :=
  ⟨fun hr plan hp => h.plans hr plan (hsub plan hp),fun hr hl he =>
    ⟨(h.ending hr hl he).1,fun plan hp => (h.ending hr hl he).2 plan (hsub plan hp)⟩⟩

theorem Traced.worker (h : Traced w) (hs : Single w) (a : Answer env) :
    Traced (workerStep a w) := by
  unfold workerStep
  dsimp only
  cases hplace : w.place with
  | waiting =>
    dsimp only
    split
    · exact h
    · have hfrom : w.state.recovery=false → ∀ plan ∈ w.registry.prepared, plan.id ∈ w.plans ∨
          plan.id ∈ waitingPlan w.state.result ∨ plan.id ∈ w.state.discards := by
        intro hr plan hplan
        have hold := h.plans hr plan hplan
        rw [hplace] at hold
        rcases hold with h1 | h1 | h1 | h1 | h1
        · exact .inl h1
        · exact .inr (.inl h1)
        · exact .inr (.inr h1)
        · cases h1
        · cases h1
      constructor
      · intro hr plan hplan
        rcases hfrom hr plan hplan with h1 | h1 | h1
        · exact .inl h1
        · exact .inr (.inl h1)
        · exact .inr (.inr (.inr (.inl h1)))
      · intro hr hl hstopping
        have hended := hs.stopping hstopping
        have hnone := (hs.ended hended hl).1
        refine ⟨hended,fun plan hplan => ?_⟩
        rcases hfrom hr plan hplan with h1 | h1 | h1
        · exact .inl h1
        · rw [hnone] at h1
          cases h1
        · exact .inr h1
  | settling request discards stopping =>
    dsimp only
    have hfrom : w.state.recovery=false →
        ∀ plan ∈ (discardAll w.registry discards).prepared, plan.id ∈ w.plans ∨
          plan.id ∈ waitingPlan w.state.result ∨ plan.id ∈ w.state.discards := by
      intro hr plan hplan
      obtain ⟨hmem,hnot⟩ := discardAll_mem hplan
      have hold := h.plans hr plan hmem
      rw [hplace] at hold
      rcases hold with h1 | h1 | h1 | h1 | h1
      · exact .inl h1
      · exact .inr (.inl h1)
      · exact .inr (.inr h1)
      · exact absurd h1 hnot
      · cases h1
    have hplans : ∀ {place : Place}, w.state.recovery=false →
        ∀ plan ∈ (discardAll w.registry discards).prepared, plan.id ∈ w.plans ∨
          plan.id ∈ waitingPlan w.state.result ∨ plan.id ∈ w.state.discards ∨
          plan.id ∈ place.discards ∨ plan.id ∈ place.plan := by
      intro place hr plan hplan
      rcases hfrom hr plan hplan with h1 | h1 | h1
      · exact .inl h1
      · exact .inr (.inl h1)
      · exact .inr (.inr (.inl h1))
    split
    · exact ⟨hplans,fun _ _ he => nomatch he⟩
    split
    · next hstopping =>
      refine ⟨hplans,fun hr hl _ => ?_⟩
      have hending : w.place.ending=true := by
        rw [hplace]
        exact hstopping
      obtain ⟨he,hold⟩ := h.ending hr hl hending
      refine ⟨he,fun plan hplan => ?_⟩
      obtain ⟨hmem,hnot⟩ := discardAll_mem hplan
      rcases hold plan hmem with h1 | h1
      · exact .inl h1
      · rw [hplace] at h1
        exact absurd h1 hnot
    · cases request with
      | none => exact ⟨hplans,fun _ _ he => nomatch he⟩
      | some request => exact ⟨hplans,fun _ _ he => nomatch he⟩
  | preparing request =>
    refine ⟨fun hr plan hplan => ?_,fun _ _ he => nomatch he⟩
    rcases prepareFor_mem hplan with hmem | hnew
    · have hold := h.plans hr plan hmem
      rw [hplace] at hold
      rcases hold with h1 | h1 | h1 | h1 | h1
      · exact .inl h1
      · exact .inr (.inl h1)
      · exact .inr (.inr (.inl h1))
      · cases h1
      · cases h1
    · exact .inr (.inr (.inr (.inr hnew)))
  | publishing request outcome =>
    dsimp only
    split
    · exact ⟨(fun hr => nomatch hr),(fun hr => nomatch hr)⟩
    split
    · next hpublish =>
      obtain ⟨-,-,hactive⟩ := hpublish
      have hheld := hs.held request (by rw [hplace]; rfl)
      have hnone : w.state.result=none := by
        rcases hheld with ha | ⟨-,-,-,hno,-⟩
        · exact absurd ha hactive
        · exact hno
      refine ⟨fun hr plan hplan => ?_,fun _ _ he => nomatch he⟩
      have hold := h.plans hr plan hplan
      rw [hplace,hnone] at hold
      rcases hold with h1 | h1 | h1 | h1 | h1
      · exact .inl h1
      · cases h1
      · exact .inr (.inr (.inl h1))
      · cases h1
      · exact .inr (.inl h1)
    · refine ⟨fun hr plan hplan => ?_,fun _ _ he => nomatch he⟩
      obtain ⟨hmem,hnot⟩ := discardAll_mem hplan
      have hold := h.plans hr plan hmem
      rw [hplace] at hold
      rcases hold with h1 | h1 | h1 | h1 | h1
      · exact .inl h1
      · exact .inr (.inl h1)
      · exact .inr (.inr (.inl h1))
      · cases h1
      · exact absurd h1 hnot
  | exited => exact h

/-- Every critical section loses no plan. -/
theorem step_traced (h : Traced w) (hs : Single w) (event : Event env) : Traced (step w event) := by
  cases event with
  | prepare scope =>
    rcases @prepare_cases env w scope with he | he | ⟨-,he⟩
    · rw [he]
      exact h
    · rw [he]
      exact h.superseded rfl rfl rfl fun hl => ⟨hl,id⟩
    · rw [he]
      refine h.superseded rfl rfl rfl fun hl => ?_
      rw [Bool.or_eq_false_iff] at hl
      exact ⟨hl.1,id⟩
  | discard id =>
    have hdiscard : ∃ extra, (discard id w.state).2={w.state with
        discards := w.state.discards++extra} := by
      unfold PreviewWorker.discard
      split
      · exact ⟨[],by rw [List.append_nil]⟩
      · exact ⟨[id],rfl⟩
    obtain ⟨extra,he⟩ := hdiscard
    change Traced {w with state := (discard id w.state).2}
    rw [he]
    refine ⟨fun hr plan hplan => ?_,h.ending⟩
    rcases h.plans hr plan hplan with h1 | h1 | h1 | h1 | h1
    · exact .inl h1
    · exact .inr (.inl h1)
    · exact .inr (.inr (.inl (List.mem_append_left _ h1)))
    · exact .inr (.inr (.inr (.inl h1)))
    · exact .inr (.inr (.inr (.inr h1)))
  | cancel => exact h.superseded rfl rfl rfl fun hl => ⟨hl,id⟩
  | takeResult =>
    rcases @takeResult_cases env w with he | ⟨n,outcome,hresult,he⟩
    · rw [he]
      exact h
    · rw [he]
      constructor
      · intro hr plan hplan
        have hold := h.plans hr plan hplan
        rw [hresult] at hold
        rcases hold with h1 | h1 | h1 | h1 | h1
        · exact .inl (List.mem_append_right _ h1)
        · exact .inl (List.mem_append_left _ h1)
        · exact .inr (.inr (.inl h1))
        · exact .inr (.inr (.inr (.inl h1)))
        · exact .inr (.inr (.inr (.inr h1)))
      · intro hr hl hending
        obtain ⟨he,hplans⟩ := h.ending hr hl hending
        refine ⟨he,fun plan hplan => ?_⟩
        rcases hplans plan hplan with h1 | h1
        · exact .inl (List.mem_append_right _ h1)
        · exact .inr h1
  | stopCancel => exact h.superseded rfl rfl rfl fun hl => ⟨hl,fun _ => rfl⟩
  | stopFlag =>
    simp only [step]
    split
    · exact ⟨h.plans,h.ending⟩
    · exact h
  | take id library intents revalidated =>
    simp only [step]
    split
    · exact h
    · exact h.fewer fun plan hp => takePrepared_mem hp
  | worker a => exact h.worker hs a

theorem run_traced (events : List (Event env)) : Single (run events) ∧ Traced (run events) := by
  have hfold : ∀ {w : World}, Single w ∧ Traced w →
      Single (events.foldl step w) ∧ Traced (events.foldl step w) := by
    induction events with
    | nil => exact fun h => h
    | cons event events ih =>
      exact fun h => ih ⟨step_single h.1 event,step_traced h.2 h.1 event⟩
  refine hfold ⟨⟨List.nodup_nil,?_,?_,?_,?_,?_,?_,?_⟩,⟨?_,?_⟩⟩
  · exact fun _ hn => nomatch hn
  · exact fun _ _ hr => nomatch hr
  · exact fun _ hn => nomatch hn
  · exact fun _ hq => nomatch hq
  · exact fun _ hr => nomatch hr
  · exact fun he => nomatch he
  · exact fun hs => nomatch hs
  · exact fun _ _ hp => nomatch hp
  · exact fun _ _ he => nomatch he

/-- A preparation that the worker registered is settled: its plan was delivered, waits in the slot
as the result of the latest request, or is no longer registered. -/
def Settled (w : World) (id : ℕ) : Prop :=
  id ∈ w.plans ∨ (∃ n outcome, w.state.result=some (n,outcome) ∧ w.latest=some n ∧
    id ∈ planOf outcome) ∨ ∀ plan ∈ w.registry.prepared, plan.id≠id

/-- What delivering the latest previews only means of a state. -/
structure Delivers (w : World) : Prop where
  /-- A result that is delivered is that of the latest request without a cancellation. -/
  latest : ∀ n outcome, (takeResult w.state).1=.ok (some (n,outcome)) → w.latest=some n
  /-- No result is delivered twice. -/
  once : (w.delivered.map (·.1)).Nodup
  /-- While the worker is idle every preparation it registered is settled. -/
  idle : w.state.recovery=false → w.place=.waiting → w.state.queued=none →
    w.state.discards=[] → ∀ id ∈ w.registered, Settled w id
  /-- Once it has ended every preparation was delivered or is no longer registered, unless a
  request was accepted in the middle of the stop. -/
  exited : w.state.recovery=false → w.place=.exited → w.late=false →
    ∀ id ∈ w.registered, id ∈ w.plans ∨ ∀ plan ∈ w.registry.prepared, plan.id≠id

/-- Every run delivers the latest previews only and settles every preparation. -/
theorem worker_delivers (events : List (Event env)) : Delivers (run events) := by
  obtain ⟨hs,h⟩ := run_traced events
  generalize run events=w at hs h
  constructor
  · intro n outcome ht
    refine (hs.slot n outcome ?_).1
    unfold takeResult at ht
    split at ht
    · cases ht
    split at ht
    · cases ht
    · exact Except.ok.inj ht
  · exact hs.once
  · intro hr hp _ hd id _
    by_cases hmem : ∃ plan ∈ w.registry.prepared, plan.id=id
    · obtain ⟨plan,hplan,rfl⟩ := hmem
      have hold := h.plans hr plan hplan
      rw [hp,hd] at hold
      rcases hold with h1 | h1 | h1 | h1 | h1
      · exact .inl h1
      · right
        left
        cases hresult : w.state.result with
        | none =>
          rw [hresult] at h1
          cases h1
        | some result =>
          rw [hresult] at h1
          exact ⟨result.1,result.2,rfl,(hs.slot result.1 result.2 hresult).1,h1⟩
      · cases h1
      · cases h1
      · cases h1
    · exact .inr (.inr fun plan hplan he => hmem ⟨plan,hplan,he⟩)
  · intro hr hp hl id _
    by_cases hmem : ∃ plan ∈ w.registry.prepared, plan.id=id
    · obtain ⟨plan,hplan,rfl⟩ := hmem
      obtain ⟨-,hplans⟩ := h.ending hr hl (by rw [hp]; rfl)
      rcases hplans plan hplan with h1 | h1
      · exact .inl h1
      · rw [hp] at h1
        cases h1
    · exact .inr fun plan hplan he => hmem ⟨plan,hplan,he⟩

section Example

open ExportStarts (plainStart shelfGiven)

/-- The title of the story that was removed. -/
theorem gone_present : FrozenText.textPresent "Gone"=true := by decide

def shelfAnswer : Answer plainStart.toScopeEnv := ⟨shelfGiven gone_present,false,false⟩

/-- A Shelf is requested, and its preview is prepared and published. -/
def shelfEvents : List (Event plainStart.toScopeEnv) :=
  .prepare (.shelves [⟨1,by decide⟩])::List.replicate 4 (.worker shelfAnswer)

theorem shelf_registers :
    planOf (prepareFor shelfAnswer (.shelves [⟨1,by decide⟩]) .new).1=[0] ∧
    (prepareFor shelfAnswer (.shelves [⟨1,by decide⟩]) .new).2.retained=0 ∧
    (prepareFor shelfAnswer (.shelves [⟨1,by decide⟩]) .new).2.prepared.map (·.id)=[0] := by
  decide +kernel

/-- An idle worker keeps the plan of a preview registered that was not delivered. -/
theorem idle_plan_waits :
    (run shelfEvents).place=.waiting ∧ (run shelfEvents).state.queued=none ∧
    (run shelfEvents).state.discards=[] ∧ (run shelfEvents).state.recovery=false ∧
    0 ∈ (run shelfEvents).registered ∧ (run shelfEvents).delivered=[] ∧
    ∃ plan ∈ (run shelfEvents).registry.prepared, plan.id=0 := by
  obtain ⟨hplan,hretained,hprepared⟩ := shelf_registers
  have hrun : run shelfEvents=workerStep shelfAnswer {World.new with
      state := {State.new with serial := 1,active := some false}
      registry := (prepareFor shelfAnswer (.shelves [⟨1,by decide⟩]) .new).2
      place := .publishing ⟨1,.shelves [⟨1,by decide⟩]⟩
        (prepareFor shelfAnswer (.shelves [⟨1,by decide⟩]) .new).1
      registered := planOf (prepareFor shelfAnswer (.shelves [⟨1,by decide⟩]) .new).1
      latest := some 1} := by
    have hfirst : step World.new (.prepare (.shelves [⟨1,by decide⟩]) :
        Event plainStart.toScopeEnv)={World.new with
          state := {State.new with serial := 1,queued := some ⟨1,.shelves [⟨1,by decide⟩]⟩}
          latest := some 1} := rfl
    unfold run shelfEvents
    rw [List.foldl_cons,hfirst]
    simp only [List.replicate,List.foldl_cons,List.foldl_nil,step]
    refine congrArg (workerStep shelfAnswer) ?_
    simp [workerStep,State.new,World.new,discardAll]
  generalize prepareFor shelfAnswer (.shelves [⟨1,by decide⟩]) .new=reply at *
  have hpublish : run shelfEvents={World.new with
      state := {State.new with serial := 1,result := some (1,reply.1)}
      registry := reply.2
      registered := planOf reply.1
      latest := some 1} := by
    rw [hrun]
    simp [workerStep,hretained,shelfAnswer,State.new,World.new]
  rw [hpublish]
  have hmem : (0 : ℕ) ∈ reply.2.prepared.map (·.id) := by
    rw [hprepared]
    exact List.mem_singleton.mpr rfl
  obtain ⟨plan,hmem,hid⟩ := List.mem_map.mp hmem
  exact ⟨rfl,rfl,rfl,rfl,by rw [hplan]; exact List.mem_singleton.mpr rfl,rfl,plan,hmem,hid⟩
end Example

end Librairii.PreviewWorker
