import Mathlib

/-!
# The library switch gate

Library uses are admitted while the gate is active. A switch stops intake, asks
whether operations are idle, waits until no use is live, asks again, and is then
held by its caller, who activates a new generation or drops it. The gate's own
counters change in critical sections; the uses and the switches that exist are
part of the system's state, and the steps of all threads interleave.
-/

namespace Librairii.LibraryGate

/-- Which work the gate admits. -/
inductive Phase where
  | active
  | draining
  | recovery
  deriving DecidableEq

/-- Why an admission is refused. -/
inductive LifecycleError where
  | busy
  | recoveryRequired
  deriving DecidableEq

/-- The counters behind the gate's mutex; a generation is the index of its allocation. -/
structure State where
  phase : Phase
  uses : ℕ
  mutators : ℕ
  generation : ℕ

/-- An admitted use of the library. -/
structure LibraryUse where
  generation : ℕ
  mutation : Bool
  deriving DecidableEq

/-- How far a switch has come: the two idle questions around the drain, the return to an
unchanged library after a refusal, and the caller's hold. -/
inductive Stage where
  | idleBefore
  | draining
  | idleAfter
  | restoring
  | held
  deriving DecidableEq

/-- A switch that exists, with the answers its idle questions got. -/
structure Switch where
  stage : Stage
  generation : ℕ
  recovery : Bool
  before : Option Bool
  after : Option Bool

/-- The gate with the uses and switches that exist, and the next fresh generation. -/
structure System where
  gate : State
  live : List LibraryUse
  switches : List Switch
  fresh : ℕ

def System.new : System := ⟨⟨.active,0,0,0⟩,[],[],1⟩

/-- The atomic steps of the threads. Uses and switches are named by their place. -/
inductive Action where
  | enter (mutation : Bool)
  | dropUse (i : ℕ)
  | beginSwitch
  | operationsIdle (i : ℕ) (answer : Bool)
  /-- The wait of a switch finds no use. -/
  | drained (i : ℕ)
  /-- A refused switch restores the unchanged library. -/
  | restoreUnchanged (i : ℕ)
  | beginRecovery
  /-- The holder activates a new generation. -/
  | activated (i : ℕ)
  /-- A switch is dropped unsettled: by its holder, or by a callback that unwinds. -/
  | dropSwitch (i : ℕ)

/-- What a step tells its thread. -/
inductive Reply where
  | none
  | admitted (use : LibraryUse)
  | refused (error : LifecycleError)
  | switched
  | generation (generation : ℕ)
  deriving DecidableEq

def usizeBound : ℕ := 2^64

/-- Admit a use while the gate is active. -/
def enterKind (s : System) (mutation : Bool) : System×Reply :=
  if s.gate.phase≠.active then (s,.refused .busy)
  else if usizeBound ≤ s.gate.uses+1 then (s,.refused .busy)
  else if usizeBound ≤ s.gate.mutators+mutation.toNat then (s,.refused .busy)
  else
    let use : LibraryUse := ⟨s.gate.generation,mutation⟩
    ({ s with
      gate := { s.gate with
        uses := s.gate.uses+1, mutators := s.gate.mutators+mutation.toNat }
      live := use::s.live },.admitted use)

/-- Stop intake for a switch; mutators refuse it. -/
def beginSwitch (s : System) : System×Reply :=
  if s.gate.phase≠.active ∨ s.gate.mutators≠0 then (s,.refused .busy)
  else ({ s with
    gate := { s.gate with phase := .draining }
    switches := ⟨.idleBefore,s.gate.generation,false,.none,.none⟩::s.switches },.none)

/-- Take a switch out of recovery while no use is live. -/
def beginRecovery (s : System) : System×Reply :=
  if s.gate.phase≠.recovery ∨ s.gate.uses≠0 then (s,.refused .busy)
  else ({ s with
    gate := { s.gate with phase := .draining }
    switches := ⟨.held,s.gate.generation,true,.none,.none⟩::s.switches },.switched)

def dropUse (s : System) (i : ℕ) (use : LibraryUse) : System×Reply :=
  ({ s with
    gate := { s.gate with
      uses := s.gate.uses-1, mutators := s.gate.mutators-use.mutation.toNat }
    live := s.live.eraseIdx i },.none)

def operationsIdle (s : System) (i : ℕ) (switch : Switch) (answer : Bool) :
    Option (System×Reply) :=
  match switch.stage with
  | .idleBefore => some ({ s with switches := s.switches.set i { switch with
      before := some answer, stage := if answer then .draining else .restoring } },.none)
  | .idleAfter => some ({ s with switches := s.switches.set i { switch with
      after := some answer, stage := if answer then .held else .restoring } },
      if answer then .switched else .none)
  | _ => none

/-- One step; none where the thread cannot take it. -/
def step (s : System) : Action → Option (System×Reply)
  | .enter mutation => some (enterKind s mutation)
  | .dropUse i => (s.live[i]?).map (dropUse s i)
  | .beginSwitch => some (beginSwitch s)
  | .operationsIdle i answer => (s.switches[i]?).bind fun switch => operationsIdle s i switch answer
  | .drained i => (s.switches[i]?).bind fun switch =>
    if switch.stage=.draining ∧ s.gate.uses=0 then
      some ({ s with switches := s.switches.set i { switch with stage := .idleAfter } },.none)
    else none
  | .restoreUnchanged i => (s.switches[i]?).bind fun switch =>
    if switch.stage=.restoring then
      some ({ s with
        gate := { s.gate with phase := .active }, switches := s.switches.eraseIdx i },
        .refused .busy)
    else none
  | .beginRecovery => some (beginRecovery s)
  | .activated i => (s.switches[i]?).bind fun switch =>
    if switch.stage=.held then
      some ({ s with
        gate := { s.gate with phase := .active, generation := s.fresh }
        switches := s.switches.eraseIdx i
        fresh := s.fresh+1 },.generation s.fresh)
    else none
  | .dropSwitch i => (s.switches[i]?).bind fun switch =>
    if switch.stage ∈ [.idleBefore,.idleAfter,.held] then
      some ({ s with
        gate := { s.gate with phase := .recovery }, switches := s.switches.eraseIdx i },.none)
    else none

/-- One thread takes a step. -/
def Next (s s' : System) : Prop := ∃ action reply, step s action=some (s',reply)

/-- The systems any interleaving reaches. -/
def Reachable (s : System) : Prop := Relation.ReflTransGen Next .new s

/-- What holds of the one switch that exists. -/
structure SwitchInvariant (s : System) (switch : Switch) : Prop where
  generation : switch.generation=s.gate.generation
  drained : switch.stage=.idleAfter ∨ switch.stage=.held → s.live=[]
  /-- The first answer let it drain. -/
  before : switch.stage=.draining ∨ switch.stage=.idleAfter → switch.before=some true
  /-- A held switch was begun from recovery or got both answers. -/
  held : switch.stage=.held →
    switch.recovery=true ∨ switch.before=some true ∧ switch.after=some true
  recovery : switch.recovery=true → switch.stage=.held

/-- What every reachable system keeps. -/
structure Invariant (s : System) : Prop where
  uses : s.gate.uses=s.live.length
  mutators : s.gate.mutators=s.live.countP LibraryUse.mutation
  current : ∀ use ∈ s.live, use.generation=s.gate.generation
  fresh : s.gate.generation<s.fresh
  /-- There is one switch while draining and none otherwise. -/
  switches : if s.gate.phase=.draining then ∃ switch, s.switches=[switch] ∧ SwitchInvariant s switch
    else s.switches=[]

theorem Invariant.draining {s : System} (hs : Invariant s) (h : s.gate.phase=.draining) :
    ∃ switch, s.switches=[switch] ∧ SwitchInvariant s switch := by
  have hswitches := hs.switches
  rwa [if_pos h] at hswitches

theorem Invariant.no_switch {s : System} (hs : Invariant s) (h : s.gate.phase≠.draining) :
    s.switches=[] := by
  have hswitches := hs.switches
  rwa [if_neg h] at hswitches

theorem Invariant.named {s : System} (hs : Invariant s) {i : ℕ} {switch : Switch}
    (h : s.switches[i]?=some switch) :
    s.gate.phase=.draining ∧ i=0 ∧ s.switches=[switch] ∧ SwitchInvariant s switch := by
  by_cases hp : s.gate.phase=.draining
  · obtain ⟨other,hother,hinv⟩ := hs.draining hp
    rw [hother] at h
    cases i with
    | zero =>
      cases h
      exact ⟨hp,rfl,hother,hinv⟩
    | succ i => cases h
  · rw [hs.no_switch hp] at h
    cases h

theorem invariant_new : Invariant .new where
  uses := rfl
  mutators := rfl
  current := by simp [System.new]
  fresh := Nat.zero_lt_one
  switches := rfl

section Steps

variable {s s' : System} {reply : Reply}

theorem enterKind_invariant (hs : Invariant s) (mutation : Bool) :
    Invariant (enterKind s mutation).1 := by
  unfold enterKind
  split
  · exact hs
  · next hp =>
    have hactive : s.gate.phase=.active := not_not.mp hp
    split
    · exact hs
    · split
      · exact hs
      · refine ⟨?_,?_,?_,hs.fresh,?_⟩
        · simp [hs.uses]
        · cases mutation <;> simp [hs.mutators]
        · intro use hm
          rcases List.mem_cons.mp hm with rfl | hm
          · rfl
          · exact hs.current use hm
        · have hnone := hs.no_switch (by simp [hactive])
          simp [hactive,hnone]

theorem beginSwitch_invariant (hs : Invariant s) : Invariant (beginSwitch s).1 := by
  unfold beginSwitch
  split
  · exact hs
  · next hp =>
    have hactive : s.gate.phase=.active := by
      by_contra hne
      exact hp (.inl hne)
    have hnone := hs.no_switch (by simp [hactive])
    refine ⟨hs.uses,hs.mutators,hs.current,hs.fresh,?_⟩
    simp only [if_true,hnone]
    exact ⟨_,rfl,⟨rfl,by simp,by simp,by simp,by simp⟩⟩

theorem beginRecovery_invariant (hs : Invariant s) : Invariant (beginRecovery s).1 := by
  unfold beginRecovery
  split
  · exact hs
  · next hp =>
    have hrecovery : s.gate.phase=.recovery := by
      by_contra hne
      exact hp (.inl hne)
    have huses : s.gate.uses=0 := by
      by_contra hne
      exact hp (.inr hne)
    have hlive : s.live=[] := List.eq_nil_of_length_eq_zero (hs.uses ▸ huses)
    have hnone := hs.no_switch (by simp [hrecovery])
    refine ⟨hs.uses,hs.mutators,hs.current,hs.fresh,?_⟩
    simp only [if_true,hnone]
    exact ⟨_,rfl,⟨rfl,fun _ => hlive,by simp,fun _ => .inl rfl,fun _ => rfl⟩⟩

theorem dropUse_invariant (hs : Invariant s) {i : ℕ} {use : LibraryUse}
    (h : s.live[i]?=some use) : Invariant (dropUse s i use).1 := by
  obtain ⟨hi,hget⟩ := List.getElem?_eq_some_iff.mp h
  have hperm : (use::s.live.eraseIdx i).Perm s.live := by
    have hp := List.getElem_cons_eraseIdx_perm hi
    rwa [hget] at hp
  have hlen := hperm.length_eq
  have hcount := hperm.countP_eq LibraryUse.mutation
  have huses := hs.uses
  have hmutators := hs.mutators
  rw [List.length_cons] at hlen
  rw [List.countP_cons] at hcount
  refine ⟨?_,?_,?_,hs.fresh,?_⟩
  · change s.gate.uses-1=(s.live.eraseIdx i).length
    omega
  · change s.gate.mutators-use.mutation.toNat=(s.live.eraseIdx i).countP LibraryUse.mutation
    cases hm : use.mutation <;> simp [hm] at hcount ⊢ <;> omega
  · intro other hm
    exact hs.current other (List.mem_of_mem_eraseIdx hm)
  · change if s.gate.phase=.draining then _ else s.switches=[]
    by_cases hp : s.gate.phase=.draining
    · rw [if_pos hp]
      obtain ⟨switch,hswitch,hinv⟩ := hs.draining hp
      refine ⟨switch,hswitch,hinv.generation,?_,hinv.before,hinv.held,hinv.recovery⟩
      intro hstage
      have hempty := hinv.drained hstage
      rw [hempty] at h
      cases h
    · rw [if_neg hp]
      exact hs.no_switch hp

theorem setSwitch_invariant (hs : Invariant s) {i : ℕ} {switch : Switch}
    (h : s.switches[i]?=some switch) {next : Switch} (hnext : SwitchInvariant s next) :
    Invariant { s with switches := s.switches.set i next } := by
  obtain ⟨hp,rfl,hswitches,-⟩ := hs.named h
  refine ⟨hs.uses,hs.mutators,hs.current,hs.fresh,?_⟩
  simp only [hp,if_true,hswitches,List.set_cons_zero]
  exact ⟨next,rfl,⟨hnext.generation,hnext.drained,hnext.before,hnext.held,hnext.recovery⟩⟩

theorem operationsIdle_invariant (hs : Invariant s) {i : ℕ} {switch : Switch} {answer : Bool}
    (h : s.switches[i]?=some switch) (ha : operationsIdle s i switch answer=some (s',reply)) :
    Invariant s' := by
  obtain ⟨-,-,-,hinv⟩ := hs.named h
  unfold operationsIdle at ha
  cases hstage : switch.stage with
  | idleBefore =>
    rw [hstage] at ha
    cases ha
    have hrecovery : switch.recovery=false := by
      cases hr : switch.recovery with
      | false => rfl
      | true => exact absurd (hinv.recovery hr) (by simp [hstage])
    apply setSwitch_invariant hs h
    cases answer with
    | true => exact ⟨hinv.generation,by simp,by simp,by simp,by simp [hrecovery]⟩
    | false => exact ⟨hinv.generation,by simp,by simp,by simp,by simp [hrecovery]⟩
  | idleAfter =>
    rw [hstage] at ha
    cases ha
    have hlive := hinv.drained (.inl hstage)
    have hbefore := hinv.before (.inr hstage)
    have hrecovery : switch.recovery=false := by
      cases hr : switch.recovery with
      | false => rfl
      | true => exact absurd (hinv.recovery hr) (by simp [hstage])
    apply setSwitch_invariant hs h
    cases answer with
    | true => exact ⟨hinv.generation,fun _ => hlive,by simp,fun _ => .inr ⟨hbefore,rfl⟩,by simp⟩
    | false => exact ⟨hinv.generation,by simp,by simp,by simp,by simp [hrecovery]⟩
  | draining =>
    rw [hstage] at ha
    cases ha
  | restoring =>
    rw [hstage] at ha
    cases ha
  | held =>
    rw [hstage] at ha
    cases ha

theorem drained_invariant (hs : Invariant s) {i : ℕ} {switch : Switch}
    (h : s.switches[i]?=some switch) (hstage : switch.stage=.draining) (huses : s.gate.uses=0) :
    Invariant { s with switches := s.switches.set i { switch with stage := .idleAfter } } := by
  obtain ⟨-,-,-,hinv⟩ := hs.named h
  have hlive : s.live=[] := List.eq_nil_of_length_eq_zero (hs.uses ▸ huses)
  have hrecovery : switch.recovery=false := by
    cases hr : switch.recovery with
    | false => rfl
    | true => exact absurd (hinv.recovery hr) (by simp [hstage])
  apply setSwitch_invariant hs h
  exact ⟨hinv.generation,fun _ => hlive,fun _ => hinv.before (.inl hstage),by simp,
    by simp [hrecovery]⟩

theorem endSwitch_invariant (hs : Invariant s) {i : ℕ} {switch : Switch}
    (h : s.switches[i]?=some switch) {phase : Phase} (hp : phase≠.draining) :
    Invariant { s with
      gate := { s.gate with phase := phase }, switches := s.switches.eraseIdx i } := by
  obtain ⟨-,rfl,hswitches,-⟩ := hs.named h
  refine ⟨hs.uses,hs.mutators,hs.current,hs.fresh,?_⟩
  simp [hp,hswitches]

theorem activated_invariant (hs : Invariant s) {i : ℕ} {switch : Switch}
    (h : s.switches[i]?=some switch) (hstage : switch.stage=.held) :
    Invariant { s with
      gate := { s.gate with phase := .active, generation := s.fresh }
      switches := s.switches.eraseIdx i
      fresh := s.fresh+1 } := by
  obtain ⟨-,rfl,hswitches,hinv⟩ := hs.named h
  have hlive := hinv.drained (.inr hstage)
  refine ⟨hs.uses,hs.mutators,?_,Nat.lt_succ_self _,?_⟩
  · simp [hlive]
  · simp [hswitches]

theorem step_invariant (hs : Invariant s) {action : Action}
    (h : step s action=some (s',reply)) : Invariant s' := by
  cases action with
  | enter mutation =>
    have hi := enterKind_invariant hs mutation
    rw [Option.some.inj h] at hi
    exact hi
  | dropUse i =>
    obtain ⟨use,huse,hdrop⟩ := Option.map_eq_some_iff.mp h
    have hi := dropUse_invariant hs huse
    rw [hdrop] at hi
    exact hi
  | beginSwitch =>
    have hi := beginSwitch_invariant hs
    rw [Option.some.inj h] at hi
    exact hi
  | operationsIdle i answer =>
    obtain ⟨switch,hswitch,ha⟩ := Option.bind_eq_some_iff.mp h
    exact operationsIdle_invariant hs hswitch ha
  | drained i =>
    obtain ⟨switch,hswitch,ha⟩ := Option.bind_eq_some_iff.mp h
    split at ha
    · next hd =>
      cases ha
      exact drained_invariant hs hswitch hd.1 hd.2
    · cases ha
  | restoreUnchanged i =>
    obtain ⟨switch,hswitch,ha⟩ := Option.bind_eq_some_iff.mp h
    split at ha
    · cases ha
      exact endSwitch_invariant hs hswitch (by simp)
    · cases ha
  | beginRecovery =>
    have hi := beginRecovery_invariant hs
    rw [Option.some.inj h] at hi
    exact hi
  | activated i =>
    obtain ⟨switch,hswitch,ha⟩ := Option.bind_eq_some_iff.mp h
    split at ha
    · next hheld =>
      cases ha
      exact activated_invariant hs hswitch hheld
    · cases ha
  | dropSwitch i =>
    obtain ⟨switch,hswitch,ha⟩ := Option.bind_eq_some_iff.mp h
    split at ha
    · cases ha
      exact endSwitch_invariant hs hswitch (by simp)
    · cases ha

end Steps

theorem path_invariant {s t : System} (hs : Invariant s) (h : Relation.ReflTransGen Next s t) :
    Invariant t := by
  induction h with
  | refl => exact hs
  | tail _ hnext ih =>
    obtain ⟨action,reply,hstep⟩ := hnext
    exact step_invariant ih hstep

theorem reachable_invariant {s : System} (h : Reachable s) : Invariant s :=
  path_invariant invariant_new h

/-- A switch from recovery is held. -/
def Recovering (s : System) : Prop :=
  s.gate.phase=.draining ∧ ∃ switch, s.switches=[switch] ∧ switch.recovery=true

section Recovery

variable {s s' : System} {reply : Reply} {action : Action}

theorem enterKind_refused (hp : s.gate.phase≠.active) (mutation : Bool) :
    enterKind s mutation=(s,.refused .busy) := by
  unfold enterKind
  rw [if_pos hp]

theorem beginSwitch_refused (hp : s.gate.phase≠.active) : beginSwitch s=(s,.refused .busy) := by
  unfold beginSwitch
  rw [if_pos (.inl hp)]

theorem recovery_step (hs : Invariant s) (hp : s.gate.phase=.recovery)
    (h : step s action=some (s',reply)) :
    s'.gate.phase=.recovery ∧ s'.fresh=s.fresh ∨
      action=.beginRecovery ∧ reply=.switched ∧ s.live=[] ∧ Recovering s' ∧ s'.fresh=s.fresh := by
  have hactive : s.gate.phase≠.active := by simp [hp]
  have hnone := hs.no_switch (by simp [hp])
  cases action with
  | enter mutation =>
    rw [step,enterKind_refused hactive] at h
    cases h
    exact .inl ⟨hp,rfl⟩
  | dropUse i =>
    obtain ⟨use,-,hdrop⟩ := Option.map_eq_some_iff.mp h
    cases hdrop
    exact .inl ⟨hp,rfl⟩
  | beginSwitch =>
    rw [step,beginSwitch_refused hactive] at h
    cases h
    exact .inl ⟨hp,rfl⟩
  | beginRecovery =>
    rw [step,beginRecovery] at h
    split at h
    · cases h
      exact .inl ⟨hp,rfl⟩
    · next hok =>
      cases h
      have huses : s.gate.uses=0 := by
        by_contra hne
        exact hok (.inr hne)
      have hlive : s.live=[] := List.eq_nil_of_length_eq_zero (hs.uses ▸ huses)
      exact .inr ⟨rfl,rfl,hlive,⟨rfl,_,by rw [hnone],rfl⟩,rfl⟩
  | operationsIdle i answer => simp [step,hnone] at h
  | drained i => simp [step,hnone] at h
  | restoreUnchanged i => simp [step,hnone] at h
  | activated i => simp [step,hnone] at h
  | dropSwitch i => simp [step,hnone] at h

/-- A step while a switch from recovery is held keeps it, drops it into recovery, or
activates a fresh generation while no use is live. -/
theorem recovering_step (hs : Invariant s) (hr : Recovering s) (h : step s action=some (s',reply)) :
    (Recovering s' ∨ s'.gate.phase=.recovery) ∧ s'.fresh=s.fresh ∨
      (∃ i, action=.activated i) ∧ reply=.generation s.fresh ∧ s.live=[] := by
  obtain ⟨hp,switch,hswitch,hrecovery⟩ := hr
  obtain ⟨other,hother,hinv⟩ := hs.draining hp
  rw [hswitch] at hother
  cases hother
  have hheld := hinv.recovery hrecovery
  have hlive := hinv.drained (.inr hheld)
  have hactive : s.gate.phase≠.active := by simp [hp]
  have hkept : Recovering s := ⟨hp,switch,hswitch,hrecovery⟩
  have hnamed : ∀ {i : ℕ} {w : Switch}, s.switches[i]?=some w → w.stage=.held := by
    intro i w hw
    obtain ⟨-,-,hone,-⟩ := hs.named hw
    rw [hswitch] at hone
    cases hone
    exact hheld
  cases action with
  | enter mutation =>
    rw [step,enterKind_refused hactive] at h
    cases h
    exact .inl ⟨.inl hkept,rfl⟩
  | dropUse i => simp [step,hlive] at h
  | beginSwitch =>
    rw [step,beginSwitch_refused hactive] at h
    cases h
    exact .inl ⟨.inl hkept,rfl⟩
  | beginRecovery =>
    rw [step,beginRecovery,if_pos (.inl (by simp [hp]))] at h
    cases h
    exact .inl ⟨.inl hkept,rfl⟩
  | operationsIdle i answer =>
    obtain ⟨w,hw,ha⟩ := Option.bind_eq_some_iff.mp h
    simp [operationsIdle,hnamed hw] at ha
  | drained i =>
    obtain ⟨w,hw,ha⟩ := Option.bind_eq_some_iff.mp h
    simp [hnamed hw] at ha
  | restoreUnchanged i =>
    obtain ⟨w,hw,ha⟩ := Option.bind_eq_some_iff.mp h
    simp [hnamed hw] at ha
  | activated i =>
    obtain ⟨w,hw,ha⟩ := Option.bind_eq_some_iff.mp h
    rw [if_pos (hnamed hw)] at ha
    cases ha
    exact .inr ⟨⟨i,rfl⟩,rfl,hlive⟩
  | dropSwitch i =>
    obtain ⟨w,hw,ha⟩ := Option.bind_eq_some_iff.mp h
    rw [if_pos (by simp [hnamed hw])] at ha
    cases ha
    exact .inl ⟨.inr rfl,rfl⟩

end Recovery

/-- A path that activates a fresh generation from a held switch while no use is live. -/
def Activates (s t : System) : Prop := ∃ held after i, Relation.ReflTransGen Next s held ∧
  held.live=[] ∧ step held (.activated i)=some (after,.generation held.fresh) ∧
  s.fresh≤held.fresh ∧ Relation.ReflTransGen Next after t

/-- A path that begins a recovery while no use is live and then activates. -/
def Recovers (s t : System) : Prop := ∃ before opened, Relation.ReflTransGen Next s before ∧
  before.live=[] ∧ step before .beginRecovery=some (opened,.switched) ∧ s.fresh≤opened.fresh ∧
  Activates opened t

/-- Every path from recovery to an active gate recovers, and every one from a switch held
for recovery activates. -/
theorem path_recovers {s t : System} (hs : Invariant s) (h : Relation.ReflTransGen Next s t)
    (ht : t.gate.phase=.active) :
    (s.gate.phase=.recovery → Recovers s t) ∧ (Recovering s → Activates s t) := by
  induction h using Relation.ReflTransGen.head_induction_on with
  | refl =>
    constructor
    · intro hp
      rw [hp] at ht
      cases ht
    · intro hr
      rw [hr.1] at ht
      cases ht
  | @head u v hnext hpath ih =>
    obtain ⟨action,reply,hstep⟩ := hnext
    obtain ⟨hrecovers,hactivates⟩ := ih (step_invariant hs hstep)
    have hone : Relation.ReflTransGen Next u v := .single ⟨action,reply,hstep⟩
    constructor
    · intro hp
      rcases recovery_step hs hp hstep with ⟨hp',hfresh⟩ | ⟨rfl,rfl,hlive,hr,hfresh⟩
      · obtain ⟨before,opened,hbefore,hlive,hbegin,hle,ha⟩ := hrecovers hp'
        exact ⟨before,opened,hone.trans hbefore,hlive,hbegin,by omega,ha⟩
      · exact ⟨_,_,.refl,hlive,hstep,by omega,hactivates hr⟩
    · intro hr
      rcases recovering_step hs hr hstep with ⟨hr',hfresh⟩ | ⟨⟨i,rfl⟩,rfl,hlive⟩
      · have ha : Activates v t := by
          rcases hr' with hr' | hp'
          · exact hactivates hr'
          · obtain ⟨before,opened,hbefore,-,hbegin,hle,held,after,i,hheld,hlive,hact,hle',hafter⟩ :=
              hrecovers hp'
            have hopened : Relation.ReflTransGen Next before opened := .single ⟨_,_,hbegin⟩
            exact ⟨held,after,i,hbefore.trans (hopened.trans hheld),hlive,hact,by omega,hafter⟩
        obtain ⟨held,after,i,hheld,hlive,hact,hle,hafter⟩ := ha
        exact ⟨held,after,i,hone.trans hheld,hlive,hact,by omega,hafter⟩
      · exact ⟨_,_,i,.refl,hlive,hstep,Nat.le_refl _,hpath⟩

/-- What the gate guarantees in a system. -/
structure Guarantees (s : System) : Prop where
  current : s.gate.phase=.active → ∀ use ∈ s.live, use.generation=s.gate.generation
  uses : s.gate.uses=s.live.length
  mutators : s.gate.mutators=s.live.countP LibraryUse.mutation
  /-- There is at most one switch. -/
  single : s.switches.length≤1
  /-- While a switch exists no use is admitted. -/
  closed : s.switches≠[] → ∀ mutation, step s (.enter mutation)=some (s,.refused .busy)
  /-- A switch is returned when no use is live, after two idle answers. -/
  returned : ∀ i answer s', step s (.operationsIdle i answer)=some (s',.switched) →
    s'.live=[] ∧ ∃ switch, s'.switches=[switch] ∧ switch.before=some true ∧
      switch.after=some true
  refused : ∀ s' error, step s .beginSwitch=some (s',.refused error) → s'=s
  /-- A switch refused after intake was stopped leaves the active phase with the
  generation it was begun under, and the same uses. -/
  restored : ∀ i s' reply, step s (.restoreUnchanged i)=some (s',reply) →
    s'.gate.phase=.active ∧ s'.live=s.live ∧
      ∃ switch, s.switches=[switch] ∧ s'.gate.generation=switch.generation
  dropped : ∀ i s' reply, step s (.dropSwitch i)=some (s',reply) →
    s'.gate.phase=.recovery ∧ s'.gate.generation=s.gate.generation
  /-- From recovery only a recovery begun and then activated, both with no use live,
  returns to the active phase, under a fresh generation. -/
  recovers : s.gate.phase=.recovery → ∀ t, Relation.ReflTransGen Next s t →
    t.gate.phase=.active → s.gate.generation<s.fresh ∧ Recovers s t

theorem refused_while_draining : ∃ s s', Reachable s ∧
    step s .beginSwitch=some (s',.refused .busy) ∧ s'.gate.phase≠.active := by
  have hbegin : Next .new (beginSwitch .new).1 := ⟨.beginSwitch,.none,rfl⟩
  exact ⟨_,_,.single hbegin,rfl,by decide⟩

/-- Every interleaving of uses, switches, recoveries and drops keeps the guarantees. -/
theorem gate_guarantees {s : System} (h : Reachable s) : Guarantees s := by
  have hs := reachable_invariant h
  refine ⟨fun _ => hs.current,hs.uses,hs.mutators,?_,?_,?_,?_,?_,?_,?_⟩
  · by_cases hp : s.gate.phase=.draining
    · obtain ⟨switch,hswitch,-⟩ := hs.draining hp
      simp [hswitch]
    · simp [hs.no_switch hp]
  · intro hne mutation
    have hp : s.gate.phase≠.active := by
      intro hp
      exact hne (hs.no_switch (by simp [hp]))
    rw [step,enterKind_refused hp]
  · intro i answer s' hstep
    obtain ⟨switch,hswitch,ha⟩ := Option.bind_eq_some_iff.mp hstep
    obtain ⟨-,rfl,hone,hinv⟩ := hs.named hswitch
    unfold operationsIdle at ha
    cases hstage : switch.stage with
    | idleAfter =>
      rw [hstage] at ha
      cases answer with
      | true =>
        cases ha
        refine ⟨hinv.drained (.inl hstage),{ switch with after := some true, stage := .held },?_,
          hinv.before (.inr hstage),rfl⟩
        rw [hone]
        rfl
      | false => cases ha
    | idleBefore =>
      rw [hstage] at ha
      cases ha
    | draining =>
      rw [hstage] at ha
      cases ha
    | restoring =>
      rw [hstage] at ha
      cases ha
    | held =>
      rw [hstage] at ha
      cases ha
  · intro s' error hstep
    rw [step,beginSwitch] at hstep
    split at hstep
    · cases hstep
      rfl
    · cases hstep
  · intro i s' reply hstep
    obtain ⟨switch,hswitch,ha⟩ := Option.bind_eq_some_iff.mp hstep
    obtain ⟨-,-,hone,hinv⟩ := hs.named hswitch
    split at ha
    · cases ha
      exact ⟨rfl,rfl,switch,hone,hinv.generation.symm⟩
    · cases ha
  · intro i s' reply hstep
    obtain ⟨switch,-,ha⟩ := Option.bind_eq_some_iff.mp hstep
    split at ha
    · cases ha
      exact ⟨rfl,rfl⟩
    · cases ha
  · intro hp t hpath ht
    exact ⟨hs.fresh,(path_recovers hs hpath ht).1 hp⟩

/-- A use is admitted, then a switch is begun and its callback unwinds. -/
theorem gate_guarantees_dropped : ∃ s, Guarantees s ∧ s.gate.phase=.recovery := by
  have hadmit : Next .new (enterKind .new false).1 := ⟨.enter false,_,rfl⟩
  have hbegin : Next (enterKind .new false).1 (beginSwitch (enterKind .new false).1).1 :=
    ⟨.beginSwitch,_,rfl⟩
  have hdrop : Next (beginSwitch (enterKind .new false).1).1 _ := ⟨.dropSwitch 0,_,rfl⟩
  exact ⟨_,gate_guarantees (((Relation.ReflTransGen.single hadmit).tail hbegin).tail hdrop),rfl⟩

end Librairii.LibraryGate
