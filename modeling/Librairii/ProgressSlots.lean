import Librairii.OperationTransitions

/-!
# Progress slots

A worker has one slot for the progress of its item. Each item binds a sink of a new epoch to the
slot, and producers may keep the sink longer than the item lives. Only a sink of the slot's own
epoch changes the slot, and a sealed slot takes no further progress.
-/

namespace Librairii.ProgressSlots

open OperationRows

/-- What an executor is doing. -/
inductive Phase where
  | running
  | committing
  | compensating
  | reporting
  | reconciling
  | settling
  deriving DecidableEq

/-- `Progress::advance` refuses. -/
inductive InvalidProgress where
  | refused
  deriving DecidableEq

def advanceProgress (progress : Progress) (state : ItemState) (next : ℤ) :
    Except InvalidProgress Progress :=
  if state≠.running ∨ progress.completed<0 ∨ progress.total<0 ∨ next<progress.completed ∨
      progress.total<next then .error .refused
  else .ok {progress with completed := next}

/-- The progress of a row, which its table keeps within its total. -/
structure RowProgress extends Progress where
  /-- It is not negative. -/
  nonneg : 0≤completed
  /-- It is within its total. -/
  bounded : completed≤total

/-- The progress that is shown of an item. -/
structure ProgressUpdate (Generation : Type) where
  phase : Phase
  generation : Generation
  item : ℤ
  revision : ℕ
  completed : ℤ
  total : ℤ

/-- A slot. -/
structure Slot (Generation : Type) where
  /-- The identity of the sink that it is bound to. -/
  epoch : ℕ
  latest : Option (ProgressUpdate Generation)
  sealed : Bool
  dirty : Bool
  saved : ℤ
  isExport : Bool

/-- A slot that shares a flag with the thread it wakes. -/
structure World (Generation : Type) where
  slot : Slot Generation
  /-- The flag. -/
  wake : Bool
  next : ℕ

/-- A call on a sink, given by its epoch. -/
inductive Call where
  | advance (epoch : ℕ) (completed : ℤ)
  | phase (epoch : ℕ) (phase : Phase)
  | ownedPhase (epoch : ℕ) (phase : Phase)
  | sealing (epoch : ℕ)

def Call.epoch : Call → ℕ
  | .advance epoch _ | .phase epoch _ | .ownedPhase epoch _ | .sealing epoch => epoch

def Call.advances : Call → Bool
  | .advance _ _ => true
  | _ => false

def Call.reports : Call → Bool
  | .advance _ _ | .phase _ _ => true
  | _ => false

/-- What happens to a slot. -/
inductive Event (Generation : Type) where
  /-- The sink of an item is bound to it. -/
  | bind (generation : Generation) (item : ℤ) (progress : RowProgress) (isExport : Bool)
  | call (call : Call)

section Steps

variable {Generation : Type}

def World.bind (w : World Generation) (generation : Generation) (item : ℤ)
    (progress : RowProgress) (isExport : Bool) : World Generation :=
  {w with
    slot := ⟨w.next,some ⟨.running,generation,item,0,progress.completed,progress.total⟩,false,true,
      progress.completed,isExport⟩
    next := w.next+1}

def World.advance (w : World Generation) (epoch : ℕ) (completed : ℤ) : World Generation×Bool :=
  if w.slot.sealed=true ∨ w.slot.epoch≠epoch then (w,false)
  else
    match w.slot.latest with
    | none => (w,false)
    | some previous =>
      match advanceProgress ⟨previous.completed,previous.total⟩ .running completed with
      | .error _ => (w,false)
      | .ok _ =>
        if previous.revision+1<2^64 then
          ({w with
            slot := {w.slot with
              latest := some {previous with completed := completed,revision := previous.revision+1}
              dirty := true}
            wake := true},true)
        else (w,false)

def World.show (w : World Generation) (phase : Phase) : World Generation :=
  {w with
    slot := {w.slot with
      latest := w.slot.latest.map fun latest => {latest with phase := phase}
      dirty := true}
    wake := true}

def World.phase (w : World Generation) (epoch : ℕ) (phase : Phase) : World Generation×Bool :=
  if w.slot.sealed=true ∨ w.slot.epoch≠epoch then (w,false) else (w.show phase,true)

def World.ownedPhase (w : World Generation) (epoch : ℕ) (phase : Phase) : World Generation :=
  if w.slot.epoch=epoch then w.show phase else w

def World.seal (w : World Generation) (epoch : ℕ) : World Generation :=
  if w.slot.epoch=epoch then {w with slot := {w.slot with sealed := true}} else w

def World.call (w : World Generation) : Call → World Generation×Bool
  | .advance epoch completed => w.advance epoch completed
  | .phase epoch phase => w.phase epoch phase
  | .ownedPhase epoch phase => (w.ownedPhase epoch phase,true)
  | .sealing epoch => (w.seal epoch,true)

def World.step (w : World Generation) : Event Generation → World Generation
  | .bind generation item progress isExport => w.bind generation item progress isExport
  | .call call => (w.call call).1

/-- Events one after the other. -/
def World.run (w : World Generation) (events : List (Event Generation)) : World Generation :=
  events.foldl World.step w

def World.calls (w : World Generation) (calls : List Call) : World Generation :=
  calls.foldl (fun w call => (w.call call).1) w

/-- How many reports of progress are accepted. -/
def World.accepted (w : World Generation) : List Call → ℕ
  | [] => 0
  | call::calls =>
    (if call.advances && (w.call call).2 then 1 else 0)+(w.call call).1.accepted calls

/-- A slot that no item has used. -/
def World.new : World Generation := ⟨⟨0,none,true,false,0,false⟩,false,1⟩

/-- What a call does to the slot of its epoch. -/
structure Reported (w after : World Generation) (advances : ℕ) : Prop where
  epoch : after.slot.epoch=w.slot.epoch
  /-- No identity is taken. -/
  next : after.next=w.next
  sealed : w.slot.sealed=true → after.slot.sealed=true
  nothing : w.slot.latest=none → after.slot.latest=none
  /-- The item is the same, and its progress only grows within its total. -/
  something : ∀ latest, w.slot.latest=some latest → ∃ newest, after.slot.latest=some newest ∧
    newest.item=latest.item ∧ newest.total=latest.total ∧
    newest.generation=latest.generation ∧ latest.completed≤newest.completed ∧
    (latest.completed≤latest.total → newest.completed≤newest.total) ∧
    newest.revision=latest.revision+advances

theorem Reported.refl (w : World Generation) : Reported w w 0 :=
  ⟨rfl,rfl,id,id,fun latest h => ⟨latest,h,rfl,rfl,rfl,le_refl _,id,rfl⟩⟩

theorem Reported.trans {w middle after : World Generation} {a b : ℕ} (h : Reported w middle a)
    (hnext : Reported middle after b) : Reported w after (a+b) := by
  refine ⟨hnext.epoch.trans h.epoch,hnext.next.trans h.next,
    fun hs => hnext.sealed (h.sealed hs),fun hn => hnext.nothing (h.nothing hn),?_⟩
  intro latest hlatest
  obtain ⟨newer,hnewer,hitem,htotal,hgeneration,hgrows,hbound,hrevision⟩ :=
    h.something latest hlatest
  obtain ⟨newest,hnewest,hitem',htotal',hgeneration',hgrows',hbound',hrevision'⟩ :=
    hnext.something newer hnewer
  exact ⟨newest,hnewest,hitem'.trans hitem,htotal'.trans htotal,hgeneration'.trans hgeneration,
    hgrows.trans hgrows',fun hb => hbound' (hbound hb),by omega⟩

theorem reported_show (w : World Generation) (phase : Phase) : Reported w (w.show phase) 0 := by
  refine ⟨rfl,rfl,id,?_,?_⟩
  · intro hnone
    exact congrArg (Option.map _) hnone
  · intro latest hlatest
    exact ⟨{latest with phase := phase},congrArg (Option.map _) hlatest,rfl,rfl,rfl,le_refl _,id,
      rfl⟩

/-- A refused report changes nothing; an accepted one is of the slot's epoch, before it is
sealed, and raises the revision by one. -/
theorem advance_cases (w : World Generation) (epoch : ℕ) (completed : ℤ) :
    w.advance epoch completed=(w,false) ∨
      (w.advance epoch completed).2=true ∧ epoch=w.slot.epoch ∧ w.slot.sealed=false ∧
        Reported w (w.advance epoch completed).1 1 := by
  rw [World.advance]
  by_cases hrefused : w.slot.sealed=true ∨ w.slot.epoch≠epoch
  · rw [if_pos hrefused]
    exact Or.inl rfl
  · rw [if_neg hrefused]
    rw [not_or,Bool.not_eq_true,not_not] at hrefused
    cases hlatest : w.slot.latest with
    | none => exact Or.inl rfl
    | some previous =>
      simp only
      rw [advanceProgress]
      by_cases hinvalid : ItemState.running≠.running ∨ previous.completed<0 ∨
          previous.total<0 ∨ completed<previous.completed ∨ previous.total<completed
      · rw [if_pos hinvalid]
        exact Or.inl rfl
      · rw [if_neg hinvalid]
        simp only
        by_cases hroom : previous.revision+1<2^64
        · rw [if_pos hroom]
          refine Or.inr ⟨rfl,hrefused.2.symm,hrefused.1,rfl,rfl,id,?_,?_⟩
          · intro hnone
            rw [hlatest] at hnone
            cases hnone
          · intro latest hsome
            rw [hlatest] at hsome
            cases hsome
            refine ⟨_,rfl,rfl,rfl,rfl,?_,?_,rfl⟩
            · change previous.completed≤completed
              omega
            · intro _
              change completed≤previous.total
              omega
        · rw [if_neg hroom]
          exact Or.inl rfl

/-- What a call does: one of another epoch and a refused one change nothing, and a sealed slot
accepts no report. -/
theorem call_cases (w : World Generation) (call : Call) :
    Reported w (w.call call).1 (if call.advances && (w.call call).2 then 1 else 0) ∧
      (call.epoch≠w.slot.epoch → (w.call call).1=w ∧ (call.reports=true → (w.call call).2=false)) ∧
      ((w.call call).2=false → (w.call call).1=w) ∧
      (w.slot.sealed=true → call.reports=true → (w.call call).2=false) := by
  cases call with
  | advance epoch completed =>
    cases advance_cases w epoch completed with
    | inl hrefused =>
      have hcall : w.call (.advance epoch completed)=(w,false) := hrefused
      rw [hcall]
      exact ⟨Reported.refl w,fun _ => ⟨rfl,fun _ => rfl⟩,fun _ => rfl,fun _ _ => rfl⟩
    | inr haccepted =>
      obtain ⟨hanswer,hepoch,hopen,hreported⟩ := haccepted
      have hcall : (w.call (.advance epoch completed)).2=true := hanswer
      rw [hcall]
      refine ⟨hreported,fun hother => absurd hepoch hother,(fun h => nomatch h),fun hs => ?_⟩
      rw [hopen] at hs
      cases hs
  | phase epoch phase =>
    by_cases hrefused : w.slot.sealed=true ∨ w.slot.epoch≠epoch
    · have hcall : w.call (.phase epoch phase)=(w,false) := if_pos hrefused
      rw [hcall]
      exact ⟨Reported.refl w,fun _ => ⟨rfl,fun _ => rfl⟩,fun _ => rfl,fun _ _ => rfl⟩
    · have hcall : w.call (.phase epoch phase)=(w.show phase,true) := if_neg hrefused
      rw [not_or,Bool.not_eq_true,not_not] at hrefused
      rw [hcall]
      refine ⟨reported_show w phase,fun hother => absurd hrefused.2.symm hother,
        (fun h => nomatch h),fun hs => ?_⟩
      rw [hrefused.1] at hs
      cases hs
  | ownedPhase epoch phase =>
    refine ⟨?_,fun hother => ⟨if_neg fun he => hother he.symm,(fun h => nomatch h)⟩,
      (fun h => nomatch h),(fun _ h => nomatch h)⟩
    change Reported w (w.ownedPhase epoch phase) 0
    rw [World.ownedPhase]
    split
    · exact reported_show w phase
    · exact Reported.refl w
  | sealing epoch =>
    refine ⟨?_,fun hother => ⟨if_neg fun he => hother he.symm,(fun h => nomatch h)⟩,
      (fun h => nomatch h),(fun _ h => nomatch h)⟩
    change Reported w (w.seal epoch) 0
    rw [World.seal]
    split
    · exact ⟨rfl,rfl,fun _ => rfl,id,
        fun latest hlatest => ⟨latest,hlatest,rfl,rfl,rfl,le_refl _,id,rfl⟩⟩
    · exact Reported.refl w

theorem calls_reported (w : World Generation) (calls : List Call) :
    Reported w (w.calls calls) (w.accepted calls) := by
  induction calls generalizing w with
  | nil => exact Reported.refl w
  | cons call calls ih => exact (call_cases w call).1.trans (ih (w.call call).1)

/-- A slot whose progress is within its total, bound to a sink that exists. -/
structure Bounded (w : World Generation) : Prop where
  epoch : w.slot.epoch<w.next
  progress : ∀ latest, w.slot.latest=some latest → latest.completed≤latest.total

theorem new_bounded : Bounded (World.new : World Generation) := by
  refine ⟨Nat.zero_lt_one,fun latest h => ?_⟩
  cases h

theorem step_bounded {w : World Generation} (h : Bounded w) (event : Event Generation) :
    Bounded (w.step event) ∧ w.slot.epoch≤(w.step event).slot.epoch := by
  cases event with
  | bind generation item progress isExport =>
    refine ⟨⟨Nat.lt_succ_self w.next,?_⟩,h.epoch.le⟩
    intro latest hlatest
    cases hlatest
    exact progress.bounded
  | call call =>
    have hreported := (call_cases w call).1
    refine ⟨⟨?_,?_⟩,hreported.epoch.ge⟩
    · change (w.call call).1.slot.epoch<(w.call call).1.next
      rw [hreported.epoch,hreported.next]
      exact h.epoch
    · intro newest hnewest
      cases hlatest : w.slot.latest with
      | none =>
        have hnone := hreported.nothing hlatest
        rw [World.step,hnone] at hnewest
        cases hnewest
      | some latest =>
        obtain ⟨found,hfound,_,_,_,_,hbound,_⟩ := hreported.something latest hlatest
        rw [World.step,hfound] at hnewest
        cases hnewest
        exact hbound (h.progress latest hlatest)

theorem run_bounded {w : World Generation} (h : Bounded w) (events : List (Event Generation)) :
    Bounded (w.run events) ∧ w.slot.epoch≤(w.run events).slot.epoch := by
  induction events generalizing w with
  | nil => exact ⟨h,le_refl _⟩
  | cons event events ih =>
    obtain ⟨hnext,hgrows⟩ := step_bounded h event
    obtain ⟨hlast,hlater⟩ := ih hnext
    exact ⟨hlast,hgrows.trans hlater⟩

end Steps

/-- Progress of items never mixes. In every interleaving a sink of another epoch changes nothing,
now and ever after when it is an earlier one; within an epoch the item, total and generation stay,
the progress grows within its total and the revision counts the accepted reports; a sealed slot
accepts none, and a refused call changes nothing. -/
theorem progress_never_mixes {Generation : Type} (events : List (Event Generation)) :
    let w : World Generation := World.new.run events
    (∀ call : Call, call.epoch≠w.slot.epoch →
      (w.call call).1=w ∧ (call.reports=true → (w.call call).2=false)) ∧
    (∀ generation item progress isExport,
      w.slot.epoch<(w.bind generation item progress isExport).slot.epoch) ∧
    (∀ (later : List (Event Generation)) (call : Call), call.epoch<w.slot.epoch →
      ((w.run later).call call).1=w.run later ∧
        (call.reports=true → ((w.run later).call call).2=false)) ∧
    (∀ latest, w.slot.latest=some latest → latest.completed≤latest.total) ∧
    (∀ calls, Reported w (w.calls calls) (w.accepted calls)) ∧
    ((w.seal w.slot.epoch).slot.sealed=true ∧
      (w.slot.sealed=true → ∀ calls call, Call.reports call=true →
        ((w.calls calls).call call).2=false)) ∧
    ∀ call, (w.call call).2=false → (w.call call).1=w := by
  have hnew : Bounded (World.new : World Generation) := new_bounded
  obtain ⟨hbounded,_⟩ := run_bounded hnew events
  refine ⟨fun call => (call_cases _ call).2.1,fun _ _ _ _ => hbounded.epoch,?_,
    hbounded.progress,calls_reported _,⟨?_,?_⟩,fun call => (call_cases _ call).2.2.1⟩
  · intro later call hearlier
    have hgrows := (run_bounded hbounded later).2
    exact (call_cases _ call).2.1 (by omega)
  · rw [World.seal,if_pos rfl]
  · intro hsealed calls call hreports
    exact (call_cases _ call).2.2.2 ((calls_reported _ calls).sealed hsealed) hreports

end Librairii.ProgressSlots
