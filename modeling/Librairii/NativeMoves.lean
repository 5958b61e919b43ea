import Librairii.NativeOperations

/-!
# How an undisturbed owner moves the disk of a library

Every operation moves the root directory as an undisturbed owner does: a publication
that was made stays made and no object gets a second name.
-/

namespace Librairii.NativeMoves

open InterruptedSteps NamedObjects ControlFiles ControlStages ControlMoves NativeRecords
  NativeLibraries NativeTransitions NativeReconciliation NativeCourses
  NativeOperations

def QuietRoot (s t : Disk) : Prop := Quietly s.root t.root

theorem quietRoot_refl (s : Disk) : QuietRoot s s := quietly_refl s.root

theorem quietRoot_trans (a b c : Disk) (h : QuietRoot a b) (h' : QuietRoot b c) : QuietRoot a c :=
  quietly_trans a.root b.root c.root h h'

variable {ε ε' α β γ : Type} {env : RecordEnv} {owner : Owner}

/-- An undisturbed program on the disk. -/
abbrev MovesDisk (m : Steps Disk Choice ε α) : Prop :=
  Moves Alone QuietRoot (fun _ => True) m

/-- Returning. -/
theorem disk_pure (a : α) : MovesDisk (pure a : Steps Disk Choice ε α) :=
  fun _ _ h => moved_idle quietRoot_refl h fun _ _ => trivial

theorem disk_fail (e : ε) : MovesDisk (fail e : Steps Disk Choice ε α) :=
  fun _ _ h => moved_idle quietRoot_refl h fun _ _ => trivial

/-- Checking a value. -/
theorem disk_inspect (f : Disk → Except ε α) : MovesDisk (inspect f : Steps Disk Choice ε α) :=
  moves_idle quietRoot_refl fun _ _ _ => trivial

/-- Two programs in order. -/
theorem disk_bind {m : Steps Disk Choice ε α} {f : α → Steps Disk Choice ε β}
    (hm : MovesDisk m) (hf : ∀ a, MovesDisk (f a)) : MovesDisk (m >>= f) :=
  moves_bind quietRoot_trans hm hf

/-- A program whose error is returned as a value. -/
theorem disk_attempt {m : Steps Disk Choice ε α} {k : Except ε α → Steps Disk Choice ε' β}
    (hm : MovesDisk m) (hk : ∀ r, MovesDisk (k r)) : MovesDisk (attempt m >>= k) :=
  moves_attempt_bind quietRoot_trans hm (fun a => hk (.ok a)) fun e _ => hk (.error e)

theorem disk_onRoot {B : ε → Prop} {m : Steps Control Choice ε α} (hm : MovesAlone B m) :
    MovesDisk (onRoot m) := by
  have hset : ∀ (s : Disk) (t u : Control), Quietly t u →
      QuietRoot { s with root := t } { s with root := u } := fun _ _ _ h => h
  have hfocus : Moves Alone QuietRoot B (onRoot m) := moves_focus hm hset fun _ => rfl
  intro s script hscript
  have h := hfocus s script hscript
  exact ⟨h.rest,h.passed,h.state,fun _ _ => trivial⟩

theorem disk_of_sees {B : ε → Prop} {m : Steps Disk Choice ε α} {R : Disk → α → Prop}
    (hm : ∀ t, Sees B m t (R t)) : MovesDisk m := by
  intro s script hscript
  have h := hm s script hscript
  have hstate : (m s script).state=s := by
    cases hr : (m s script).reply with
    | ok a => exact (h.result a hr).1
    | error e => exact (h.error e hr).1
  have hall : ∀ t ∈ s::(m s script).passed, t=s := by
    intro t ht
    cases List.mem_cons.mp ht with
    | inl ht => exact ht
    | inr ht => exact h.passed t ht
  refine ⟨h.rest,List.pairwise_of_forall_mem_list fun t ht u hu => ?_,fun t ht => ?_,
    fun _ _ => trivial⟩
  · rw [hall t ht,hall u hu]
    exact quietRoot_refl s
  · rw [hall t ht,hstate]
    exact quietRoot_refl s

/-- A part of a call of the owner. -/
theorem disk_keeping {m : Steps Disk Choice StorageError α} (hm : MovesDisk m) (owner : Owner) :
    MovesDisk (keeping owner m) := by
  refine disk_attempt hm fun r => ?_
  cases r with
  | ok a => exact disk_pure a
  | error e => exact disk_fail _

/-- `revalidateOwnership`. -/
theorem disk_revalidateOwnership : MovesDisk revalidateOwnership :=
  disk_of_sees fun _ => sees_revalidateOwnership

/-- `requireRootEntries`. -/
theorem disk_requireRootEntries (allowAdditions : Bool) :
    MovesDisk (onRoot (requireRootEntries allowAdditions)) :=
  disk_of_sees fun _ => sees_onRoot (sees_requireRootEntries _)

theorem disk_revalidate (record : Record) : MovesDisk (onRoot record.revalidate) :=
  disk_onRoot (moves_revalidate record)

/-- Calls that compare the managed directories. -/
theorem disk_glances (context : String) (names : List String) :
    MovesDisk (names.forM fun _ => observe context fun _ => .ok ()) :=
  disk_of_sees fun _ => sees_glances context names

theorem disk_transition (owner : Owner) (next : Document) :
    MovesDisk (owner.transition env next) := by
  refine disk_attempt (disk_onRoot (moves_transition _ _)) fun r => ?_
  cases r with
  | ok record => exact disk_pure _
  | error failure => exact disk_fail _

theorem disk_activate (owner : Owner) : MovesDisk (owner.activate env) := by
  unfold Owner.activate
  cases Owner.activated owner.record.document with
  | none => exact disk_fail _
  | some next => exact disk_transition owner next

/-- `createChild`. -/
theorem disk_createChild (name : String) : MovesDisk (createChild env name) := by
  refine disk_bind (moves_act quietRoot_refl alone_default fun c s hc => ⟨?_,fun _ _ => trivial⟩)
    fun _ => disk_bind (disk_of_sees fun _ => sees_onRoot (sees_child name)) fun _ => disk_pure _
  rw [show c.others=[] from hc]
  dsimp only [List.foldl_nil]
  cases s.root.folder.find name with
  | some i => exact quietRoot_refl s
  | none =>
    have hmade : QuietRoot s { s.touch env with
        root := { s.root with folder := s.root.folder.create name .folder } } :=
      ⟨rfl,fun h => h,fun h => h,fun h => h.create name _⟩
    cases c.fate with
    | done | lost => exact hmade
    | failed | torn n => exact quietRoot_refl s

/-- `openManaged`. -/
theorem disk_openManaged (owner : Owner) (names : List String) :
    ∀ opened, MovesDisk (owner.openManaged env opened names) := by
  induction names with
  | nil => exact fun opened => disk_pure _
  | cons name names ih =>
    intro opened
    refine disk_attempt (disk_of_sees fun _ => sees_onRoot (sees_child name)) fun r => ?_
    cases r with
    | ok i => exact ih _
    | error cause =>
      cases cause with
      | io context kind =>
        dsimp only
        split_ifs
        · exact disk_bind (disk_keeping (disk_createChild name) _) fun _ => ih _
        · exact disk_bind (disk_fail _) fun _ => ih _
      | _ => exact disk_bind (disk_fail _) fun _ => ih _

/-- `claimChecked`. -/
theorem disk_claimChecked (owner : Owner) (priorClosed recovery : Bool) :
    MovesDisk (owner.claimChecked env priorClosed recovery) := by
  unfold Owner.claimChecked
  cases owner.managed with
  | some directories =>
    have hreactivate : MovesDisk (owner.reactivate env priorClosed) := by
      unfold Owner.reactivate
      split_ifs
      · exact disk_activate owner
      · exact disk_pure _
    refine disk_bind hreactivate fun claimed => ?_
    by_cases hphase : claimed.record.document.state≠.active
    · rw [if_pos hphase]
      exact disk_fail _
    · rw [if_neg hphase]
      exact disk_bind (disk_keeping (disk_glances _ directories) _) fun _ => disk_pure _
  | none =>
    refine disk_bind (disk_keeping (disk_of_sees fun _ => sees_glance _) _) fun _ => ?_
    by_cases hphase : owner.record.document.state=.active ∧ (!recovery)=true
    · rw [if_pos hphase]
      exact disk_fail _
    rw [if_neg hphase]
    refine disk_bind (disk_activate owner) fun claimed =>
      disk_bind (disk_keeping (disk_requireRootEntries _) _) fun _ =>
        disk_bind (disk_openManaged claimed _ _) fun opened =>
          disk_bind (disk_keeping (disk_glances _ managedNames) _) fun _ =>
            disk_bind (disk_keeping (disk_onRoot (moves_see (f:=fun _ => ()))) _) fun _ => ?_
    exact disk_bind (disk_keeping disk_revalidateOwnership _) fun _ => disk_pure _

theorem disk_claimRuntime (owner : Owner) (answer : Except StorageError Unit) :
    MovesDisk (owner.claimRuntime env answer) := by
  have hsidecars : MovesDisk (Owner.checkSidecars owner.recoveryPending) := by
    unfold Owner.checkSidecars
    split_ifs
    · exact disk_pure _
    · exact disk_of_sees fun _ => sees_requireNoSidecars
  have hchecks : MovesDisk (owner.claiming.claimChecks answer) :=
    disk_bind (disk_keeping (disk_inspect _) _) fun _ =>
      disk_bind (disk_keeping disk_revalidateOwnership _) fun _ =>
        disk_bind (disk_keeping (disk_requireRootEntries _) _) fun _ =>
          disk_bind (disk_keeping hsidecars _) fun _ =>
            disk_bind (disk_keeping (disk_revalidate _) _) fun _ => disk_pure _
  unfold Owner.claimRuntime
  split_ifs
  · exact disk_fail _
  refine disk_attempt (disk_bind hchecks fun checked => disk_claimChecked checked _ _) fun r => ?_
  cases r with
  | ok claimed => exact disk_pure _
  | error failure =>
    dsimp only
    split_ifs
    · exact disk_fail _
    · exact disk_fail _

/-- A changed registration. -/
theorem disk_reregister (owner : Owner) (next : Document) :
    MovesDisk (owner.reregister env next) := by
  refine disk_attempt (disk_transition owner next) fun r => ?_
  cases r with
  | ok changed => exact disk_pure _
  | error failure => exact disk_fail _

theorem disk_registerTemporary (owner : Owner) (temporary : Temporary) :
    MovesDisk (owner.registerTemporary env temporary) := by
  unfold Owner.registerTemporary
  split_ifs
  · exact disk_fail _
  · exact disk_bind (disk_keeping disk_revalidateOwnership _) fun _ =>
      disk_bind (disk_keeping (disk_revalidate _) _) fun _ => disk_fail _
  · exact disk_bind (disk_keeping disk_revalidateOwnership _) fun _ =>
      disk_bind (disk_keeping (disk_revalidate _) _) fun _ => disk_pure _
  refine disk_bind (disk_keeping disk_revalidateOwnership _) fun _ =>
    disk_bind (disk_keeping (disk_revalidate _) _) fun _ => ?_
  cases Owner.registered owner.record.document temporary with
  | error cause => exact disk_fail _
  | ok next =>
    dsimp only
    cases next.bytes env with
    | error cause => exact disk_fail _
    | ok bytes => exact disk_reregister owner next

theorem disk_reconcileRegistration (owner : Owner) (matching : Bool) (temporary : Temporary) :
    MovesDisk (owner.reconcileRegistration env matching temporary) := by
  unfold Owner.reconcileRegistration
  split_ifs
  · exact disk_fail _
  · exact disk_fail _
  · exact disk_bind (disk_keeping disk_revalidateOwnership _) fun _ => disk_fail _
  refine disk_bind (disk_keeping disk_revalidateOwnership _) fun _ => ?_
  refine disk_attempt (disk_onRoot (moves_reconcile _ _)) fun r => ?_
  cases r with
  | ok record => exact disk_pure _
  | error failure => exact disk_fail _

theorem disk_finishClosed (owner : Owner) (answer : Except StorageError Unit) :
    MovesDisk (owner.finishClosed env answer) := by
  unfold Owner.finishClosed
  split_ifs
  · exact disk_fail _
  refine disk_bind (disk_keeping (disk_of_sees fun _ => sees_settle answer) _) fun _ => ?_
  dsimp only
  split_ifs
  · exact disk_fail _
  refine disk_bind (disk_transition owner _) fun closed =>
    disk_bind (disk_keeping (disk_of_sees fun _ => sees_requireSettledTrash) _) fun _ =>
      disk_bind (disk_keeping (disk_requireRootEntries _) _) fun _ =>
        disk_bind (disk_keeping disk_revalidateOwnership _) fun _ => ?_
  exact disk_bind (disk_keeping (disk_inspect _) _) fun _ => disk_pure _

theorem disk_sealClosed (owner : Owner) (freeze answer : Except StorageError Unit) :
    MovesDisk (owner.sealClosed env freeze answer) := by
  have hfinish : MovesDisk (({ owner with frozen := true } : Owner).finishClosed env answer) :=
    disk_finishClosed _ _
  unfold Owner.sealClosed
  refine disk_attempt ?_ fun r => ?_
  · by_cases hn : (!owner.frozen)=true
    · rw [if_pos hn]
      exact disk_bind (disk_keeping (disk_inspect _) _) fun _ => hfinish
    · rw [if_neg hn]
      exact hfinish
  · cases r with
    | ok closed => exact disk_pure _
    | error failure =>
      dsimp only
      split_ifs
      · exact disk_fail _
      · exact disk_fail _

/-- Every operation. -/
theorem disk_perform (owner : Owner) (op : Op) : MovesDisk (perform env owner op) := by
  cases op with
  | claim answer => exact disk_claimRuntime owner answer
  | register temporary => exact disk_registerTemporary owner temporary
  | reconcile matching temporary => exact disk_reconcileRegistration owner matching temporary
  | forget temporary =>
    exact disk_bind (disk_keeping disk_revalidateOwnership _) fun _ =>
      disk_bind (disk_keeping (disk_revalidate _) _) fun _ => disk_reregister owner _
  | serve sidecars staging trash =>
    unfold perform
    dsimp only
    split_ifs
    · exact moves_act quietRoot_refl alone_default fun _ s _ =>
        ⟨quietRoot_refl s,fun _ _ => trivial⟩
    · exact disk_fail _
  | release fullyOpened =>
    unfold perform
    dsimp only
    split_ifs
    · exact disk_pure _
    · exact disk_fail _
  | close freeze answer =>
    exact disk_bind (disk_sealClosed owner freeze answer) fun _ => disk_pure _
  | finish freeze answer =>
    exact disk_bind (disk_sealClosed owner freeze answer) fun _ => disk_pure _
  | custody active => exact disk_pure _
  | fence => exact disk_pure _

end Librairii.NativeMoves
