import Librairii.NativeOpenings

/-!
# The life of a native library

A library is opened, used, closed, dropped or interrupted and opened again, any number
of times. In every run the record is always a whole document and changes only as the
lifecycle allows.
-/

namespace Librairii.NativeRuns

open InterruptedSteps NamedObjects ControlFiles ControlStages ControlMoves NativeRecords
  NativeLibraries NativeTransitions NativeReconciliation NativeCourses NativeOperations NativeMoves
  NativeOpenings

/-- A library on its disk, with the process that owns it, if any. -/
structure World where
  disk : Disk
  owner : Option Owner

/-- What happens to a library. -/
inductive Event where
  /-- The owner is asked to do something; the process may end after some of the steps. -/
  | ask (op : Op) (script : List Choice) (cut : Option ℕ)
  /-- The owner is dropped. -/
  | drop
  /-- The library is opened again. -/
  | reopen (around : Surroundings) (mode : ReopenMode) (script : List Choice)

/-- Nobody else acts on the library. -/
def Event.Undisturbed : Event → Prop
  | .ask _ script _ => ∀ c ∈ script, Alone c
  | .drop => True
  | .reopen _ _ script => ∀ c ∈ script, Alone c

namespace World

variable (env : RecordEnv) (w : World)

/-- What the owner does when it is asked. -/
def outcome (owner : Owner) (op : Op) (script : List Choice) : Outcome Disk Choice Failure Owner :=
  perform env owner op w.disk.start script

/-- The owner after an operation: none when the library was closed for good. -/
def kept : Except Failure Owner → Option Owner
  | .ok done => if done.finalized then none else some done
  | .error failure => some failure.owner

def opened : Except StorageError Owner → Option Owner
  | .ok owner => some owner
  | .error _ => none

/-- What an event leaves. -/
def after : Event → World
  | .ask op script cut =>
    match w.owner with
    | none => w
    | some owner =>
      let done := w.outcome env owner op script
      ⟨left done w.disk.start cut,if cut.isSome then none else kept done.reply⟩
  | .drop => ⟨w.disk,none⟩
  | .reopen around mode script =>
    match w.owner with
    | some _ => w
    | none => ⟨w.disk,opened (NativeOpenings.reopen env around mode w.disk.start script).reply⟩

/-- The states the disk goes through, the one left included. -/
def passed (e : Event) : List Disk :=
  (match e,w.owner with
    | .ask op script cut,some owner => gone (w.outcome env owner op script) cut
    | _,_ => []) ++ [(w.after env e).disk]

def run (events : List Event) : World := events.foldl (fun w e => w.after env e) w

/-- All states of the disk in a run, in order. -/
def trail : World → List Event → List Disk
  | w,[] => [w.disk]
  | w,e::events => w.disk::(w.passed env e ++ trail (w.after env e) events)

end World

/-- A library that was just imported, or that nobody owns. -/
structure Initial (env : RecordEnv) (w : World) : Prop where
  /-- There is a record. -/
  named : named env w.disk.root≠none
  /-- No object has two names. -/
  single : w.disk.root.folder.Single
  /-- Nothing was touched yet. -/
  untouched : w.disk.touches=[]
  /-- The owner has just opened the library. -/
  fresh : ∀ owner, w.owner=some owner → ∃ record, owner=Owner.opened record false ∧
    Recalls env record ∧ Current record w.disk.root

/-- The operations that change the record when they are admitted. -/
def Changing : Op → Prop
  | .claim _ | .register _ | .forget _ | .close _ _ | .finish _ _ => True
  | _ => False

/-- Reading an uncertain record again. -/
def Reconciling : Op → Prop
  | .reconcile _ _ => True
  | _ => False

/-- The operations that change the phase of the record when they are admitted. -/
def Phasing : Op → Prop
  | .claim _ | .close _ _ | .finish _ _ => True
  | _ => False

/-- The discipline of the record at one event. -/
structure Disciplined (env : RecordEnv) (w : World) (e : Event) : Prop where
  /-- The record is the prior document until it is the next one, which the lifecycle allows. -/
  documents : ∃ before next i j, named env w.disk.root=some before ∧
    (w.passed env e).map (fun t => named env t.root)=
      List.replicate i (some before) ++ List.replicate j (some next) ∧
    (0<j → ∃ owner, w.owner=some owner ∧ Allowed owner w.disk before next)
  /-- Managed directories and the database are touched only while the record is active. -/
  touches : ∀ t ∈ w.disk::w.passed env e, ∀ p ∈ t.touches, p=some .active
  /-- At most 64 temporaries are registered, no two for the same place. -/
  registry : ∀ t ∈ w.disk::w.passed env e, ∀ d, named env t.root=some d →
    d.temporaries.length≤64 ∧ (d.temporaries.map fun t => (t.destination,t.name)).Nodup
  /-- A library is opened without recovery only when its record is not active. -/
  admitted : ∀ around script, e=.reopen around .closed script → w.owner=none →
    (w.after env e).owner≠none → ∀ d, named env w.disk.root=some d → d.state≠.active
  /-- An owner either knows the record or is uncertain of it and fenced. -/
  known : ∀ owner, (w.after env e).owner=some owner →
    (owner.record.uncertain=false →
      named env (w.after env e).disk.root=some owner.record.document) ∧
    (owner.record.uncertain=true → owner.fenced=true)
  /-- Until it is reconciled, an uncertain record is not changed any more: what would change it
  is refused at once. -/
  uncertain : ∀ owner, w.owner=some owner → owner.record.uncertain=true →
    (∀ t ∈ w.passed env e, named env t.root=named env w.disk.root) ∧
    ∀ op script cut, e=.ask op script cut → ¬ Reconciling op →
      (Changing op → (∀ t ∈ w.passed env e, t=w.disk.start) ∧
        ∃ failure, (w.outcome env owner op script).reply=.error failure) ∧
      ∀ kept, (w.after env e).owner=some kept → kept.record=owner.record
  /-- A fenced owner never claims nor closes the library. -/
  fenced : ∀ owner, w.owner=some owner → owner.fenced=true →
    ∀ op script cut, e=.ask op script cut → Phasing op →
      (∀ t ∈ w.passed env e, t=w.disk.start) ∧
      ∃ failure, (w.outcome env owner op script).reply=.error failure ∧
        failure.owner.fenced=true

variable {env : RecordEnv} {owner : Owner} {s t : Disk} {op : Op} {w : World}

section Refusals

/-- A refusal leaves the disk, the record and the fence as they were. -/
def Refused (owner : Owner) (failure : Failure) : Prop :=
  failure.owner.record=owner.record ∧ (owner.fenced=true → failure.owner.fenced=true)

theorem refused_fenced (hfenced : owner.fenced=true) (hop : Phasing op) :
    Sees (Refused owner) (perform env owner op) s fun _ => False := by
  have hfinish : ∀ (freeze answer : Except StorageError Unit),
      Sees (Refused owner) (owner.sealClosed env freeze answer) s fun _ => False := by
    intro freeze answer
    have hclosed : Sees (Refused owner)
        (({ owner with frozen := true } : Owner).finishClosed env answer) s fun _ => False := by
      unfold Owner.finishClosed
      rw [if_pos (by simp [hfenced])]
      exact sees_fail ⟨rfl,fun h => h⟩
    unfold Owner.sealClosed
    refine sees_attempt_bind (B:=Refused owner) (R:=fun _ => False) ?_ (fun _ h => h.elim)
      fun failure hfailure => ?_
    · by_cases hn : (!owner.frozen)=true
      · rw [if_pos hn]
        refine sees_bind (R:=fun _ => True) ?_ fun _ _ => hclosed
        refine Ensures.weaken (sees_keeping (sees_inspect (B:=fun _ => True) fun _ _ => trivial))
          (fun _ h => h) (fun _ _ h => ⟨h.1,trivial⟩) fun failure t h => ⟨h.1,?_⟩
        rw [Refused,h.2.1]
        exact ⟨rfl,fun h => h⟩
      · rw [if_neg hn]
        exact hclosed
    · obtain ⟨cause,failed⟩ := failure
      dsimp only
      split_ifs
      · exact sees_fail hfailure
      · exact sees_fail ⟨hfailure.1,fun _ => rfl⟩
  cases op with
  | claim answer =>
    have hchecks : Sees (fun failure => failure.owner=owner.claiming) (do
        let checked ← owner.claiming.claimChecks answer
        checked.claimChecked env owner.closedSuccess owner.recoveryPending : Work Owner) s
        fun _ => False := by
      have hbinding : owner.claiming.binding answer=.error .profileRestartRequired := by
        unfold Owner.binding
        rw [if_pos (by simp [Owner.claiming,hfenced])]
      have hrefused : Sees (fun failure => failure.owner=owner.claiming)
          (owner.claiming.claimChecks answer) s fun _ => False := by
        refine sees_bind (R:=fun _ => False) ?_ fun _ h => h.elim
        refine Ensures.weaken (sees_keeping (sees_inspect (B:=fun _ => True) fun _ _ => trivial))
          (fun _ h => h) (fun _ _ h => ⟨h.1,?_⟩) fun _ _ h => ⟨h.1,h.2.1⟩
        have hok := h.2
        rw [hbinding] at hok
        cases hok
      exact sees_bind hrefused fun _ h => h.elim
    change Sees _ (owner.claimRuntime env answer) s _
    unfold Owner.claimRuntime
    by_cases hactive : owner.runtimeActive=true
    · rw [if_pos hactive]
      exact sees_fail ⟨rfl,fun h => h⟩
    rw [if_neg hactive]
    refine sees_attempt_bind hchecks (fun _ h => h.elim) fun failure hfailure => ?_
    obtain ⟨cause,failed⟩ := failure
    have howner : failed=owner.claiming := hfailure
    subst howner
    dsimp only
    split_ifs
    · exact sees_fail ⟨rfl,fun h => h⟩
    · exact sees_fail ⟨rfl,fun _ => rfl⟩
  | close freeze answer => exact sees_bind (hfinish freeze answer) fun _ h => h.elim
  | finish freeze answer => exact sees_bind (hfinish freeze answer) fun _ h => h.elim
  | _ => exact hop.elim

theorem refused_uncertain (hsound : Sound env owner s) (hu : owner.record.uncertain=true)
    (hop : Changing op) : Sees (Refused owner) (perform env owner op) s fun _ => False := by
  have hkept : ∀ {α : Type} {B : StorageError → Prop} {m : Steps Disk Choice StorageError α}
      {R : α → Prop}, Sees B m s R → Sees (Refused owner) (keeping owner m) s R := by
    intro α B m R hm
    refine Ensures.weaken (sees_keeping hm) (fun _ h => h) (fun _ _ h => h)
      fun failure t h => ⟨h.1,?_⟩
    rw [Refused,h.2.1]
    exact ⟨rfl,fun h => h⟩
  have hrecord : Sees (Refused owner) (keeping owner (onRoot owner.record.revalidate)) s
      fun _ => False := by
    refine (hkept (sees_onRoot (sees_revalidate owner.record))).weaken fun _ h => ?_
    exact absurd (hu.symm.trans h.certain) (fun he => nomatch he)
  cases op with
  | register temporary =>
    change Sees _ (owner.registerTemporary env temporary) s _
    unfold Owner.registerTemporary
    by_cases hvalid : (!temporary.validate)=true
    · rw [if_pos hvalid]
      exact sees_fail ⟨rfl,fun h => h⟩
    rw [if_neg hvalid]
    exact sees_bind (hkept sees_revalidateOwnership) fun _ _ =>
      sees_bind hrecord fun _ h => h.elim
  | forget temporary =>
    exact sees_bind (hkept sees_revalidateOwnership) fun _ _ =>
      sees_bind hrecord fun _ h => h.elim
  | claim answer => exact refused_fenced (hsound.fenced hu) trivial
  | close freeze answer => exact refused_fenced (hsound.fenced hu) trivial
  | finish freeze answer => exact refused_fenced (hsound.fenced hu) trivial
  | _ => exact hop.elim

theorem kept_record (hchanging : ¬ Changing op) (hreconciling : ¬ Reconciling op) :
    Ensures Alone (perform env owner op) s (fun _ => True)
      (fun done _ => done.record=owner.record) fun failure _ =>
        failure.owner.record=owner.record := by
  cases op with
  | serve sidecars staging trash =>
    unfold perform
    dsimp only
    split_ifs
    · refine ensures_act alone_default fun _ _ => ⟨trivial,fun done hd => ?_,fun _ he => nomatch he⟩
      cases hd
      rfl
    · exact ensures_fail rfl
  | release fullyOpened =>
    unfold perform
    dsimp only
    split_ifs
    · exact ensures_pure rfl
    · exact ensures_fail rfl
  | custody active => exact ensures_pure rfl
  | fence => exact ensures_pure rfl
  | reconcile matching temporary => exact absurd trivial hreconciling
  | _ => exact absurd trivial hchanging

end Refusals

/-- What holds of a library at any time. -/
structure Good (env : RecordEnv) (w : World) : Prop where
  recorded : named env w.disk.root≠none
  /-- No object has two names. -/
  single : w.disk.root.folder.Single
  touches : ∀ p ∈ w.disk.touches, p=some .active
  /-- The owner remembers what is true. -/
  sound : ∀ owner, w.owner=some owner → Sound env owner w.disk

/-- A list on which a property stays once it holds. -/
theorem split_lasting {α : Type} {P : α → Prop} {l : List α} (h : l.Pairwise fun a b => P a → P b) :
    ∃ before after, l=before ++ after ∧ (∀ a ∈ before, ¬ P a) ∧ ∀ a ∈ after, P a := by
  induction l with
  | nil => exact ⟨[],[],rfl,fun _ ha => absurd ha List.not_mem_nil,
      fun _ ha => absurd ha List.not_mem_nil⟩
  | cons x l ih =>
    obtain ⟨hx,hl⟩ := List.pairwise_cons.mp h
    by_cases hp : P x
    · refine ⟨[],x::l,rfl,fun _ ha => absurd ha List.not_mem_nil,fun a ha => ?_⟩
      cases List.mem_cons.mp ha with
      | inl ha => exact ha ▸ hp
      | inr ha => exact hx a ha hp
    · obtain ⟨before,after,rfl,hbefore,hafter⟩ := ih hl
      refine ⟨x::before,after,rfl,fun a ha => ?_,hafter⟩
      cases List.mem_cons.mp ha with
      | inl ha => exact ha ▸ hp
      | inr ha => exact hbefore a ha

variable {before : Document} {wanted : Option Document}

theorem documents_of_course {l : List Disk} (hc : ∀ t ∈ l, Course env s before wanted t)
    (hl : l.Pairwise QuietRoot) :
    ∃ next i j, l.map (fun t => named env t.root)=
      List.replicate i (some before) ++ List.replicate j (some next) ∧
      (0<j → wanted=some next) := by
  obtain ⟨first,second,rfl,hfirst,hsecond⟩ := split_lasting
    (P:=fun t : Disk => t.root.overwrote≠none) (hl.imp fun h => h.overwrote)
  have hmap : ∀ (part : List Disk) (d : Document), (∀ t ∈ part, named env t.root=some d) →
      part.map (fun t => named env t.root)=List.replicate part.length (some d) := by
    intro part d hd
    refine List.eq_replicate_iff.mpr ⟨List.length_map _,fun x hx => ?_⟩
    obtain ⟨t,ht,rfl⟩ := List.mem_map.mp hx
    exact hd t ht
  have hprior := hmap first before fun t ht => by
    cases (hc t (List.mem_append_left _ ht)).document with
    | inl hsame => exact hsame.2
    | inr hnext => exact absurd hnext.1 (hfirst t ht)
  have hlater : ∀ t ∈ second, ∃ d, wanted=some d ∧ named env t.root=some d := by
    intro t ht
    cases (hc t (List.mem_append_right _ ht)).document with
    | inl hsame => exact absurd hsame.1 (hsecond t ht)
    | inr hnext => exact hnext.2
  rw [List.map_append,hprior]
  cases hw : wanted with
  | none =>
    have hempty : second=[] := by
      refine List.eq_nil_iff_forall_not_mem.mpr fun t ht => ?_
      obtain ⟨d,hd,-⟩ := hlater t ht
      rw [hw] at hd
      cases hd
    exact ⟨before,first.length,0,by rw [hempty]; rfl,fun hj => absurd hj (Nat.lt_irrefl 0)⟩
  | some next =>
    refine ⟨next,first.length,second.length,?_,fun _ => rfl⟩
    rw [hmap second next fun t ht => ?_]
    obtain ⟨d,hd,hnamed⟩ := hlater t ht
    rw [hw] at hd
    cases hd
    exact hnamed

theorem registry_of_named {root : Control} {d : Document} (h : named env root=some d) :
    d.temporaries.length≤64 ∧ (d.temporaries.map fun t => (t.destination,t.name)).Nodup := by
  have hvalid : d.valid env=true := by
    unfold NativeRecords.named at h
    split at h
    · rename_i bytes hread
      cases hd : decode env bytes with
      | error e => rw [hd] at h; cases h
      | ok document =>
        rw [hd] at h
        cases h
        exact valid_of_decode hd
    · cases h
  unfold Document.valid at hvalid
  simp only [Bool.and_eq_true,decide_eq_true_eq] at hvalid
  obtain ⟨⟨⟨⟨⟨-,hlength⟩,-⟩,hnodup⟩,-⟩,-⟩ := hvalid
  exact ⟨hlength,hnodup⟩

theorem Good.beginning (h : Good env w) (howner : w.owner=some owner)
    (hbefore : named env w.disk.root=some before) : Beginning env owner w.disk.start before := by
  have hsound := h.sound owner howner
  refine ⟨settled_start _,h.single,hbefore,hsound.recalls,fun hu => ?_,hsound.fenced,
    hsound.serving,hsound.report,hsound.pending,hsound.managed⟩
  have hcurrent := hsound.current hu
  exact ⟨hcurrent.certain,hcurrent.find,hcurrent.contents,hcurrent.links⟩

/-- What is known of an operation of a good library's owner. -/
structure Asked (env : RecordEnv) (w : World) (owner : Owner) (op : Op) (script : List Choice)
    (cut : Option ℕ) (before : Document) (wanted : Option Document) : Prop where
  allowed : ∀ next, wanted=some next → owner.record.uncertain=false ∧
    Allowed owner w.disk before next
  /-- Every state gone through is on the course. -/
  course : ∀ t ∈ w.passed env (.ask op script cut), Course env w.disk.start before wanted t
  /-- A publication stays. -/
  quiet : (w.passed env (.ask op script cut)).Pairwise QuietRoot
  /-- What the owner remembers afterwards is true. -/
  sound : ∀ kept, (w.after env (.ask op script cut)).owner=some kept →
    Sound env kept (w.after env (.ask op script cut)).disk

theorem asked_of_good (hlossless : Lossless env) (h : Good env w) (howner : w.owner=some owner)
    (hbefore : named env w.disk.root=some before) (op : Op) (script : List Choice)
    (hscript : ∀ c ∈ script, Alone c) (cut : Option ℕ) :
    ∃ wanted, Asked env w owner op script cut before wanted := by
  have hbegin := h.beginning howner hbefore
  obtain ⟨wanted,hallowed,hkeeps⟩ := discipline_perform hlossless hbegin op
  have hholds := hkeeps script hscript
  have hmoved : Moved Alone QuietRoot (fun _ => True) w.disk.start
      (w.outcome env owner op script) := disk_perform owner op w.disk.start script hscript
  have hpassed : w.passed env (.ask op script cut)=
      gone (w.outcome env owner op script) cut ++
        [left (w.outcome env owner op script) w.disk.start cut] := by
    unfold World.passed World.after
    rw [howner]
  have hend : Course env w.disk.start before wanted (w.outcome env owner op script).state := by
    cases hr : (w.outcome env owner op script).reply with
    | ok done => exact (hholds.result done hr).1
    | error failure => exact (hholds.error failure hr).1
  refine ⟨wanted,?_,fun t ht => ?_,?_,fun kept hkept => ?_⟩
  · intro next hnext
    obtain ⟨hu,ha⟩ := hallowed next hnext
    refine ⟨hu,?_⟩
    cases ha with
    | activation hd hi hn => exact .activation hd hi hn
    | registration hd ha => exact .registration hd ha
    | closing hd ha hi hr hg hs ht hb hf => exact .closing hd ha hi hr hg hs ht hb hf
  · rw [hpassed] at ht
    rcases mem_gone ht with rfl | ht | rfl
    · exact hbegin.idle.1
    · exact hholds.passed t ht
    · exact hend
  · rw [hpassed]
    exact hmoved.pairwise_gone quietRoot_refl cut
  · have hafter : w.after env (.ask op script cut)=
        ⟨left (w.outcome env owner op script) w.disk.start cut,
          if cut.isSome then none else World.kept (w.outcome env owner op script).reply⟩ := by
      unfold World.after
      rw [howner]
    rw [hafter] at hkept ⊢
    cases cut with
    | some n => cases hkept
    | none =>
      change World.kept (w.outcome env owner op script).reply=some kept at hkept
      change Sound env kept (w.outcome env owner op script).state
      cases hr : (w.outcome env owner op script).reply with
      | ok done =>
        rw [hr] at hkept
        unfold World.kept at hkept
        dsimp only at hkept
        split_ifs at hkept
        cases hkept
        exact (hholds.result kept hr).2
      | error failure =>
        rw [hr] at hkept
        cases hkept
        exact (hholds.error failure hr).2

theorem Good.course (h : Good env w) (ht : Course env w.disk.start before wanted t) :
    named env t.root≠none ∧ t.root.folder.Single ∧ ∀ p ∈ t.touches, p=some .active := by
  refine ⟨?_,ht.single,fun p hp => (ht.touches p hp).elim (h.touches p) fun ha => ha⟩
  cases ht.document with
  | inl hsame =>
    rw [hsame.2]
    exact Option.some_ne_none _
  | inr hnext =>
    obtain ⟨-,d,-,hd⟩ := hnext
    rw [hd]
    exact Option.some_ne_none _

/-- The state left is among those gone through. -/
theorem after_mem_passed (e : Event) : (w.after env e).disk ∈ w.passed env e :=
  List.mem_append_right _ List.mem_cons_self

variable {script : List Choice} {cut : Option ℕ}

theorem Asked.good (h : Good env w) (ha : Asked env w owner op script cut before wanted) :
    Good env (w.after env (.ask op script cut)) := by
  obtain ⟨hrecorded,hsingle,htouches⟩ := h.course (ha.course _ (after_mem_passed _))
  exact ⟨hrecorded,hsingle,htouches,ha.sound⟩

theorem refused_passed (cut : Option ℕ) (howner : w.owner=some owner)
    (hscript : ∀ c ∈ script, Alone c) {B : Failure → Prop}
    (hrefused : Sees B (perform env owner op) w.disk.start fun _ => False) :
    (∀ t ∈ w.passed env (.ask op script cut), t=w.disk.start) ∧
      ∃ failure, (w.outcome env owner op script).reply=.error failure ∧ B failure := by
  have hholds := hrefused script hscript
  have hpassed : w.passed env (.ask op script cut)=
      gone (w.outcome env owner op script) cut ++
        [left (w.outcome env owner op script) w.disk.start cut] := by
    unfold World.passed World.after
    rw [howner]
  cases hr : (w.outcome env owner op script).reply with
  | ok done => exact (hholds.result done hr).2.elim
  | error failure =>
    obtain ⟨hstate,hfailure⟩ := hholds.error failure hr
    refine ⟨fun t ht => ?_,failure,rfl,hfailure⟩
    rw [hpassed] at ht
    rcases mem_gone ht with rfl | ht | rfl
    · rfl
    · exact hholds.passed t ht
    · exact hstate

theorem owner_after (howner : w.owner=some owner) {kept : Owner}
    (hkept : (w.after env (.ask op script cut)).owner=some kept) :
    (w.outcome env owner op script).reply=.ok kept ∨
      ∃ failure, (w.outcome env owner op script).reply=.error failure ∧ failure.owner=kept := by
  unfold World.after at hkept
  rw [howner] at hkept
  cases cut with
  | some n => cases hkept
  | none =>
    change World.kept (w.outcome env owner op script).reply=some kept at hkept
    cases hr : (w.outcome env owner op script).reply with
    | ok done =>
      rw [hr] at hkept
      unfold World.kept at hkept
      dsimp only at hkept
      split_ifs at hkept
      cases hkept
      exact .inl rfl
    | error failure =>
      rw [hr] at hkept
      cases hkept
      exact .inr ⟨failure,rfl,rfl⟩

theorem record_after (h : Good env w) (howner : w.owner=some owner)
    (hu : owner.record.uncertain=true) (hscript : ∀ c ∈ script, Alone c) (hop : ¬ Reconciling op)
    (hbefore : named env w.disk.root=some before) {kept : Owner}
    (hkept : (w.after env (.ask op script cut)).owner=some kept) : kept.record=owner.record := by
  by_cases hc : Changing op
  · obtain ⟨-,failure,hr,hrefused⟩ := refused_passed cut howner hscript
      (refused_uncertain (h.beginning howner hbefore).sound hu hc)
    cases owner_after howner hkept with
    | inl hok => rw [hr] at hok; cases hok
    | inr herror =>
      obtain ⟨failure',hr',hk⟩ := herror
      rw [hr] at hr'
      cases hr'
      rw [← hk]
      exact hrefused.1
  · have hholds : Holds Alone (w.outcome env owner op script) _ _ _ :=
      kept_record hc hop script hscript
    cases owner_after howner hkept with
    | inl hok => exact hholds.result kept hok
    | inr herror =>
      obtain ⟨failure,hr,hk⟩ := herror
      rw [← hk]
      exact hholds.error failure hr

theorem Asked.disciplined (h : Good env w) (howner : w.owner=some owner)
    (hscript : ∀ c ∈ script, Alone c) (hbefore : named env w.disk.root=some before)
    (ha : Asked env w owner op script cut before wanted) :
    Disciplined env w (.ask op script cut) := by
  have hcourse := fun t ht => h.course (ha.course t ht)
  obtain ⟨next,i,j,hdocuments,hnext⟩ := documents_of_course ha.course ha.quiet
  refine ⟨⟨before,next,i,j,hbefore,hdocuments,fun hj => ⟨owner,howner,
    (ha.allowed next (hnext hj)).2⟩⟩,fun t ht => ?_,fun t ht d hd => registry_of_named hd,
    fun _ _ he => (nomatch he),fun kept hkept => ?_,fun owner' howner' hu => ?_,
    fun owner' howner' hf op' script' cut' he hop => ?_⟩
  · cases List.mem_cons.mp ht with
    | inl ht => exact ht ▸ h.touches
    | inr ht => exact (hcourse t ht).2.2
  · have hsound := ha.sound kept hkept
    exact ⟨fun hu => (hsound.current hu).named hsound.recalls,hsound.fenced⟩
  · rw [howner] at howner'
    cases howner'
    refine ⟨fun t ht => ?_,fun op' script' cut' he hop => ?_⟩
    · rw [hbefore]
      cases (ha.course t ht).document with
      | inl hsame => exact hsame.2
      | inr hother =>
        obtain ⟨-,d,hd,-⟩ := hother
        exact absurd ((ha.allowed d hd).1.symm.trans hu) Bool.false_ne_true
    · cases he
      refine ⟨fun hc => ?_,fun kept hkept => record_after h howner hu hscript hop hbefore hkept⟩
      obtain ⟨hall,failure,hr,-⟩ := refused_passed cut howner hscript
        (refused_uncertain (h.beginning howner hbefore).sound hu hc)
      exact ⟨hall,failure,hr⟩
  · rw [howner] at howner'
    cases howner'
    cases he
    obtain ⟨hall,failure,hr,hrefused⟩ := refused_passed cut howner hscript
      (refused_fenced hf hop : Sees (Refused owner) (perform env owner op) _ _)
    exact ⟨hall,failure,hr,hrefused.2 hf⟩

/-- An event that leaves the disk alone. -/
theorem disciplined_idle {e : Event} (h : Good env w) (hpassed : w.passed env e=[w.disk])
    (hask : ∀ op script cut, e=.ask op script cut → w.owner=none)
    (hsound : ∀ owner, (w.after env e).owner=some owner → Sound env owner w.disk)
    (hadmitted : ∀ around script, e=.reopen around .closed script → w.owner=none →
      (w.after env e).owner≠none → ∀ d, named env w.disk.root=some d → d.state≠.active) :
    Disciplined env w e ∧ Good env (w.after env e) := by
  have hafter : (w.after env e).disk=w.disk := by
    have hmem : (w.after env e).disk ∈ w.passed env e := after_mem_passed e
    rw [hpassed] at hmem
    exact List.mem_singleton.mp hmem
  obtain ⟨before,hbefore⟩ := Option.ne_none_iff_exists'.mp h.recorded
  refine ⟨⟨⟨before,before,1,0,hbefore,by rw [hpassed,List.map_singleton,hbefore]; rfl,
    fun hj => absurd hj (Nat.lt_irrefl 0)⟩,fun t ht => ?_,fun t _ d hd => registry_of_named hd,
    hadmitted,fun owner howner => ?_,fun owner howner hu => ⟨fun t ht => ?_,
      fun op script cut he => ?_⟩,fun owner howner hf op script cut he => ?_⟩,?_⟩
  · rw [hpassed] at ht
    have hdisk : t=w.disk := by
      cases List.mem_cons.mp ht with
      | inl ht => exact ht
      | inr ht => exact List.mem_singleton.mp ht
    rw [hdisk]
    exact h.touches
  · have hs := hsound owner howner
    rw [hafter]
    exact ⟨fun hu => (hs.current hu).named hs.recalls,hs.fenced⟩
  · rw [hpassed] at ht
    rw [List.mem_singleton.mp ht]
  · rw [hask op script cut he] at howner
    cases howner
  · rw [hask op script cut he] at howner
    cases howner
  · refine ⟨?_,?_,?_,fun owner howner => ?_⟩
    · rw [hafter]
      exact h.recorded
    · rw [hafter]
      exact h.single
    · rw [hafter]
      exact h.touches
    · rw [hafter]
      exact hsound owner howner

theorem step_disciplined (hlossless : Lossless env) (h : Good env w) (e : Event)
    (he : e.Undisturbed) : Disciplined env w e ∧ Good env (w.after env e) := by
  obtain ⟨before,hbefore⟩ := Option.ne_none_iff_exists'.mp h.recorded
  cases e with
  | ask op script cut =>
    cases howner : w.owner with
    | none =>
      have hafter : w.after env (.ask op script cut)=w := by
        unfold World.after
        rw [howner]
      refine disciplined_idle h ?_ (fun _ _ _ _ => howner) (fun owner ho => ?_)
        fun _ _ hn => (nomatch hn)
      · unfold World.passed
        rw [howner,hafter]
        rfl
      · rw [hafter,howner] at ho
        cases ho
    | some owner =>
      obtain ⟨wanted,ha⟩ := asked_of_good hlossless h howner hbefore op script he cut
      exact ⟨ha.disciplined h howner he hbefore,ha.good h⟩
  | drop =>
    exact disciplined_idle h rfl (fun _ _ _ hn => (nomatch hn)) (fun _ ho => (nomatch ho))
      fun _ _ hn => (nomatch hn)
  | reopen around mode script =>
    cases howner : w.owner with
    | some owner =>
      have hafter : w.after env (.reopen around mode script)=w := by
        unfold World.after
        rw [howner]
      refine disciplined_idle h ?_ (fun _ _ _ hn => (nomatch hn)) (fun owner' ho => ?_)
        fun _ _ _ hn => ?_
      · unfold World.passed
        rw [hafter]
        rfl
      · rw [hafter] at ho
        exact h.sound owner' ho
      · rw [howner] at hn
        cases hn
    | none =>
      have hafter : w.after env (.reopen around mode script)=⟨w.disk,World.opened
          (NativeOpenings.reopen env around mode w.disk.start script).reply⟩ := by
        unfold World.after
        rw [howner]
      have hholds : Holds Alone (NativeOpenings.reopen env around mode w.disk.start script) _ _ _ :=
        sees_reopen around mode script he
      have hopened : ∀ owner, (w.after env (.reopen around mode script)).owner=some owner →
          ∃ record, owner=Owner.opened record (mode≠.closed) ∧ Recalls env record ∧
            Current record w.disk.root ∧ (mode=.closed → record.document.state≠.active) := by
        intro owner ho
        rw [hafter] at ho
        change World.opened _=_ at ho
        cases hr : (NativeOpenings.reopen env around mode w.disk.start script).reply with
        | error cause => rw [hr] at ho; cases ho
        | ok done =>
          rw [hr] at ho
          cases ho
          obtain ⟨-,record,hrecord,hrecalls,hcurrent,hmode,-⟩ := hholds.result _ hr
          exact ⟨record,hrecord,hrecalls,⟨hcurrent.certain,hcurrent.find,hcurrent.contents,
            hcurrent.links⟩,hmode⟩
      refine disciplined_idle h ?_ (fun _ _ _ hn => (nomatch hn)) (fun owner ho => ?_)
        fun around' script' heq _ hn d hd => ?_
      · unfold World.passed
        rw [hafter]
        rfl
      · obtain ⟨record,rfl,hrecalls,hcurrent,-⟩ := hopened owner ho
        exact sound_opened hrecalls hcurrent _
      · obtain ⟨owner,ho⟩ := Option.ne_none_iff_exists'.mp hn
        obtain ⟨record,-,hrecalls,hcurrent,hmode⟩ := hopened owner ho
        have hdocument := hcurrent.named hrecalls
        rw [hd] at hdocument
        rw [Option.some.inj hdocument]
        injection heq with _ hm
        exact hmode hm

theorem run_good (hlossless : Lossless env) :
    ∀ (events : List Event) (w : World), Good env w → (∀ e ∈ events, e.Undisturbed) →
      Good env (w.run env events) := by
  intro events
  induction events with
  | nil => exact fun _ h _ => h
  | cons e events ih =>
    intro w h hevents
    have hstep := step_disciplined hlossless h e (hevents e List.mem_cons_self)
    exact ih (w.after env e) hstep.2 fun e' he' => hevents e' (List.mem_cons_of_mem _ he')

theorem Initial.good (h : Initial env w) : Good env w := by
  refine ⟨h.named,h.single,fun p hp => ?_,fun owner howner => ?_⟩
  · rw [h.untouched] at hp
    exact absurd hp List.not_mem_nil
  · obtain ⟨record,rfl,hrecalls,hcurrent⟩ := h.fresh owner howner
    exact sound_opened hrecalls hcurrent false

def epochOf (env : RecordEnv) (t : Disk) : ℕ := ((named env t.root).map (·.epoch)).getD 0

theorem Allowed.epoch {next : Document} (h : Allowed owner s before next) :
    before.epoch≤next.epoch := by
  cases h with
  | activation hd => rw [hd]; exact Nat.le_succ _
  | registration hd => rw [hd]
  | closing hd => rw [hd]

theorem Disciplined.epochs {e : Event} (h : Disciplined env w e) :
    ((w.disk::w.passed env e).map (epochOf env)).Pairwise (· ≤ ·) := by
  obtain ⟨before,next,i,j,hbefore,hpassed,hallowed⟩ := h.documents
  have hmap : (w.passed env e).map (epochOf env)=
      List.replicate i before.epoch ++ List.replicate j next.epoch := by
    have hcomp : (w.passed env e).map (epochOf env)=
        ((w.passed env e).map fun t => named env t.root).map fun d =>
          (d.map (·.epoch)).getD 0 := by
      rw [List.map_map]
      rfl
    rw [hcomp,hpassed,List.map_append,List.map_replicate,List.map_replicate]
    rfl
  have hle : 0<j → before.epoch≤next.epoch := fun hj => by
    obtain ⟨owner,-,ha⟩ := hallowed hj
    exact Allowed.epoch ha
  have hfirst : epochOf env w.disk=before.epoch := by
    unfold epochOf
    rw [hbefore]
    rfl
  rw [List.map_cons,hmap,hfirst,← List.cons_append,← List.replicate_succ]
  refine List.pairwise_append.mpr ⟨List.pairwise_replicate.mpr (.inr le_rfl),
    List.pairwise_replicate.mpr (.inr le_rfl),fun a ha b hb => ?_⟩
  rw [List.eq_of_mem_replicate ha,List.eq_of_mem_replicate hb]
  refine hle (Nat.pos_of_ne_zero fun hj => ?_)
  rw [hj] at hb
  exact absurd hb List.not_mem_nil

/-- A run starts where it starts. -/
theorem trail_head (w : World) (events : List Event) : ∃ rest, w.trail env events=w.disk::rest := by
  cases events with
  | nil => exact ⟨[],rfl⟩
  | cons e events => exact ⟨_,rfl⟩

theorem trail_epochs (hlossless : Lossless env) :
    ∀ (events : List Event) (w : World), Good env w → (∀ e ∈ events, e.Undisturbed) →
      ((w.trail env events).map (epochOf env)).Pairwise (· ≤ ·) := by
  intro events
  induction events with
  | nil => exact fun _ _ _ => List.pairwise_singleton _ _
  | cons e events ih =>
    intro w h hevents
    obtain ⟨hstep,hgood⟩ := step_disciplined hlossless h e (hevents e List.mem_cons_self)
    have hlater := ih (w.after env e) hgood fun e' he' => hevents e' (List.mem_cons_of_mem _ he')
    have hnow := hstep.epochs
    obtain ⟨rest,hrest⟩ : ∃ rest, (w.after env e).trail env events=(w.after env e).disk::rest :=
      trail_head _ events
    have hlast : ∀ t ∈ w.disk::w.passed env e,
        epochOf env t≤epochOf env (w.after env e).disk := by
      intro t ht
      unfold World.passed at ht hnow
      rw [← List.cons_append,List.map_append,List.pairwise_append] at hnow
      rw [← List.cons_append] at ht
      cases List.mem_append.mp ht with
      | inl ht => exact hnow.2.2 _ (List.mem_map_of_mem ht) _ (List.mem_map_of_mem
          List.mem_cons_self)
      | inr ht => rw [List.mem_singleton.mp ht]
    have hafter : ∀ u ∈ (w.after env e).trail env events,
        epochOf env (w.after env e).disk≤epochOf env u := by
      intro u hu
      rw [hrest] at hu hlater
      cases List.mem_cons.mp hu with
      | inl hu => rw [hu]
      | inr hu => exact (List.pairwise_cons.mp hlater).1 _ (List.mem_map_of_mem hu)
    change ((w.disk::(w.passed env e ++ (w.after env e).trail env events)).map
      (epochOf env)).Pairwise (· ≤ ·)
    rw [← List.cons_append,List.map_append]
    refine List.pairwise_append.mpr ⟨hnow,hlater,fun a ha b hb => ?_⟩
    obtain ⟨t,ht,rfl⟩ := List.mem_map.mp ha
    obtain ⟨u,hu,rfl⟩ := List.mem_map.mp hb
    exact (hlast t ht).trans (hafter u hu)

section Example

/-- A digest in hexadecimal digits. -/
def zeros : String := String.ofList (List.replicate 64 '0')

/-- A record as it was imported. -/
def plain : Document where
  format := "librairii.native-library"
  version := 1
  state := .importedClosed
  epoch := 0
  nativeProfileRoot := "/profile"
  nativeDataRoot := "/data"
  libraryRoot := "/data/library"
  sourceRoot := "/source"
  libraryIdRaw := "library"
  libraryMarkerSha256 := zeros
  profileMarkerSha256 := zeros
  sourceManifestSha256 := zeros
  rootPolicy := none
  temporaries := []

def phaseByte : Phase → UInt8
  | .importedClosed => 0
  | .active => 1
  | .closed => 2

def bytePhase : UInt8 → Phase
  | 0 => .importedClosed
  | 1 => .active
  | _ => .closed

/-- Records that differ in the phase and the epoch are written as two bytes. -/
def plainEnv : RecordEnv where
  fromSlice
    | [phase,epoch] => some { plain with state := bytePhase phase, epoch := epoch.toNat }
    | _ => none
  toVec d :=
    if d={ plain with state := d.state, epoch := d.epoch } ∧ d.epoch<256 then
      some [phaseByte d.state,UInt8.ofNat d.epoch]
    else none
  spelling _ := true
  job _ := true

/-- What is written so is read back. -/
theorem plainEnv_lossless : Lossless plainEnv := by
  intro document bytes h
  unfold plainEnv at h
  dsimp only at h
  split_ifs at h with hd
  cases h
  have hphase : bytePhase (phaseByte document.state)=document.state := by
    cases document.state <;> rfl
  have hepoch : (UInt8.ofNat document.epoch).toNat=document.epoch := by
    rw [UInt8.toNat_ofNat',Nat.mod_eq_of_lt hd.2]
  change some ({ plain with
    state := bytePhase (phaseByte document.state)
    epoch := (UInt8.ofNat document.epoch).toNat } : Document)=_
  rw [hphase,hepoch,← hd.1]

def plainRoot : Control where
  folder := (((Folder.empty .special).create identityFile (.file [])).create nativeStateFile
    (.file [0,0])).create "db" .folder
  serial := 0
  process := 1
  writable := true
  theirs := fun _ => none
  ours := none
  placed := []
  unlinked := []
  overwrote := none
  subject := none

def plainRecord : Record := ⟨⟨1,nativeStateFile⟩,plain,[0,0],[],[],false⟩

/-- The library that was just imported, with its owner. -/
def plainWorld : World := ⟨⟨plainRoot,[],[],[],[]⟩,some (Owner.opened plainRecord false)⟩

theorem plainWorld_initial : Initial plainEnv plainWorld := by
  have hdecode : decode plainEnv [0,0]=.ok plain :=
    decode_bytes plainEnv_lossless (show plain.bytes plainEnv=.ok [0,0] by
      have hvalid : plain.valid plainEnv=true := by decide +kernel
      have hwrite : plainEnv.toVec plain=some [0,0] := by decide +kernel
      unfold Document.bytes
      rw [hvalid,hwrite]
      rfl)
  have hempty : (Folder.empty Node.special : Folder String Node).Single := by
    intro k k' i hk
    cases hk
  refine ⟨by decide +kernel,((hempty.create _ _).create _ _).create _ _,rfl,fun owner ho => ?_⟩
  cases ho
  refine ⟨plainRecord,rfl,⟨hdecode,rfl,fun _ => ⟨rfl,rfl⟩,?_,?_⟩,
    ⟨rfl,by decide +kernel,by decide +kernel,by decide +kernel⟩⟩
  · exact fun f hf => absurd hf List.not_mem_nil
  · exact fun a ha => absurd ha List.not_mem_nil

/-- The library is claimed, its database is closed completely and the library is closed. -/
def used : List Event :=
  [.ask (.claim (.ok ())) [] none,.ask (.release true) [] none,
    .ask (.finish (.ok ()) (.ok ())) [] none]

end Example

end Librairii.NativeRuns
