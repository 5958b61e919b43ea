import Librairii.NativeCourses

/-!
# The operations of a library's owner

Every operation of an undisturbed owner keeps what the owner remembers true of the
disk, and changes the record at most once, to a document that is allowed.
-/

namespace Librairii.NativeOperations

open InterruptedSteps NamedObjects ControlFiles ControlStages ControlMoves NativeRecords
  NativeLibraries NativeTransitions NativeReconciliation NativeCourses

variable {env : RecordEnv} {owner : Owner} {s t : Disk} {before next : Document}
  {wanted : Option Document}

/-- An operation may begin: nothing happened yet on a disk with a record. -/
structure Beginning (env : RecordEnv) (owner : Owner) (s : Disk) (before : Document) : Prop where
  /-- The operation starts. -/
  settled : Settled s.root
  /-- No object has two names. -/
  single : s.root.folder.Single
  /-- The record. -/
  named : named env s.root=some before
  /-- What the owner remembers is true. -/
  sound : Sound env owner s

/-- An operation keeps what the owner remembers true, whatever its result. -/
def Keeps (env : RecordEnv) (s : Disk) (before : Document) (wanted : Option Document)
    (m : Work Owner) : Prop :=
  Ensures Alone m s (Course env s before wanted)
    (fun done t => Course env s before wanted t ∧ Sound env done t)
    (fun failure t => Course env s before wanted t ∧ Sound env failure.owner t)

theorem sound_fenced (hrecalls : Recalls env owner.record)
    (hcurrent : owner.record.uncertain=false → Current owner.record t.root)
    (hserving : owner.serving=true → owner.runtimeActive=true ∧
      (named env t.root).map (·.state)=some .active)
    (hreport : owner.closedSuccess=true → owner.report=some true)
    (hpending : owner.recoveryPending=true → owner.managed=none) : Sound env owner.fence t :=
  ⟨hrecalls,hcurrent,fun _ => rfl,hserving,hreport,hpending,fun hf => nomatch hf⟩

/-- Fencing changes nothing else. -/
theorem sound_fence (h : Sound env owner t) : Sound env owner.fence t :=
  sound_fenced h.recalls h.current h.serving h.report h.pending

theorem sound_idle (h : Sound env owner t) (hidle : owner.runtimeActive=false) :
    owner.serving=false := by
  cases hs : owner.serving with
  | false => rfl
  | true =>
    have hactive := (h.serving hs).1
    rw [hidle] at hactive
    cases hactive

/-- While the database is open, a record that keeps its phase stays active. -/
theorem sound_served (h : Sound env owner s) (hserving : owner.serving=true)
    (hbefore : named env s.root=some before) (ht : Course env s before wanted t)
    (hstate : ∀ d, wanted=some d → d.state=before.state) :
    owner.runtimeActive=true ∧ (named env t.root).map (·.state)=some .active := by
  obtain ⟨hactive,hphase⟩ := h.serving hserving
  rw [hbefore,Option.map_some] at hphase
  refine ⟨hactive,?_⟩
  cases ht.document with
  | inl hsame => rw [hsame.2,Option.map_some,hphase]
  | inr hnext =>
    obtain ⟨-,d,hd,hnamed⟩ := hnext
    rw [hnamed,Option.map_some,hstate d hd]
    exact hphase

/-- Nothing happened, and what the owner remembers is still true. -/
theorem Beginning.idle (h : Beginning env owner s before) :
    Course env s before wanted s ∧ Sound env owner s :=
  ⟨course_idle h.settled h.single h.named,h.sound⟩

/-- An operation that was refused. -/
theorem keeps_fail (h : Beginning env owner s before) (cause : StorageError) :
    Keeps env s before wanted (fail ⟨cause,owner⟩ : Work Owner) := ensures_fail h.idle

theorem keeps_look {α : Type} {B : StorageError → Prop} {m : Steps Disk Choice StorageError α}
    {R : α → Prop} {k : α → Work Owner} (h : Beginning env owner s before) (hm : Sees B m s R)
    (hk : ∀ a, R a → Keeps env s before wanted (k a)) :
    Keeps env s before wanted (keeping owner m >>= k) := by
  refine (sees_keeping hm).bind h.idle.1 (fun failure he => ?_) hk
  rw [he.1]
  exact h.idle

section Registrations

variable {temporary : Temporary}

/-- A changed registration of a record that is named. -/
theorem keeps_reregister (hlossless : Lossless env) (h : Beginning env owner s before)
    (hu : owner.record.uncertain=false) (hwanted : wanted=some next)
    (hstate : next.state=owner.record.document.state) :
    Keeps env s before wanted (owner.reregister env next) := by
  have hphase : ∀ d, wanted=some d → d.state=before.state := by
    intro d hd
    rw [hwanted] at hd
    cases hd
    rw [hstate,h.sound.document_eq h.named hu]
  have hserved : ∀ t, Course env s before wanted t → owner.serving=true →
      owner.runtimeActive=true ∧ (named env t.root).map (·.state)=some .active :=
    fun t ht hserving => sound_served h.sound hserving h.named ht hphase
  refine ensures_attempt_bind (ensures_ownerTransition hlossless h.settled h.single h.named
    h.sound.recalls hwanted) (fun done t hdone => ?_) fun failure t hfailed => ?_
  · obtain ⟨hcourse,-,howner,hrecalls,-,hcurrent,-,-⟩ := hdone
    refine ensures_pure ⟨hcourse,?_⟩
    rw [howner]
    refine ⟨hrecalls,fun _ => hcurrent,fun hn => ?_,hserved t hcourse,h.sound.report,
      h.sound.pending,fun hf hm => hcourse.furnished (fun _ hk => hk) (h.sound.managed hf hm)⟩
    exact absurd (hcurrent.certain.symm.trans hn) Bool.false_ne_true
  · obtain ⟨hcourse,-,howner,hrecalls,-,hrecord⟩ := hfailed
    refine ensures_fail ⟨hcourse,?_⟩
    rw [howner]
    refine sound_fenced hrecalls (fun hn => ?_) (hserved t hcourse) h.sound.report
      h.sound.pending
    cases hrecord with
    | inl hsame =>
      change Current failure.owner.record t.root
      rw [hsame.1,hsame.2]
      exact h.sound.current hu
    | inr hdoubt =>
      rw [hdoubt] at hn
      cases hn

/-- A registration changes only the registrations. -/
theorem registered_document {document : Document}
    (h : Owner.registered document temporary=.ok next) :
    next={ document with temporaries := next.temporaries } := by
  unfold Owner.registered at h
  cases hf : document.temporaries.find? (·.same temporary) with
  | none =>
    rw [hf] at h
    dsimp only at h
    split_ifs at h
    cases h
    rfl
  | some prior =>
    rw [hf] at h
    dsimp only at h
    split_ifs at h
    cases h
    rfl

theorem keeps_registerTemporary (hlossless : Lossless env) (h : Beginning env owner s before)
    (hwanted : ∀ d, owner.record.uncertain=false → owner.record.document.state=.active →
      Owner.registered owner.record.document temporary=.ok d → wanted=some d) :
    Keeps env s before wanted (owner.registerTemporary env temporary) := by
  unfold Owner.registerTemporary
  by_cases hvalid : (!temporary.validate)=true
  · rw [if_pos hvalid]
    exact keeps_fail h _
  rw [if_neg hvalid]
  refine keeps_look h sees_revalidateOwnership fun _ _ => keeps_look h
    (sees_onRoot (sees_revalidate _)) fun _ hcurrent => ?_
  by_cases hclosed : owner.record.document.state≠.active ∨ (!owner.runtimeActive)=true
  · rw [if_pos hclosed]
    exact keeps_fail h _
  rw [if_neg hclosed]
  push Not at hclosed
  by_cases hknown : owner.record.document.temporaries.contains temporary=true
  · rw [if_pos hknown]
    exact ensures_pure h.idle
  rw [if_neg hknown]
  cases hr : Owner.registered owner.record.document temporary with
  | error cause => exact keeps_fail h _
  | ok next =>
    dsimp only
    cases hb : next.bytes env with
    | error cause => exact keeps_fail h _
    | ok bytes =>
      have hstate : next.state=owner.record.document.state := by
        rw [registered_document hr]
      exact keeps_reregister hlossless h hcurrent.certain
        (hwanted next hcurrent.certain hclosed.1 hr) hstate

theorem keeps_forgetTemporary (hlossless : Lossless env) (h : Beginning env owner s before)
    (hwanted : owner.record.uncertain=false → wanted=some { owner.record.document with
      temporaries := owner.record.document.temporaries.filter fun t => t≠temporary }) :
    Keeps env s before wanted (owner.forgetTemporary env temporary) :=
  keeps_look h sees_revalidateOwnership fun _ _ => keeps_look h (sees_onRoot (sees_revalidate _))
    fun _ hcurrent => keeps_reregister hlossless h hcurrent.certain (hwanted hcurrent.certain) rfl

theorem course_of_cleaned {root : Control} (h : Beginning env owner s before)
    (hroot : Cleaned s.root root) (hsingle : root.folder.Single) :
    Course env s before wanted { s with root := root } :=
  ⟨.inl ⟨hroot.overwrote.trans h.settled.overwrote,hroot.named.trans h.named⟩,hsingle,
    fun k hk _ => .inl (hroot.names k hk),fun i _ => congrFun hroot.contents i,hroot.issued.ge,
    fun _ hp => .inl hp,.inl ⟨rfl,rfl,rfl⟩⟩

theorem sound_cleaned {root : Control} {record : Record} (h : Beginning env owner s before)
    (hroot : Cleaned s.root root) (hsingle : root.folder.Single) (hrecalls : Recalls env record)
    (hcurrent : record.uncertain=false → Current record root)
    (hfenced : record.uncertain=true → owner.record.uncertain=true) :
    Sound env { owner with record := record } { s with root := root } := by
  have hcourse : Course env s before none { s with root := root } :=
    course_of_cleaned h hroot hsingle
  have hserved : owner.serving=true → owner.runtimeActive=true ∧
      (named env root).map (·.state)=some .active := fun hserving =>
    sound_served h.sound hserving h.named hcourse fun _ hd => nomatch hd
  exact ⟨hrecalls,hcurrent,fun hn => h.sound.fenced (hfenced hn),hserved,h.sound.report,
    h.sound.pending,fun hf hm => hcourse.furnished (fun _ hk => hk) (h.sound.managed hf hm)⟩

theorem keeps_reconcileRegistration (hlossless : Lossless env)
    (h : Beginning env owner s before) (matching : Bool) :
    Keeps env s before wanted (owner.reconcileRegistration env matching temporary) := by
  unfold Owner.reconcileRegistration
  by_cases hmatching : (!matching)=true
  · rw [if_pos hmatching]
    exact keeps_fail h _
  rw [if_neg hmatching]
  by_cases hvalid : (!temporary.validate)=true
  · rw [if_pos hvalid]
    exact keeps_fail h _
  rw [if_neg hvalid]
  refine keeps_look h sees_revalidateOwnership fun _ _ => ?_
  by_cases hclosed : owner.record.document.state≠.active ∨ (!owner.runtimeActive)=true
  · rw [if_pos hclosed]
    exact keeps_fail h _
  rw [if_neg hclosed]
  have hreconcile : Ensures Alone (owner.record.reconcileTemporary env temporary) s.root _ _ _ :=
    (moves_reconcile owner.record temporary).ensures (ensures_reconcile hlossless h.sound.recalls)
  have hroot : Ensures Alone (onRoot (owner.record.reconcileTemporary env temporary)) s
      (Course env s before wanted)
      (fun record t => Course env s before wanted t ∧
        Sound env { owner with record := record } t)
      (fun failure t => Course env s before wanted t ∧
        Sound env { owner with record := failure.record } t) := by
    refine ensures_focus (hreconcile.weaken (fun root hc => ?_) (fun record root hq => ?_)
      fun failure root he => ?_)
    · exact course_of_cleaned h hc.1 (hc.2.single h.single)
    · obtain ⟨⟨hcleaned,hrecalls,hcurrent⟩,hquiet⟩ := hq
      have hsingle := hquiet.single h.single
      exact ⟨course_of_cleaned h hcleaned hsingle,sound_cleaned h hcleaned hsingle hrecalls
        (fun _ => hcurrent) fun hn => absurd (hcurrent.certain.symm.trans hn) Bool.false_ne_true⟩
    · obtain ⟨⟨⟨hcleaned,hrecalls,hu,hsame⟩,-⟩,hquiet⟩ := he
      have hsingle := hquiet.single h.single
      refine ⟨course_of_cleaned h hcleaned hsingle,sound_cleaned h hcleaned hsingle hrecalls
        (fun hn => ?_) fun hn => hu.symm.trans hn⟩
      obtain ⟨hrecord,hdisk⟩ := hsame (hu.symm.trans hn)
      rw [hrecord,hdisk]
      exact h.sound.current (hu.symm.trans hn)
  exact ensures_attempt_bind hroot (fun _ _ hq => ensures_pure hq) fun _ _ he => ensures_fail he

end Registrations

/-- A failed part of an operation: what the owner remembers is true, or becomes true when it
is fenced and then the error does not keep it from being fenced. -/
def Reports (env : RecordEnv) (s : Disk) (before : Document) (wanted : Option Document)
    (failure : Failure) (t : Disk) : Prop :=
  Course env s before wanted t ∧
    (Sound env failure.owner t ∨ (NotBusy failure.cause ∧ Sound env failure.owner.fence t))

theorem reports_look {α : Type} {B : StorageError → Prop} {m : Steps Disk Choice StorageError α}
    {R : α → Prop} {k : α → Work Owner} {Q : Owner → Disk → Prop}
    (hcourse : Course env s before wanted t) (hsound : Sound env owner t) (hm : Sees B m t R)
    (hk : ∀ a, R a → Ensures Alone (k a) t (Course env s before wanted) Q
      (Reports env s before wanted)) :
    Ensures Alone (keeping owner m >>= k) t (Course env s before wanted) Q
      (Reports env s before wanted) := by
  refine (sees_keeping hm).bind hcourse (fun failure he => ⟨hcourse,.inl ?_⟩) hk
  rw [he.1]
  exact hsound

section Closing

/-- What `finish_closed` requires before it changes the record. -/
structure Ready (owner : Owner) (disk : Disk) : Prop where
  /-- The database is closed. -/
  idle : owner.runtimeActive=false
  closed : owner.closedSuccess=true
  unfenced : owner.fenced=false
  /-- The record is the named one. -/
  certain : owner.record.uncertain=false
  claimed : owner.managed≠none
  active : owner.record.document.state=.active
  /-- Nothing is registered. -/
  registrations : owner.record.document.temporaries=[]
  staging : disk.staging=[]
  trash : SettledTrash disk
  /-- The database left no file beside its main one. -/
  sidecars : ∀ name ∈ sidecarNames, name ∉ disk.sidecars

theorem sees_settle (answer : Except StorageError Unit) :
    Sees (fun _ => True) (owner.settle answer) s fun _ => owner.managed≠none ∧ s.staging=[] ∧
      SettledTrash s ∧ (∀ name ∈ sidecarNames, name ∉ s.sidecars) ∧
      Current owner.record s.root := by
  unfold Owner.settle
  refine sees_bind (sees_inspect fun _ _ => trivial) fun _ _ =>
    sees_bind sees_revalidateOwnership.anyError fun _ _ => ?_
  cases hm : owner.managed with
  | none => exact sees_bind (R:=fun _ => False) (sees_fail trivial) fun _ h => h.elim
  | some directories =>
    refine sees_bind (sees_glances _ directories).anyError fun _ _ =>
      sees_bind (sees_onRoot (sees_requireRootEntries _)).anyError fun _ _ =>
        sees_bind sees_requireNoSidecars.anyError fun _ hsidecars =>
          sees_bind sees_requireSettledTrash.anyError fun _ htrash =>
            sees_bind sees_requireEmptyStaging.anyError fun _ hstaging => ?_
    exact (sees_onRoot (sees_revalidate _)).anyError.weaken fun _ hcurrent =>
      ⟨Option.some_ne_none _,hstaging,htrash,hsidecars,hcurrent⟩

theorem ensures_checkClosed {answer : Except StorageError Unit}
    (hcourse : Course env s before wanted t) (hsound : Sound env owner t) :
    Ensures Alone (do
      keeping owner requireSettledTrash
      keeping owner (onRoot (requireRootEntries owner.allowAdditions))
      keeping owner revalidateOwnership
      keeping owner (inspect fun _ => if owner.fenced then .error .profileRestartRequired else
        answer)
      return owner : Work Owner) t (Course env s before wanted)
      (fun done t' => Course env s before wanted t' ∧ Sound env done t')
      (Reports env s before wanted) :=
  reports_look hcourse hsound sees_requireSettledTrash fun _ _ =>
    reports_look hcourse hsound (sees_onRoot (sees_requireRootEntries _)) fun _ _ =>
      reports_look hcourse hsound sees_revalidateOwnership fun _ _ =>
        reports_look hcourse hsound (sees_inspect (B:=fun _ => True) fun _ _ => trivial)
          fun _ _ => ensures_pure ⟨hcourse,hsound⟩

theorem ensures_finishClosed (hlossless : Lossless env) (h : Beginning env owner s before)
    {answer : Except StorageError Unit}
    (hwanted : Ready owner s → wanted=some { owner.record.document with state := .closed }) :
    Ensures Alone (owner.finishClosed env answer) s (Course env s before wanted)
      (fun done t => Course env s before wanted t ∧ Sound env done t)
      (Reports env s before wanted) := by
  unfold Owner.finishClosed
  by_cases hopen : (owner.runtimeActive || !owner.closedSuccess || owner.custodyActive ||
      owner.fenced)=true
  · rw [if_pos hopen]
    exact ensures_fail ⟨h.idle.1,.inl h.sound⟩
  rw [if_neg hopen]
  simp only [Bool.or_eq_true,not_or,Bool.not_eq_true,Bool.not_eq_false'] at hopen
  obtain ⟨⟨⟨hidle,hclosed⟩,-⟩,hfenced⟩ := hopen
  refine reports_look h.idle.1 h.sound (sees_settle answer) fun _ hsettled => ?_
  obtain ⟨hclaimed,hstaging,htrash,hsidecars,hcurrent⟩ := hsettled
  dsimp only
  by_cases hphase : owner.record.document.state≠.active ∨
      (!owner.record.document.temporaries.isEmpty)=true
  · rw [if_pos hphase]
    exact ensures_fail ⟨h.idle.1,.inl h.sound⟩
  rw [if_neg hphase]
  push Not at hphase
  have hready : Ready owner s := ⟨hidle,hclosed,hfenced,hcurrent.certain,hclaimed,hphase.1,
    by simpa using hphase.2,hstaging,htrash,hsidecars⟩
  have hserving := sound_idle h.sound hidle
  refine ensures_bind (R:=fun done t => Course env s before wanted t ∧ Sound env done t)
    ((ensures_ownerTransition hlossless h.settled h.single h.named h.sound.recalls
      (hwanted hready)).weaken (fun _ hc => hc) (fun done t hdone => ?_) fun failure t hfailed =>
        ?_)
    fun done t hdone => ensures_checkClosed hdone.1 hdone.2
  · obtain ⟨hcourse,-,howner,hrecalls,-,hnow,-,-⟩ := hdone
    refine ⟨hcourse,?_⟩
    rw [howner]
    refine ⟨hrecalls,fun _ => hnow,fun hn => ?_,fun hs => ?_,h.sound.report,h.sound.pending,
      fun hf hm => hcourse.furnished (fun _ hk => hk) (h.sound.managed hf hm)⟩
    · exact absurd (hnow.certain.symm.trans hn) Bool.false_ne_true
    · exact absurd (hserving.symm.trans hs) Bool.false_ne_true
  · obtain ⟨hcourse,hbusy,howner,hrecalls,-,hrecord⟩ := hfailed
    refine ⟨hcourse,.inr ⟨hbusy,?_⟩⟩
    rw [howner]
    refine sound_fenced hrecalls (fun hn => ?_) (fun hs => ?_) h.sound.report h.sound.pending
    · cases hrecord with
      | inl hsame =>
        change Current failure.owner.record t.root
        rw [hsame.1,hsame.2]
        exact hcurrent
      | inr hdoubt =>
        rw [hdoubt] at hn
        cases hn
    · exact absurd (hserving.symm.trans hs) Bool.false_ne_true

theorem keeps_sealClosed (hlossless : Lossless env) (h : Beginning env owner s before)
    {freeze answer : Except StorageError Unit}
    (hwanted : Ready owner s → wanted=some { owner.record.document with state := .closed }) :
    Keeps env s before wanted (owner.sealClosed env freeze answer) := by
  have hfrozen : Beginning env { owner with frozen := true } s before :=
    ⟨h.settled,h.single,h.named,h.sound.recalls,h.sound.current,h.sound.fenced,h.sound.serving,
      h.sound.report,h.sound.pending,h.sound.managed⟩
  have hready : Ready { owner with frozen := true } s →
      wanted=some { owner.record.document with state := .closed } := fun hr =>
    hwanted ⟨hr.idle,hr.closed,hr.unfenced,hr.certain,hr.claimed,hr.active,hr.registrations,
      hr.staging,hr.trash,hr.sidecars⟩
  have hfinish : Ensures Alone (({ owner with frozen := true } : Owner).finishClosed env answer) s
      (Course env s before wanted) (fun done t => Course env s before wanted t ∧ Sound env done t)
      (Reports env s before wanted) := ensures_finishClosed hlossless hfrozen hready
  unfold Owner.sealClosed
  refine ensures_attempt_bind (R:=fun done t => Course env s before wanted t ∧ Sound env done t)
    (F:=Reports env s before wanted) ?_ (fun done t hq => ensures_pure hq) fun failure t he => ?_
  · by_cases hn : (!owner.frozen)=true
    · rw [if_pos hn]
      exact reports_look h.idle.1 h.sound (sees_inspect (B:=fun _ => True) fun _ _ => trivial)
        fun _ _ => hfinish
    · rw [if_neg hn]
      exact hfinish
  · obtain ⟨hcourse,hsound⟩ := he
    obtain ⟨cause,failed⟩ := failure
    dsimp only at hsound ⊢
    by_cases hbusy : cause=.profileBusy
    · rw [if_pos hbusy]
      exact ensures_fail ⟨hcourse,hsound.resolve_right fun hn => hn.1 hbusy⟩
    · rw [if_neg hbusy]
      exact ensures_fail ⟨hcourse,hsound.elim sound_fence fun hn => hn.2⟩

end Closing

section Claiming

variable {answer : Except StorageError Unit}

/-- What a claim requires before it changes the record. -/
structure Claimable (owner : Owner) (next : Document) : Prop where
  unfenced : owner.fenced=false
  /-- The record is the named one. -/
  certain : owner.record.uncertain=false
  interrupted : owner.record.document.state=.active →
    owner.recoveryPending=true ∧ owner.managed=none
  document : Owner.activated owner.record.document=some next

/-- A failed part of a claim: the database is not open. -/
def Refuses (env : RecordEnv) (s : Disk) (before : Document) (wanted : Option Document)
    (failure : Failure) (t : Disk) : Prop :=
  Reports env s before wanted failure t ∧ failure.owner.serving=false

theorem refuses_look {α : Type} {B : StorageError → Prop} {m : Steps Disk Choice StorageError α}
    {R : α → Prop} {k : α → Work Owner} {Q : Owner → Disk → Prop}
    (hcourse : Course env s before wanted t) (hsound : Sound env owner t)
    (hserving : owner.serving=false) (hm : Sees B m t R)
    (hk : ∀ a, R a → Ensures Alone (k a) t (Course env s before wanted) Q
      (Refuses env s before wanted)) :
    Ensures Alone (keeping owner m >>= k) t (Course env s before wanted) Q
      (Refuses env s before wanted) := by
  refine (sees_keeping hm).bind hcourse (fun failure he => ?_) hk
  obtain ⟨cause,failed⟩ := failure
  have howner : failed=owner := he.1
  subst howner
  exact ⟨⟨hcourse,.inl hsound⟩,hserving⟩

theorem activated_document {document : Document} (h : Owner.activated document=some next) :
    next={ document with epoch := document.epoch+1, state := .active } := by
  unfold Owner.activated at h
  split_ifs at h
  cases h
  rfl

/-- An owner that claims a library, after its record was published. -/
theorem sound_activated {record : Record} (h : Activated env s before next record t)
    (hrecalls : Recalls env record) (hrecord : owner.record=record) (hserving : owner.serving=false)
    (hclosed : owner.closedSuccess=false) (hpending : owner.recoveryPending=false)
    (hmanaged : owner.managed≠none → Furnished managedNames t.root) : Sound env owner t := by
  refine ⟨?_,fun _ => ?_,fun hn => ?_,fun hs => ?_,fun hc => ?_,fun hp => ?_,fun _ => hmanaged⟩
  · rw [hrecord]
    exact hrecalls
  · rw [hrecord]
    exact h.current
  · rw [hrecord,h.current.certain] at hn
    cases hn
  · rw [hserving] at hs
    cases hs
  · rw [hclosed] at hc
    cases hc
  · rw [hpending] at hp
    cases hp

/-- What is known of a claim before it changes the record. -/
structure Claiming (env : RecordEnv) (owner : Owner) (s : Disk) (before : Document) : Prop
    extends Beginning env owner s before where
  /-- The claim is under way. -/
  running : owner.runtimeActive=true
  /-- The database is not open. -/
  closed : owner.serving=false
  forgotten : owner.closedSuccess=false
  /-- An interrupted library is being claimed. -/
  taken : owner.recoveryPending=false
  /-- The record is the named one. -/
  current : Current owner.record s.root

/-- A transition into the next activation. -/
theorem ensures_activate (hlossless : Lossless env) (h : Claiming env owner s before)
    (hwanted : ∀ next, Owner.activated owner.record.document=some next → wanted=some next) :
    Ensures Alone (owner.activate env) s (Course env s before wanted)
      (fun done t => ∃ next, wanted=some next ∧ next.state=.active ∧
        done={ owner with record := done.record } ∧ Recalls env done.record ∧
        done.record.document=next ∧ Activated env s before next done.record t)
      (Refuses env s before wanted) := by
  unfold Owner.activate
  cases ha : Owner.activated owner.record.document with
  | none => exact ensures_fail ⟨⟨h.idle.1,.inl h.sound⟩,h.closed⟩
  | some next =>
    have hnext := hwanted next ha
    refine (ensures_ownerTransition hlossless h.settled h.single h.named h.sound.recalls hnext
      ).weaken (fun _ hc => hc) (fun done t hdone => ?_) fun failure t hfailed => ?_
    · obtain ⟨hcourse,hpublished,howner,hrecalls,hdocument,hcurrent,-,-⟩ := hdone
      refine ⟨next,hnext,by rw [activated_document ha],howner,hrecalls,hdocument,?_,hpublished,
        hcurrent⟩
      rw [← hnext]
      exact hcourse
    · obtain ⟨hcourse,hbusy,howner,hrecalls,-,hrecord⟩ := hfailed
      rw [Refuses,Reports,howner]
      refine ⟨⟨hcourse,.inr ⟨hbusy,?_⟩⟩,h.closed⟩
      refine sound_fenced hrecalls (fun hn => ?_) (fun hs => ?_) h.sound.report h.sound.pending
      · cases hrecord with
        | inl hsame =>
          change Current failure.owner.record t.root
          rw [hsame.1,hsame.2]
          exact h.current
        | inr hdoubt =>
          rw [hdoubt] at hn
          cases hn
      · exact absurd (h.closed.symm.trans hs) Bool.false_ne_true

/-- What a claim leaves: the record is active and the owner may use the library. -/
def Served (env : RecordEnv) (s : Disk) (before : Document) (wanted : Option Document)
    (done : Owner) (t : Disk) : Prop :=
  Course env s before wanted t ∧ Sound env done t ∧ done.runtimeActive=true ∧
    (named env t.root).map (·.state)=some .active

/-- A claim of a library whose directories were opened before. -/
theorem ensures_reclaim (hlossless : Lossless env) (h : Claiming env owner s before)
    {directories : List String} (hmanaged : owner.managed=some directories)
    (hfenced : owner.fenced=false) {priorClosed : Bool}
    (hwanted : owner.record.document.state=.closed → ∀ next,
      Owner.activated owner.record.document=some next → wanted=some next) :
    Ensures Alone (owner.reclaim env priorClosed directories) s (Course env s before wanted)
      (Served env s before wanted) (Refuses env s before wanted) := by
  have hclaimed : owner.managed≠none := by
    rw [hmanaged]
    exact Option.some_ne_none _
  have hreactivate : Ensures Alone (owner.reactivate env priorClosed) s
      (Course env s before wanted) (fun done t => Course env s before wanted t ∧
        Sound env done t ∧ done.serving=false ∧ done.runtimeActive=true ∧
        Current done.record t.root) (Refuses env s before wanted) := by
    unfold Owner.reactivate
    by_cases hphase : owner.record.document.state=.closed ∧ priorClosed=true
    · rw [if_pos hphase]
      refine (ensures_activate hlossless h (hwanted hphase.1)).weaken (fun _ hc => hc)
        (fun done t hdone => ?_) fun _ _ he => he
      obtain ⟨next,hnext,-,howner,hrecalls,-,hactivated⟩ := hdone
      have hserving : done.serving=false := by rw [howner]; exact h.closed
      refine ⟨hnext ▸ hactivated.course,?_,hserving,by rw [howner]; exact h.running,
        hactivated.current⟩
      refine sound_activated hactivated hrecalls rfl hserving (by rw [howner]; exact h.forgotten)
        (by rw [howner]; exact h.taken) fun _ => ?_
      exact hactivated.course.furnished (fun _ hk => hk) (h.sound.managed hfenced hclaimed)
    · rw [if_neg hphase]
      exact ensures_pure ⟨h.idle.1,h.sound,h.closed,h.running,h.current⟩
  refine ensures_bind hreactivate fun done t hdone => ?_
  obtain ⟨hcourse,hsound,hserving,hrunning,hcurrent⟩ := hdone
  by_cases hphase : done.record.document.state≠.active
  · rw [if_pos hphase]
    exact ensures_fail ⟨⟨hcourse,.inl hsound⟩,hserving⟩
  rw [if_neg hphase]
  push Not at hphase
  have hnamed : (named env t.root).map (·.state)=some .active := by
    rw [hcurrent.named hsound.recalls,Option.map_some,hphase]
  exact refuses_look hcourse hsound hserving (sees_glances _ directories) fun _ _ =>
    ensures_pure ⟨hcourse,hsound,hrunning,hnamed⟩

theorem ensures_firstClaim (hlossless : Lossless env) (h : Claiming env owner s before)
    (hmanaged : owner.managed=none) {recovery : Bool}
    (hwanted : (owner.record.document.state=.active → recovery=true) → ∀ next,
      Owner.activated owner.record.document=some next → wanted=some next) :
    Ensures Alone (owner.firstClaim env recovery) s (Course env s before wanted)
      (Served env s before wanted) (Refuses env s before wanted) := by
  unfold Owner.firstClaim
  refine refuses_look h.idle.1 h.sound h.closed (sees_glance _) fun _ _ => ?_
  by_cases hphase : owner.record.document.state=.active ∧ (!recovery)=true
  · rw [if_pos hphase]
    exact ensures_fail ⟨⟨h.idle.1,.inl h.sound⟩,h.closed⟩
  rw [if_neg hphase]
  have hinterrupted : owner.record.document.state=.active → recovery=true := fun ha => by
    simpa [ha] using hphase
  refine ensures_bind (ensures_activate hlossless h (hwanted hinterrupted)) fun done t hdone => ?_
  obtain ⟨next,hnext,hactive,howner,hrecalls,-,hactivated⟩ := hdone
  have hserving : done.serving=false := by rw [howner]; exact h.closed
  have hclosed : done.closedSuccess=false := by rw [howner]; exact h.forgotten
  have hpending : done.recoveryPending=false := by rw [howner]; exact h.taken
  have hrunning : done.runtimeActive=true := by rw [howner]; exact h.running
  have hunmanaged : done.managed=none := by rw [howner]; exact hmanaged
  have hsound : Sound env done t := sound_activated hactivated hrecalls rfl hserving hclosed
    hpending fun hm => absurd hunmanaged hm
  have hcourses : ∀ t', Activated env s before next done.record t' →
      Course env s before wanted t' := fun t' ht' => hnext ▸ ht'.course
  refine refuses_look (hcourses t hactivated) hsound hserving
    (sees_onRoot (sees_requireRootEntries _)) fun _ _ => ?_
  have hopen : Ensures Alone (done.openManaged env [] managedNames) t _ _ _ :=
    ensures_openManaged hactive managedNames [] t (fun _ hk => hk) hactivated
      fun _ hk => absurd hk List.not_mem_nil
  refine ensures_bind (hopen.weaken (fun t' hc => hnext ▸ hc) (fun _ _ hq => hq)
    fun failure t' he => ?_) fun opened t₂ h₂ => ?_
  · obtain ⟨hthere,hbusy,hkept⟩ := he
    rw [Refuses,Reports,hkept]
    refine ⟨⟨hcourses t' hthere,.inr ⟨hbusy,?_⟩⟩,hserving⟩
    refine sound_fenced hrecalls (fun _ => hthere.current) (fun hs => ?_) (fun hc => ?_)
      fun hp => ?_
    · exact absurd (hserving.symm.trans hs) Bool.false_ne_true
    · exact absurd (hclosed.symm.trans hc) Bool.false_ne_true
    · exact absurd (hpending.symm.trans hp) Bool.false_ne_true
  · obtain ⟨hopened,hthere,hfurnished⟩ := h₂
    rw [List.nil_append] at hopened hfurnished
    have hsound₂ : Sound env opened t₂ := by
      rw [hopened]
      exact sound_activated hthere hrecalls rfl hserving hclosed hpending fun _ => hfurnished
    have hserving₂ : opened.serving=false := by rw [hopened]; exact hserving
    have hnamed : (named env t₂.root).map (·.state)=some .active := by
      rw [hthere.named,Option.map_some,hactive]
    have hflush : Sees NotBusy flush t₂.root fun _ => True :=
      sees_of_looks (looks_look alone_default _ _) moves_see
    have hcourse := hcourses t₂ hthere
    exact refuses_look hcourse hsound₂ hserving₂ (sees_glances _ managedNames) fun _ _ =>
      refuses_look hcourse hsound₂ hserving₂ (sees_onRoot hflush) fun _ _ =>
        refuses_look hcourse hsound₂ hserving₂ sees_revalidateOwnership fun _ _ =>
          ensures_pure ⟨hcourse,hsound₂,by rw [hopened]; exact hrunning,hnamed⟩

/-- The first part of a claim: the owner may claim the library and its record is the named one. -/
theorem sees_claimChecks (h : Sound env owner s) (hserving : owner.serving=false) :
    Sees (fun failure => Sound env failure.owner s ∧ failure.owner.serving=false)
      (owner.claimChecks answer) s fun checked =>
        checked={ owner with recoveryPending := false } ∧ owner.fenced=false ∧
          Current owner.record s.root := by
  have hchecked : Sound env { owner with recoveryPending := false } s :=
    ⟨h.recalls,h.current,h.fenced,h.serving,h.report,fun hn => (nomatch hn),h.managed⟩
  have hkeeping : ∀ {α : Type} {B : StorageError → Prop} {R : α → Prop} {kept : Owner}
      {m : Steps Disk Choice StorageError α}, Sound env kept s → kept.serving=false →
      Sees B m s R →
      Sees (fun failure => Sound env failure.owner s ∧ failure.owner.serving=false)
        (keeping kept m) s R := by
    intro α B R kept m hsound hclosed hm
    refine Ensures.weaken (sees_keeping hm) (fun _ hc => hc) (fun _ _ hq => hq)
      fun failure t he => ⟨he.1,?_⟩
    change Sound env failure.owner s ∧ failure.owner.serving=false
    rw [he.2.1]
    exact ⟨hsound,hclosed⟩
  unfold Owner.claimChecks
  refine sees_bind (hkeeping h hserving (sees_inspect (B:=fun _ => True) fun _ _ => trivial))
    fun _ hbinding => ?_
  refine sees_bind (hkeeping h hserving sees_revalidateOwnership) fun _ _ =>
    sees_bind (hkeeping h hserving (sees_onRoot (sees_requireRootEntries _))) fun _ _ => ?_
  have hsidecars : Sees NotBusy (Owner.checkSidecars owner.recoveryPending) s fun _ => True := by
    unfold Owner.checkSidecars
    split_ifs
    · exact sees_pure trivial
    · exact sees_requireNoSidecars.weaken fun _ _ => trivial
  refine sees_bind (hkeeping hchecked hserving hsidecars) fun _ _ =>
    sees_bind (hkeeping hchecked hserving (sees_onRoot (sees_revalidate _))) fun _ hcurrent =>
      sees_pure ⟨rfl,?_,hcurrent⟩
  unfold Owner.binding at hbinding
  by_cases hf : (owner.fenced || owner.frozen)=true
  · rw [if_pos hf] at hbinding
    cases hbinding
  · cases hfenced : owner.fenced with
    | false => rfl
    | true => exact absurd (by rw [hfenced]; rfl) hf

theorem ensures_claimChecked (hlossless : Lossless env) (h : Claiming env owner s before)
    (hfenced : owner.fenced=false) {priorClosed recovery : Bool}
    (hwanted : (owner.record.document.state=.active → recovery=true ∧ owner.managed=none) →
      ∀ next, Owner.activated owner.record.document=some next → wanted=some next) :
    Ensures Alone (owner.claimChecked env priorClosed recovery) s (Course env s before wanted)
      (Served env s before wanted) (Refuses env s before wanted) := by
  unfold Owner.claimChecked
  cases hm : owner.managed with
  | some directories =>
    refine ensures_reclaim hlossless h hm hfenced fun hphase => hwanted fun ha => ?_
    exact absurd (hphase.symm.trans ha) (fun he => Phase.noConfusion he)
  | none =>
    exact ensures_firstClaim hlossless h hm fun hrecovery => hwanted fun ha => ⟨hrecovery ha,hm⟩

theorem ensures_claim (hlossless : Lossless env) (h : Beginning env owner s before)
    (hidle : owner.runtimeActive=false)
    (hwanted : ∀ next, Claimable owner next → wanted=some next) :
    Ensures Alone (do
      let checked ← owner.claiming.claimChecks answer
      checked.claimChecked env owner.closedSuccess owner.recoveryPending : Work Owner) s
      (Course env s before wanted) (Served env s before wanted) (Refuses env s before wanted) := by
  have hclosed : owner.serving=false := sound_idle h.sound hidle
  have hsound : Sound env owner.claiming s :=
    ⟨h.sound.recalls,h.sound.current,h.sound.fenced,fun hs => absurd (hclosed.symm.trans hs)
      Bool.false_ne_true,fun hn => (nomatch hn),h.sound.pending,h.sound.managed⟩
  refine (sees_claimChecks hsound hclosed).bind h.idle.1
    (fun failure he => ⟨⟨h.idle.1,.inl he.1⟩,he.2⟩) fun checked hchecked => ?_
  obtain ⟨rfl,hfenced,hcurrent⟩ := hchecked
  have hbegin : Claiming env { owner.claiming with recoveryPending := false } s before :=
    ⟨⟨h.settled,h.single,h.named,h.sound.recalls,h.sound.current,h.sound.fenced,fun hs =>
      absurd (hclosed.symm.trans hs) Bool.false_ne_true,fun hn => (nomatch hn),
      fun hn => (nomatch hn),h.sound.managed⟩,rfl,hclosed,rfl,rfl,hcurrent⟩
  exact ensures_claimChecked hlossless hbegin hfenced fun hi next hn =>
    hwanted next ⟨hfenced,hcurrent.certain,hi,hn⟩

theorem keeps_claimRuntime (hlossless : Lossless env) (h : Beginning env owner s before)
    (hwanted : owner.runtimeActive=false → ∀ next, Claimable owner next → wanted=some next) :
    Keeps env s before wanted (owner.claimRuntime env answer) := by
  unfold Owner.claimRuntime
  by_cases hactive : owner.runtimeActive=true
  · rw [if_pos hactive]
    exact keeps_fail h _
  rw [if_neg hactive]
  have hidle : owner.runtimeActive=false := by simpa using hactive
  have hclosed := sound_idle h.sound hidle
  refine ensures_attempt_bind (ensures_claim hlossless h hidle (hwanted hidle))
    (fun done t hdone => ?_) fun failure t he => ?_
  · obtain ⟨hcourse,hsound,hrunning,hnamed⟩ := hdone
    exact ensures_pure ⟨hcourse,hsound.recalls,hsound.current,hsound.fenced,
      fun _ => ⟨hrunning,hnamed⟩,hsound.report,hsound.pending,hsound.managed⟩
  · obtain ⟨⟨hcourse,hsound⟩,hserving⟩ := he
    obtain ⟨cause,failed⟩ := failure
    dsimp only at hsound hserving ⊢
    by_cases hbusy : cause=.profileBusy
    · rw [if_pos hbusy]
      have hstill := hsound.resolve_right fun hn => hn.1 hbusy
      exact ensures_fail ⟨hcourse,hstill.recalls,hstill.current,hstill.fenced,
        fun hs => absurd (hserving.symm.trans hs) Bool.false_ne_true,h.sound.report,
        hstill.pending,hstill.managed⟩
    · rw [if_neg hbusy]
      exact ensures_fail ⟨hcourse,hsound.elim sound_fence fun hn => hn.2⟩

end Claiming

section Performing

theorem exists_wanted {P : Document → Prop} (h : ∀ a b, P a → P b → a=b) :
    ∃ wanted : Option Document, (∀ next, P next → wanted=some next) ∧
      ∀ next, wanted=some next → P next := by
  by_cases hp : ∃ next, P next
  · obtain ⟨next,hnext⟩ := hp
    refine ⟨some next,fun other hother => by rw [h next other hnext hother],fun other ho => ?_⟩
    cases ho
    exact hnext
  · exact ⟨none,fun next hnext => absurd ⟨next,hnext⟩ hp,fun _ hn => nomatch hn⟩

theorem inactive_registrations {document : Document} (h : document.valid env=true)
    (hstate : document.state≠.active) : document.temporaries=[] := by
  unfold Document.valid at h
  simp only [Bool.and_eq_true,Bool.or_eq_true,decide_eq_true_eq,List.isEmpty_iff] at h
  obtain ⟨⟨⟨⟨⟨⟨-,h⟩,-⟩,-⟩,-⟩,-⟩,-⟩ := h
  exact h.resolve_left hstate

/-- What an operation may make of the record: nothing while the record is uncertain, else one
document that is allowed. -/
def Discipline (env : RecordEnv) (owner : Owner) (s : Disk) (before : Document) (m : Work Owner) :
    Prop :=
  ∃ wanted, (∀ next, wanted=some next → owner.record.uncertain=false ∧
    Allowed owner s before next) ∧ Keeps env s before wanted m

/-- An operation that never changes the record. -/
theorem discipline_none {m : Work Owner} (h : Keeps env s before none m) :
    Discipline env owner s before m := ⟨none,fun _ hn => (nomatch hn),h⟩

theorem discipline_claim (hlossless : Lossless env) (h : Beginning env owner s before)
    (answer : Except StorageError Unit) :
    Discipline env owner s before (owner.claimRuntime env answer) := by
  have hone : ∀ a b, (owner.runtimeActive=false ∧ Claimable owner a) →
      (owner.runtimeActive=false ∧ Claimable owner b) → a=b := fun a b ha hb =>
    Option.some.inj (ha.2.document.symm.trans hb.2.document)
  obtain ⟨wanted,hwanted,hclaimable⟩ := exists_wanted hone
  refine ⟨wanted,fun next hn => ?_,keeps_claimRuntime hlossless h fun hidle next hc =>
    hwanted next ⟨hidle,hc⟩⟩
  obtain ⟨hidle,hc⟩ := hclaimable next hn
  have hbefore := h.sound.document_eq h.named hc.certain
  refine ⟨hc.certain,.activation ?_ hidle fun ha => hc.interrupted ?_⟩
  · rw [hbefore]
    exact activated_document hc.document
  · rw [← hbefore]
    exact ha

/-- A registration. -/
theorem discipline_register (hlossless : Lossless env) (h : Beginning env owner s before)
    (temporary : Temporary) :
    Discipline env owner s before (owner.registerTemporary env temporary) := by
  have hone : ∀ a b, (owner.record.uncertain=false ∧ owner.record.document.state=.active ∧
      Owner.registered owner.record.document temporary=.ok a) →
      (owner.record.uncertain=false ∧ owner.record.document.state=.active ∧
        Owner.registered owner.record.document temporary=.ok b) → a=b := fun a b ha hb =>
    Except.ok.inj (ha.2.2.symm.trans hb.2.2)
  obtain ⟨wanted,hwanted,hregistered⟩ := exists_wanted hone
  refine ⟨wanted,fun next hn => ?_,keeps_registerTemporary hlossless h fun next hu ha hr =>
    hwanted next ⟨hu,ha,hr⟩⟩
  obtain ⟨hu,ha,hr⟩ := hregistered next hn
  have hbefore := h.sound.document_eq h.named hu
  refine ⟨hu,.registration ?_ (.inl ?_)⟩
  · rw [hbefore]
    exact registered_document hr
  · rw [hbefore]
    exact ha

/-- A registration that is forgotten. -/
theorem discipline_forget (hlossless : Lossless env) (h : Beginning env owner s before)
    (temporary : Temporary) :
    Discipline env owner s before (owner.forgetTemporary env temporary) := by
  have hone : ∀ a b, (owner.record.uncertain=false ∧ a={ owner.record.document with
      temporaries := owner.record.document.temporaries.filter fun t => t≠temporary }) →
      (owner.record.uncertain=false ∧ b={ owner.record.document with
        temporaries := owner.record.document.temporaries.filter fun t => t≠temporary }) → a=b :=
    fun a b ha hb => ha.2.trans hb.2.symm
  obtain ⟨wanted,hwanted,hforgotten⟩ := exists_wanted hone
  refine ⟨wanted,fun next hn => ?_,keeps_forgetTemporary hlossless h fun hu =>
    hwanted _ ⟨hu,rfl⟩⟩
  obtain ⟨hu,hnext⟩ := hforgotten next hn
  have hbefore := h.sound.document_eq h.named hu
  refine ⟨hu,.registration ?_ ?_⟩
  · rw [hbefore,hnext]
  · by_cases ha : before.state=.active
    · exact .inl ha
    · have hempty := inactive_registrations (valid_of_decode h.sound.recalls.decoded)
        (by rw [← hbefore]; exact ha)
      refine .inr ?_
      rw [hnext,hempty,hbefore]
      cases hd : owner.record.document
      rw [hd] at hempty
      cases hempty
      rfl

theorem discipline_close (hlossless : Lossless env) (h : Beginning env owner s before)
    (freeze answer : Except StorageError Unit) :
    Discipline env owner s before (owner.sealClosed env freeze answer) := by
  have hone : ∀ a b, (Ready owner s ∧ a={ owner.record.document with state := .closed }) →
      (Ready owner s ∧ b={ owner.record.document with state := .closed }) → a=b :=
    fun a b ha hb => ha.2.trans hb.2.symm
  obtain ⟨wanted,hwanted,hready⟩ := exists_wanted hone
  refine ⟨wanted,fun next hn => ?_,keeps_sealClosed hlossless h fun hr => hwanted _ ⟨hr,rfl⟩⟩
  obtain ⟨hr,hnext⟩ := hready next hn
  have hbefore := h.sound.document_eq h.named hr.certain
  refine ⟨hr.certain,.closing ?_ ?_ hr.idle (h.sound.report hr.closed) ?_ hr.staging hr.trash
    hr.sidecars (h.sound.managed hr.unfenced hr.claimed)⟩
  · rw [hbefore,hnext]
  · rw [hbefore]
    exact hr.active
  · rw [hbefore]
    exact hr.registrations

theorem discipline_map {m : Work Owner} (h : Discipline env owner s before m) (f : Owner → Owner)
    (hf : ∀ done t, Sound env done t → Sound env (f done) t) :
    Discipline env owner s before (do let done ← m; return f done) := by
  obtain ⟨wanted,hwanted,hkeeps⟩ := h
  exact ⟨wanted,hwanted,ensures_bind hkeeps fun done t hq => ensures_pure ⟨hq.1,hf done t hq.2⟩⟩

/-- The open database and its workers change what is theirs. -/
theorem keeps_serve (h : Beginning env owner s before) (hserving : owner.serving=true)
    (sidecars staging : List String) (trash : List TrashEntry) :
    Keeps env s before none (act fun _ disk => (.ok owner,{ disk.touch env with
      sidecars := sidecars, staging := staging, trash := trash }) : Work Owner) := by
  have hphase := (h.sound.serving hserving).2
  have hcourse : Course env s before none { s.touch env with
      sidecars := sidecars, staging := staging, trash := trash } := by
    refine ⟨h.idle.1.document,h.single,fun _ _ _ => .inl rfl,fun _ _ => rfl,le_rfl,fun p hp => ?_,
      .inr hphase⟩
    cases List.mem_cons.mp hp with
    | inl hp => exact .inr (hp.trans hphase)
    | inr hp => exact .inl hp
  refine ensures_act alone_default fun _ _ => ⟨hcourse,fun done hdone => ⟨hcourse,?_⟩,
    fun _ he => (nomatch he)⟩
  cases hdone
  exact ⟨h.sound.recalls,h.sound.current,h.sound.fenced,h.sound.serving,h.sound.report,
    h.sound.pending,h.sound.managed⟩

/-- The database reports how it was closed. -/
theorem sound_release (h : Sound env owner t) (fullyOpened : Bool) :
    Sound env (owner.releaseRuntime fullyOpened) t := by
  refine ⟨h.recalls,h.current,fun hu => ?_,fun hs => (nomatch hs),fun hc => ?_,h.pending,
    fun hf hm => h.managed ?_ hm⟩
  · change (owner.fenced || !fullyOpened)=true
    rw [h.fenced hu]
    rfl
  · change some fullyOpened=some true
    rw [show fullyOpened=true from hc]
  · change (owner.fenced || !fullyOpened)=false at hf
    exact (Bool.or_eq_false_iff.mp hf).1

/-- Every operation keeps what the owner remembers true and changes the record at most once, to
a document that is allowed. -/
theorem discipline_perform (hlossless : Lossless env) (h : Beginning env owner s before) (op : Op) :
    Discipline env owner s before (perform env owner op) := by
  cases op with
  | claim answer => exact discipline_claim hlossless h answer
  | register temporary => exact discipline_register hlossless h temporary
  | reconcile matching temporary =>
    exact discipline_none (keeps_reconcileRegistration hlossless h matching)
  | forget temporary => exact discipline_forget hlossless h temporary
  | serve sidecars staging trash =>
    unfold perform
    dsimp only
    by_cases hserving : owner.serving=true
    · rw [if_pos hserving]
      exact discipline_none (keeps_serve h hserving sidecars staging trash)
    · rw [if_neg hserving]
      exact discipline_none (keeps_fail h _)
  | release fullyOpened =>
    unfold perform
    dsimp only
    by_cases hserving : owner.serving=true
    · rw [if_pos hserving]
      exact discipline_none (ensures_pure ⟨h.idle.1,sound_release h.sound fullyOpened⟩)
    · rw [if_neg hserving]
      exact discipline_none (keeps_fail h _)
  | close freeze answer =>
    exact discipline_map (discipline_close hlossless h freeze answer) _ fun done t hd =>
      ⟨hd.recalls,hd.current,hd.fenced,hd.serving,hd.report,hd.pending,hd.managed⟩
  | finish freeze answer =>
    exact discipline_map (discipline_close hlossless h freeze answer) _ fun done t hd =>
      ⟨hd.recalls,hd.current,hd.fenced,hd.serving,hd.report,hd.pending,hd.managed⟩
  | custody active =>
    exact discipline_none (ensures_pure ⟨h.idle.1,h.sound.recalls,h.sound.current,h.sound.fenced,
      h.sound.serving,h.sound.report,h.sound.pending,h.sound.managed⟩)
  | fence => exact discipline_none (ensures_pure ⟨h.idle.1,sound_fence h.sound⟩)

end Performing

end Librairii.NativeOperations
