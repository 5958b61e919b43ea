import Librairii.CheckedResults
import Librairii.NativeReconciliation

/-!
# The disk of a library in the course of an operation

An undisturbed operation changes the record at most once, to a document that is
allowed, and makes managed directories only while the record is active. Other
names of the root lead where they led.
-/

namespace Librairii.NativeCourses

open InterruptedSteps NamedObjects ControlFiles ControlStages ControlMoves NativeRecords
  NativeLibraries NativeTransitions NativeReconciliation CheckedResults

section Sees

variable {σ ε ε' α β γ : Type} {B : ε → Prop} {R : α → Prop} {t : σ}

/-- An undisturbed program that leaves the state as it found it, with results in `R` and
errors in `B`. -/
def Sees (B : ε → Prop) (m : Steps σ Choice ε α) (t : σ) (R : α → Prop) : Prop :=
  Ensures Alone m t (fun t' => t'=t) (fun a t' => t'=t ∧ R a) fun e t' => t'=t ∧ B e

/-- Returning. -/
theorem sees_pure {a : α} (h : R a) : Sees B (pure a : Steps σ Choice ε α) t R :=
  ensures_pure ⟨rfl,h⟩

theorem sees_fail {e : ε} (h : B e) : Sees B (fail e : Steps σ Choice ε α) t R :=
  ensures_fail ⟨rfl,h⟩

/-- Checking a value. -/
theorem sees_inspect {f : σ → Except ε α} (h : ∀ e, f t=.error e → B e) :
    Sees B (inspect f : Steps σ Choice ε α) t fun a => f t=.ok a :=
  ensures_inspect (fun _ ha => ⟨rfl,ha⟩) fun e he => ⟨rfl,h e he⟩

/-- Two programs in order. -/
theorem sees_bind {m : Steps σ Choice ε α} {f : α → Steps σ Choice ε β} {Q : β → Prop}
    (hm : Sees B m t R) (hf : ∀ a, R a → Sees B (f a) t Q) : Sees B (m >>= f) t Q := by
  refine ensures_bind hm fun a t' h => ?_
  rw [h.1]
  exact hf a h.2

/-- A program whose error is returned as a value. -/
theorem sees_attempt_bind {B' : ε' → Prop} {m : Steps σ Choice ε α}
    {k : Except ε α → Steps σ Choice ε' β} {Q : β → Prop} (hm : Sees B m t R)
    (hok : ∀ a, R a → Sees B' (k (.ok a)) t Q) (herror : ∀ e, B e → Sees B' (k (.error e)) t Q) :
    Sees B' (attempt m >>= k) t Q := by
  refine ensures_attempt_bind hm (fun a t' h => ?_) fun e t' h => ?_
  · rw [h.1]
    exact hok a h.2
  · rw [h.1]
    exact herror e h.2

/-- Programs over a list: what each one finds holds of all. -/
theorem sees_forM {f : γ → Steps σ Choice ε PUnit} {P : γ → Prop} :
    ∀ xs : List γ, (∀ x ∈ xs, Sees B (f x) t fun _ => P x) →
      Sees B (xs.forM f) t fun _ => ∀ x ∈ xs, P x := by
  intro xs
  induction xs with
  | nil => exact fun _ => sees_pure fun x hx => absurd hx List.not_mem_nil
  | cons x xs ih =>
    intro h
    have hrest := ih fun y hy => h y (List.mem_cons_of_mem _ hy)
    refine sees_bind (h x List.mem_cons_self) fun _ hx => hrest.weaken (fun _ h => h)
      (fun _ _ hq => ⟨hq.1,fun y hy => ?_⟩) fun _ _ h => h
    cases List.mem_cons.mp hy with
    | inl h => exact h ▸ hx
    | inr h => exact hq.2 y h

/-- Less is known of the results. -/
theorem Sees.weaken {m : Steps σ Choice ε α} {R' : α → Prop} (h : Sees B m t R)
    (hR : ∀ a, R a → R' a) : Sees B m t R' :=
  Ensures.weaken h (fun _ h => h) (fun a _ hq => ⟨hq.1,hR a hq.2⟩) fun _ _ h => h

theorem Sees.bind {m : Steps σ Choice ε α} {f : α → Steps σ Choice ε β} {C : σ → Prop}
    {Q : β → σ → Prop} {E : ε → σ → Prop} (hm : Sees B m t R) (hC : C t) (hE : ∀ e, B e → E e t)
    (hf : ∀ a, R a → Ensures Alone (f a) t C Q E) : Ensures Alone (m >>= f) t C Q E := by
  refine ensures_bind (Ensures.weaken hm (fun _ h => h ▸ hC) (fun _ _ h => h)
    fun e t' h => h.1 ▸ hE e h.2) fun a t' h => ?_
  rw [h.1]
  exact hf a h.2

end Sees

section Looks

variable {α : Type} {B : StorageError → Prop} {s : Control} {disk : Disk}

theorem sees_of_looks {ε : Type} {B : ε → Prop} {m : Steps Control Choice ε α}
    (h : Looks Alone m) (hm : MovesAlone B m) : Sees B m s fun _ => True :=
  (hm.ensures (h (fun t => t=s) (lasting_alone _) s rfl)).weaken (fun _ h => h.1)
    (fun _ _ h => ⟨h.1,trivial⟩) fun _ _ h => h.1

theorem sees_onRoot {ε : Type} {B : ε → Prop} {m : Steps Control Choice ε α} {R : α → Prop}
    (h : Sees B m disk.root R) : Sees B (onRoot m) disk R := by
  refine ensures_focus (Ensures.weaken h (fun t h => ?_) (fun a t h => ⟨?_,h.2⟩)
    fun e t h => ⟨?_,h.2⟩)
  · rw [h]
  · rw [h.1]
  · rw [h.1]

/-- A call that only looks at the disk. -/
theorem sees_observe {context : String} {f : Disk → Except StorageError α}
    (h : ∀ e, f disk=.error e → NotBusy e) :
    Sees NotBusy (observe context f) disk fun a => f disk=.ok a := by
  refine ensures_act alone_default fun c hc => ?_
  rw [show c.others=[] from hc]
  cases c.fate with
  | done => exact ⟨rfl,fun a ha => ⟨rfl,ha⟩,fun e he => ⟨rfl,h e he⟩⟩
  | failed | lost | torn n =>
    refine ⟨rfl,fun a ha => (nomatch ha),fun e he => ⟨rfl,?_⟩⟩
    cases he
    exact StorageError.noConfusion

theorem sees_keeping {owner : Owner} {m : Steps Disk Choice StorageError α} {R : α → Prop}
    (h : Sees B m disk R) : Sees (fun f => f.owner=owner ∧ B f.cause) (keeping owner m) disk R :=
  sees_attempt_bind h (fun _ ha => sees_pure ha) fun _ he => sees_fail ⟨rfl,he⟩

theorem sees_child (name : String) :
    Sees NotBusy (child name) s fun i => s.folder.find name=some i ∧
      s.folder.contents i=.folder := by
  have hlook : MovesAlone NotBusy (child name) := by
    refine moves_then (moves_look fun s e he => ?_) fun i =>
      moves_then (moves_requireName name i) fun _ => moves_pure i
    cases hf : s.folder.find name with
    | none => rw [hf] at he; cases he; exact StorageError.noConfusion
    | some i =>
      rw [hf] at he
      dsimp only at he
      cases hc : s.folder.contents i with
      | folder => rw [hc] at he; cases he
      | file b | special => rw [hc] at he; cases he; exact StorageError.noConfusion
  have hsee : Ensures Alone (child name) s (fun t => t=s) (fun i t => t=s ∧
      s.folder.find name=some i ∧ s.folder.contents i=.folder) fun _ t => t=s := by
    refine ensures_bind (ensures_see _ _) fun i t₁ h₁ => ?_
    obtain ⟨rfl,hok⟩ := h₁
    have hfound : t₁.folder.find name=some i ∧ t₁.folder.contents i=.folder := by
      cases hf : t₁.folder.find name with
      | none => rw [hf] at hok; cases hok
      | some j =>
        rw [hf] at hok
        dsimp only at hok
        cases hc : t₁.folder.contents j with
        | folder =>
          rw [hc] at hok
          cases hok
          exact ⟨rfl,hc⟩
        | file b | special => rw [hc] at hok; cases hok
    refine ensures_bind (ensures_requireName (lasting_alone fun t => t=t₁) alone_default rfl
      (fun _ h => h) _ _) fun _ t₂ h₂ => ?_
    exact ensures_pure ⟨h₂.1,hfound⟩
  exact (hlook.ensures hsee).weaken (fun _ h => h.1) (fun _ _ h => h.1) fun _ _ h => h.1

/-- Private names are those that begin with the stem. -/
theorem startsWith_iff (name : String) :
    startsWith nativeStateTemp name=true ↔ Private nativeStateTemp name :=
  List.isPrefixOf_iff_prefix

theorem sees_requireRootEntry (allowAdditions : Bool) (name : String) :
    Sees NotBusy (requireRootEntry allowAdditions name) s fun _ =>
      ¬ Private nativeStateTemp name := by
  have hopen : Sees NotBusy (openRegular name) s fun _ => True :=
    sees_of_looks (looks_openRegular alone_default name) (moves_openRegular name)
  unfold requireRootEntry
  by_cases hstart : (startsWith nativeStateTemp name ||
      (!allowAdditions && !knownNames.contains name))=true
  · rw [if_pos hstart]
    exact sees_fail StorageError.noConfusion
  rw [if_neg hstart]
  have hprivate : ¬ Private nativeStateTemp name := fun hp =>
    hstart (by rw [(startsWith_iff name).mpr hp]; rfl)
  split_ifs
  · exact sees_pure hprivate
  · exact sees_fail StorageError.noConfusion
  refine sees_attempt_bind (sees_child name) (fun i _ => sees_pure hprivate) fun e _ => ?_
  exact sees_bind hopen fun _ _ => sees_pure hprivate

/-- No private name of a next record is left. -/
def Clear (root : Control) : Prop :=
  ∀ k, root.folder.find k≠none → ¬ Private nativeStateTemp k

/-- `requireRootEntries` on success: no private name is left and the root is not too large. -/
theorem sees_requireRootEntries (allowAdditions : Bool) :
    Sees NotBusy (requireRootEntries allowAdditions) s fun _ => Clear s ∧
      (allowAdditions=true → s.folder.listing.length ≤ maxEntries) := by
  have hlook : Sees NotBusy (look "enumerate anchored directory" fun s =>
      if (if allowAdditions then maxEntries else 14)<s.folder.listing.length then
        .error .adoptionInputChanged
      else .ok (s.folder.listing.insertionSort (· ≤ ·))) s fun names =>
        names=s.folder.listing.insertionSort (· ≤ ·) ∧
          (allowAdditions=true → s.folder.listing.length ≤ maxEntries) := by
    have hmoves : MovesAlone NotBusy (look "enumerate anchored directory" fun s =>
        if (if allowAdditions then maxEntries else 14)<s.folder.listing.length then
          .error .adoptionInputChanged
        else .ok (s.folder.listing.insertionSort (· ≤ ·))) := by
      refine moves_look fun s e he => ?_
      by_cases hlong : (if allowAdditions then maxEntries else 14)<s.folder.listing.length
      · rw [if_pos hlong] at he
        cases he
        exact StorageError.noConfusion
      · rw [if_neg hlong] at he
        cases he
    refine (hmoves.ensures (ensures_see _ _)).weaken (fun _ h => h.1) (fun names t h => ?_)
      fun _ _ h => h.1
    obtain ⟨⟨ht,hok⟩,-⟩ := h
    obtain ⟨hlong,hok⟩ := checked_ok.mp hok
    refine ⟨ht,(Except.ok.inj hok).symm,fun ha => ?_⟩
    rw [ha] at hlong
    exact not_lt.mp hlong
  refine sees_bind hlook fun names hnames => ?_
  obtain ⟨rfl,hroom⟩ := hnames
  refine (sees_forM _ fun name _ => sees_requireRootEntry allowAdditions name).weaken
    fun _ hall => ⟨fun k hk => ?_,hroom⟩
  exact hall k ((List.mem_insertionSort _).mpr (Folder.mem_listing.mpr hk))

/-- `requireNoSidecars` on success: there are none. -/
theorem sees_requireNoSidecars :
    Sees NotBusy requireNoSidecars disk fun _ => ∀ name ∈ sidecarNames, name ∉ disk.sidecars := by
  refine sees_forM sidecarNames fun name _ => (sees_observe fun e he => ?_).weaken fun a ha => ?_
  · split_ifs at he
    cases he
    exact StorageError.noConfusion
  · split_ifs at ha with hc
    simpa using hc

theorem settledEntry_notBusy {entry : TrashEntry} {e : StorageError}
    (h : settledEntry entry=.error e) : NotBusy e := by
  unfold settledEntry at h
  cases hc : entry.children with
  | none => rw [hc] at h; cases h; exact StorageError.noConfusion
  | some children =>
    rw [hc] at h
    dsimp only at h
    split_ifs at h
    all_goals
      cases h
      exact StorageError.noConfusion

def SettledTrash (disk : Disk) : Prop := ∀ entry ∈ disk.trash, settledEntry entry=.ok ()

theorem sees_requireSettledTrash :
    Sees NotBusy requireSettledTrash disk fun _ => SettledTrash disk := by
  refine sees_bind (sees_onRoot (sees_child "trash")) fun i _ =>
    (sees_observe fun e he => ?_).weaken fun u hu => ?_
  · by_cases hlong : maxEntries<disk.trash.length
    · rw [if_pos hlong] at he
      cases he
      exact StorageError.noConfusion
    · rw [if_neg hlong] at he
      obtain ⟨entry,-,hentry⟩ := forM_error he
      exact settledEntry_notBusy hentry
  · split_ifs at hu
    exact forM_ok.mp hu

theorem sees_requireEmptyStaging :
    Sees NotBusy requireEmptyStaging disk fun _ => disk.staging=[] := by
  refine sees_bind (sees_onRoot (sees_child "staging")) fun i _ =>
    (sees_observe fun e he => ?_).weaken fun u hu => ?_
  · split_ifs at he
    cases he
    exact StorageError.noConfusion
  · split_ifs at hu with h
    exact not_not.mp h

/-- A call that compares entries with those opened. -/
theorem sees_glance (context : String) :
    Sees NotBusy (observe context fun _ => .ok ()) disk fun _ => True := by
  refine (sees_observe fun e he => ?_).weaken fun _ _ => trivial
  cases he

/-- Such calls for each managed directory. -/
theorem sees_glances (context : String) (names : List String) :
    Sees NotBusy (names.forM fun _ => observe context fun _ => .ok ()) disk fun _ => True :=
  (sees_forM (P:=fun _ => True) names fun _ _ => sees_glance context).weaken fun _ _ => trivial

/-- `revalidateOwnership` only looks. -/
theorem sees_revalidateOwnership : Sees NotBusy revalidateOwnership disk fun _ => True :=
  sees_glance _

theorem Sees.anyError {ε : Type} {B : ε → Prop} {m : Steps Disk Choice ε α} {R : α → Prop}
    (h : Sees B m disk R) : Sees (fun _ => True) m disk R :=
  Ensures.weaken h (fun _ h => h) (fun _ _ h => h) fun _ _ h => ⟨h.1,trivial⟩

theorem sees_revalidate (record : Record) :
    Sees NotBusy record.revalidate s fun _ => Current record s :=
  ((moves_revalidate record).ensures (see_revalidate record)).weaken (fun _ h => h.1)
    (fun _ _ h => ⟨h.1.1,h.1.1 ▸ h.1.2⟩) fun _ _ h => h.1

end Looks

/-- All managed directories are there. -/
def Furnished (names : List String) (root : Control) : Prop :=
  ∀ name ∈ names, ∃ i, root.folder.find name=some i ∧ root.folder.contents i=.folder

/-- The disk `t` in the course of an operation that began at `s` with the record `before`
and may change it to `next`. -/
structure Course (env : RecordEnv) (s : Disk) (before : Document) (next : Option Document)
    (t : Disk) : Prop where
  /-- The record is the prior document until it is the next one. -/
  document : (t.root.overwrote=none ∧ named env t.root=some before) ∨
    (t.root.overwrote≠none ∧ ∃ d, next=some d ∧ named env t.root=some d)
  /-- No object has two names. -/
  single : t.root.folder.Single
  /-- Other names that are not private lead where they led, or to new managed directories. -/
  names : ∀ k, ¬ Private nativeStateTemp k → k≠nativeStateFile →
    t.root.folder.find k=s.root.folder.find k ∨
      (s.root.folder.find k=none ∧ k ∈ managedNames ∧ Furnished [k] t.root)
  /-- Objects that existed keep their content. -/
  kept : ∀ i, i<s.root.folder.issued → t.root.folder.contents i=s.root.folder.contents i
  /-- Identities are not reused. -/
  issued : s.root.folder.issued≤t.root.folder.issued
  /-- Managed directories and the database are touched while the record is active. -/
  touches : ∀ p ∈ t.touches, p ∈ s.touches ∨ p=some .active
  /-- What is beside the record is the same, or the library is in use. -/
  beside : (t.sidecars=s.sidecars ∧ t.staging=s.staging ∧ t.trash=s.trash) ∨
    (named env t.root).map (·.state)=some .active

/-- What an owner remembers is true of the disk. -/
structure Sound (env : RecordEnv) (owner : Owner) (disk : Disk) : Prop where
  /-- The record is remembered consistently. -/
  recalls : Recalls env owner.record
  /-- A certain record is the named one. -/
  current : owner.record.uncertain=false → Current owner.record disk.root
  fenced : owner.record.uncertain=true → owner.fenced=true
  /-- While the database is open the record is active. -/
  serving : owner.serving=true → owner.runtimeActive=true ∧
    (named env disk.root).map (·.state)=some .active
  report : owner.closedSuccess=true → owner.report=some true
  /-- An interrupted library was not claimed yet. -/
  pending : owner.recoveryPending=true → owner.managed=none
  /-- The owner of a claimed library has all managed directories, unless it is fenced. -/
  managed : owner.fenced=false → owner.managed≠none → Furnished managedNames disk.root

/-- The changes of the record an owner may make. -/
inductive Allowed (owner : Owner) (disk : Disk) (before next : Document) : Prop where
  /-- The library is claimed: closed before, or found interrupted and not yet claimed. -/
  | activation (document : next={ before with epoch := before.epoch+1, state := .active })
      (idle : owner.runtimeActive=false)
      (interrupted : before.state=.active → owner.recoveryPending=true ∧ owner.managed=none)
  /-- Registrations are changed; only an active record has any. -/
  | registration (document : next={ before with temporaries := next.temporaries })
      (active : before.state=.active ∨ next=before)
  /-- The library is closed: the database reported a complete close and nothing is left. -/
  | closing (document : next={ before with state := .closed }) (active : before.state=.active)
      (idle : owner.runtimeActive=false) (reported : owner.report=some true)
      (registrations : before.temporaries=[]) (staging : disk.staging=[])
      (trash : SettledTrash disk) (sidecars : ∀ name ∈ sidecarNames, name ∉ disk.sidecars)
      (directories : Furnished managedNames disk.root)

section Transition

variable {env : RecordEnv} {owner : Owner} {s t : Disk} {before next : Document}
  {wanted : Option Document}

/-- An operation that did nothing yet. -/
theorem course_idle (hs : Settled s.root) (hsingle : s.root.folder.Single)
    (hbefore : named env s.root=some before) : Course env s before wanted s :=
  ⟨.inl ⟨hs.overwrote,hbefore⟩,hsingle,fun _ _ _ => .inl rfl,fun _ _ => rfl,le_rfl,
    fun _ hp => .inl hp,.inl ⟨rfl,rfl,rfl⟩⟩

theorem course_of_progress {root : Control} (h : Progress env s.root before (some next) root)
    (hsingle : root.folder.Single) : Course env s before (some next) { s with root := root } :=
  ⟨h.document,hsingle,fun k hk hne => .inl (h.names k hk hne),h.kept,h.issued,
    fun _ hp => .inl hp,.inl ⟨rfl,rfl,rfl⟩⟩

theorem Sound.document_eq (h : Sound env owner s) (hbefore : named env s.root=some before)
    (hu : owner.record.uncertain=false) : before=owner.record.document := by
  have hnamed := (h.current hu).named h.recalls
  rw [hbefore] at hnamed
  exact Option.some.inj hnamed

theorem ensures_ownerTransition (hlossless : Lossless env) (hs : Settled s.root)
    (hsingle : s.root.folder.Single) (hbefore : named env s.root=some before)
    (hrecalls : Recalls env owner.record) (hwanted : wanted=some next) :
    Ensures Alone (owner.transition env next) s (Course env s before wanted)
      (fun done t => Course env s before wanted t ∧ t.root.overwrote≠none ∧
        done={ owner with record := done.record } ∧ Recalls env done.record ∧
        done.record.document=next ∧ Current done.record t.root ∧ t={ s with root := t.root } ∧
        ∀ k, ¬ Private nativeStateTemp k → k≠nativeStateFile →
          t.root.folder.find k=s.root.folder.find k)
      (fun failure t => Course env s before wanted t ∧ NotBusy failure.cause ∧
        failure.owner={ owner with record := failure.owner.record } ∧
        Recalls env failure.owner.record ∧ t={ s with root := t.root } ∧
        ((failure.owner.record=owner.record ∧ t=s) ∨ failure.owner.record.uncertain=true)) := by
  subst hwanted
  have hmoved : Ensures Alone (owner.record.transition env next) s.root _ _ _ :=
    (moves_transition owner.record next).ensures (ensures_transition hs hrecalls hlossless)
  have hcourse : ∀ root, Staged env next s.root root → Quietly s.root root →
      Course env s before (some next) { s with root := root } := fun root hstaged hquiet =>
    course_of_progress (hstaged.progress hlossless hs hbefore hquiet) (hquiet.single hsingle)
  have hroot : Ensures Alone (onRoot (owner.record.transition env next)) s
      (Course env s before (some next))
      (fun record t => t={ s with root := t.root } ∧ Staged env next s.root t.root ∧
        t.root.overwrote≠none ∧ Recalls env record ∧ record.document=next ∧
        Current record t.root ∧ Quietly s.root t.root)
      (fun failure t => t={ s with root := t.root } ∧ NotBusy failure.cause ∧
        ((failure.record=owner.record ∧ t.root=s.root) ∨
          Doubtful env next s.root failure t.root) ∧ Quietly s.root t.root) := by
    refine ensures_focus (hmoved.weaken (fun root h => hcourse root h.1 h.2)
      (fun record root h => ?_) fun failure root h => ?_)
    · obtain ⟨⟨-,hdone,-,hdocument,hcurrent,hstaged,hpublished,-⟩,hquiet⟩ := h
      exact ⟨rfl,hstaged,hpublished,hdone,hdocument,hcurrent,hquiet⟩
    · obtain ⟨⟨hfailed,hbusy⟩,hquiet⟩ := h
      exact ⟨rfl,hbusy,hfailed.imp_right fun h => h.2,hquiet⟩
  refine ensures_attempt_bind hroot (fun record t h => ?_) fun failure t h => ?_
  · obtain ⟨ht,hstaged,hpublished,hdone,hdocument,hcurrent,hquiet⟩ := h
    refine ensures_pure ⟨?_,hpublished,rfl,hdone,hdocument,hcurrent,ht,?_⟩
    · rw [ht]
      exact hcourse t.root hstaged hquiet
    · exact (hstaged.progress hlossless hs hbefore hquiet).names
  · obtain ⟨ht,hbusy,hfailed,hquiet⟩ := h
    cases hfailed with
    | inl hsame =>
      have hts : t=s := by rw [ht,hsame.2]
      refine ensures_fail ⟨?_,hbusy,rfl,?_,ht,.inl ⟨hsame.1,hts⟩⟩
      · rw [hts]
        exact course_idle hs hsingle hbefore
      · change Recalls env failure.record
        rw [hsame.1]
        exact hrecalls
    | inr hdoubt =>
      obtain ⟨hstaged,hdone,hu⟩ := hdoubt
      refine ensures_fail ⟨?_,hbusy,rfl,hdone,ht,.inr hu⟩
      rw [ht]
      exact hcourse t.root hstaged hquiet

end Transition

section Directories

variable {env : RecordEnv} {s t : Disk} {before next : Document} {wanted : Option Document}
  {record : Record} {opened : List String}

theorem managed_plain : ∀ name ∈ managedNames,
    ¬ Private nativeStateTemp name ∧ name≠nativeStateFile := by decide +kernel

/-- Directories that were there stay. -/
theorem Course.furnished (h : Course env s before wanted t) {names : List String}
    (hnames : ∀ name ∈ names, name ∈ managedNames) (hs : Furnished names s.root) :
    Furnished names t.root := by
  intro name hname
  obtain ⟨hprivate,hne⟩ := managed_plain name (hnames name hname)
  obtain ⟨i,hi,hc⟩ := hs name hname
  cases h.names name hprivate hne with
  | inl hsame => exact ⟨i,hsame.trans hi,(h.kept i (Folder.find_lt hi)).trans hc⟩
  | inr hnew => exact hnew.2.2 name List.mem_cons_self

/-- An activation after its record was published. -/
structure Activated (env : RecordEnv) (s : Disk) (before next : Document) (record : Record)
    (t : Disk) : Prop where
  course : Course env s before (some next) t
  published : t.root.overwrote≠none
  /-- The record is the one remembered. -/
  current : Current record t.root

theorem Activated.named (h : Activated env s before next record t) :
    NativeRecords.named env t.root=some next := by
  cases h.course.document with
  | inl hnone => exact absurd hnone.1 h.published
  | inr hsome =>
    obtain ⟨-,d,hd,hnamed⟩ := hsome
    cases hd
    exact hnamed

/-- A new managed directory. -/
theorem Activated.create (h : Activated env s before next record t) (hactive : next.state=.active)
    {name : String} (hname : name ∈ managedNames) (hfree : t.root.folder.find name=none) :
    Activated env s before next record { t.touch env with
      root := { t.root with folder := t.root.folder.create name .folder } } := by
  obtain ⟨hprivate,hne⟩ := managed_plain name hname
  have hstate : nativeStateFile≠name := fun he => hne he.symm
  have hlt : record.current.identity<t.root.folder.issued := Folder.find_lt h.current.find
  have hcontents : ∀ i, i<t.root.folder.issued →
      (t.root.folder.create name .folder).contents i=t.root.folder.contents i := fun i hi =>
    Function.update_of_ne (Nat.ne_of_lt hi) _ _
  have hfind : ∀ k, k≠name →
      (t.root.folder.create name .folder).find k=t.root.folder.find k := fun k hk =>
    (Folder.find_create _ _ _ _).trans (if_neg hk)
  have hsingle : (t.root.folder.create name Node.folder).Single := h.course.single.create name _
  have hnamed : NativeRecords.named env
      { t.root with folder := t.root.folder.create name .folder }=some next := by
    rw [← h.named]
    unfold NativeRecords.named Folder.read
    rw [hfind _ hstate,h.current.find,Option.map_some,Option.map_some,hcontents _ hlt]
  refine ⟨⟨.inr ⟨h.published,next,rfl,hnamed⟩,hsingle,fun k hk hkne => ?_,fun i hi => ?_,?_,
    fun p hp => ?_,.inr ?_⟩,h.published,h.current.certain,?_,?_,?_⟩
  · by_cases hkn : k=name
    · subst hkn
      cases h.course.names k hk hkne with
      | inl hsame =>
        refine .inr ⟨hsame.symm.trans hfree,hname,fun j hj => ?_⟩
        rw [List.mem_singleton.mp hj]
        exact ⟨t.root.folder.issued,(Folder.find_create _ _ _ _).trans (if_pos rfl),
          Function.update_self _ _ _⟩
      | inr hnew =>
        obtain ⟨i,hi,-⟩ := hnew.2.2 k List.mem_cons_self
        rw [hfree] at hi
        cases hi
    · refine (h.course.names k hk hkne).imp (fun hsame => (hfind k hkn).trans hsame) fun hnew => ?_
      refine ⟨hnew.1,hnew.2.1,fun j hj => ?_⟩
      obtain ⟨i,hi,hc⟩ := hnew.2.2 j hj
      have hjn : j≠name := fun he => by rw [he,hfree] at hi; cases hi
      exact ⟨i,(hfind j hjn).trans hi,(hcontents i (Folder.find_lt hi)).trans hc⟩
  · exact (hcontents i (lt_of_lt_of_le hi h.course.issued)).trans (h.course.kept i hi)
  · exact h.course.issued.trans (Nat.le_succ _)
  · cases List.mem_cons.mp hp with
    | inl hp =>
      rw [hp,h.named,Option.map_some,hactive]
      exact .inr rfl
    | inr hp => exact h.course.touches p hp
  · rw [hnamed,Option.map_some,hactive]
  · exact (hfind _ hstate).trans h.current.find
  · exact (hcontents _ hlt).trans h.current.contents
  · exact hsingle.links ((hfind _ hstate).trans h.current.find)

/-- `createChild` during an activation. -/
theorem ensures_createChild (ht : Activated env s before next record t)
    (hactive : next.state=.active) {name : String} (hname : name ∈ managedNames)
    (hopened : Furnished opened t.root) :
    Ensures Alone (createChild env name) t (Course env s before (some next))
      (fun _ t' => Activated env s before next record t' ∧ Furnished (opened ++ [name]) t'.root)
      (fun e t' => Activated env s before next record t' ∧ NotBusy e) := by
  refine ensures_bind (R:=fun _ t' => Activated env s before next record t' ∧
    Furnished opened t'.root) (ensures_act alone_default fun c hc => ?_) fun _ t₁ h₁ => ?_
  · rw [show c.others=[] from hc]
    dsimp only [List.foldl_nil]
    cases hf : t.root.folder.find name with
    | some i =>
      refine ⟨ht.course,fun _ ha => (nomatch ha),fun e he => ⟨ht,?_⟩⟩
      cases he
      exact StorageError.noConfusion
    | none =>
      have hmade := ht.create hactive hname hf
      have hstill : Furnished opened { t.root with
          folder := t.root.folder.create name .folder } := by
        intro k hk
        obtain ⟨i,hi,hc⟩ := hopened k hk
        have hkn : k≠name := fun he => by rw [he,hf] at hi; cases hi
        exact ⟨i,(Folder.find_create _ _ _ _).trans ((if_neg hkn).trans hi),
          (Function.update_of_ne (Nat.ne_of_lt (Folder.find_lt hi)) _ _).trans hc⟩
      cases c.fate with
      | done => exact ⟨hmade.course,fun _ _ => ⟨hmade,hstill⟩,fun _ he => (nomatch he)⟩
      | lost =>
        refine ⟨hmade.course,fun _ ha => (nomatch ha),fun e he => ⟨hmade,?_⟩⟩
        cases he
        exact StorageError.noConfusion
      | failed | torn n =>
        refine ⟨ht.course,fun _ ha => (nomatch ha),fun e he => ⟨ht,?_⟩⟩
        cases he
        exact StorageError.noConfusion
  · refine (sees_onRoot (sees_child name)).bind h₁.1.course (fun e he => ⟨h₁.1,he⟩) fun i hi => ?_
    refine ensures_pure ⟨h₁.1,fun k hk => ?_⟩
    cases List.mem_append.mp hk with
    | inl hk => exact h₁.2 k hk
    | inr hk =>
      rw [List.mem_singleton.mp hk]
      exact ⟨i,hi⟩

theorem ensures_openManaged (hactive : next.state=.active) {owner : Owner} :
    ∀ (names opened : List String) (t : Disk), (∀ k ∈ opened ++ names, k ∈ managedNames) →
      Activated env s before next record t → Furnished opened t.root →
      Ensures Alone (owner.openManaged env opened names) t (Course env s before (some next))
        (fun done t' => done={ owner with managed := some (opened ++ names) } ∧
          Activated env s before next record t' ∧ Furnished (opened ++ names) t'.root)
        (fun failure t' => Activated env s before next record t' ∧ NotBusy failure.cause ∧
          failure.owner={ owner with managed := failure.owner.managed }) := by
  intro names
  induction names with
  | nil =>
    intro opened t _ ht hopened
    rw [List.append_nil]
    exact ensures_pure ⟨rfl,ht,hopened⟩
  | cons name names ih =>
    intro opened t hmanaged ht hopened
    have hname : name ∈ managedNames :=
      hmanaged name (List.mem_append_right _ List.mem_cons_self)
    have hrest : ∀ t', Activated env s before next record t' →
        Furnished (opened ++ [name]) t'.root →
        Ensures Alone (owner.openManaged env (opened ++ [name]) names) t'
          (Course env s before (some next))
          (fun done t' => done={ owner with managed := some (opened ++ name::names) } ∧
            Activated env s before next record t' ∧ Furnished (opened ++ name::names) t'.root)
          (fun failure t' => Activated env s before next record t' ∧ NotBusy failure.cause ∧
            failure.owner={ owner with managed := failure.owner.managed }) := by
      intro t' ht' hopened'
      have hassoc : opened ++ [name] ++ names=opened ++ name::names := by simp
      have h := ih (opened ++ [name]) t' (by rw [hassoc]; exact hmanaged) ht' hopened'
      rw [hassoc] at h
      exact h
    have hfailed : ∀ cause, NotBusy cause → ∀ t', Activated env s before next record t' →
        Activated env s before next record t' ∧ NotBusy cause ∧
          ({ owner with managed := some opened } : Owner)={ owner with managed := some opened } :=
      fun cause hcause t' ht' => ⟨ht',hcause,rfl⟩
    refine ensures_attempt_bind (R:=fun i t' => t'=t ∧ t.root.folder.find name=some i ∧
        t.root.folder.contents i=.folder) (F:=fun e t' => t'=t ∧ NotBusy e)
      (Ensures.weaken (sees_onRoot (sees_child name)) (fun _ h => h ▸ ht.course)
        (fun _ _ h => h) fun _ _ h => h) (fun i t₁ h₁ => ?_) fun cause t₁ h₁ => ?_
    · obtain ⟨rfl,hi⟩ := h₁
      refine hrest t₁ ht fun k hk => ?_
      cases List.mem_append.mp hk with
      | inl hk => exact hopened k hk
      | inr hk =>
        rw [List.mem_singleton.mp hk]
        exact ⟨i,hi⟩
    · obtain ⟨rfl,hbusy⟩ := h₁
      cases cause with
      | io context kind =>
        dsimp only
        split_ifs
        · refine ensures_bind (R:=fun _ t' => Activated env s before next record t' ∧
            Furnished (opened ++ [name]) t'.root) (ensures_attempt_bind
            (ensures_createChild ht hactive hname hopened)
            (fun _ _ h => ensures_pure h) fun e t' h => ensures_fail (hfailed e h.2 t' h.1))
            fun _ t₂ h₂ => hrest t₂ h₂.1 h₂.2
        · refine ensures_bind (R:=fun _ _ => False) (ensures_fail (hfailed _ hbusy _ ht))
            fun _ _ h => h.elim
      | _ =>
        exact ensures_bind (R:=fun _ _ => False) (ensures_fail (hfailed _ hbusy _ ht))
          fun _ _ h => h.elim

end Directories

end Librairii.NativeCourses
