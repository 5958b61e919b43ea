import Librairii.NativeTransitions

/-!
# Reading an uncertain record again

Reconciling finds out which document is named. It removes private names only and
leaves the record as it is; when it succeeds the record is certain and current.
-/

namespace Librairii.NativeReconciliation

open InterruptedSteps NamedObjects ControlFiles ControlStages ControlMoves NativeRecords
  NativeLibraries NativeTransitions

variable {env : RecordEnv} {s t u : Control} {next : Document} {bytes : List UInt8}
  {record : Record} {temporary : Temporary}

/-- Names that are not private lead where they led, and nothing else happened. -/
structure Cleaned (s t : Control) : Prop where
  names : ∀ k, ¬ Private nativeStateTemp k → t.folder.find k=s.folder.find k
  /-- Objects keep their content. -/
  contents : t.folder.contents=s.folder.contents
  /-- No object is made. -/
  issued : t.folder.issued=s.folder.issued
  /-- Nothing is published. -/
  overwrote : t.overwrote=s.overwrote

theorem cleaned_refl (s : Control) : Cleaned s s := ⟨fun _ _ => rfl,rfl,rfl,rfl⟩

theorem Cleaned.named (h : Cleaned s t) : named env t=named env s := by
  unfold NativeRecords.named Folder.read
  rw [h.names _ stateFile_not_private,h.contents]

/-- An undisturbed program that keeps what was cleaned. -/
abbrev Cleans {ε α : Type} (s : Control) (m : Steps Control Choice ε α) : Prop :=
  ∀ t, Cleaned s t → Ensures Alone m t (Cleaned s) (fun _ => Cleaned s) fun _ => Cleaned s

theorem Cleans.looks {ε α : Type} {m : Steps Control Choice ε α} (h : Looks Alone m) :
    Cleans s m := fun t ht => h _ (lasting_alone _) t ht

theorem cleans_unlinkat (context : String) {name : String} (h : Private nativeStateTemp name) :
    Cleans s (unlinkat context name) := by
  intro t ht
  refine ensures_call (lasting_alone (Cleaned s)) alone_default ht fun fate t₁ h₁ => ?_
  cases hf : t₁.folder.find name with
  | none => exact ⟨h₁,fun _ _ => h₁,fun _ _ => h₁⟩
  | some i =>
    have hgone : Cleaned s
        { t₁ with folder := t₁.folder.remove name, unlinked := i::t₁.unlinked } := by
      refine ⟨fun k hk => ?_,h₁.contents,h₁.issued,h₁.overwrote⟩
      have hne : k≠name := fun hkn => hk (by rw [hkn]; exact h)
      exact (Folder.find_remove _ _ _).trans ((if_neg hne).trans (h₁.names k hk))
    cases fate with
    | done => exact ⟨hgone,fun _ _ => hgone,fun _ _ => hgone⟩
    | lost => exact ⟨hgone,fun _ _ => hgone,fun _ _ => hgone⟩
    | failed | torn n => exact ⟨h₁,fun _ _ => h₁,fun _ _ => h₁⟩

/-- Two programs in order. -/
theorem cleans_bind {ε α β : Type} {m : Steps Control Choice ε α}
    {f : α → Steps Control Choice ε β} (hm : Cleans s m) (hf : ∀ a, Cleans s (f a)) :
    Cleans s (m >>= f) := fun t ht => ensures_bind (hm t ht) fun a t₁ h₁ => hf a t₁ h₁

theorem cleans_removeConfigTemp {f : ConfigTemp} (h : Private nativeStateTemp f.name) :
    Cleans s (removeConfigTemp f) :=
  cleans_bind (.looks (looks_look alone_default _ _)) fun _ =>
    cleans_bind (.looks (looks_requireName alone_default _ _)) fun _ =>
      cleans_bind (cleans_unlinkat _ h) fun _ => .looks (looks_look alone_default _ _)

/-- Programs over a list. -/
theorem cleans_forM {γ : Type} {f : γ → Steps Control Choice StorageError PUnit} :
    ∀ xs : List γ, (∀ x ∈ xs, Cleans s (f x)) → Cleans s (xs.forM f) := by
  intro xs
  induction xs with
  | nil => exact fun _ t ht => ensures_pure ht
  | cons x xs ih =>
    intro h
    exact cleans_bind (h x List.mem_cons_self) fun _ =>
      ih fun y hy => h y (List.mem_cons_of_mem _ hy)

theorem cleans_removeRetained (context : String) (files : List ConfigTemp)
    (h : ∀ f ∈ files, f.name=nativeStateFile ∨ Private nativeStateTemp f.name) :
    Cleans s (Record.removeRetained context files) := by
  refine cleans_forM files fun f hf => ?_
  by_cases hname : f.name=nativeStateFile
  · rw [if_neg (not_not.mpr hname)]
    exact fun t ht => ensures_pure ht
  · have hprivate : Private nativeStateTemp f.name := (h f hf).resolve_left hname
    rw [if_pos hname]
    refine cleans_bind (.looks (looks_look alone_default _ _)) fun links => ?_
    by_cases hlinks : links=0
    · rw [if_neg (not_not.mpr hlinks)]
      exact fun t ht => ensures_pure ht
    · rw [if_pos hlinks]
      exact cleans_removeConfigTemp hprivate

theorem cleans_retireAllocation {a : ControlAllocation}
    (h : a.file≠none → Private nativeStateTemp a.name) : Cleans s (Record.retireAllocation a) := by
  have hflush : Cleans s flush := .looks (looks_look alone_default _ _)
  unfold Record.retireAllocation
  cases hf : a.file with
  | none => exact hflush
  | some i =>
    have hprivate := h (by rw [hf]; exact Option.some_ne_none _)
    dsimp only
    refine cleans_bind (.looks (looks_look alone_default _ _)) fun links => ?_
    by_cases hlinks : links=0
    · rw [if_neg (not_not.mpr hlinks)]
      exact fun t ht => ensures_pure ht
    · rw [if_pos hlinks]
      exact cleans_bind (.looks (looks_look alone_default _ _)) fun _ =>
        cleans_bind (.looks (looks_requireName alone_default _ _)) fun _ =>
          cleans_bind (cleans_unlinkat _ hprivate) fun _ => hflush

/-- The bytes found are those of the document recognized. -/
theorem recognize_decodes (hlossless : Lossless env) (hrecalls : Recalls env record)
    (h : record.recognize env temporary bytes=.ok next) : decode env bytes=.ok next := by
  unfold Record.recognize at h
  by_cases hprior : bytes=record.bytes
  · rw [if_pos hprior] at h
    cases h
    rw [hprior]
    exact hrecalls.decoded
  rw [if_neg hprior] at h
  cases hr : (record.document.with temporary).bytes env with
  | error e => rw [hr] at h; cases h
  | ok registered =>
    rw [hr] at h
    change (if bytes=registered then _ else _)=_ at h
    by_cases hregistered : bytes=registered
    · rw [if_pos hregistered] at h
      cases h
      rw [hregistered]
      exact decode_bytes hlossless hr
    rw [if_neg hregistered] at h
    cases hw : (record.document.without temporary).bytes env with
    | error e => rw [hw] at h; cases h
    | ok retired =>
      rw [hw] at h
      change (if bytes=retired then _ else _)=_ at h
      by_cases hretired : bytes=retired
      · rw [if_pos hretired] at h
        cases h
        rw [hretired]
        exact decode_bytes hlossless hw
      · rw [if_neg hretired] at h
        cases h

/-- A failed reconciliation: the record is as certain as before. -/
def Unresolved (env : RecordEnv) (record : Record) (s : Control) (failure : RecordFailure)
    (t : Control) : Prop :=
  Cleaned s t ∧ Recalls env failure.record ∧ failure.record.uncertain=record.uncertain ∧
    (record.uncertain=false → failure.record=record ∧ t=s)

theorem ensures_unsettled {α : Type} (found : Record) {m : Steps Control Choice StorageError α}
    (hm : Cleans s m) (ht : Cleaned s t) (hu : record.uncertain=true)
    (hfound : Recalls env found) (hstill : found.uncertain=true) :
    Ensures Alone (Record.keeping found m) t (Cleaned s) (fun _ => Cleaned s)
      (Unresolved env record s) := by
  refine ensures_orFail ((hm t ht).weaken (fun _ h => h) (fun _ _ h => h) fun cause t₁ h₁ => ?_)
  exact ⟨h₁,hfound,hstill.trans hu.symm,fun hn => by rw [hu] at hn; cases hn⟩

/-- The last part of a reconciliation, with the document found. -/
theorem ensures_settled {found : Record} (hu : record.uncertain=true)
    (hfound : Recalls env found) (hstill : found.uncertain=true) (ht : Cleaned s t) :
    Ensures Alone (do
      Record.keeping found (Record.removeRetained "observe retained control witness" found.retained)
      Record.keeping found (found.retainedAllocations.forM Record.retireAllocation)
      Record.keeping found flush
      Record.keeping found { found with uncertain := false }.revalidate
      return { found with retained := [], retainedAllocations := [], uncertain := false }
      : RecordWork Record) t (Cleaned s)
      (fun done t' => Cleaned s t' ∧ Recalls env done ∧ Current done t')
      (Unresolved env record s) := by
  have hallocations : Cleans s (found.retainedAllocations.forM Record.retireAllocation) :=
    cleans_forM _ fun a ha => cleans_retireAllocation (hfound.allocations a ha)
  refine ensures_bind (ensures_unsettled _ (cleans_removeRetained _ _ hfound.retained) ht hu hfound
    hstill) fun _ t₁ h₁ => ?_
  refine ensures_bind (ensures_unsettled _ hallocations h₁ hu hfound hstill) fun _ t₂ h₂ => ?_
  refine ensures_bind (ensures_unsettled _ (.looks (looks_look alone_default _ _)) h₂ hu hfound
    hstill) fun _ t₃ h₃ => ?_
  refine ensures_bind (R:=fun _ t' => t'=t₃ ∧ Current { found with uncertain := false } t₃)
    (ensures_orFail ((see_revalidate _).weaken (fun t' h => h ▸ h₃) (fun _ t' hq =>
    ⟨hq.1,hq.1 ▸ hq.2⟩)
      fun _ t' he => ?_)) fun _ t₄ h₄ => ?_
  · exact ⟨he ▸ h₃,hfound,hstill.trans hu.symm,fun hn => by rw [hu] at hn; cases hn⟩
  obtain ⟨rfl,hcurrent⟩ := h₄
  refine ensures_pure ⟨h₃,⟨hfound.decoded,hfound.current,fun _ => ⟨rfl,rfl⟩,?_,?_⟩,
    rfl,hcurrent.find,hcurrent.contents,hcurrent.links⟩
  · exact fun f hf => absurd hf List.not_mem_nil
  · exact fun a ha => absurd ha List.not_mem_nil

theorem ensures_reconcile (hlossless : Lossless env) (hrecalls : Recalls env record) :
    Ensures Alone (record.reconcileTemporary env temporary) s (Cleaned s)
      (fun done t => Cleaned s t ∧ Recalls env done ∧ Current done t)
      (Unresolved env record s) := by
  unfold Record.reconcileTemporary
  by_cases hu : record.uncertain=true
  · rw [if_neg (by rw [hu]; exact Bool.false_ne_true)]
    have hlost : ∀ cause, Unresolved env record s ⟨cause,record⟩ s := fun cause =>
      ⟨cleaned_refl s,hrecalls,rfl,fun _ => ⟨rfl,rfl⟩⟩
    have hidle : ∀ t, t=s → Cleaned s t := fun t h => h ▸ cleaned_refl s
    refine ensures_bind (ensures_orFail ((see_readConfig _).weaken hidle (fun _ _ h => h)
      fun cause t h => h ▸ hlost cause)) fun actual t₁ h₁ => ?_
    obtain ⟨rfl,hname,-⟩ := h₁
    dsimp only
    by_cases howned : record.owned.contains actual.identity=true
    swap
    · rw [if_pos (by simpa using howned)]
      exact ensures_fail (hlost _)
    rw [if_neg (by rw [howned]; exact Bool.false_ne_true)]
    refine ensures_bind (ensures_orFail ((see_readState _).weaken hidle (fun _ _ h => h)
      fun cause t h => h ▸ hlost cause)) fun bytes t₂ h₂ => ?_
    obtain ⟨rfl,-⟩ := h₂
    refine ensures_bind (R:=fun document t => t=t₂ ∧ decode env bytes=.ok document)
      (ensures_orFail (ensures_inspect (fun document hok => ⟨rfl,recognize_decodes hlossless
        hrecalls hok⟩) fun cause _ => hlost cause)) fun document t₃ h₃ => ?_
    obtain ⟨rfl,hdecode⟩ := h₃
    refine ensures_bind (ensures_unsettled record (.looks (looks_look alone_default _ _))
      (cleaned_refl t₃) hu hrecalls hu) fun _ t₄ h₄ => ?_
    refine ensures_bind (ensures_unsettled record (.looks (looks_look alone_default _ _))
      h₄ hu hrecalls hu) fun _ t₅ h₅ => ?_
    have hmoved : Recalls env (if record.current.identity≠actual.identity then
        { record with current := actual, retained := record.retained ++ [record.current] }
        else record) := by
      split_ifs
      · have h := hrecalls.keep hu [record.current] fun f hf => .inl (by
          rw [List.mem_singleton.mp hf]
          exact hrecalls.current)
        exact ⟨h.decoded,hname,h.settled,h.retained,h.allocations⟩
      · exact hrecalls
    have hstill : (if record.current.identity≠actual.identity then
        { record with current := actual, retained := record.retained ++ [record.current] }
        else record).uncertain=true := by
      split_ifs
      · exact hu
      · exact hu
    exact ensures_settled hu ⟨hdecode,hmoved.current,hmoved.settled,hmoved.retained,
      hmoved.allocations⟩ hstill h₅
  · have hcertain : record.uncertain=false := by simpa using hu
    rw [if_pos (by rw [hcertain]; rfl)]
    refine ensures_bind (R:=fun _ t => t=s ∧ Current record s) (ensures_orFail
      ((see_revalidate record).weaken (fun t h => h ▸ cleaned_refl s)
        (fun _ t h => ⟨h.1,h.1 ▸ h.2⟩) fun cause t h => ?_)) fun _ t₁ h₁ => ?_
    · exact ⟨h ▸ cleaned_refl s,hrecalls,rfl,fun _ => ⟨rfl,h⟩⟩
    obtain ⟨rfl,hcurrent⟩ := h₁
    exact ensures_pure ⟨cleaned_refl t₁,hrecalls,hcurrent⟩

section Moves

/-- A failed record call that is not refused as busy. -/
abbrev Unbusy (failure : RecordFailure) : Prop := NotBusy failure.cause

theorem bytes_notBusy {cause : StorageError} (h : next.bytes env=.error cause) : NotBusy cause := by
  unfold Document.bytes at h
  by_cases hv : next.valid env=true
  · rw [if_neg (by rw [hv]; exact Bool.false_ne_true)] at h
    cases hw : env.toVec next with
    | none => rw [hw] at h; cases h; exact StorageError.noConfusion
    | some b =>
      rw [hw] at h
      dsimp only at h
      split_ifs at h
      cases h
      exact StorageError.noConfusion
  · rw [if_pos (by simpa using hv)] at h
    cases h
    exact StorageError.noConfusion

/-- `readState`. -/
theorem moves_readState (i : ℕ) : MovesAlone NotBusy (readState i) := by
  refine moves_then moves_see fun b => moves_inspect fun s e he => ?_
  split_ifs at he
  cases he
  exact StorageError.noConfusion

theorem moves_revalidate (record : Record) : MovesAlone NotBusy record.revalidate := by
  unfold Record.revalidate
  by_cases hu : record.uncertain=true
  · rw [if_pos hu]
    exact moves_fail StorageError.noConfusion
  rw [if_neg hu]
  refine moves_then moves_see fun links => moves_then (moves_readConfig _) fun actual =>
    moves_then moves_see fun found => ?_
  split_ifs
  · exact moves_fail StorageError.noConfusion
  refine moves_then (moves_readState _) fun b => moves_inspect fun s e he => ?_
  split_ifs at he
  cases he
  exact StorageError.noConfusion

/-- A part of a record call. -/
theorem moves_keeping {α : Type} {m : Steps Control Choice StorageError α}
    (hm : MovesAlone NotBusy m) (record : Record) :
    MovesAlone Unbusy (Record.keeping record m) := moves_orFail hm fun _ he => he

/-- `removeRetained`. -/
theorem moves_removeRetained (context : String) (files : List ConfigTemp) :
    MovesAlone NotBusy (Record.removeRetained context files) := by
  refine moves_list (fun f => ?_) files
  split_ifs
  · refine moves_then moves_see fun links => ?_
    split_ifs
    · exact moves_removeConfigTemp f
    · exact moves_pure _
  · exact moves_pure _

/-- `stageNext`. -/
theorem moves_stageNext (record : Record) (bytes : List UInt8) :
    MovesAlone Unbusy (record.stageNext bytes) :=
  moves_then (moves_orFail (moves_createControlTempIn _ _) fun _ he => he) fun _ =>
    moves_then (moves_keeping (moves_writeAll _ _ _) _) fun _ =>
      moves_then (moves_keeping moves_see _) fun _ => moves_pure _

/-- `publishNext`. -/
theorem moves_publishNext (record : Record) (staged : ConfigTemp) :
    MovesAlone Unbusy (record.publishNext staged) := by
  refine moves_then (moves_orFail (moves_replaceOwnedConfig _ _ _) fun _ he => he) fun p => ?_
  obtain ⟨published,old⟩ := p
  dsimp only
  cases old with
  | none => exact moves_pure _
  | some displaced =>
    refine moves_then (moves_keeping (moves_readConfig _) _) fun checked =>
      moves_then (moves_keeping (moves_readState _) _) fun b => ?_
    split_ifs
    · exact moves_fail StorageError.noConfusion
    · exact moves_pure _

theorem moves_acknowledge (record : Record) : MovesAlone Unbusy record.acknowledge :=
  moves_then (moves_keeping moves_see _) fun _ =>
    moves_then (moves_keeping (moves_revalidate _) _) fun _ =>
      moves_then (moves_keeping (moves_removeRetained _ _) _) fun _ =>
        moves_then (moves_keeping moves_see _) fun _ =>
          moves_then (moves_keeping (moves_revalidate _) _) fun _ => moves_pure _

theorem moves_transition (record : Record) (next : Document) :
    MovesAlone Unbusy (record.transition env next) :=
  moves_then (moves_keeping (moves_revalidate _) _) fun _ =>
    moves_then (moves_keeping moves_see _) fun _ =>
      moves_then (moves_keeping (moves_inspect fun _ _ he => bytes_notBusy he) _) fun _ =>
        moves_then (moves_note _) fun _ => moves_then (moves_stageNext _ _) fun _ =>
          moves_then (moves_publishNext _ _) fun _ => moves_acknowledge _

theorem recognize_notBusy {cause : StorageError}
    (h : record.recognize env temporary bytes=.error cause) : NotBusy cause := by
  unfold Record.recognize at h
  split_ifs at h
  · cases h
  cases hr : (record.document.with temporary).bytes env with
  | error e => rw [hr] at h; cases h; exact bytes_notBusy hr
  | ok registered =>
    rw [hr] at h
    change (if bytes=registered then _ else _)=_ at h
    split_ifs at h
    · cases h
    cases hw : (record.document.without temporary).bytes env with
    | error e => rw [hw] at h; cases h; exact bytes_notBusy hw
    | ok retired =>
      rw [hw] at h
      change (if bytes=retired then _ else _)=_ at h
      split_ifs at h
      · cases h
      · cases h
        exact StorageError.noConfusion

/-- `retireAllocation`. -/
theorem moves_retireAllocation (a : ControlAllocation) :
    MovesAlone NotBusy (Record.retireAllocation a) := by
  unfold Record.retireAllocation
  cases a.file with
  | none => exact moves_see
  | some i =>
    refine moves_then moves_see fun links => ?_
    split_ifs
    · exact moves_then (moves_requireRegular _) fun _ => moves_then (moves_requireName _ _)
        fun _ => moves_then (moves_unlinkat _ _) fun _ => moves_see
    · exact moves_pure _

theorem moves_reconcile (record : Record) (temporary : Temporary) :
    MovesAlone Unbusy (record.reconcileTemporary env temporary) := by
  unfold Record.reconcileTemporary
  by_cases hu : (!record.uncertain)=true
  · rw [if_pos hu]
    exact moves_then (moves_keeping (moves_revalidate _) _) fun _ => moves_pure _
  rw [if_neg hu]
  refine moves_then (moves_keeping (moves_readConfig _) _) fun actual => ?_
  by_cases howned : (!record.owned.contains actual.identity)=true
  · rw [if_pos howned]
    exact moves_fail StorageError.noConfusion
  rw [if_neg howned]
  refine moves_then (moves_keeping (moves_readState _) _) fun b =>
    moves_then (moves_keeping (moves_inspect fun _ _ he => recognize_notBusy he) _) fun document =>
      moves_then (moves_keeping moves_see _) fun _ => moves_then (moves_keeping moves_see _)
        fun _ => ?_
  exact moves_then (moves_keeping (moves_removeRetained _ _) _) fun _ =>
    moves_then (moves_keeping (moves_list moves_retireAllocation _) _) fun _ =>
      moves_then (moves_keeping moves_see _) fun _ =>
        moves_then (moves_keeping (moves_revalidate _) _) fun _ => moves_pure _

end Moves

end Librairii.NativeReconciliation
