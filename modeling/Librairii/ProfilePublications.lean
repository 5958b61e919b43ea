import Librairii.ProfileReads

/-!
# Publishing settings and interface documents

Both publication routines stage the new bytes, read the named document again,
exchange the names, check what was displaced and only then remove it. A failing
step either undoes the stage or leaves a stage behind in a poisoned store.
-/

namespace Librairii.ProfilePublications

open InterruptedSteps NamedObjects ControlFiles ControlStages ControlReplacement ProfileStore
  ProfileReads

variable {A : Choice → Prop} {s t : Control} {state : State} {name hiddenName : String}
  {bytes b : List UInt8} {valid : List UInt8 → Prop} {subject : Option (ℕ×List UInt8)} {i : ℕ}

def Accepted (valid : List UInt8 → Prop) (subject : Option (ℕ×List UInt8)) : Prop :=
  ∀ p, subject=some p → valid p.2

theorem accepted_none : Accepted valid none := fun _ hp => nomatch hp

/-- The namespace is in some stage of replacing an accepted document. -/
def Ongoing (name : String) (bytes : List UInt8) (valid : List UInt8 → Prop) (s t : Control) :
    Prop :=
  ∃ subject, Accepted valid subject ∧ Within settingsStem name bytes subject s t

/-- The namespace holds nothing of the operation any more. -/
def Undone (name : String) (bytes : List UInt8) (valid : List UInt8 → Prop) (s t : Control) :
    Prop :=
  ∃ h : Holdings, h.hidden=none ∧ h.published=none ∧ Accepted valid h.subject ∧
    Stage name bytes s h ∧ Holding settingsStem s h t

/-- The document is published and the one it displaced, if any, is removed. -/
def Finished (name : String) (bytes : List UInt8) (valid : List UInt8 → Prop) (s t : Control) :
    Prop :=
  ∃ subject i, Accepted valid subject ∧
    Holding settingsStem s (.replaced subject name i bytes
      (match subject with | some p => p.1::s.unlinked | none => s.unlinked)
      (subject.map Prod.fst)) t

/-- A refused call poisoned the store or undid its work and left the store usable. -/
def Refused (state : State) (name : String) (bytes : List UInt8) (valid : List UInt8 → Prop)
    (s : Control) (refusal : Refusal) (t : Control) : Prop :=
  (refusal.state.poisoned=true ∧ Ongoing name bytes valid s t) ∨
  (refusal.state.poisoned=state.poisoned ∧ refusal.state.binding=state.binding ∧
    Undone name bytes valid s t)

theorem Undone.ongoing (h : Undone name bytes valid s t) : Ongoing name bytes valid s t := by
  obtain ⟨h,-,-,haccepted,hstage,hholding⟩ := h
  exact ⟨h.subject,haccepted,h,rfl,hstage,hholding⟩

theorem Finished.ongoing (h : Finished name bytes valid s t) : Ongoing name bytes valid s t := by
  obtain ⟨subject,i,haccepted,hholding⟩ := h
  cases subject with
  | none => exact ⟨none,haccepted,_,rfl,stage_replaced s,hholding⟩
  | some p => exact ⟨some p,haccepted,_,rfl,stage_finished s,hholding⟩

theorem Refused.of {state' : State} {refusal : Refusal}
    (h : Refused state' name bytes valid s refusal t) (hpoisoned : state'.poisoned=state.poisoned)
    (hbinding : state'.binding=state.binding) : Refused state name bytes valid s refusal t := by
  unfold Refused at h ⊢
  rw [hpoisoned,hbinding] at h
  exact h

theorem undone_reading (haccepted : Accepted valid subject)
    (ht : Holding settingsStem s (.reading s subject) t) : Undone name bytes valid s t :=
  ⟨_,rfl,rfl,haccepted,stage_reading s,ht⟩

theorem ensures_note {ε : Type} {E : ε → Control → Prop} (hd : A default)
    (ht : Holding settingsStem s (.reading s none) t) (haccepted : Accepted valid subject)
    (hknown : ∀ p, subject=some p → Known p t) :
    Ensures A (note (subject.map Prod.fst) : Steps Control Choice ε Unit) t
      (Ongoing name bytes valid s) (fun _ => Holding settingsStem s (.reading s subject)) E := by
  have hnoted := holding_note ht hknown
  exact ensures_act hd fun c hc => ⟨(undone_reading haccepted hnoted).ongoing,fun _ _ => hnoted,
    fun _ he => nomatch he⟩

section Parts

variable (hA : ∀ c, A c → Respectful settingsStem c) (hd : A default)
  (haccepted : Accepted valid subject)

include hA hd haccepted

theorem ensures_stage (ht : Holding settingsStem s (.reading s subject) t) :
    Ensures A (stage state) t (Ongoing name bytes valid s)
      (fun staged => Holding settingsStem s (.staged s subject staged.name staged.identity []))
      (Refused state name bytes valid s) := by
  refine ensures_orFail ((ensures_createControlTempIn hA hd 64 t ht).weaken
    (fun t' hc => ⟨subject,haccepted,hc⟩) (fun _ _ hq => hq) fun failure t' he => ?_)
  unfold Refused
  dsimp only
  split_ifs with hopened
  · exact .inl ⟨rfl,subject,haccepted,he.1⟩
  · have hrefused : failure.creationRefused=true := by
      cases hr : failure.creationRefused with
      | true => rfl
      | false =>
        rw [hr] at hopened
        exact (hopened rfl).elim
    exact .inr ⟨rfl,rfl,undone_reading haccepted (he.2.1 hrefused)⟩

/-- `dropStage`: the temporary is removed, or the store is poisoned. -/
theorem ensures_dropStage {α : Type} {Q : α → Control → Prop} (staged : ConfigTemp)
    (work : StorageError)
    (ht : Holding settingsStem s (.staged s subject staged.name staged.identity b) t) :
    Ensures A (dropStage state staged work : Work α) t (Ongoing name bytes valid s) Q
      (Refused state name bytes valid s) := by
  have hremove : Ensures A (removeConfigTemp staged) t
      (Within settingsStem name bytes subject s) _ _ :=
    ensures_removeConfigTemp hA hd ht rfl staged.identity rfl (stage_staged s)
      fun _ => stage_dropped s
  refine ensures_attempt_bind (hremove.weaken (fun t' hc => ⟨subject,haccepted,hc⟩)
    (fun _ _ hq => hq) fun _ _ he => he) (fun _ t' ht' => ?_) fun cleanup t' ht' => ?_
  · exact ensures_fail (.inr ⟨rfl,rfl,_,rfl,rfl,haccepted,stage_dropped s,ht'.2⟩)
  · exact ensures_fail (.inl ⟨rfl,subject,haccepted,ht'⟩)

/-- The bytes are written and the documents are looked at again. -/
theorem ensures_before {m : Steps Control Choice StorageError Unit} (hm : Looks A m)
    (context : String) (ht : Holding settingsStem s (.staged s subject hiddenName i []) t) :
    Ensures A (writeAll context i bytes >>= fun _ => m) t (Ongoing name bytes valid s)
      (fun _ => Holding settingsStem s (.staged s subject hiddenName i bytes))
      (fun _ t' => ∃ b, Holding settingsStem s (.staged s subject hiddenName i b) t') := by
  refine ensures_bind ((ensures_writeAll hA hd ht context bytes).weaken
    (fun t' hc => ⟨subject,haccepted,hc⟩) (fun _ _ hq => hq) fun _ _ he => he) fun _ t₁ h₁ => ?_
  exact (hm.ensures (lasting hA) h₁ fun t' ht' => ⟨subject,haccepted,_,rfl,stage_staged
    s,ht'⟩).weaken
    (fun _ hc => hc) (fun _ _ hq => hq) fun _ t' he => ⟨bytes,he⟩

omit hd in
theorem lasting_confirmed (old : Option ConfigTemp) :
    Lasting A (Confirmed settingsStem name hiddenName i bytes subject s old) := by
  intro c hc t ht
  cases subject with
  | none => exact ⟨ht.1,lasting hA c hc t ht.2⟩
  | some p => exact ⟨ht.1,lasting hA c hc t ht.2⟩

omit hA hd in
/-- A checked publication is a stage. -/
theorem ongoing_confirmed {old : Option ConfigTemp}
    (ht : Confirmed settingsStem name hiddenName i bytes subject s old t) :
    Ongoing name bytes valid s t := by
  cases subject with
  | none => exact ⟨none,haccepted,_,rfl,stage_replaced s,ht.2⟩
  | some p => exact ⟨some p,haccepted,_,rfl,stage_exchanged s,ht.2⟩

theorem ensures_removeDisplaced {old : Option ConfigTemp}
    (ht : Confirmed settingsStem name hiddenName i bytes subject s old t) :
    Ensures A (removeDisplaced old) t (Ongoing name bytes valid s)
      (fun _ => Finished name bytes valid s) (fun _ => Ongoing name bytes valid s) := by
  cases subject with
  | none =>
    obtain ⟨rfl,hholding⟩ := ht
    exact ensures_pure ⟨none,i,haccepted,hholding⟩
  | some p =>
    obtain ⟨rfl,hholding⟩ := ht
    have hremove : Ensures A (removeConfigTemp ⟨p.1,hiddenName⟩) t
        (Within settingsStem name bytes (some p) s) _ _ :=
      ensures_removeConfigTemp hA hd hholding rfl p.1 rfl (stage_exchanged s)
        fun _ => stage_finished s
    refine ensures_bind (hremove.weaken (fun t' hc => ⟨some p,haccepted,hc⟩) (fun _ _ hq => hq)
      fun _ t' he => ⟨some p,haccepted,he⟩) fun _ t₁ h₁ => ?_
    have hfinished : ∀ t', Holding settingsStem s
        (.replaced (some p) name i bytes (p.1::s.unlinked) (some p.1)) t' →
        Finished name bytes valid s t' := fun t' ht' => ⟨some p,i,haccepted,ht'⟩
    exact (ensures_flush (lasting hA) hd h₁.2 fun t' ht' => (hfinished t' ht').ongoing).weaken
      (fun _ hc => hc) (fun _ t' hq => hfinished t' hq) fun _ t' he => (hfinished t' he).ongoing

omit hd in
/-- A look after the names were exchanged. -/
theorem ensures_confirmed_bind {α β : Type} {m : Steps Control Choice StorageError α}
    {f : α → Steps Control Choice StorageError β} {Q : β → Control → Prop} (hm : Looks A m)
    {old : Option ConfigTemp} (ht : Confirmed settingsStem name hiddenName i bytes subject s old t)
    (hf : ∀ a t', Confirmed settingsStem name hiddenName i bytes subject s old t' →
      Ensures A (f a) t' (Ongoing name bytes valid s) Q fun _ => Ongoing name bytes valid s) :
    Ensures A (m >>= f) t (Ongoing name bytes valid s) Q fun _ => Ongoing name bytes valid s := by
  have hongoing : ∀ t', Confirmed settingsStem name hiddenName i bytes subject s old t' →
      Ongoing name bytes valid s t' := fun t' ht' => ongoing_confirmed haccepted ht'
  exact ensures_bind ((hm.ensures (lasting_confirmed hA haccepted old) ht hongoing).weaken
    (fun _ hc => hc) (fun _ _ hq => hq) fun _ t' he => hongoing t' he) hf

end Parts

theorem looks_checkDisplaced (hd : A default) (context : String) (original : Option (List UInt8))
    (old : Option ConfigTemp) : Looks A (checkDisplaced context original old) := by
  cases old with
  | none => exact looks_pure _
  | some displaced => exact looks_bind (looks_look hd _ _) fun _ => looks_inspect _

section Saves

variable (hA : ∀ c, A c → Respectful settingsStem c) (hd : A default)

include hA hd

omit hA hd in
/-- A part that only looks, before anything is done. -/
theorem ensures_within {α β : Type} {m : Steps Control Choice StorageError α}
    {f : α → Work β} {R : α → Control → Prop} {Q : β → Control → Prop} {state' : State}
    (hpoisoned : state'.poisoned=state.poisoned) (hbinding : state'.binding=state.binding)
    (hm : Ensures A m t (Holding settingsStem s (.reading s none)) R
      fun _ => Holding settingsStem s (.reading s none))
    (hf : ∀ a t', R a t' → Ensures A (f a) t' (Ongoing name bytes valid s) Q
      (Refused state name bytes valid s)) :
    Ensures A (within state' m >>= f) t (Ongoing name bytes valid s) Q
      (Refused state name bytes valid s) := by
  have hundone : ∀ t', Holding settingsStem s (.reading s none) t' →
      Undone name bytes valid s t' := fun t' ht' => undone_reading accepted_none ht'
  exact ensures_bind (ensures_orFail (hm.weaken (fun t' hc => (hundone t' hc).ongoing)
    (fun _ _ hq => hq) fun _ t' he => .inr ⟨hpoisoned,hbinding,hundone t' he⟩)) hf

/-- What `save_ui_document_locked` does once the bytes are staged. -/
theorem ensures_uiReplacement (hname : ¬ Private settingsStem name)
    (previous : Option (List UInt8×ℕ)) (haccepted : Accepted valid (previous.map Prod.swap))
    (staged : ConfigTemp) (ht : Holding settingsStem s
      (.staged s (previous.map Prod.swap) staged.name staged.identity bytes) t) :
    Ensures A (do
      match ← attempt (replaceOwnedConfig staged name (previous.map (·.2))) with
      | .error failure =>
        fail ⟨.profilePublicationUncertain failure.cause,state.witness [failure.temporary]⟩
      | .ok (published,old) =>
        match ← attempt (uiAfter state.marker name previous published old bytes) with
        | .ok () => return state
        | .error cause =>
          fail ⟨.profilePublicationUncertain cause,state.witness (published::old.toList)⟩
      : Work State) t (Ongoing name bytes valid s)
      (fun result t' => result=state ∧ Finished name bytes valid s t')
      (Refused state name bytes valid s) := by
  have hsubject : previous.map (·.2)=(previous.map Prod.swap).map Prod.fst := by
    cases previous with
    | none => rfl
    | some p => rfl
  rw [hsubject]
  refine ensures_attempt_bind ((ensures_replaceOwnedConfig hA hd ht hname).weaken
    (fun t' hc => ⟨_,haccepted,hc⟩) (fun _ _ hq => hq) fun _ _ he => he)
    (fun p t₁ h₁ => ?_) fun failure t₁ h₁ => ?_
  · obtain ⟨published,old⟩ := p
    have hafter : Ensures A (uiAfter state.marker name previous published old bytes) t₁
        (Ongoing name bytes valid s) (fun _ => Finished name bytes valid s)
        (fun _ => Ongoing name bytes valid s) := by
      refine ensures_confirmed_bind hA haccepted (looks_checkDisplaced hd _ _ _) h₁.2
        fun _ t₂ h₂ => ?_
      refine ensures_confirmed_bind hA haccepted (looks_look hd _ _) h₂ fun _ t₃ h₃ => ?_
      refine ensures_confirmed_bind hA haccepted (looks_revalidateNamespace hd _) h₃
        fun _ t₄ h₄ => ?_
      refine ensures_confirmed_bind hA haccepted ?_ h₄ fun _ t₅ h₅ =>
        ensures_removeDisplaced hA hd haccepted h₅
      refine looks_bind (looks_uiBytes hd _ _) fun found => ?_
      cases found with
      | none => exact looks_fail _
      | some p => exact looks_inspect _
    refine ensures_attempt_bind hafter (fun _ t₂ h₂ => ?_) fun cause t₂ h₂ => ?_
    · exact ensures_pure ⟨rfl,h₂⟩
    · exact ensures_fail (.inl ⟨rfl,h₂⟩)
  · exact ensures_fail (.inl ⟨rfl,_,haccepted,h₁.1⟩)

theorem ensures_saveUiDocumentLocked (hname : ¬ Private settingsStem name)
    {validate : List UInt8 → Except StorageError Unit}
    (ht : Holding settingsStem s (.reading s none) t) :
    Ensures A (saveUiDocumentLocked state name bytes validate) t
      (Ongoing name bytes (fun b => validate b=.ok ()) s)
      (fun result t' => result=state ∧ Finished name bytes (fun b => validate b=.ok ()) s t')
      (Refused state name bytes (fun b => validate b=.ok ()) s) := by
  have hI := lasting (s:=s) (h:=.reading s none) hA
  refine ensures_within rfl rfl ((looks_revalidateNamespace hd state.marker) _ hI t ht)
    fun _ t₁ h₁ => ?_
  refine ensures_within rfl rfl (ensures_uiBytes hI hd state.marker name h₁)
    fun previous t₂ h₂ => ?_
  have hknown : ∀ p, previous.map Prod.swap=some p → Known p t₂ := by
    intro p hp
    cases previous with
    | none => cases hp
    | some q =>
      cases hp
      exact h₂.2 q rfl
  refine ensures_within (R:=fun _ t' => Holding settingsStem s (.reading s none) t' ∧
    (∀ p, previous.map Prod.swap=some p → Known p t') ∧
    Accepted (fun b => validate b=.ok ()) (previous.map Prod.swap)) rfl rfl
    (ensures_inspect (fun u hok => ⟨h₂.1,hknown,?_⟩) fun _ _ => h₂.1) fun _ t₃ h₃ => ?_
  · intro p hp
    cases previous with
    | none => cases hp
    | some q =>
      cases hp
      exact hok
  obtain ⟨hholding,hknown,haccepted⟩ := h₃
  have hsubject : previous.map (·.2)=(previous.map Prod.swap).map Prod.fst := by
    cases previous with
    | none => rfl
    | some p => rfl
  rw [hsubject]
  refine ensures_bind (ensures_note hd hholding haccepted hknown) fun _ t₄ h₄ => ?_
  refine ensures_bind (ensures_stage hA hd haccepted h₄) fun staged t₅ h₅ => ?_
  have hlooks : Looks A (do
      durableFileFlush staged.identity
      revalidateNamespace state.marker
      let actual ← uiBytes state.marker name
      inspect fun _ => if previous=actual then .ok () else .error .profileChanged
      : Steps Control Choice StorageError Unit) :=
    looks_bind (looks_look hd _ _) fun _ => looks_bind (looks_revalidateNamespace hd _) fun _ =>
      looks_bind (looks_uiBytes hd _ _) fun _ => looks_inspect _
  refine ensures_attempt_bind (ensures_before hA hd haccepted hlooks _ h₅) (fun _ t₆ h₆ => ?_)
    fun work t₆ h₆ => ?_
  · rw [← hsubject]
    exact ensures_uiReplacement hA hd hname previous haccepted staged h₆
  · obtain ⟨b,hb⟩ := h₆
    exact ensures_dropStage hA hd haccepted staged work hb

/-- What `update_unix` does once the bytes are staged. -/
theorem ensures_settingsReplacement (env : StoreEnv) (next : Profile) (staged : ConfigTemp)
    (hmetadata : state.settingsMetadata=subject.map Prod.fst) (haccepted : Accepted valid subject)
    (ht : Holding settingsStem s (.staged s subject staged.name staged.identity bytes) t) :
    Ensures A (do
      match ← attempt (replaceOwnedConfig staged settingsName state.settingsMetadata) with
      | .error failure =>
        if failure.changed then
          fail ⟨.profilePublicationUncertain failure.cause,state.witness [failure.temporary]⟩
        else dropStage state failure.temporary failure.cause
      | .ok (published,old) =>
        match ← attempt (settingsAfter env state published old bytes) with
        | .ok metadata =>
          return { state with
            document := some ⟨next,bytes⟩, settingsMetadata := some metadata }
        | .error cause =>
          fail ⟨.profilePublicationUncertain cause,state.witness (published::old.toList)⟩
      : Work State) t (Ongoing settingsName bytes valid s)
      (fun result t' => (result.poisoned=state.poisoned ∧ result.binding=state.binding) ∧
        Finished settingsName bytes valid s t')
      (Refused state settingsName bytes valid s) := by
  have hname : ¬ Private settingsStem settingsName := by decide +kernel
  rw [hmetadata]
  refine ensures_attempt_bind ((ensures_replaceOwnedConfig hA hd ht hname).weaken
    (fun t' hc => ⟨_,haccepted,hc⟩) (fun _ _ hq => hq) fun _ _ he => he)
    (fun p t₁ h₁ => ?_) fun failure t₁ h₁ => ?_
  · obtain ⟨published,old⟩ := p
    have hafter : Ensures A (settingsAfter env state published old bytes) t₁
        (Ongoing settingsName bytes valid s) (fun _ => Finished settingsName bytes valid s)
        (fun _ => Ongoing settingsName bytes valid s) := by
      refine ensures_confirmed_bind hA haccepted (looks_checkDisplaced hd _ _ _) h₁.2
        fun _ t₂ h₂ => ?_
      refine ensures_confirmed_bind hA haccepted (looks_look hd _ _) h₂ fun _ t₃ h₃ => ?_
      refine ensures_confirmed_bind hA haccepted (looks_revalidateNamespace hd _) h₃
        fun _ t₄ h₄ => ?_
      refine ensures_confirmed_bind hA haccepted ?_ h₄ fun metadata t₅ h₅ => ?_
      · refine looks_bind (looks_readNativeDocument hd env) fun found => ?_
        cases found with
        | none => exact looks_fail _
        | some p => exact looks_inspect _
      · exact ensures_bind (ensures_removeDisplaced hA hd haccepted h₅) fun _ t₆ h₆ =>
          ensures_pure h₆
    refine ensures_attempt_bind hafter (fun metadata t₂ h₂ => ?_) fun cause t₂ h₂ => ?_
    · exact ensures_pure ⟨⟨rfl,rfl⟩,h₂⟩
    · exact ensures_fail (.inl ⟨rfl,h₂⟩)
  · dsimp only
    split_ifs with hchanged
    · exact ensures_fail (.inl ⟨rfl,_,haccepted,h₁.1⟩)
    · have hunchanged : failure.changed=false := by simpa using hchanged
      obtain ⟨htemporary,hstaged⟩ := h₁.2.1 hunchanged
      rw [htemporary]
      exact ensures_dropStage hA hd haccepted ⟨staged.identity,staged.name⟩ failure.cause hstaged

theorem ensures_updateUnix (env : StoreEnv) (next : Profile)
    (ht : Holding settingsStem s (.reading s none) t) (hremembers : Remembers env state t) :
    Ensures A (updateUnix env state next bytes) t
      (Ongoing settingsName bytes (fun b => ∃ document, decodeProfile env b=.ok document) s)
      (fun result t' => (result.poisoned=state.poisoned ∧ result.binding=state.binding) ∧
        Finished settingsName bytes (fun b => ∃ document, decodeProfile env b=.ok document) s t')
      (Refused state settingsName bytes
        (fun b => ∃ document, decodeProfile env b=.ok document) s) := by
  obtain ⟨hmetadata,-,hknown⟩ := hremembers
  have haccepted : Accepted (fun b => ∃ document, decodeProfile env b=.ok document)
      (remembered state) := fun p hp => (hknown p hp).2
  have hnote : Ensures A (note state.settingsMetadata : Work Unit) t
      (Ongoing settingsName bytes (fun b => ∃ document, decodeProfile env b=.ok document) s)
      (fun _ => Holding settingsStem s (.reading s (remembered state)))
      (Refused state settingsName bytes
        (fun b => ∃ document, decodeProfile env b=.ok document) s) := by
    rw [hmetadata]
    exact ensures_note hd ht haccepted fun p hp => (hknown p hp).1
  unfold updateUnix
  refine ensures_bind hnote fun _ t₁ h₁ => ?_
  refine ensures_bind (ensures_stage hA hd haccepted h₁) fun staged t₂ h₂ => ?_
  have hlooks : Looks A (do
      durableFileFlush staged.identity
      revalidateNamespace state.marker
      revalidateSettings env state : Steps Control Choice StorageError Unit) :=
    looks_bind (looks_look hd _ _) fun _ => looks_bind (looks_revalidateNamespace hd _) fun _ =>
      looks_revalidateSettings hd env state
  refine ensures_attempt_bind (ensures_before hA hd haccepted hlooks _ h₂) (fun _ t₃ h₃ => ?_)
    fun work t₃ h₃ => ?_
  · exact ensures_settingsReplacement hA hd env next staged hmetadata haccepted h₃
  · obtain ⟨b,hb⟩ := h₃
    exact ensures_dropStage hA hd haccepted staged work hb

end Saves

end Librairii.ProfilePublications
