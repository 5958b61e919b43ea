import Librairii.ProfilePublications

/-!
# The calls of a profile store

A session is any sequence of calls on a namespace that others change as well.
Between two calls the library may be bound anew, which never makes a poisoned
store usable again. Every call replaces its document as a whole or not at all.
-/

namespace Librairii.ProfileCalls

open InterruptedSteps NamedObjects ControlFiles ControlStages ControlReplacement ProfileStore
  ProfileReads ProfilePublications

/-- A call of the store. -/
inductive Request where
  | load
  | beginBinding
  | update (change : Profile → Except StorageError Profile)
  | saveNavigation (navigation : NavigationCodec.Navigation)
  | saveShelfWarnings (warnings : ShelfWarnings.WarningAcknowledgements)
  | saveInterface (value : InterfacePreferences)
  | importHandover (source : List UInt8) (library : NavigationCodec.LibraryId)

namespace Request

/-- The document a call may replace. -/
def document : Request → String
  | .load | .beginBinding | .update _ => settingsName
  | .saveNavigation _ => "navigation.json"
  | .saveShelfWarnings _ => "shelf-warnings.json"
  | .saveInterface _ => "interface.json"
  | .importHandover _ _ => "handover.json"

/-- The call replaces its document whenever it succeeds. -/
def replaces : Request → Bool
  | .load | .beginBinding | .importHandover _ _ => false
  | .update _ | .saveNavigation _ | .saveShelfWarnings _ | .saveInterface _ => true

variable (env : StoreEnv)

/-- The bytes are a document the call may replace. -/
def Accepts (bytes : List UInt8) : Request → Prop
  | .load | .beginBinding => False
  | .update _ => ∃ document, decodeProfile env bytes=.ok document
  | .saveNavigation navigation => navigationValid env navigation.library bytes=.ok ()
  | .saveShelfWarnings warnings => warningsValid env warnings.library bytes=.ok ()
  | .saveInterface value => ∃ library, env.parseLibraryId value.library=some library ∧
      interfaceValid env library bytes=.ok ()
  | .importHandover _ library => receiptValid env library bytes=.ok ()

def Writes (bytes : List UInt8) : Request → Prop
  | .load | .beginBinding => False
  | .update change => ∃ state next, changedSettings env state change=.ok (next,bytes)
  | .saveNavigation navigation => NavigationCodec.encode env.navigation navigation=.ok bytes
  | .saveShelfWarnings warnings => ShelfWarnings.encode env.warnings warnings=.ok bytes
  | .saveInterface value => ∃ library, encodeInterface env value=.ok (library,bytes)
  | .importHandover source library => ∃ imported navigationApplied interfaceApplied,
      env.decodeHandover source library=some imported ∧
      newReceipt env source library imported navigationApplied interfaceApplied=.ok bytes

end Request

variable (env : StoreEnv)

def serve (state : State) : Request → Work State
  | .load => load env state
  | .beginBinding => beginBinding env state
  | .update change => update env state change
  | .saveNavigation navigation => saveNavigation env state navigation
  | .saveShelfWarnings warnings => saveShelfWarnings env state warnings
  | .saveInterface value => saveInterface env state value
  | .importHandover source library => importHandover env state source library

theorem document_not_private (request : Request) : ¬ Private settingsStem request.document := by
  have hall : ∀ name ∈ [settingsName,"navigation.json","shelf-warnings.json","interface.json",
      "handover.json"],¬ Private settingsStem name := by decide +kernel
  apply hall
  cases request <;> simp [Request.document]

/-- Every named document is whole: it is where others left it or completely new. -/
structure Whole (request : Request) (s t : Control) : Prop where
  /-- A name leads where others left it, or to the complete new document. -/
  names : ∀ k, ¬ Private settingsStem k → t.folder.find k=t.theirs k ∨
    ∃ i bytes, k=request.document ∧ request.Writes env bytes ∧ t.folder.find k=some i ∧
      t.folder.contents i=.file bytes
  /-- Objects that existed at the start keep their content. -/
  kept : ∀ i, i<s.folder.issued → t.folder.contents i=s.folder.contents i
  /-- Objects others put in place keep their content. -/
  placed : ∀ q ∈ t.placed, t.folder.contents q.1=q.2
  /-- Only the operation's own objects and the accepted document it read are unlinked. -/
  unlinked : ∀ i ∈ t.unlinked, (s.folder.issued ≤ i ∧ ∀ q ∈ t.placed, q.1≠i) ∨
    (t.subject=some i ∧ request.Accepts env (t.bytesOf i))

/-- All names lead where others left them and nothing was overwritten. -/
structure Untouched (t : Control) : Prop where
  /-- Every name leads where others left it. -/
  names : ∀ k, t.folder.find k=t.theirs k
  /-- Nothing was overwritten. -/
  overwrote : t.overwrote=none

/-- A successful call overwrote at most the accepted document it read. -/
structure Replaced (request : Request) (t : Control) : Prop where
  /-- What was overwritten is the document read, and the new one is complete. -/
  overwrote : ∀ name i old, t.overwrote=some (name,i,old) → name=request.document ∧
    old=t.subject ∧ (∀ j, old=some j → request.Accepts env (t.bytesOf j)) ∧
    ∃ bytes, request.Writes env bytes ∧ t.folder.contents i=.file bytes
  /-- A call that replaces a document has done so. -/
  replaced : request.replaces=true → t.overwrote≠none
  /-- No private name is left. -/
  names : ∀ k, Private settingsStem k → t.folder.find k=t.theirs k

variable {env} {A : Choice → Prop} {s t : Control} {state : State} {request : Request}
  {name : String} {bytes : List UInt8}

/-- What the holdings say about the objects that are not the operation's own. -/
theorem whole_of_holding {h : Holdings} (ht : Holding settingsStem s h t)
    (hs : s.unlinked=[]) (hstage : Stage request.document bytes s h)
    (haccepted : Accepted (fun b => request.Accepts env b) h.subject)
    (hwrites : h.published≠none → request.Writes env bytes) : Whole env request s t := by
  refine ⟨?_,ht.kept,fun q hq => (ht.placed q hq).2.2,?_⟩
  · intro k hk
    have hfind := ht.names k
    have hvisible : withHidden h.hidden t.base k=t.base k := by
      unfold withHidden
      cases hh : h.hidden with
      | none => rfl
      | some p => exact if_neg fun hkp => hk (by rw [hkp]; exact ht.secret p hh)
    rw [hvisible] at hfind
    unfold Control.base at hfind
    cases ho : t.ours with
    | none =>
      rw [ho] at hfind
      exact .inl hfind
    | some p =>
      rw [ho] at hfind
      dsimp only at hfind
      split_ifs at hfind with hkp
      · have hp : h.published=some p := by
          cases ht.ours with
          | inl hn => rw [hn] at ho; cases ho
          | inr hs => rw [← hs,ho]
        have hwritten := hwrites (by rw [hp]; exact Option.some_ne_none p)
        cases hstage.published with
        | inl hn => rw [hn] at hp; cases hp
        | inr hi =>
          obtain ⟨i,hpublished,hobject⟩ := hi
          rw [hp] at hpublished
          cases hpublished
          exact .inr ⟨i,bytes,hkp,hwritten,hfind,(ht.written _ hobject).2.2.1⟩
      · exact .inl hfind
  · intro i hi
    rw [ht.unlinked] at hi
    rcases hstage.unlinked i hi with hold | ⟨b,hb⟩ | ⟨b,hb⟩
    · rw [hs] at hold
      exact absurd hold List.not_mem_nil
    · obtain ⟨hnew,-,-,hplaced⟩ := ht.written _ hb
      exact .inl ⟨hnew,hplaced⟩
    · refine .inr ⟨?_,?_⟩
      · rw [ht.subject,hb]
        rfl
      · rw [(ht.read _ hb).2.1]
        exact haccepted _ hb

theorem whole_of_ongoing (request : Request)
    (h : Ongoing request.document bytes (fun b => request.Accepts env b) s t)
    (hs : s.unlinked=[]) (hwrites : request.Writes env bytes) : Whole env request s t := by
  obtain ⟨subject,haccepted,h,rfl,hstage,hholding⟩ := h
  exact whole_of_holding hholding hs hstage haccepted fun _ => hwrites

theorem whole_of_undone (h : Undone request.document bytes (fun b => request.Accepts env b) s t)
    (hs : s.unlinked=[]) : Whole env request s t := by
  obtain ⟨h,-,hpublished,haccepted,hstage,hholding⟩ := h
  exact whole_of_holding hholding hs hstage haccepted fun hp => (hp hpublished).elim

theorem untouched_of_undone {valid : List UInt8 → Prop} (h : Undone name bytes valid s t) :
    Untouched t := by
  obtain ⟨h,hhidden,hpublished,-,-,hholding⟩ := h
  refine ⟨fun k => ?_,?_⟩
  · have hfind := hholding.names k
    have hours : t.ours=none := by
      cases hholding.ours with
      | inl hn => exact hn
      | inr hs => rw [hs,hpublished]
    rw [hhidden] at hfind
    exact hfind.trans (base_unpublished hours k)
  · rw [hholding.overwrote,hpublished]
    rfl

theorem replaced_of_finished (request : Request)
    (h : Finished request.document bytes (fun b => request.Accepts env b) s t)
    (hwrites : request.Writes env bytes) : Replaced env request t := by
  obtain ⟨subject,i,haccepted,hholding⟩ := h
  have hoverwrote : t.overwrote=some (request.document,i,subject.map Prod.fst) :=
    hholding.overwrote
  refine ⟨?_,?_,?_⟩
  · intro name j old hold
    rw [hoverwrote] at hold
    cases hold
    refine ⟨rfl,hholding.subject.symm,?_,bytes,hwrites,(hholding.written _ rfl).2.2.1⟩
    intro j hj
    obtain ⟨p,hp,rfl⟩ := Option.map_eq_some_iff.mp hj
    rw [(hholding.read p hp).2.1]
    exact haccepted p hp
  · intro _
    rw [hoverwrote]
    exact Option.some_ne_none _
  · intro k hk
    have hfind := hholding.names k
    change t.folder.find k=t.base k at hfind
    rw [hfind]
    unfold Control.base
    cases ho : t.ours with
    | none => rfl
    | some p =>
      have hp : some p=some (request.document,i) := by
        rw [← ho]
        cases hholding.ours with
        | inl hn => rw [hn] at ho; cases ho
        | inr hs => exact hs
      cases hp
      exact if_neg fun hkd => document_not_private request (by rw [← hkd]; exact hk)

/-- What a successful call leaves. -/
def Served (env : StoreEnv) (state : State) (request : Request) (s : Control) (result : State)
    (t : Control) : Prop :=
  (result.poisoned=state.poisoned ∧ result.binding=state.binding) ∧ Whole env request s t ∧
    Replaced env request t

/-- What a refused call leaves: a poisoned store, or everything as it was. -/
def Denied (state : State) (refusal : Refusal) (t : Control) : Prop :=
  refusal.state.poisoned=true ∨
  (refusal.state.poisoned=state.poisoned ∧ refusal.state.binding=state.binding ∧ Untouched t)

theorem denied_of_refused {valid : List UInt8 → Prop} {refusal : Refusal}
    (h : Refused state name bytes valid s refusal t) : Denied state refusal t := by
  cases h with
  | inl h => exact .inl h.1
  | inr h => exact .inr ⟨h.1,h.2.1,untouched_of_undone h.2.2⟩

theorem whole_reading (hs : s.unlinked=[])
    (ht : Holding settingsStem s (.reading s none) t) : Whole env request s t ∧ Untouched t := by
  have hundone : Undone request.document [] (fun b => request.Accepts env b) s t :=
    undone_reading accepted_none ht
  exact ⟨whole_of_undone hundone hs,untouched_of_undone hundone⟩

/-- A refusal by a part that did nothing: the store is poisoned or what it was. -/
def Kept (state : State) (s : Control) (refusal : Refusal) (t : Control) : Prop :=
  (refusal.state.poisoned=true ∨ (refusal.state.poisoned=state.poisoned ∧
    refusal.state.binding=state.binding)) ∧ Holding settingsStem s (.reading s none) t

/-- A refusal by a part that did nothing is a refusal of the call. -/
theorem denied_of_kept {refusal : Refusal} (h : Kept state s refusal t) :
    Denied state refusal t := by
  have hundone : Undone "" [] (fun _ => False) s t := undone_reading accepted_none h.2
  have huntouched := untouched_of_undone hundone
  cases h.1 with
  | inl hp => exact .inl hp
  | inr hp => exact .inr ⟨hp.1,hp.2,huntouched⟩

theorem ensures_first {α : Type} {m : Work α} {f : α → Work State} {R : α → Control → Prop}
    (hs : s.unlinked=[])
    (hm : Ensures A m t (Holding settingsStem s (.reading s none)) R (Kept state s))
    (hf : ∀ a t', R a t' → Ensures A (f a) t' (Whole env request s)
      (Served env state request s) (Denied state)) :
    Ensures A (m >>= f) t (Whole env request s) (Served env state request s) (Denied state) := by
  refine ensures_bind (hm.weaken (fun t' hc => (whole_reading hs hc).1) (fun _ _ hq => hq)
    fun refusal t' he => denied_of_kept he) hf

/-- A call that replaces nothing and is done. -/
theorem served_reading {result : State} (hs : s.unlinked=[]) (hreplaces : request.replaces=false)
    (hpoisoned : result.poisoned=state.poisoned) (hbinding : result.binding=state.binding)
    (ht : Holding settingsStem s (.reading s none) t) : Served env state request s result t := by
  have hreading : Whole env request s t ∧ Untouched t := whole_reading hs ht
  obtain ⟨hwhole,huntouched⟩ := hreading
  refine ⟨⟨hpoisoned,hbinding⟩,hwhole,?_,fun hr => ?_,fun k _ => huntouched.names k⟩
  · intro name i old hold
    rw [huntouched.overwrote] at hold
    cases hold
  · rw [hreplaces] at hr
    cases hr

theorem ensures_reserve (ht : Holding settingsStem s (.reading s none) t) :
    Ensures A (reserve state) t (Holding settingsStem s (.reading s none))
      (fun _ => Holding settingsStem s (.reading s none)) (Kept state s) := by
  unfold reserve
  split_ifs
  · exact ensures_fail ⟨.inr ⟨rfl,rfl⟩,ht⟩
  · exact ensures_fail ⟨.inr ⟨rfl,rfl⟩,ht⟩
  · exact ensures_pure ht

section Calls

variable (hA : ∀ c, A c → Respectful settingsStem c) (hd : A default)

include hA hd

omit hA hd in
theorem ensures_looked {α : Type} {m : Steps Control Choice StorageError α}
    {R : α → Control → Prop} {f : StorageError → Refusal}
    (hf : ∀ cause, (f cause).state.poisoned=true ∨ ((f cause).state.poisoned=state.poisoned ∧
      (f cause).state.binding=state.binding))
    (hm : Ensures A m t (Holding settingsStem s (.reading s none)) R
      fun _ => Holding settingsStem s (.reading s none)) :
    Ensures A (orFail m f) t (Holding settingsStem s (.reading s none)) R (Kept state s) :=
  ensures_orFail (hm.weaken (fun _ hc => hc) (fun _ _ hq => hq) fun cause _ he => ⟨hf cause,he⟩)

/-- `loadLocked` remembers the settings and changes nothing else. -/
theorem ensures_loadLocked (ht : Holding settingsStem s (.reading s none) t) :
    Ensures A (loadLocked env state) t (Holding settingsStem s (.reading s none))
      (fun loaded t' => (loaded.poisoned=state.poisoned ∧ loaded.binding=state.binding) ∧
        Holding settingsStem s (.reading s none) t') (Kept state s) := by
  have hI := lasting (s:=s) (h:=.reading s none) hA
  unfold loadLocked
  by_cases hpoisoned : state.poisoned=true
  · rw [if_pos hpoisoned]
    exact ensures_fail ⟨.inr ⟨rfl,rfl⟩,ht⟩
  rw [if_neg hpoisoned]
  refine ensures_bind (ensures_looked (fun cause => ?_)
    ((looks_revalidateNamespace hd state.marker) _ hI t ht)) fun _ t₁ h₁ => ?_
  · dsimp only
    split_ifs
    · exact .inl rfl
    · exact .inr ⟨rfl,rfl⟩
  split_ifs with hloaded
  · exact ensures_pure ⟨⟨rfl,rfl⟩,h₁⟩
  refine ensures_bind (ensures_looked (fun cause => .inr ⟨rfl,rfl⟩)
    ((looks_readNativeDocument hd env) _ hI t₁ h₁)) fun found t₂ h₂ => ?_
  cases found with
  | none => exact ensures_pure ⟨⟨rfl,rfl⟩,h₂⟩
  | some p => exact ensures_pure ⟨⟨rfl,rfl⟩,h₂⟩

theorem ensures_saveUiDocument (state : State) (request : Request) (hs : s.unlinked=[])
    {validate : List UInt8 → Except StorageError Unit}
    (haccepts : ∀ b, validate b=.ok () ↔ request.Accepts env b)
    (hwrites : request.Writes env bytes) (ht : Holding settingsStem s (.reading s none) t) :
    Ensures A (saveUiDocumentLocked state request.document bytes validate) t
      (Whole env request s) (Served env state request s) (Denied state) := by
  have hsave : Ensures A (saveUiDocumentLocked state request.document bytes validate) t _ _ _ :=
    ensures_saveUiDocumentLocked hA hd (document_not_private request) ht
  have hvalid : (fun b => validate b=.ok ())=fun b => request.Accepts env b :=
    funext fun b => propext (haccepts b)
  rw [hvalid] at hsave
  refine hsave.weaken (fun t' hc => whole_of_ongoing request hc hs hwrites) (fun result t' hq => ?_)
    fun refusal t' he => denied_of_refused he
  obtain ⟨rfl,hfinished⟩ := hq
  exact ⟨⟨rfl,rfl⟩,whole_of_ongoing request hfinished.ongoing hs hwrites,
    replaced_of_finished request hfinished hwrites⟩

omit hA hd in
/-- A refusal before anything was done. -/
theorem ensures_refused {cause : StorageError} {state' : State}
    (hpoisoned : state'.poisoned=state.poisoned) (hbinding : state'.binding=state.binding)
    (ht : Holding settingsStem s (.reading s none) t) :
    Ensures A (fail ⟨cause,state'⟩ : Work State) t (Whole env request s)
      (Served env state request s) (Denied state) :=
  ensures_fail (denied_of_kept (s:=s) ⟨.inr ⟨hpoisoned,hbinding⟩,ht⟩)

theorem ensures_load (hs : s.unlinked=[]) (hreplaces : request.replaces=false)
    (ht : Holding settingsStem s (.reading s none) t) :
    Ensures A (load env state) t (Whole env request s) (Served env state request s)
      (Denied state) := by
  refine ensures_first hs (ensures_reserve ht) fun _ t₁ h₁ => ?_
  exact (ensures_loadLocked hA hd h₁).weaken (fun t' hc => (whole_reading hs hc).1)
    (fun _ _ hq => served_reading hs hreplaces hq.1.1 hq.1.2 hq.2) fun _ _ he => denied_of_kept he

theorem ensures_beginBinding (hs : s.unlinked=[]) (hreplaces : request.replaces=false)
    (ht : Holding settingsStem s (.reading s none) t) :
    Ensures A (beginBinding env state) t (Whole env request s) (Served env state request s)
      (Denied state) := by
  have hI := lasting (s:=s) (h:=.reading s none) hA
  refine ensures_first hs (ensures_reserve ht) fun _ t₁ h₁ => ?_
  refine ensures_first hs (ensures_loadLocked hA hd h₁) fun loaded t₂ h₂ => ?_
  obtain ⟨⟨hpoisoned,hbinding⟩,h₂⟩ := h₂
  refine ensures_first hs (ensures_looked (fun cause => .inr ⟨hpoisoned,hbinding⟩)
    ((looks_revalidateSettings hd env loaded) _ hI t₂ h₂)) fun _ t₃ h₃ => ?_
  by_cases hbound : loaded.binding.isSome=true
  · rw [if_pos hbound]
    exact ensures_refused hpoisoned hbinding h₃
  rw [if_neg hbound]
  refine ensures_first hs (ensures_looked (fun cause => .inr ⟨hpoisoned,hbinding⟩)
    ((looks_requireUnrecoveredNamespace hd env loaded) _ hI t₃ h₃)) fun _ t₄ h₄ => ?_
  split_ifs
  · exact ensures_refused hpoisoned hbinding h₄
  · exact ensures_pure (served_reading hs hreplaces hpoisoned hbinding h₄)

omit hd in
theorem lasting_remembers : Lasting A fun t =>
    Holding settingsStem s (.reading s none) t ∧ Remembers env state t := by
  intro c hc t ht
  obtain ⟨hholding,hmetadata,hdocument,hknown⟩ := ht
  refine ⟨lasting hA c hc t hholding,hmetadata,hdocument,fun p hp => ?_⟩
  exact ⟨lasting_known p c hc t (hknown p hp).1,(hknown p hp).2⟩

theorem ensures_update (hs : s.unlinked=[]) (change : Profile → Except StorageError Profile)
    (ht : Holding settingsStem s (.reading s none) t) :
    Ensures A (update env state change) t (Whole env (.update change) s)
      (Served env state (.update change) s) (Denied state) := by
  have hI := lasting (s:=s) (h:=.reading s none) hA
  refine ensures_first hs (ensures_reserve ht) fun _ t₁ h₁ => ?_
  refine ensures_first hs (ensures_loadLocked hA hd h₁) fun loaded t₂ h₂ => ?_
  obtain ⟨⟨hpoisoned,hbinding⟩,h₂⟩ := h₂
  refine ensures_first hs (ensures_looked (fun cause => ?_)
    (ensures_revalidateSettings hI hd env loaded h₂)) fun _ t₃ h₃ => ?_
  · dsimp only
    split_ifs
    · exact .inl rfl
    · exact .inr ⟨hpoisoned,hbinding⟩
  have hremembers : Lasting A fun t =>
      Holding settingsStem s (.reading s none) t ∧ Remembers env loaded t :=
    lasting_remembers hA
  have hrest : ∀ rest : Work State,
      (∀ cause, changedSettings env loaded change=.error cause → rest=fail ⟨cause,loaded⟩) →
      (∀ next bytes, changedSettings env loaded change=.ok (next,bytes) →
        rest=updateUnix env loaded next bytes) →
      ∀ t', Holding settingsStem s (.reading s none) t' ∧ Remembers env loaded t' →
      Ensures A rest t' (Whole env (.update change) s) (Served env state (.update change) s)
        (Denied state) := by
    intro rest hfails hgoes t₄ h₄
    cases hchanged : changedSettings env loaded change with
    | error cause =>
      rw [hfails cause hchanged]
      exact ensures_refused hpoisoned hbinding h₄.1
    | ok p =>
      obtain ⟨next,bytes⟩ := p
      rw [hgoes next bytes hchanged]
      have hwrites : (Request.update change).Writes env bytes := ⟨loaded,next,hchanged⟩
      refine (ensures_updateUnix hA hd env next h₄.1 h₄.2).weaken
        (fun t' hc => whole_of_ongoing (.update change) hc hs hwrites)
        (fun result t' hq => ?_)
        fun refusal t' he => denied_of_refused (he.of hpoisoned hbinding)
      obtain ⟨⟨hp,hb⟩,hfinished⟩ := hq
      exact ⟨⟨hp.trans hpoisoned,hb.trans hbinding⟩,
        whole_of_ongoing (.update change) hfinished.ongoing hs hwrites,
        replaced_of_finished (.update change) hfinished hwrites⟩
  dsimp only
  split_ifs
  · refine ensures_first hs (ensures_looked (fun cause => .inr ⟨hpoisoned,hbinding⟩)
      (((looks_requireUnrecoveredNamespace hd env loaded) _ hremembers t₃ h₃).weaken
        (fun _ h => h.1) (fun _ _ h => h) fun _ _ h => h.1)) fun _ t₄ h₄ => ?_
    exact hrest _ (fun _ he => by rw [he]) (fun _ _ he => by rw [he]) t₄ h₄
  · exact hrest _ (fun _ he => by rw [he]) (fun _ _ he => by rw [he]) t₃ h₃

theorem ensures_saveNavigation (hs : s.unlinked=[]) (navigation : NavigationCodec.Navigation)
    (ht : Holding settingsStem s (.reading s none) t) :
    Ensures A (saveNavigation env state navigation) t (Whole env (.saveNavigation navigation) s)
      (Served env state (.saveNavigation navigation) s) (Denied state) := by
  unfold saveNavigation
  cases hencode : NavigationCodec.encode env.navigation navigation with
  | error e => exact ensures_refused rfl rfl ht
  | ok bytes =>
    exact ensures_first hs (ensures_reserve ht) fun _ t₁ h₁ =>
      ensures_saveUiDocument hA hd state (.saveNavigation navigation) hs (fun _ => Iff.rfl)
        hencode h₁

theorem ensures_saveShelfWarnings (hs : s.unlinked=[])
    (warnings : ShelfWarnings.WarningAcknowledgements)
    (ht : Holding settingsStem s (.reading s none) t) :
    Ensures A (saveShelfWarnings env state warnings) t
      (Whole env (.saveShelfWarnings warnings) s)
      (Served env state (.saveShelfWarnings warnings) s) (Denied state) := by
  unfold saveShelfWarnings
  cases hencode : ShelfWarnings.encode env.warnings warnings with
  | error e => exact ensures_refused rfl rfl ht
  | ok bytes =>
    exact ensures_first hs (ensures_reserve ht) fun _ t₁ h₁ =>
      ensures_saveUiDocument hA hd state (.saveShelfWarnings warnings) hs (fun _ => Iff.rfl)
        hencode h₁

omit hA hd in
theorem encodeInterface_library {value : InterfacePreferences}
    {library : NavigationCodec.LibraryId} (h : encodeInterface env value=.ok (library,bytes)) :
    env.parseLibraryId value.library=some library := by
  unfold encodeInterface at h
  cases hl : env.parseLibraryId value.library with
  | none => rw [hl] at h; cases h
  | some l =>
    cases hp : env.printInterface value with
    | none => rw [hl,hp] at h; cases h
    | some b =>
      rw [hl,hp] at h
      dsimp only at h
      cases hdecode : decodeInterface env b l with
      | error e => rw [hdecode] at h; cases h
      | ok v =>
        rw [hdecode] at h
        cases h
        rfl

theorem ensures_saveInterface (hs : s.unlinked=[]) (value : InterfacePreferences)
    (ht : Holding settingsStem s (.reading s none) t) :
    Ensures A (saveInterface env state value) t (Whole env (.saveInterface value) s)
      (Served env state (.saveInterface value) s) (Denied state) := by
  unfold saveInterface
  cases hencode : encodeInterface env value with
  | error e => exact ensures_refused rfl rfl ht
  | ok p =>
    obtain ⟨library,bytes⟩ := p
    have hlibrary := encodeInterface_library hencode
    have haccepts : ∀ b, interfaceValid env library b=.ok () ↔
        (Request.saveInterface value).Accepts env b := by
      intro b
      constructor
      · exact fun hb => ⟨library,hlibrary,hb⟩
      · rintro ⟨l,hl,hb⟩
        rw [hlibrary] at hl
        cases hl
        exact hb
    exact ensures_first hs (ensures_reserve ht) fun _ t₁ h₁ =>
      ensures_saveUiDocument hA hd state (.saveInterface value) hs haccepts
        ⟨library,hencode⟩ h₁

theorem ensures_importLocked (hs : s.unlinked=[]) {source : List UInt8}
    {library : NavigationCodec.LibraryId} {imported : HandoverPreferences} {loaded : State}
    (himported : env.decodeHandover source library=some imported)
    (hpoisoned : loaded.poisoned=state.poisoned) (hbinding : loaded.binding=state.binding)
    (ht : Holding settingsStem s (.reading s none) t) :
    Ensures A (importLocked env loaded source library imported) t
      (Whole env (.importHandover source library) s)
      (Served env state (.importHandover source library) s) (Denied state) := by
  have hI := lasting (s:=s) (h:=.reading s none) hA
  have hf : ∀ cause, (⟨cause,loaded⟩ : Refusal).state.poisoned=true ∨
      ((⟨cause,loaded⟩ : Refusal).state.poisoned=state.poisoned ∧
        (⟨cause,loaded⟩ : Refusal).state.binding=state.binding) :=
    fun _ => .inr ⟨hpoisoned,hbinding⟩
  have hcheck : ∀ (name : String) (validate : List UInt8 → Except StorageError Unit)
      (f : Option (List UInt8×ℕ) → Work State) t', Holding settingsStem s (.reading s none) t' →
      (∀ found t'', Holding settingsStem s (.reading s none) t'' →
        Ensures A (f found) t'' (Whole env (.importHandover source library) s)
          (Served env state (.importHandover source library) s) (Denied state)) →
      Ensures A (within loaded (uiBytes loaded.marker name) >>= fun found =>
        within loaded (inspect fun _ => validOptional validate found) >>= fun _ => f found) t'
        (Whole env (.importHandover source library) s)
        (Served env state (.importHandover source library) s) (Denied state) := by
    intro name validate f t₁ h₁ hnext
    refine ensures_first hs (ensures_looked hf
      ((looks_uiBytes hd loaded.marker name) _ hI t₁ h₁)) fun found t₂ h₂ => ?_
    exact ensures_first hs (ensures_looked hf ((looks_inspect _) _ hI t₂ h₂))
      fun _ t₃ h₃ => hnext found t₃ h₃
  refine hcheck "handover.json" _ _ t ht fun receipt t₁ h₁ => ?_
  by_cases hreceipt : receipt.isSome=true
  · rw [if_pos hreceipt]
    exact ensures_pure (served_reading hs rfl hpoisoned hbinding h₁)
  rw [if_neg hreceipt]
  refine hcheck "navigation.json" _ _ t₁ h₁ fun priorNavigation t₂ h₂ => ?_
  refine hcheck "interface.json" _ _ t₂ h₂ fun priorInterface t₃ h₃ => ?_
  have hreceived : Ensures A (inspect fun _ =>
      newReceipt env source library imported priorNavigation.isNone priorInterface.isNone) t₃
      (Holding settingsStem s (.reading s none))
      (fun bytes t' => Holding settingsStem s (.reading s none) t' ∧
        (Request.importHandover source library).Writes env bytes)
      fun _ => Holding settingsStem s (.reading s none) :=
    ensures_inspect (fun bytes hok => ⟨h₃,imported,_,_,himported,hok⟩) fun _ _ => h₃
  refine ensures_first hs (ensures_looked hf hreceived) fun bytes t₄ h₄ => ?_
  refine (ensures_saveUiDocument hA hd loaded (.importHandover source library) hs
    (fun _ => Iff.rfl) h₄.2 h₄.1).weaken (fun _ hc => hc) (fun result t' hq => ?_)
    fun refusal t' he => ?_
  · exact ⟨⟨hq.1.1.trans hpoisoned,hq.1.2.trans hbinding⟩,hq.2⟩
  · cases he with
    | inl he => exact .inl he
    | inr he => exact .inr ⟨he.1.trans hpoisoned,he.2.1.trans hbinding,he.2.2⟩

theorem ensures_importHandover (hs : s.unlinked=[]) (source : List UInt8)
    (library : NavigationCodec.LibraryId) (ht : Holding settingsStem s (.reading s none) t) :
    Ensures A (importHandover env state source library) t
      (Whole env (.importHandover source library) s)
      (Served env state (.importHandover source library) s) (Denied state) := by
  have hI := lasting (s:=s) (h:=.reading s none) hA
  unfold importHandover
  cases himported : env.decodeHandover source library with
  | none => exact ensures_refused rfl rfl ht
  | some imported =>
    refine ensures_first hs (ensures_reserve ht) fun _ t₁ h₁ => ?_
    refine ensures_first hs (ensures_loadLocked hA hd h₁) fun loaded t₂ h₂ => ?_
    obtain ⟨⟨hpoisoned,hbinding⟩,h₂⟩ := h₂
    refine ensures_first hs (ensures_looked (fun cause => .inr ⟨hpoisoned,hbinding⟩)
      ((looks_revalidateSettings hd env loaded) _ hI t₂ h₂)) fun _ t₃ h₃ => ?_
    split_ifs
    · exact ensures_refused hpoisoned hbinding h₃
    · exact ensures_importLocked hA hd hs himported hpoisoned hbinding h₃

/-- Every call on a namespace where an operation starts. -/
theorem ensures_serve (env : StoreEnv) (state : State) (request : Request) (hs : Settled s) :
    Ensures A (serve env state request) s (Whole env request s) (Served env state request s)
      (Denied state) := by
  have ht := hs.holding settingsStem
  cases request with
  | load => exact ensures_load hA hd hs.unlinked rfl ht
  | beginBinding => exact ensures_beginBinding hA hd hs.unlinked rfl ht
  | update change => exact ensures_update hA hd hs.unlinked change ht
  | saveNavigation navigation => exact ensures_saveNavigation hA hd hs.unlinked navigation ht
  | saveShelfWarnings warnings => exact ensures_saveShelfWarnings hA hd hs.unlinked warnings ht
  | saveInterface value => exact ensures_saveInterface hA hd hs.unlinked value ht
  | importHandover source library =>
    exact ensures_importHandover hA hd hs.unlinked source library ht

end Calls

end Librairii.ProfileCalls
