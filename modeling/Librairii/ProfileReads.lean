import Librairii.ProfileStore

/-!
# Reading the documents of a profile namespace

A program that only looks keeps every fact that outlasts the doings of others.
The readers of settings and of interface documents are such programs; when they
return a document, its object exists and has the bytes read.
-/

namespace Librairii.ProfileReads

open InterruptedSteps NamedObjects ControlFiles ControlStages ControlReplacement ProfileStore

variable {A : Choice → Prop} {I : Control → Prop} {t : Control}

section Readers

variable (hd : A default)

include hd

theorem looks_revalidateNamespace (marker : ℕ) : Looks A (revalidateNamespace marker) := by
  refine looks_bind (looks_look hd _ _) fun _ => looks_bind (looks_look hd _ _) fun _ => ?_
  refine looks_bind (looks_openRegular hd _) fun _ => looks_bind (looks_inspect _) fun _ => ?_
  exact looks_bind (looks_look hd _ _) fun _ => looks_bind (looks_inspect _) fun _ =>
    looks_look hd _ _

theorem looks_readNativeDocument (env : StoreEnv) : Looks A (readNativeDocument env) := by
  have hread : Looks A (readRegular settingsName) := by
    refine looks_bind (looks_look hd _ _) fun bound => ?_
    split_ifs
    · exact looks_bind (looks_openRegular hd _) fun _ => looks_pure _
    · exact looks_pure _
  refine looks_bind hread fun found => ?_
  cases found with
  | none => exact looks_pure _
  | some identity =>
    exact looks_bind (looks_look hd _ _) fun _ => looks_bind (looks_look hd _ _) fun _ =>
      looks_bind (looks_inspect _) fun _ => looks_pure _

theorem looks_revalidateSettings (env : StoreEnv) (state : State) :
    Looks A (revalidateSettings env state) :=
  looks_bind (looks_readNativeDocument hd env) fun _ => looks_inspect _

theorem looks_uiBytes (marker : ℕ) (name : String) : Looks A (uiBytes marker name) := by
  refine looks_attempt_bind (looks_openRegular hd name) fun reply => ?_
  cases reply with
  | ok identity =>
    refine looks_bind (looks_look hd _ _) fun _ => looks_bind (looks_look hd _ _) fun _ => ?_
    exact looks_bind (looks_inspect _) fun _ =>
      looks_bind (looks_revalidateNamespace hd marker) fun _ => looks_pure _
  | error cause =>
    cases cause with
    | io context kind =>
      dsimp only
      split_ifs
      · exact looks_pure _
      · exact looks_fail _
    | _ => exact looks_fail _

theorem looks_hasSetupIntent : Looks A hasSetupIntent := by
  refine looks_bind (looks_look hd _ _) fun found => ?_
  split_ifs
  · exact looks_bind (looks_openRegular hd _) fun _ => looks_bind (looks_look hd _ _) fun _ =>
      looks_inspect _
  · exact looks_pure _

theorem looks_requireUnrecoveredNamespace (env : StoreEnv) (state : State) :
    Looks A (requireUnrecoveredNamespace env state) := by
  refine looks_bind (looks_revalidateNamespace hd _) fun _ => ?_
  refine looks_bind (looks_look hd _ _) fun entries => ?_
  refine looks_bind (looks_hasSetupIntent hd) fun intent => looks_bind (looks_inspect _) fun _ => ?_
  have htail : Looks A (do
      ["navigation.json","shelf-warnings.json"].forM fun name => do
        if entries.contains name then
          let _ ← openRegular name
      let _ ← regularEntry "interface.json"
      let _ ← regularEntry "handover.json"
      : Steps Control Choice StorageError Unit) := by
    refine looks_bind (looks_forM (fun name => ?_) _) fun _ => ?_
    · split_ifs
      · exact looks_bind (looks_openRegular hd _) fun _ => looks_pure _
      · exact looks_pure _
    · exact looks_bind (looks_look hd _ _) fun _ => looks_bind (looks_look hd _ _) fun _ =>
        looks_pure _
  dsimp only
  split_ifs
  · exact looks_bind (looks_look hd _ _) fun _ => htail
  · exact htail

end Readers

section Values

/-- An object exists and has the bytes. -/
def Known (p : ℕ×List UInt8) (t : Control) : Prop := p.1<t.folder.issued ∧ t.bytesOf p.1=p.2

theorem lasting_of_meddle (h : ∀ t m, I t → I (t.meddle m)) : Lasting A I := by
  have hall : ∀ others : List Meddling, ∀ t, I t → I (others.foldl Control.meddle t) := by
    intro others
    induction others with
    | nil => exact fun t ht => ht
    | cons m others ih => exact fun t ht => ih _ (h t m ht)
  exact fun c _ t ht => hall c.others t ht

/-- An object keeps existing. -/
theorem lasting_issued (i : ℕ) : Lasting A fun t => i<t.folder.issued :=
  lasting_of_meddle fun t m h => lt_of_lt_of_le h (contents_meddle t m).1

theorem lasting_known (p : ℕ×List UInt8) : Lasting A (Known p) := by
  refine lasting_of_meddle fun t m h => ?_
  obtain ⟨hissued,hcontents,-⟩ := contents_meddle t m
  refine ⟨lt_of_lt_of_le h.1 hissued,?_⟩
  unfold Control.bytesOf
  rw [hcontents _ h.1]
  exact h.2

theorem lasting_and {J : Control → Prop} (hI : Lasting A I) (hJ : Lasting A J) :
    Lasting A fun t => I t ∧ J t :=
  fun c hc t ht => ⟨hI c hc t ht.1,hJ c hc t ht.2⟩

variable (hI : Lasting A I) (hd : A default)

include hI hd

theorem ensures_readBytes (context : String) (i : ℕ) (ht : I t ∧ i<t.folder.issued) :
    Ensures A (readBytes context i) t I (fun b t' => I t' ∧ Known (i,b) t') fun _ => I := by
  refine (ensures_look (lasting_and hI (lasting_issued i)) hd ht (fun _ h => h.1) _ _).weaken
    (fun _ h => h) (fun b t' h => ?_) fun _ _ h => h.1
  refine ⟨h.1.1,h.1.2,?_⟩
  cases h.2
  rfl

theorem ensures_openRegular_issued (name : String) (ht : I t) :
    Ensures A (openRegular name) t I (fun i t' => I t' ∧ i<t'.folder.issued) fun _ => I :=
  (ensures_openRegular hI hd ht (fun _ h => h) name).weaken (fun _ h => h)
    (fun _ _ h => ⟨h.1,Folder.find_lt h.2⟩) fun _ _ h => h

/-- What `uiBytes` returns is known. -/
theorem ensures_uiBytes (marker : ℕ) (name : String) (ht : I t) :
    Ensures A (uiBytes marker name) t I
      (fun r t' => I t' ∧ ∀ p, r=some p → Known (p.2,p.1) t') fun _ => I := by
  refine ensures_attempt_bind (ensures_openRegular_issued hI hd name ht) (fun i t₁ h₁ => ?_)
    fun cause t₁ h₁ => ?_
  · have hissued := lasting_and hI (lasting_issued (A:=A) i)
    refine ensures_bind (((looks_look hd _ _).ensures hissued h₁ fun _ h => h.1).weaken
      (fun _ h => h) (fun _ _ h => h) fun _ _ h => h.1) fun _ t₂ h₂ => ?_
    refine ensures_bind (ensures_readBytes hI hd _ i h₂) fun bytes t₃ h₃ => ?_
    have hknown := lasting_and hI (lasting_known (A:=A) (i,bytes))
    refine ensures_bind (((looks_inspect _).ensures hknown h₃ fun _ h => h.1).weaken
      (fun _ h => h) (fun _ _ h => h) fun _ _ h => h.1) fun _ t₄ h₄ => ?_
    refine ensures_bind (((looks_revalidateNamespace hd marker).ensures hknown h₄
      fun _ h => h.1).weaken (fun _ h => h) (fun _ _ h => h) fun _ _ h => h.1) fun _ t₅ h₅ => ?_
    refine ensures_pure ⟨h₅.1,fun p hp => ?_⟩
    cases hp
    exact h₅.2
  · cases cause with
    | io context kind =>
      dsimp only
      split_ifs
      · exact ensures_pure ⟨h₁,fun p hp => nomatch hp⟩
      · exact ensures_fail h₁
    | _ => exact ensures_fail h₁

/-- What `readNativeDocument` returns is known and decodes. -/
theorem ensures_readNativeDocument (env : StoreEnv) (ht : I t) :
    Ensures A (readNativeDocument env) t I
      (fun r t' => I t' ∧ ∀ p, r=some p → Known (p.2,p.1.original) t' ∧
        decodeProfile env p.1.original=.ok p.1) fun _ => I := by
  have hread : Ensures A (readRegular settingsName) t I
      (fun r t' => I t' ∧ ∀ i, r=some i → i<t'.folder.issued) fun _ => I := by
    refine ensures_bind ((looks_look hd _ _).ensures hI ht fun _ h => h) fun bound t₁ h₁ => ?_
    split_ifs
    · refine ensures_bind (ensures_openRegular_issued hI hd _ h₁) fun i t₂ h₂ => ?_
      refine ensures_pure ⟨h₂.1,fun j hj => ?_⟩
      cases hj
      exact h₂.2
    · exact ensures_pure ⟨h₁,fun j hj => nomatch hj⟩
  refine ensures_bind hread fun found t₁ h₁ => ?_
  cases found with
  | none => exact ensures_pure ⟨h₁.1,fun p hp => nomatch hp⟩
  | some i =>
    have hissued := lasting_and hI (lasting_issued (A:=A) i)
    refine ensures_bind (((looks_look hd _ _).ensures hissued ⟨h₁.1,h₁.2 i rfl⟩
      fun _ h => h.1).weaken (fun _ h => h) (fun _ _ h => h) fun _ _ h => h.1) fun _ t₂ h₂ => ?_
    refine ensures_bind (ensures_readBytes hI hd _ i h₂) fun bytes t₃ h₃ => ?_
    refine ensures_bind (R:=fun document t' => (I t' ∧ Known (i,bytes) t') ∧
      decodeProfile env bytes=.ok document)
      (ensures_inspect (fun document hok => ⟨h₃,hok⟩) fun _ _ => h₃.1) fun document t₄ h₄ => ?_
    refine ensures_pure ⟨h₄.1.1,fun p hp => ?_⟩
    cases hp
    have horiginal : document.original=bytes := by
      have hdecode := h₄.2
      unfold decodeProfile at hdecode
      split_ifs at hdecode
      cases hm : (env.parseProfile bytes).bind fun members =>
          members.foldlM (fun profile m => readMember profile m.1 m.2) Profile.empty with
      | none => rw [hm] at hdecode; cases hdecode
      | some profile =>
        rw [hm] at hdecode
        dsimp only at hdecode
        cases hv : profile.validate with
        | error e => rw [hv] at hdecode; cases hdecode
        | ok u =>
          rw [hv] at hdecode
          cases hdecode
          rfl
    rw [horiginal]
    exact ⟨h₄.1.2,h₄.2⟩

/-- The settings remembered by the store, as an object with its bytes. -/
def remembered (state : State) : Option (ℕ×List UInt8) :=
  match state.settingsMetadata,state.document with
  | some identity,some document => some (identity,document.original)
  | _,_ => none

omit hI hd in
def Remembers (env : StoreEnv) (state : State) (t : Control) : Prop :=
  state.settingsMetadata=(remembered state).map Prod.fst ∧
  state.document.map (·.original)=(remembered state).map Prod.snd ∧
  ∀ p, remembered state=some p → Known p t ∧ ∃ document, decodeProfile env p.2=.ok document

theorem ensures_revalidateSettings (env : StoreEnv) (state : State) (ht : I t) :
    Ensures A (revalidateSettings env state) t I
      (fun _ t' => I t' ∧ Remembers env state t') fun _ => I := by
  refine ensures_bind (ensures_readNativeDocument hI hd env ht) fun named t₁ h₁ => ?_
  refine ensures_inspect (fun u hok => ⟨h₁.1,?_⟩) fun _ _ => h₁.1
  unfold Remembers remembered
  cases named with
  | none =>
    cases hm : state.settingsMetadata with
    | none =>
      rw [hm] at hok
      dsimp only at hok
      split_ifs at hok with hdocument
      rw [hdocument]
      exact ⟨rfl,rfl,fun p hp => nomatch hp⟩
    | some identity => rw [hm] at hok; cases hok
  | some found =>
    obtain ⟨document,identity⟩ := found
    cases hm : state.settingsMetadata with
    | none => rw [hm] at hok; cases hok
    | some previous =>
      rw [hm] at hok
      dsimp only at hok
      split_ifs at hok with hsame
      obtain ⟨hdocument,rfl⟩ := hsame
      rw [← hdocument]
      refine ⟨rfl,rfl,fun p hp => ?_⟩
      cases hp
      obtain ⟨hknown,hdecode⟩ := h₁.2 _ rfl
      exact ⟨hknown,document,hdecode⟩

end Values

end Librairii.ProfileReads
