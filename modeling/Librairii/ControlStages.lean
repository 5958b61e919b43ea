import Librairii.ControlFiles

/-!
# The stages of replacing a control file

Between its calls an owner holds at most one private name, has published at most
one name and has written at most one object. Everything else in the directory is
as it was at the start of the operation, changed only by what others did since.
-/

namespace Librairii.ControlStages

open InterruptedSteps NamedObjects ControlFiles

def Private (stem name : String) : Prop := stem.toList <+: name.toList

instance (stem name : String) : Decidable (Private stem name) :=
  inferInstanceAs (Decidable (_ <+: _))

theorem temporaryName_private (stem : String) (process serial : ℕ) :
    Private stem (temporaryName stem process serial) := by
  unfold Private temporaryName
  rw [String.toList_append]
  exact List.prefix_append _ _

/-- Others leave the private names alone. -/
def Respectful (stem : String) (choice : Choice) : Prop :=
  ∀ m ∈ choice.others, ¬ Private stem m.name

instance (stem : String) (choice : Choice) : Decidable (Respectful stem choice) :=
  inferInstanceAs (Decidable (∀ m ∈ choice.others, ¬ Private stem m.name))

/-- Nobody else acts at all. -/
def Alone (choice : Choice) : Prop := choice.others=[]

theorem Alone.respectful {choice : Choice} (h : Alone choice) (stem : String) :
    Respectful stem choice := by
  intro m hm
  rw [h] at hm
  exact absurd hm List.not_mem_nil

theorem respectful_default (stem : String) : Respectful stem default :=
  fun _ hm => absurd hm List.not_mem_nil

/-- What the owner holds between two calls. -/
structure Holdings where
  /-- The private name and the object it leads to. -/
  hidden : Option (String×ℕ)
  published : Option (String×ℕ)
  /-- The object written by this operation, with its bytes. -/
  written : Option (ℕ×List UInt8)
  /-- The objects whose names the owner removed. -/
  unlinked : List ℕ
  /-- The object read under the name, with its bytes. -/
  subject : Option (ℕ×List UInt8)
  /-- What the published name led to before. -/
  displaced : Option ℕ

/-- The names with a private one. -/
def withHidden (hidden : Option (String×ℕ)) (f : String → Option ℕ) (k : String) : Option ℕ :=
  match hidden with
  | none => f k
  | some (name,i) => if k=name then some i else f k

/-- The directory `t` differs from its start `s` by the holdings and by what others did. -/
structure Holding (stem : String) (s : Control) (h : Holdings) (t : Control) : Prop where
  /-- Objects that existed at the start keep their content. -/
  kept : ∀ i, i<s.folder.issued → t.folder.contents i=s.folder.contents i
  /-- Identities are not reused. -/
  issued : s.folder.issued≤t.folder.issued
  /-- Every name leads where others left it, or to the owner's own object. -/
  names : ∀ k, t.folder.find k=withHidden h.hidden t.base k
  /-- Nobody else acted on private names. -/
  guarded : ∀ k, Private stem k → t.theirs k=s.theirs k
  /-- The private name is one. -/
  secret : ∀ p, h.hidden=some p → Private stem p.1
  /-- The private name was free at the start. -/
  free : ∀ p, h.hidden=some p → s.theirs p.1=none
  /-- The publication is the owner's, unless others acted on its name. -/
  ours : t.ours=none ∨ t.ours=h.published
  /-- The published name is not private. -/
  shown : ∀ p, h.published=some p → ¬ Private stem p.1
  /-- The written object is new and has the bytes known of it. -/
  written : ∀ p, h.written=some p → s.folder.issued≤p.1 ∧ p.1<t.folder.issued ∧
    t.folder.contents p.1=.file p.2 ∧ ∀ q ∈ t.placed, q.1≠p.1
  /-- Objects put in place by others are new and keep their content. -/
  placed : ∀ q ∈ t.placed, s.folder.issued≤q.1 ∧ q.1<t.folder.issued ∧
    t.folder.contents q.1=q.2
  /-- The names removed. -/
  unlinked : t.unlinked=h.unlinked
  /-- The object read is remembered. -/
  subject : t.subject=h.subject.map Prod.fst
  read : ∀ p, h.subject=some p → p.1<t.folder.issued ∧ t.bytesOf p.1=p.2 ∧
    ∀ q, h.written=some q → p.1≠q.1
  /-- What the published name led to is remembered. -/
  overwrote : t.overwrote=h.published.map fun p => (p.1,p.2,h.displaced)

/-- The start of an operation: every name leads where others left it. -/
structure Settled (s : Control) : Prop where
  /-- Nothing is published by the operation. -/
  ours : s.ours=none
  /-- Names lead where others left them. -/
  names : ∀ k, s.folder.find k=s.theirs k
  /-- Nothing was put in place by others. -/
  placed : s.placed=[]
  unlinked : s.unlinked=[]
  /-- Nothing was overwritten. -/
  overwrote : s.overwrote=none
  /-- Nothing was read. -/
  subject : s.subject=none

theorem settled_start (s : Control) : Settled s.start := ⟨rfl,fun _ => rfl,rfl,rfl,rfl,rfl⟩

def Holdings.reading (s : Control) (subject : Option (ℕ×List UInt8)) : Holdings :=
  ⟨none,none,none,s.unlinked,subject,none⟩

theorem Settled.holding {s : Control} (h : Settled s) (stem : String) :
    Holding stem s (.reading s none) s where
  kept := fun _ _ => rfl
  issued := le_rfl
  names := fun k => by
    change s.folder.find k=s.base k
    unfold Control.base
    rw [h.ours]
    exact h.names k
  guarded := fun _ _ => rfl
  secret := fun _ hp => nomatch hp
  free := fun _ hp => nomatch hp
  ours := .inl h.ours
  shown := fun _ hp => nomatch hp
  written := fun _ hp => nomatch hp
  placed := fun q hq => by
    rw [h.placed] at hq
    exact absurd hq List.not_mem_nil
  unlinked := rfl
  subject := h.subject
  read := fun _ hp => nomatch hp
  overwrote := h.overwrote

/-- Acting on another name does not change where a name should lead. -/
theorem base_meddle {t : Control} {m : Meddling} {k : String} (hk : k≠m.name) :
    (t.meddle m).base k=t.base k := by
  have hours : ∀ theirs : String → Option ℕ, theirs k=t.theirs k →
      (match t.overtaken m.name with
        | none => theirs k
        | some (name,i) => if k=name then some i else theirs k)=t.base k := by
    intro theirs htheirs
    unfold Control.base Control.overtaken
    cases ho : t.ours with
    | none => exact htheirs
    | some p =>
      obtain ⟨name,i⟩ := p
      rw [Option.filter_some]
      by_cases hn : name=m.name
      · rw [if_neg (by simp [hn])]
        dsimp only
        rw [if_neg (fun hkn => hk (hkn.trans hn)),htheirs]
      · rw [if_pos (by simp [hn])]
        dsimp only
        rw [htheirs]
  cases m with
  | replaced name node => exact hours _ (Function.update_of_ne hk _ _)
  | removed name => exact hours _ (Function.update_of_ne hk _ _)

theorem base_meddle_self {t : Control} {m : Meddling} :
    (t.meddle m).base m.name=(t.meddle m).folder.find m.name := by
  have hours : ∀ theirs : String → Option ℕ,
      (match t.overtaken m.name with
        | none => theirs m.name
        | some (name,i) => if m.name=name then some i else theirs m.name)=theirs m.name := by
    intro theirs
    unfold Control.overtaken
    cases ho : t.ours with
    | none => rfl
    | some p =>
      obtain ⟨name,i⟩ := p
      rw [Option.filter_some]
      by_cases hn : name=m.name
      · rw [if_neg (by simp [hn])]
      · rw [if_pos (by simp [hn])]
        exact if_neg fun h => hn h.symm
  cases m with
  | replaced name node =>
    refine (hours _).trans ?_
    change Function.update t.theirs name (some t.folder.issued) name=
      (t.folder.create name node).find name
    rw [Function.update_self,Folder.find_create,if_pos rfl]
  | removed name =>
    refine (hours _).trans ?_
    change Function.update t.theirs name none name=(t.folder.remove name).find name
    rw [Function.update_self,Folder.find_remove,if_pos rfl]

/-- A private name is not acted on, so its lookup does not change. -/
theorem find_meddle {t : Control} {m : Meddling} {k : String} (hk : k≠m.name) :
    (t.meddle m).folder.find k=t.folder.find k := by
  cases m with
  | replaced name node => exact (Folder.find_create _ _ _ _).trans (if_neg hk)
  | removed name => exact (Folder.find_remove _ _ _).trans (if_neg hk)

/-- Somebody else's doing creates at most one object and changes no content. -/
theorem contents_meddle (t : Control) (m : Meddling) :
    t.folder.issued≤(t.meddle m).folder.issued ∧
    (∀ i, i<t.folder.issued → (t.meddle m).folder.contents i=t.folder.contents i) ∧
    (∀ q ∈ (t.meddle m).placed, q ∈ t.placed ∨
      (t.folder.issued≤q.1 ∧ q.1<(t.meddle m).folder.issued ∧
        (t.meddle m).folder.contents q.1=q.2)) ∧
    (t.meddle m).unlinked=t.unlinked ∧ (t.meddle m).subject=t.subject ∧
    (t.meddle m).overwrote=t.overwrote := by
  cases m with
  | replaced name node =>
    refine ⟨Nat.le_succ _,fun i hi => Function.update_of_ne (Nat.ne_of_lt hi) _ _,?_,rfl,rfl,rfl⟩
    intro q hq
    cases List.mem_cons.mp hq with
    | inl h =>
      rw [h]
      exact .inr ⟨le_rfl,Nat.lt_succ_self _,Function.update_self _ _ _⟩
    | inr h => exact .inl h
  | removed name => exact ⟨le_rfl,fun _ _ => rfl,fun _ hq => .inl hq,rfl,rfl,rfl⟩

variable {stem : String} {s t : Control} {h : Holdings}

/-- Respectful others keep the holdings. -/
theorem Holding.meddle (ht : Holding stem s h t) {m : Meddling} (hm : ¬ Private stem m.name) :
    Holding stem s h (t.meddle m) := by
  obtain ⟨hissued,hcontents,hplaced,hunlinked,hsubject,hoverwrote⟩ := contents_meddle t m
  refine ⟨?_,ht.issued.trans hissued,?_,?_,ht.secret,ht.free,?_,ht.shown,?_,?_,
    hunlinked.trans ht.unlinked,hsubject.trans ht.subject,?_,hoverwrote.trans ht.overwrote⟩
  · intro i hi
    rw [hcontents i (lt_of_lt_of_le hi ht.issued),ht.kept i hi]
  · intro k
    by_cases hk : k=m.name
    · rw [hk,← base_meddle_self]
      unfold withHidden
      cases hh : h.hidden with
      | none => rfl
      | some p =>
        have hne : m.name≠p.1 := fun hn => hm (by rw [hn]; exact ht.secret p hh)
        exact (if_neg hne).symm
    · rw [find_meddle hk,ht.names k]
      unfold withHidden
      cases h.hidden with
      | none => exact (base_meddle hk).symm
      | some p =>
        dsimp only
        rw [base_meddle hk]
  · intro k hk
    have hne : k≠m.name := fun hkn => hm (hkn ▸ hk)
    rw [← ht.guarded k hk]
    cases m with
    | replaced name node => exact Function.update_of_ne hne _ _
    | removed name => exact Function.update_of_ne hne _ _
  · have hover : t.overtaken m.name=none ∨ t.overtaken m.name=h.published := by
      unfold Control.overtaken
      cases ho : t.ours with
      | none => exact .inl rfl
      | some p =>
        rw [Option.filter_some]
        by_cases hp : p.1=m.name
        · exact .inl (if_neg (by simp [hp]))
        · rw [if_pos (by simp [hp])]
          refine .inr ?_
          cases ht.ours with
          | inl hn => rw [hn] at ho; cases ho
          | inr hs => rw [← hs,ho]
    cases m with
    | replaced name node => exact hover
    | removed name => exact hover
  · intro p hp
    obtain ⟨hnew,hold,hbytes,hours⟩ := ht.written p hp
    refine ⟨hnew,lt_of_lt_of_le hold hissued,(hcontents _ hold).trans hbytes,?_⟩
    intro q hq
    cases hplaced q hq with
    | inl h => exact hours q h
    | inr h => exact fun he => absurd hold (not_lt.mpr (he ▸ h.1))
  · intro q hq
    cases hplaced q hq with
    | inl h =>
      obtain ⟨hnew,hold,hnode⟩ := ht.placed q h
      exact ⟨hnew,lt_of_lt_of_le hold hissued,(hcontents _ hold).trans hnode⟩
    | inr h => exact ⟨ht.issued.trans h.1,h.2⟩
  · intro p hp
    obtain ⟨hold,hbytes,hother⟩ := ht.read p hp
    refine ⟨lt_of_lt_of_le hold hissued,?_,hother⟩
    unfold Control.bytesOf
    rw [hcontents p.1 hold]
    exact hbytes

/-- Whatever respectful others do before a call, the holdings are kept. -/
theorem Holding.meddled (ht : Holding stem s h t) {choice : Choice} (hc : Respectful stem choice) :
    Holding stem s h (choice.others.foldl Control.meddle t) := by
  have hall : ∀ others : List Meddling, (∀ m ∈ others, ¬ Private stem m.name) → ∀ t,
      Holding stem s h t → Holding stem s h (others.foldl Control.meddle t) := by
    intro others
    induction others with
    | nil => exact fun _ t ht => ht
    | cons m others ih =>
      intro hc t ht
      have hfirst := ht.meddle (hc m List.mem_cons_self)
      exact ih (fun m' hm' => hc m' (List.mem_cons_of_mem _ hm')) _ hfirst
  exact hall choice.others hc t ht

/-- A fact that lasts whatever allowed choices let others do. -/
def Lasting (A : Choice → Prop) (I : Control → Prop) : Prop :=
  ∀ c, A c → ∀ t, I t → I (c.others.foldl Control.meddle t)

theorem lasting {A : Choice → Prop} (hA : ∀ c, A c → Respectful stem c) :
    Lasting A (Holding stem s h) :=
  fun c hc _ ht => ht.meddled (hA c hc)

/-- What the replacement of `name` by `bytes` may hold at any time. -/
structure Stage (name : String) (bytes : List UInt8) (s : Control) (h : Holdings) : Prop where
  published : h.published=none ∨ ∃ i, h.published=some (name,i) ∧ h.written=some (i,bytes)
  /-- Only the owner's own object and the one read lose their names. -/
  unlinked : ∀ i ∈ h.unlinked, i ∈ s.unlinked ∨ (∃ b, h.written=some (i,b)) ∨
    ∃ b, h.subject=some (i,b)

/-- The directory is in some stage of the replacement. -/
def Within (stem name : String) (bytes : List UInt8) (subject : Option (ℕ×List UInt8))
    (s t : Control) : Prop :=
  ∃ h, h.subject=subject ∧ Stage name bytes s h ∧ Holding stem s h t

/-- A temporary is held that leads to the object written so far. -/
def Holdings.staged (s : Control) (subject : Option (ℕ×List UInt8)) (name : String) (i : ℕ)
    (b : List UInt8) : Holdings :=
  ⟨some (name,i),none,some (i,b),s.unlinked,subject,none⟩

/-- The temporary was removed again. -/
def Holdings.dropped (s : Control) (subject : Option (ℕ×List UInt8)) (i : ℕ)
    (b : List UInt8) : Holdings :=
  ⟨none,none,some (i,b),i::s.unlinked,subject,none⟩

/-- The object is published and the displaced one is held under the private name. -/
def Holdings.exchanged (s : Control) (subject : Option (ℕ×List UInt8))
    (name hiddenName : String) (i x : ℕ) (b : List UInt8) : Holdings :=
  ⟨some (hiddenName,x),some (name,i),some (i,b),s.unlinked,subject,some x⟩

/-- The object is published and nothing else is held. -/
def Holdings.replaced (subject : Option (ℕ×List UInt8)) (name : String) (i : ℕ)
    (b : List UInt8) (unlinked : List ℕ) (displaced : Option ℕ) : Holdings :=
  ⟨none,some (name,i),some (i,b),unlinked,subject,displaced⟩

section Stages

variable {name hiddenName : String} {bytes b : List UInt8} {i x : ℕ}
  {subject : Option (ℕ×List UInt8)}

theorem stage_reading (s : Control) : Stage name bytes s (.reading s subject) :=
  ⟨.inl rfl,fun _ hi => .inl hi⟩

theorem stage_staged (s : Control) : Stage name bytes s (.staged s subject hiddenName i b) :=
  ⟨.inl rfl,fun _ hi => .inl hi⟩

theorem stage_dropped (s : Control) : Stage name bytes s (.dropped s subject i b) := by
  refine ⟨.inl rfl,fun j hj => ?_⟩
  cases List.mem_cons.mp hj with
  | inl h => exact .inr (.inl ⟨b,by rw [h]; rfl⟩)
  | inr h => exact .inl h

theorem stage_exchanged (s : Control) :
    Stage name bytes s (.exchanged s subject name hiddenName i x bytes) :=
  ⟨.inr ⟨i,rfl,rfl⟩,fun _ hj => .inl hj⟩

theorem stage_replaced (s : Control) :
    Stage name bytes s (.replaced subject name i bytes s.unlinked none) :=
  ⟨.inr ⟨i,rfl,rfl⟩,fun _ hj => .inl hj⟩

theorem stage_finished (s : Control) :
    Stage name bytes s
      (.replaced (some (x,b)) name i bytes (x::s.unlinked) (some x)) := by
  refine ⟨.inr ⟨i,rfl,rfl⟩,fun j hj => ?_⟩
  cases List.mem_cons.mp hj with
  | inl h => exact .inr (.inr ⟨b,by rw [h]; rfl⟩)
  | inr h => exact .inl h

end Stages

section Calls

variable {A : Choice → Prop} {ε α : Type} {C I : Control → Prop} {Q : α → Control → Prop}
  {E : ε → Control → Prop}

theorem ensures_call (hI : Lasting A I) (hd : A default) (ht : I t)
    {f : Fate → Control → Except ε α×Control} (hf : ∀ fate t', I t' → C (f fate t').2 ∧
      (∀ a, (f fate t').1=.ok a → Q a (f fate t').2) ∧
      ∀ e, (f fate t').1=.error e → E e (f fate t').2) : Ensures A (call f) t C Q E :=
  ensures_act hd fun c hc => hf c.fate _ (hI c hc _ ht)

theorem ensures_look (hI : Lasting A I) (hd : A default) (ht : I t)
    (hC : ∀ t', I t' → C t') (context : String) (f : Control → Except StorageError α) :
    Ensures A (look context f) t C (fun a t' => I t' ∧ f t'=.ok a) fun _ => I := by
  refine ensures_call hI hd ht fun fate t' ht' => ⟨hC t' ht',?_,fun _ _ => ht'⟩
  intro a ha
  cases fate with
  | done => exact ⟨ht',ha⟩
  | failed | lost | torn n => cases ha

/-- An error under the error type of the whole. -/
theorem ensures_orFail {m : Steps Control Choice ε α} {ε' : Type} {f : ε → ε'}
    {E : ε' → Control → Prop} (hm : Ensures A m t C Q fun e => E (f e)) :
    Ensures A (orFail m f) t C Q E :=
  ensures_attempt_bind hm (fun _ _ ha => ensures_pure ha) fun _ _ he => ensures_fail he

theorem ensures_requireName (hI : Lasting A I) (hd : A default) (ht : I t)
    (hC : ∀ t', I t' → C t') (name : String) (identity : ℕ) :
    Ensures A (requireName name identity) t C
      (fun _ t' => I t' ∧ t'.folder.find name=some identity) fun _ => I := by
  refine (ensures_look hI hd ht hC _ _).weaken (fun _ hc => hc) ?_ fun _ _ he => he
  rintro ⟨⟩ t' ⟨ht',hok⟩
  refine ⟨ht',?_⟩
  cases hf : t'.folder.find name with
  | none => rw [hf] at hok; cases hok
  | some j =>
    rw [hf] at hok
    dsimp only at hok
    split_ifs at hok with hj
    rw [hj]

/-- `requireRegular` keeps the holdings. -/
theorem ensures_requireRegular (hI : Lasting A I) (hd : A default) (ht : I t)
    (hC : ∀ t', I t' → C t') (identity : ℕ) :
    Ensures A (requireRegular identity) t C (fun _ => I) fun _ => I :=
  (ensures_look hI hd ht hC _ _).weaken (fun _ hc => hc) (fun _ _ hq => hq.1) fun _ _ he => he

/-- `openRegular` returns the object of the name. -/
theorem ensures_openRegular (hI : Lasting A I) (hd : A default) (ht : I t)
    (hC : ∀ t', I t' → C t') (name : String) :
    Ensures A (openRegular name) t C
      (fun i t' => I t' ∧ t'.folder.find name=some i) fun _ => I := by
  refine ensures_bind (ensures_look hI hd ht hC _ _) fun i t₁ h₁ => ?_
  refine ensures_bind (ensures_requireRegular hI hd h₁.1 hC i) fun _ t₂ h₂ => ?_
  refine ensures_bind (ensures_requireName hI hd h₂ hC name i) fun _ t₃ h₃ => ?_
  exact ensures_pure h₃

/-- `durableFileFlush` keeps the holdings. -/
theorem ensures_durableFileFlush (hI : Lasting A I) (hd : A default) (ht : I t)
    (hC : ∀ t', I t' → C t') (identity : ℕ) :
    Ensures A (durableFileFlush identity) t C (fun _ => I) fun _ => I :=
  (ensures_look hI hd ht hC _ _).weaken (fun _ hc => hc) (fun _ _ hq => hq.1) fun _ _ he => he

theorem ensures_flush (hI : Lasting A I) (hd : A default) (ht : I t) (hC : ∀ t', I t' → C t') :
    Ensures A flush t C (fun _ => I) fun _ => I :=
  (ensures_look hI hd ht hC _ _).weaken (fun _ hc => hc) (fun _ _ hq => hq.1) fun _ _ he => he

end Calls

section LookingOnly

variable {A : Choice → Prop} {C I : Control → Prop} {ε α β γ : Type}

def Looks (A : Choice → Prop) (m : Steps Control Choice ε α) : Prop :=
  ∀ I : Control → Prop, Lasting A I → ∀ t, I t → Ensures A m t I (fun _ => I) fun _ => I

theorem Looks.ensures {m : Steps Control Choice ε α} (h : Looks A m) (hI : Lasting A I)
    (ht : I t) (hC : ∀ t', I t' → C t') : Ensures A m t C (fun _ => I) fun _ => I :=
  (h I hI t ht).weaken hC (fun _ _ hq => hq) fun _ _ he => he

theorem looks_pure (a : α) : Looks A (pure a : Steps Control Choice ε α) :=
  fun _ _ _ ht => ensures_pure ht

theorem looks_fail (e : ε) : Looks A (fail e : Steps Control Choice ε α) :=
  fun _ _ _ ht => ensures_fail ht

/-- Checking a value is no step. -/
theorem looks_inspect (f : Control → Except ε α) : Looks A (inspect f : Steps Control Choice ε α) :=
  fun _ _ _ ht => ensures_inspect (fun _ _ => ht) fun _ _ => ht

theorem looks_look (hd : A default) (context : String) (f : Control → Except StorageError α) :
    Looks A (look context f) := by
  intro I hI t ht
  exact (ensures_look hI hd ht (fun _ h => h) context f).weaken (fun _ h => h)
    (fun _ _ h => h.1) fun _ _ h => h

theorem looks_bind {m : Steps Control Choice ε α} {f : α → Steps Control Choice ε β}
    (hm : Looks A m) (hf : ∀ a, Looks A (f a)) : Looks A (m >>= f) :=
  fun I hI t ht => ensures_bind (hm I hI t ht) fun a t' ht' => hf a I hI t' ht'

theorem looks_attempt_bind {m : Steps Control Choice ε α}
    {k : Except ε α → Steps Control Choice γ β} (hm : Looks A m) (hk : ∀ r, Looks A (k r)) :
    Looks A (attempt m >>= k) :=
  fun I hI t ht => ensures_attempt_bind (hm I hI t ht) (fun a t' ht' => hk (.ok a) I hI t' ht')
    fun e t' ht' => hk (.error e) I hI t' ht'

theorem looks_forM {f : γ → Steps Control Choice ε PUnit} (hf : ∀ x, Looks A (f x))
    (xs : List γ) : Looks A (xs.forM f) :=
  fun I hI t ht =>
    ensures_forM (I:=fun _ => I) (fun x _ t' ht' => hf x I hI t' ht') xs t ht

variable (hd : A default)

include hd

theorem looks_requireName (name : String) (identity : ℕ) : Looks A (requireName name identity) :=
  looks_look hd _ _

theorem looks_openRegular (name : String) : Looks A (openRegular name) :=
  looks_bind (looks_look hd _ _) fun _ => looks_bind (looks_look hd _ _) fun _ =>
    looks_bind (looks_look hd _ _) fun _ => looks_pure _

end LookingOnly

end Librairii.ControlStages
