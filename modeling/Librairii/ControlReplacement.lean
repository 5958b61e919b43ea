import Librairii.ControlStages

/-!
# Creating, exchanging and removing control files

Each effect on the directory moves the owner from one stage to the next. The
descriptions of the composite operations follow: which stage a result or an
error leaves, and that no state in between leaves the stages.
-/

namespace Librairii.ControlReplacement

open InterruptedSteps NamedObjects ControlFiles ControlStages

variable {stem name hiddenName : String} {s t : Control} {h : Holdings} {bytes b : List UInt8}
  {subject : Option (ℕ×List UInt8)} {i x : ℕ}

/-- A private name was not somebody else's, and is not the published one. -/
theorem holding_base_hidden (ht : Holding stem s h t) (hh : h.hidden=some (hiddenName,x)) :
    t.base hiddenName=none := by
  have hsecret := ht.secret _ hh
  have htheirs : t.theirs hiddenName=none :=
    (ht.guarded _ hsecret).trans (ht.free _ hh)
  unfold Control.base
  cases ho : t.ours with
  | none => exact htheirs
  | some p =>
    have hp : h.published=some p := by
      cases ht.ours with
      | inl hn => rw [hn] at ho; cases ho
      | inr hs => rw [← hs,ho]
    have hne : hiddenName≠p.1 := fun hn => ht.shown p hp (by rw [← hn]; exact hsecret)
    dsimp only
    rw [if_neg hne,htheirs]

/-- The private name leads to the object held under it. -/
theorem holding_find_hidden (ht : Holding stem s h t) (hh : h.hidden=some (hiddenName,x)) :
    t.folder.find hiddenName=some x := by
  rw [ht.names,hh]
  exact if_pos rfl

/-- A free private name gets the new object. -/
theorem holding_create (ht : Holding stem s (.reading s subject) t)
    (hsecret : Private stem hiddenName) (hfree : t.folder.find hiddenName=none) :
    Holding stem s (.staged s subject hiddenName t.folder.issued [])
      { t with folder := t.folder.create hiddenName (.file []) } := by
  have hours : t.ours=none := by
    cases ht.ours with
    | inl hn => exact hn
    | inr hs => exact hs
  have htheirs : t.theirs hiddenName=none := by
    have hn := ht.names hiddenName
    rw [hfree] at hn
    unfold Control.base at hn
    rw [hours] at hn
    exact hn.symm
  refine ⟨?_,ht.issued.trans (Nat.le_succ _),?_,ht.guarded,?_,?_,.inl hours,
    (fun _ hp => nomatch hp),?_,?_,ht.unlinked,ht.subject,?_,ht.overwrote⟩
  · intro j hj
    have hne : j≠t.folder.issued := Nat.ne_of_lt (lt_of_lt_of_le hj ht.issued)
    exact (Function.update_of_ne hne _ _).trans (ht.kept j hj)
  · intro k
    change (t.folder.create hiddenName (.file [])).find k=if k=hiddenName then _ else t.base k
    rw [Folder.find_create]
    split_ifs with hk
    · rfl
    · exact ht.names k
  · intro p hp
    cases hp
    exact hsecret
  · intro p hp
    cases hp
    rw [← ht.guarded _ hsecret,htheirs]
  · intro p hp
    cases hp
    refine ⟨ht.issued,Nat.lt_succ_self _,Function.update_self _ _ _,?_⟩
    exact fun q hq => Nat.ne_of_lt (ht.placed q hq).2.1
  · intro q hq
    obtain ⟨hnew,hold,hnode⟩ := ht.placed q hq
    have hne : q.1≠t.folder.issued := Nat.ne_of_lt hold
    exact ⟨hnew,Nat.lt_succ_of_lt hold,(Function.update_of_ne hne _ _).trans hnode⟩
  · intro p hp
    obtain ⟨hold,hbytes,-⟩ := ht.read p hp
    have hne : p.1≠t.folder.issued := Nat.ne_of_lt hold
    refine ⟨Nat.lt_succ_of_lt hold,?_,?_⟩
    · exact (congrArg Node.bytes (Function.update_of_ne hne _ _)).trans hbytes
    · intro q hq
      cases hq
      exact hne

/-- The written object gets other bytes. -/
theorem holding_write (ht : Holding stem s h t) (hw : h.written=some (i,b)) (new : List UInt8) :
    Holding stem s { h with written := some (i,new) }
      { t with folder := t.folder.write i (.file new) } := by
  obtain ⟨hnew,hold,-,hplaced⟩ := ht.written _ hw
  refine ⟨?_,ht.issued,ht.names,ht.guarded,ht.secret,ht.free,ht.ours,ht.shown,?_,?_,
    ht.unlinked,ht.subject,?_,ht.overwrote⟩
  · intro j hj
    have hne : j≠i := Nat.ne_of_lt (lt_of_lt_of_le hj hnew)
    exact (Function.update_of_ne hne _ _).trans (ht.kept j hj)
  · intro p hp
    cases hp
    exact ⟨hnew,hold,Function.update_self _ _ _,hplaced⟩
  · intro q hq
    obtain ⟨hlater,holder,hnode⟩ := ht.placed q hq
    exact ⟨hlater,holder,(Function.update_of_ne (hplaced q hq) _ _).trans hnode⟩
  · intro p hp
    obtain ⟨holder,hbytes,hother⟩ := ht.read p hp
    have hne : p.1≠i := hother _ hw
    refine ⟨holder,?_,?_⟩
    · exact (congrArg Node.bytes (Function.update_of_ne hne _ _)).trans hbytes
    · intro q hq
      cases hq
      exact hne

/-- The private name is removed. -/
theorem holding_remove (ht : Holding stem s h t) (hh : h.hidden=some (hiddenName,x)) :
    Holding stem s { h with hidden := none, unlinked := x::h.unlinked }
      { t with folder := t.folder.remove hiddenName, unlinked := x::t.unlinked } := by
  refine ⟨ht.kept,ht.issued,?_,ht.guarded,(fun _ hp => nomatch hp),(fun _ hp => nomatch hp),ht.ours,
    ht.shown,ht.written,ht.placed,congrArg (x::·) ht.unlinked,ht.subject,ht.read,ht.overwrote⟩
  intro k
  change (t.folder.remove hiddenName).find k=t.base k
  rw [Folder.find_remove]
  split_ifs with hk
  · rw [hk,holding_base_hidden ht hh]
  · rw [ht.names k,hh]
    exact if_neg hk

/-- Before a publication the names lead where others left them. -/
theorem base_unpublished (hours : t.ours=none) (k : String) : t.base k=t.theirs k := by
  unfold Control.base
  rw [hours]

/-- The names are exchanged: the object is published, the displaced one is private. -/
theorem holding_exchange (ht : Holding stem s (.staged s subject hiddenName i bytes) t)
    (hx : t.folder.find name=some x) (hname : ¬ Private stem name) :
    Holding stem s (.exchanged s subject name hiddenName i x bytes)
      { t with
        folder := t.folder.exchange hiddenName name
        ours := some (name,i)
        overwrote := some (name,i,some x) } := by
  have hours : t.ours=none := by
    cases ht.ours with
    | inl hn => exact hn
    | inr hs => exact hs
  have hi := holding_find_hidden ht rfl
  refine ⟨?_,?_,?_,ht.guarded,?_,?_,.inr rfl,?_,?_,?_,ht.unlinked,ht.subject,?_,rfl⟩
  · intro j hj
    rw [Folder.contents_exchange]
    exact ht.kept j hj
  · rw [Folder.issued_exchange]
    exact ht.issued
  · intro k
    rw [Folder.find_exchange hi hx]
    change _=if k=hiddenName then some x else if k=name then some i else t.theirs k
    split_ifs with hk hn
    · rfl
    · rfl
    · rw [ht.names k]
      exact (if_neg hk).trans (base_unpublished hours k)
  · intro p hp
    cases hp
    exact ht.secret (hiddenName,i) rfl
  · intro p hp
    cases hp
    exact ht.free (hiddenName,i) rfl
  · intro p hp
    cases hp
    exact hname
  · intro p hp
    cases hp
    obtain ⟨hnew,hold,hbytes,hplaced⟩ := ht.written _ rfl
    rw [Folder.contents_exchange,Folder.issued_exchange]
    exact ⟨hnew,hold,hbytes,hplaced⟩
  · intro q hq
    rw [Folder.contents_exchange,Folder.issued_exchange]
    exact ht.placed q hq
  · intro p hp
    unfold Control.bytesOf
    rw [Folder.contents_exchange,Folder.issued_exchange]
    exact ht.read p hp

/-- The temporary is moved to a free name. -/
theorem holding_rename (ht : Holding stem s (.staged s subject hiddenName i bytes) t)
    (hname : ¬ Private stem name) :
    Holding stem s (.replaced subject name i bytes s.unlinked none)
      { t with
        folder := t.folder.rename hiddenName name
        ours := some (name,i)
        overwrote := some (name,i,none) } := by
  have hours : t.ours=none := by
    cases ht.ours with
    | inl hn => exact hn
    | inr hs => exact hs
  have hi := holding_find_hidden ht rfl
  have hbase := holding_base_hidden ht rfl
  rw [base_unpublished hours] at hbase
  refine ⟨?_,?_,?_,ht.guarded,(fun _ hp => nomatch hp),(fun _ hp => nomatch hp),.inr rfl,?_,?_,?_,
    ht.unlinked,ht.subject,?_,rfl⟩
  · intro j hj
    rw [Folder.contents_rename]
    exact ht.kept j hj
  · rw [Folder.issued_rename]
    exact ht.issued
  · intro k
    rw [Folder.find_rename hi]
    change _=if k=name then some i else t.theirs k
    split_ifs with hk hn
    · rfl
    · rw [hn,hbase]
    · rw [ht.names k]
      exact (if_neg hn).trans (base_unpublished hours k)
  · intro p hp
    cases hp
    exact hname
  · intro p hp
    cases hp
    obtain ⟨hnew,hold,hbytes,hplaced⟩ := ht.written _ rfl
    rw [Folder.contents_rename,Folder.issued_rename]
    exact ⟨hnew,hold,hbytes,hplaced⟩
  · intro q hq
    rw [Folder.contents_rename,Folder.issued_rename]
    exact ht.placed q hq
  · intro p hp
    unfold Control.bytesOf
    rw [Folder.contents_rename,Folder.issued_rename]
    exact ht.read p hp

/-- The object to be replaced is noted. -/
theorem holding_note (ht : Holding stem s (.reading s none) t)
    (hknown : ∀ p, subject=some p → p.1<t.folder.issued ∧ t.bytesOf p.1=p.2) :
    Holding stem s (.reading s subject) { t with subject := subject.map Prod.fst } := by
  refine ⟨ht.kept,ht.issued,ht.names,ht.guarded,ht.secret,ht.free,ht.ours,ht.shown,ht.written,
    ht.placed,ht.unlinked,rfl,?_,ht.overwrote⟩
  intro p hp
  exact ⟨(hknown p hp).1,(hknown p hp).2,fun q hq => nomatch hq⟩

section Operations

variable {A : Choice → Prop}

theorem within_of (hsubject : h.subject=subject) (hstage : Stage name bytes s h) (t' : Control)
    (ht' : Holding stem s h t') : Within stem name bytes subject s t' :=
  ⟨h,hsubject,hstage,ht'⟩

/-- `openExclusive`: the private name leads to a new empty file. -/
theorem ensures_openExclusive (hA : ∀ c, A c → Respectful stem c) (hd : A default)
    (ht : Holding stem s (.reading s subject) t) (hsecret : Private stem hiddenName) :
    Ensures A (openExclusive hiddenName) t (Within stem name bytes subject s)
      (fun i => Holding stem s (.staged s subject hiddenName i []))
      (fun e t' => Within stem name bytes subject s t' ∧
        (e=.io "create owned control file" .alreadyExists →
          Holding stem s (.reading s subject) t')) := by
  refine ensures_call (lasting hA) hd ht fun fate t' ht' => ?_
  have hnothing : Within stem name bytes subject s t' := within_of rfl (stage_reading s) t' ht'
  dsimp only
  cases hf : t'.folder.find hiddenName with
  | some j =>
    refine ⟨hnothing,(fun _ ha => nomatch ha),fun e he => ?_⟩
    exact ⟨hnothing,fun _ => ht'⟩
  | none =>
    have hmade := holding_create ht' hsecret hf
    have hwithin : Within stem name bytes subject s _ := within_of rfl (stage_staged s) _ hmade
    cases fate with
    | done =>
      refine ⟨hwithin,fun i hi => ?_,fun _ he => nomatch he⟩
      cases hi
      exact hmade
    | lost =>
      refine ⟨hwithin,(fun _ hi => nomatch hi),fun e he => ⟨hwithin,fun h => ?_⟩⟩
      rw [h] at he
      cases he
    | failed | torn n =>
      exact ⟨hnothing,(fun _ hi => nomatch hi),fun _ _ => ⟨hnothing,fun _ => ht'⟩⟩

/-- `createControlRecord`: a private name, or an error that says whether it was untouched. -/
theorem ensures_createControlRecord (hA : ∀ c, A c → Respectful stem c) (hd : A default)
    (ht : Holding stem s (.reading s subject) t) (hsecret : Private stem hiddenName) :
    Ensures A (createControlRecord hiddenName) t (Within stem name bytes subject s)
      (fun temporary t' => temporary.name=hiddenName ∧
        Holding stem s (.staged s subject hiddenName temporary.identity []) t')
      (fun failure t' => Within stem name bytes subject s t' ∧
        ((failure.creationRefused=true ∨ (failure.allocation.file=none ∧
          failure.cause=.io "create owned control file" .alreadyExists)) →
            Holding stem s (.reading s subject) t') ∧
        failure.allocation.name=hiddenName) := by
  have hnothing : ∀ t', Holding stem s (.reading s subject) t' →
      Within stem name bytes subject s t' := within_of rfl (stage_reading s)
  have hstaged : ∀ i t', Holding stem s (.staged s subject hiddenName i []) t' →
      Within stem name bytes subject s t' := fun i => within_of rfl (stage_staged s)
  unfold createControlRecord
  split_ifs with hentry
  · exact ensures_fail ⟨hnothing t ht,fun _ => ht,rfl⟩
  refine ensures_bind (ensures_orFail ((ensures_look (lasting hA) hd ht hnothing _ _).weaken
    (fun _ hc => hc) (fun _ _ hq => hq.1) fun e t' he => ⟨hnothing t' he,fun _ => he,rfl⟩))
    fun writable t₁ h₁ => ?_
  dsimp only
  split_ifs with hwritable
  · exact ensures_fail ⟨hnothing t₁ h₁,fun _ => h₁,rfl⟩
  refine ensures_bind (ensures_orFail ((ensures_openExclusive hA hd h₁ hsecret).weaken
    (fun _ hc => hc) (fun _ _ hq => hq) fun e t' he => ⟨he.1,?_,rfl⟩)) fun i t₂ h₂ => ?_
  · rintro (hr | hr)
    · cases hr
    · exact he.2 hr.2
  have hfailed : ∀ e t', Holding stem s (.staged s subject hiddenName i []) t' →
      Within stem name bytes subject s t' ∧
      (((⟨e,⟨some i,hiddenName⟩,false⟩ : ControlCreateFailure).creationRefused=true ∨
        ((⟨e,⟨some i,hiddenName⟩,false⟩ : ControlCreateFailure).allocation.file=none ∧
          e=.io "create owned control file" .alreadyExists)) →
        Holding stem s (.reading s subject) t') ∧
      (⟨e,⟨some i,hiddenName⟩,false⟩ : ControlCreateFailure).allocation.name=hiddenName := by
    intro e t' he
    refine ⟨hstaged i t' he,?_,rfl⟩
    rintro (hr | hr)
    · cases hr
    · cases hr.1
  refine ensures_bind (ensures_orFail ((ensures_requireRegular (lasting hA) hd h₂
    (hstaged i) i).weaken
    (fun _ hc => hc) (fun _ _ hq => hq) hfailed)) fun _ t₃ h₃ => ?_
  refine ensures_bind (ensures_orFail ((ensures_requireName (lasting hA) hd h₃
    (hstaged i) _ i).weaken
    (fun _ hc => hc) (fun _ _ hq => hq.1) hfailed)) fun _ t₄ h₄ => ?_
  exact ensures_pure ⟨rfl,h₄⟩

/-- A number taken keeps the holdings. -/
theorem ensures_nextName {ε : Type} {E : ε → Control → Prop} (ht : Holding stem s h t)
    (hd : A default) {C : Control → Prop} (hC : ∀ t', Holding stem s h t' → C t') :
    Ensures A (nextName stem : Steps Control Choice ε String) t C
      (fun name t' => Private stem name ∧ Holding stem s h t') E := by
  have hnext : Holding stem s h { t with serial := t.serial+1 } :=
    ⟨ht.kept,ht.issued,ht.names,ht.guarded,ht.secret,ht.free,ht.ours,ht.shown,ht.written,ht.placed,
      ht.unlinked,ht.subject,ht.read,ht.overwrote⟩
  refine ensures_act hd fun c _ => ⟨hC _ hnext,?_,fun e he => nomatch he⟩
  intro name hname
  cases hname
  exact ⟨temporaryName_private _ _ _,hnext⟩

/-- `createControlTempIn`: a private temporary, or an error that says whether it is refused. -/
theorem ensures_createControlTempIn (hA : ∀ c, A c → Respectful stem c) (hd : A default)
    (attempts : ℕ) : ∀ t, Holding stem s (.reading s subject) t →
    Ensures A (createControlTempIn stem attempts) t (Within stem name bytes subject s)
      (fun temporary => Holding stem s (.staged s subject temporary.name temporary.identity []))
      (fun failure t' => Within stem name bytes subject s t' ∧
        (failure.creationRefused=true → Holding stem s (.reading s subject) t') ∧
        (failure.allocation.file≠none → Private stem failure.allocation.name)) := by
  have hnothing : ∀ t', Holding stem s (.reading s subject) t' →
      Within stem name bytes subject s t' := within_of rfl (stage_reading s)
  induction attempts with
  | zero => exact fun t ht => ensures_fail ⟨hnothing t ht,fun _ => ht,fun hn => (hn rfl).elim⟩
  | succ attempts ih =>
    intro t ht
    unfold createControlTempIn
    refine ensures_bind (ensures_nextName ht hd hnothing) fun fresh t₁ h₁ => ?_
    refine ensures_attempt_bind (ensures_createControlRecord hA hd h₁.2 h₁.1)
      (fun temporary t₂ h₂ => ?_) fun failure t₂ h₂ => ?_
    · obtain ⟨rfl,hstaged⟩ := h₂
      exact ensures_pure hstaged
    · dsimp only
      split_ifs with hagain
      · exact ih t₂ (h₂.2.1 (.inr hagain))
      · exact ensures_fail ⟨h₂.1,fun hr => h₂.2.1 (.inl hr),fun _ => h₂.2.2 ▸ h₁.1⟩

/-- `writeAll` on the temporary: all bytes, or an error with any first part of them. -/
theorem ensures_writeAll (hA : ∀ c, A c → Respectful stem c) (hd : A default)
    (ht : Holding stem s (.staged s subject hiddenName i []) t) (context : String)
    (new : List UInt8) :
    Ensures A (writeAll context i new) t (Within stem name bytes subject s)
      (fun _ => Holding stem s (.staged s subject hiddenName i new))
      (fun _ t' => ∃ b, Holding stem s (.staged s subject hiddenName i b) t') := by
  refine ensures_call (lasting hA) hd ht fun fate t' ht' => ?_
  have hput : ∀ taken : List UInt8, Holding stem s (.staged s subject hiddenName i taken)
      { t' with folder :=
        t'.folder.write i (.file (overwritten (t'.bytesOf i) taken)) } := by
    intro taken
    have hempty : overwritten (t'.bytesOf i) taken=taken := by
      unfold overwritten Control.bytesOf
      rw [(ht'.written _ rfl).2.2.1]
      exact (congrArg (taken ++ ·) List.drop_nil).trans (List.append_nil _)
    rw [hempty]
    exact holding_write ht' rfl taken
  have hwithin : ∀ taken : List UInt8, Within stem name bytes subject s
      { t' with folder :=
        t'.folder.write i (.file (overwritten (t'.bytesOf i) taken)) } :=
    fun taken => within_of rfl (stage_staged s) _ (hput taken)
  cases fate with
  | done => exact ⟨hwithin new,fun _ _ => hput new,fun _ he => nomatch he⟩
  | failed =>
    exact ⟨within_of rfl (stage_staged s) t' ht',(fun _ ha => nomatch ha),fun _ _ => ⟨[],ht'⟩⟩
  | lost => exact ⟨hwithin new,(fun _ ha => nomatch ha),fun _ _ => ⟨new,hput new⟩⟩
  | torn n =>
    exact ⟨hwithin _,(fun _ ha => nomatch ha),fun _ _ => ⟨new.take n,hput _⟩⟩

/-- `removeConfigTemp`: on success the private name is gone and led to the object given. -/
theorem ensures_removeConfigTemp (hA : ∀ c, A c → Respectful stem c) (hd : A default)
    (ht : Holding stem s h t) (hh : h.hidden=some (hiddenName,x)) (identity : ℕ)
    (hsubject : h.subject=subject) (hstage : Stage name bytes s h) (hremoved : x=identity →
      Stage name bytes s { h with hidden := none, unlinked := x::h.unlinked }) :
    Ensures A (removeConfigTemp ⟨identity,hiddenName⟩) t (Within stem name bytes subject s)
      (fun _ t' => x=identity ∧
        Holding stem s { h with hidden := none, unlinked := x::h.unlinked } t')
      (fun _ => Within stem name bytes subject s) := by
  have hheld : ∀ t', Holding stem s h t' → Within stem name bytes subject s t' :=
    within_of hsubject hstage
  unfold removeConfigTemp
  refine ensures_bind ((ensures_requireRegular (lasting hA) hd ht hheld _).weaken (fun _ hc => hc)
    (fun _ _ hq => hq) fun _ t' he => hheld t' he) fun _ t₁ h₁ => ?_
  refine ensures_bind ((ensures_requireName (lasting hA) hd h₁ hheld _ _).weaken (fun _ hc => hc)
    (fun _ _ hq => hq) fun _ t' he => hheld t' he) fun _ t₂ h₂ => ?_
  have hx : x=identity := by
    have hfound := holding_find_hidden h₂.1 hh
    rw [h₂.2] at hfound
    exact (Option.some.inj hfound).symm
  have hgone : ∀ t', Holding stem s { h with hidden := none, unlinked := x::h.unlinked } t' →
      Within stem name bytes subject s t' := fun t' ht' =>
    ⟨{ h with hidden := none, unlinked := x::h.unlinked },hsubject,hremoved hx,ht'⟩
  have hunlink : Ensures A (unlinkat "remove owned config temporary" hiddenName) t₂
      (Within stem name bytes subject s)
      (fun _ => Holding stem s { h with hidden := none, unlinked := x::h.unlinked })
      (fun _ => Within stem name bytes subject s) := by
    refine ensures_call (lasting hA) hd h₂.1 fun fate t' ht' => ?_
    have hwithout := holding_remove ht' hh
    dsimp only
    rw [holding_find_hidden ht' hh]
    cases fate with
    | done => exact ⟨hgone _ hwithout,fun _ _ => hwithout,fun _ he => nomatch he⟩
    | lost =>
      exact ⟨hgone _ hwithout,(fun _ ha => nomatch ha),fun _ _ => hgone _ hwithout⟩
    | failed | torn n =>
      exact ⟨hheld t' ht',(fun _ ha => nomatch ha),fun _ _ => hheld t' ht'⟩
  refine ensures_bind hunlink fun _ t₃ h₃ => ?_
  exact (ensures_look (lasting hA) hd h₃ hgone _ _).weaken (fun _ hc => hc)
    (fun _ _ hq => ⟨hx,hq.1⟩) fun _ t' he => hgone t' he

/-- `beforeReplace` keeps the temporary. -/
theorem ensures_beforeReplace (hA : ∀ c, A c → Respectful stem c) (hd : A default)
    (ht : Holding stem s h t) (hC : ∀ t', Holding stem s h t' → Within stem name bytes subject s t')
    (temporary : ConfigTemp) (destination : String) (wanted : Option ℕ) :
    Ensures A (beforeReplace temporary destination wanted) t (Within stem name bytes subject s)
      (fun _ => Holding stem s h) (fun _ => Holding stem s h) := by
  unfold beforeReplace
  refine ensures_bind (ensures_inspect (fun _ _ => ht) fun _ _ => ht) fun _ t₁ h₁ => ?_
  refine ensures_bind (ensures_requireRegular (lasting hA) hd h₁ hC _) fun _ t₂ h₂ => ?_
  refine ensures_bind ((ensures_requireName (lasting hA) hd h₂ hC _ _).weaken (fun _ hc => hc)
    (fun _ _ hq => hq.1) fun _ _ he => he) fun _ t₃ h₃ => ?_
  cases wanted with
  | none => exact ensures_durableFileFlush (lasting hA) hd h₃ hC _
  | some identity =>
    refine ensures_bind ((ensures_requireName (lasting hA) hd h₃ hC _ _).weaken (fun _ hc => hc)
      (fun _ _ hq => hq.1) fun _ _ he => he) fun _ t₄ h₄ => ?_
    exact ensures_durableFileFlush (lasting hA) hd h₄ hC _

/-- What a publication leaves: the displaced object is private, or there was none. -/
def Published (stem name hiddenName : String) (i : ℕ) (bytes : List UInt8)
    (subject : Option (ℕ×List UInt8)) (s t : Control) : Prop :=
  match subject with
  | some p => ∃ x, Holding stem s (.exchanged s (some p) name hiddenName i x bytes) t
  | none => Holding stem s (.replaced none name i bytes s.unlinked none) t

/-- A publication is a stage. -/
theorem Published.within (ht : Published stem name hiddenName i bytes subject s t) :
    Within stem name bytes subject s t := by
  cases subject with
  | some p =>
    obtain ⟨x,hx⟩ := ht
    exact within_of rfl (stage_exchanged s) t hx
  | none => exact within_of rfl (stage_replaced s) t ht

/-- `renameat`: the object is published; an error says when nothing happened. -/
theorem ensures_renameat (hA : ∀ c, A c → Respectful stem c) (hd : A default)
    (ht : Holding stem s (.staged s subject hiddenName i bytes) t) (hname : ¬ Private stem name) :
    Ensures A (renameat hiddenName name subject.isSome) t (Within stem name bytes subject s)
      (fun _ => Published stem name hiddenName i bytes subject s)
      (fun e t' => Within stem name bytes subject s t' ∧
        (e=.io "replace owned config atomically" .alreadyExists →
          Holding stem s (.staged s subject hiddenName i bytes) t')) := by
  refine ensures_call (lasting hA) hd ht fun fate t' ht' => ?_
  have hstaged : Within stem name bytes subject s t' := within_of rfl (stage_staged s) t' ht'
  dsimp only
  rw [holding_find_hidden ht' rfl]
  cases subject with
  | some p =>
    cases hx : t'.folder.find name with
    | none =>
      exact ⟨hstaged,(fun _ ha => nomatch ha),fun _ _ => ⟨hstaged,fun _ => ht'⟩⟩
    | some x =>
      have hmoved : Published stem name hiddenName i bytes (some p) s _ :=
        ⟨x,holding_exchange ht' hx hname⟩
      cases fate with
      | done => exact ⟨hmoved.within,fun _ _ => hmoved,fun _ he => nomatch he⟩
      | lost =>
        refine ⟨hmoved.within,(fun _ ha => nomatch ha),fun err he => ⟨hmoved.within,fun hr => ?_⟩⟩
        rw [hr] at he
        cases he
      | failed | torn n =>
        exact ⟨hstaged,(fun _ ha => nomatch ha),fun _ _ => ⟨hstaged,fun _ => ht'⟩⟩
  | none =>
    cases hx : t'.folder.find name with
    | some x =>
      exact ⟨hstaged,(fun _ ha => nomatch ha),fun _ _ => ⟨hstaged,fun _ => ht'⟩⟩
    | none =>
      have hmoved : Published stem name hiddenName i bytes none s _ :=
        holding_rename ht' hname
      cases fate with
      | done => exact ⟨hmoved.within,fun _ _ => hmoved,fun _ he => nomatch he⟩
      | lost =>
        refine ⟨hmoved.within,(fun _ ha => nomatch ha),fun err he => ⟨hmoved.within,fun hr => ?_⟩⟩
        rw [hr] at he
        cases he
      | failed | torn n =>
        exact ⟨hstaged,(fun _ ha => nomatch ha),fun _ _ => ⟨hstaged,fun _ => ht'⟩⟩

/-- What a checked publication leaves: the displaced object is the one read. -/
def Confirmed (stem name hiddenName : String) (i : ℕ) (bytes : List UInt8)
    (subject : Option (ℕ×List UInt8)) (s : Control) (old : Option ConfigTemp) (t : Control) :
    Prop :=
  match subject with
  | some p => old=some ⟨p.1,hiddenName⟩ ∧
    Holding stem s (.exchanged s (some p) name hiddenName i p.1 bytes) t
  | none => old=none ∧ Holding stem s (.replaced none name i bytes s.unlinked none) t

/-- `afterReplace`: the displaced object is the one read. -/
theorem ensures_afterReplace (hA : ∀ c, A c → Respectful stem c) (hd : A default)
    (ht : Published stem name hiddenName i bytes subject s t) :
    Ensures A (afterReplace ⟨i,hiddenName⟩ name (subject.map Prod.fst)) t
      (Within stem name bytes subject s)
      (Confirmed stem name hiddenName i bytes subject s)
      (fun _ => Within stem name bytes subject s) := by
  unfold afterReplace
  cases subject with
  | none =>
    have hC : ∀ t', Holding stem s (.replaced none name i bytes s.unlinked none) t' →
        Within stem name bytes none s t' := within_of rfl (stage_replaced s)
    refine ensures_bind ((ensures_requireName (lasting hA) hd ht hC _ _).weaken (fun _ hc => hc)
      (fun _ _ hq => hq.1) fun _ t' he => hC t' he) fun _ t₁ h₁ => ?_
    exact ensures_pure ⟨rfl,h₁⟩
  | some p =>
    obtain ⟨x,ht⟩ := ht
    have hC : ∀ t', Holding stem s (.exchanged s (some p) name hiddenName i x bytes) t' →
        Within stem name bytes (some p) s t' := within_of rfl (stage_exchanged s)
    refine ensures_bind ((ensures_requireName (lasting hA) hd ht hC _ _).weaken (fun _ hc => hc)
      (fun _ _ hq => hq.1) fun _ t' he => hC t' he) fun _ t₁ h₁ => ?_
    refine ensures_bind ((ensures_requireName (lasting hA) hd h₁ hC _ _).weaken (fun _ hc => hc)
      (fun _ _ hq => hq) fun _ t' he => hC t' he) fun _ t₂ h₂ => ?_
    have hx : x=p.1 := by
      have hfound := holding_find_hidden (x:=x) h₂.1 rfl
      rw [h₂.2] at hfound
      exact (Option.some.inj hfound).symm
    refine ensures_bind ((ensures_openRegular (lasting hA) hd h₂.1 hC _).weaken (fun _ hc => hc)
      (fun _ _ hq => hq.1) fun _ t' he => hC t' he) fun _ t₃ h₃ => ?_
    rw [hx] at h₃
    exact ensures_pure ⟨rfl,h₃⟩

/-- `replaceOwnedConfig`: the checked publication, or an error that says whether the names may
have changed. -/
theorem ensures_replaceOwnedConfig (hA : ∀ c, A c → Respectful stem c) (hd : A default)
    (ht : Holding stem s (.staged s subject hiddenName i bytes) t) (hname : ¬ Private stem name) :
    Ensures A (replaceOwnedConfig ⟨i,hiddenName⟩ name (subject.map Prod.fst)) t
      (Within stem name bytes subject s)
      (fun p t' => p.1=⟨i,name⟩ ∧ Confirmed stem name hiddenName i bytes subject s p.2 t')
      (fun failure t' => Within stem name bytes subject s t' ∧
        (failure.changed=false → failure.temporary=⟨i,hiddenName⟩ ∧
          Holding stem s (.staged s subject hiddenName i bytes) t') ∧
        (failure.temporary.name=name ∨ failure.temporary.name=hiddenName)) := by
  have hstaged : ∀ t', Holding stem s (.staged s subject hiddenName i bytes) t' →
      Within stem name bytes subject s t' := within_of rfl (stage_staged s)
  unfold replaceOwnedConfig
  refine ensures_bind (ensures_orFail ((ensures_beforeReplace hA hd ht hstaged _ _ _).weaken
    (fun _ hc => hc) (fun _ _ hq => hq) fun _ t' he =>
      ⟨hstaged t' he,fun _ => ⟨rfl,he⟩,.inr rfl⟩))
    fun _ t₁ h₁ => ?_
  rw [Option.isSome_map]
  refine ensures_bind (ensures_orFail ((ensures_renameat hA hd h₁ hname).weaken
    (fun _ hc => hc) (fun _ _ hq => hq) fun e t' he =>
      ⟨he.1,fun hr => ⟨rfl,he.2 ?_⟩,.inr rfl⟩))
    fun _ t₂ h₂ => ?_
  · simpa using hr
  refine ensures_bind (ensures_orFail ((ensures_afterReplace hA hd h₂).weaken
    (fun _ hc => hc) (fun _ _ hq => hq) fun e t' he =>
      ⟨he,(fun hr => nomatch hr),.inl rfl⟩))
    fun old t₃ h₃ => ?_
  exact ensures_pure ⟨rfl,h₃⟩

end Operations

end Librairii.ControlReplacement
