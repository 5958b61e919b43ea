import Librairii.ControlStages

/-!
# How an undisturbed owner moves a control directory

When nobody else acts, the names others gave never change, an object never gets a
second name, and a publication that was made once stays made.
-/

namespace Librairii.ControlMoves

open InterruptedSteps NamedObjects ControlFiles ControlStages

/-- What every step of an undisturbed owner keeps. -/
structure Quietly (s t : Control) : Prop where
  /-- Nobody else acted. -/
  theirs : t.theirs=s.theirs
  /-- A publication stays. -/
  overwrote : s.overwrote≠none → t.overwrote≠none
  /-- A publication is the owner's. -/
  ours : s.ours=s.overwrote.map (fun p => (p.1,p.2.1)) →
    t.ours=t.overwrote.map fun p => (p.1,p.2.1)
  /-- No object gets a second name. -/
  single : s.folder.Single → t.folder.Single

theorem quietly_refl (s : Control) : Quietly s s := ⟨rfl,fun h => h,fun h => h,fun h => h⟩

theorem quietly_trans (a b c : Control) (h : Quietly a b) (h' : Quietly b c) : Quietly a c :=
  ⟨h'.theirs.trans h.theirs,fun hw => h'.overwrote (h.overwrote hw),
    fun ho => h'.ours (h.ours ho),fun hs => h'.single (h.single hs)⟩

theorem alone_default : Alone default := rfl

def NotBusy (cause : StorageError) : Prop := cause≠.profileBusy

variable {ε ε' α β γ : Type} {B : ε → Prop} {B' : ε' → Prop}

/-- An undisturbed program. -/
abbrev MovesAlone (B : ε → Prop) (m : Steps Control Choice ε α) : Prop := Moves Alone Quietly B m

/-- Returning. -/
theorem moves_pure (a : α) : MovesAlone B (pure a : Steps Control Choice ε α) :=
  fun _ _ h => moved_idle quietly_refl h fun _ he => nomatch he

theorem moves_fail {e : ε} (he : B e) : MovesAlone B (fail e : Steps Control Choice ε α) := by
  refine fun _ _ h => moved_idle quietly_refl h fun e' he' => ?_
  cases he'
  exact he

/-- Checking a value. -/
theorem moves_inspect {f : Control → Except ε α} (h : ∀ s e, f s=.error e → B e) :
    MovesAlone B (inspect f : Steps Control Choice ε α) := moves_idle quietly_refl h

/-- Two programs in order. -/
theorem moves_then {m : Steps Control Choice ε α} {f : α → Steps Control Choice ε β}
    (hm : MovesAlone B m) (hf : ∀ a, MovesAlone B (f a)) : MovesAlone B (m >>= f) :=
  moves_bind quietly_trans hm hf

/-- An error under another type. -/
theorem moves_orFail {m : Steps Control Choice ε α} {f : ε → ε'} (hm : MovesAlone B m)
    (hf : ∀ e, B e → B' (f e)) : MovesAlone B' (orFail m f) :=
  moves_attempt_bind quietly_trans hm (fun a => moves_pure a) fun e he => moves_fail (hf e he)

theorem moves_call {f : Fate → Control → Except ε α×Control}
    (h : ∀ fate s, Quietly s (f fate s).2 ∧ ∀ e, (f fate s).1=.error e → B e) :
    MovesAlone B (call f) := by
  refine moves_act quietly_refl alone_default fun c s hc => ?_
  rw [show c.others=[] from hc]
  exact h c.fate s

theorem moves_look {context : String} {f : Control → Except StorageError α}
    (h : ∀ s e, f s=.error e → NotBusy e) : MovesAlone NotBusy (look context f) := by
  refine moves_call fun fate s => ⟨quietly_refl s,fun e he => ?_⟩
  cases fate with
  | done => exact h s e he
  | failed | lost | torn n =>
    cases he
    exact StorageError.noConfusion

theorem moves_list {f : γ → Steps Control Choice ε PUnit} (hf : ∀ x, MovesAlone B (f x))
    (xs : List γ) : MovesAlone B (xs.forM f) := moves_forM quietly_refl quietly_trans hf xs

/-- `requireName`. -/
theorem moves_requireName (name : String) (identity : ℕ) :
    MovesAlone NotBusy (requireName name identity) := by
  refine moves_look fun s e he => ?_
  cases hf : s.folder.find name with
  | none => rw [hf] at he; cases he; exact StorageError.noConfusion
  | some i =>
    rw [hf] at he
    dsimp only at he
    split_ifs at he
    cases he
    exact StorageError.noConfusion

/-- `requireRegular`. -/
theorem moves_requireRegular (identity : ℕ) : MovesAlone NotBusy (requireRegular identity) := by
  refine moves_look fun s e he => ?_
  cases hc : s.folder.contents identity with
  | file bytes =>
    rw [hc] at he
    dsimp only at he
    split_ifs at he
    cases he
    exact StorageError.noConfusion
  | folder | special => rw [hc] at he; cases he; exact StorageError.noConfusion

/-- A call that looks and has no error of its own. -/
theorem moves_see {context : String} {f : Control → α} :
    MovesAlone NotBusy (look context fun s => .ok (f s)) :=
  moves_look fun _ _ he => nomatch he

/-- `openRegular`. -/
theorem moves_openRegular (name : String) : MovesAlone NotBusy (openRegular name) := by
  refine moves_then (moves_look fun s e he => ?_) fun i => moves_then (moves_requireRegular i)
    fun _ => moves_then (moves_requireName name i) fun _ => moves_pure i
  cases hf : s.folder.find name with
  | none => rw [hf] at he; cases he; exact StorageError.noConfusion
  | some i =>
    rw [hf] at he
    dsimp only at he
    cases hc : s.folder.contents i with
    | special => rw [hc] at he; cases he; exact StorageError.noConfusion
    | file bytes => rw [hc] at he; cases he
    | folder => rw [hc] at he; cases he

/-- `readConfig`. -/
theorem moves_readConfig (name : String) : MovesAlone NotBusy (readConfig name) :=
  moves_then (moves_openRegular name) fun _ => moves_pure _

theorem moves_note (subject : Option ℕ) :
    MovesAlone B (note subject : Steps Control Choice ε Unit) :=
  moves_act quietly_refl alone_default fun _ _ _ =>
    ⟨⟨rfl,fun h => h,fun h => h,fun h => h⟩,fun _ he => nomatch he⟩

/-- `createControlRecord`. -/
theorem moves_createControlRecord (name : String) :
    MovesAlone (fun failure => NotBusy failure.cause) (createControlRecord name) := by
  have hopen : MovesAlone NotBusy (openExclusive name) := by
    refine moves_call fun fate s => ?_
    dsimp only
    cases s.folder.find name with
    | some i =>
      refine ⟨quietly_refl s,fun e he => ?_⟩
      cases he
      exact StorageError.noConfusion
    | none =>
      have hmade : Quietly s { s with folder := s.folder.create name (.file []) } :=
        ⟨rfl,fun h => h,fun h => h,fun h => h.create name _⟩
      cases fate with
      | done => exact ⟨hmade,fun e he => nomatch he⟩
      | lost =>
        refine ⟨hmade,fun e he => ?_⟩
        cases he
        exact StorageError.noConfusion
      | failed | torn n =>
        refine ⟨quietly_refl s,fun e he => ?_⟩
        cases he
        exact StorageError.noConfusion
  unfold createControlRecord
  split_ifs
  · exact moves_fail StorageError.noConfusion
  refine moves_then (moves_orFail moves_see fun e he => he) fun writable => ?_
  dsimp only
  split_ifs
  · exact moves_fail StorageError.noConfusion
  refine moves_then (moves_orFail hopen fun e he => he) fun i => ?_
  exact moves_then (moves_orFail (moves_requireRegular i) fun e he => he) fun _ =>
    moves_then (moves_orFail (moves_requireName name i) fun e he => he) fun _ => moves_pure _

/-- `createControlTempIn`. -/
theorem moves_createControlTempIn (stem : String) (attempts : ℕ) :
    MovesAlone (fun failure => NotBusy failure.cause) (createControlTempIn stem attempts) := by
  induction attempts with
  | zero => exact moves_fail StorageError.noConfusion
  | succ attempts ih =>
    unfold createControlTempIn
    refine moves_then (moves_act quietly_refl alone_default fun _ _ _ =>
      ⟨⟨rfl,fun h => h,fun h => h,fun h => h⟩,fun _ he => nomatch he⟩) fun name => ?_
    refine moves_attempt_bind quietly_trans (moves_createControlRecord name)
      (fun temporary => moves_pure temporary) fun failure hfailure => ?_
    dsimp only
    split_ifs
    · exact ih
    · exact moves_fail hfailure

/-- `writeAll`. -/
theorem moves_writeAll (context : String) (i : ℕ) (bytes : List UInt8) :
    MovesAlone NotBusy (writeAll context i bytes) := by
  refine moves_call fun fate s => ?_
  cases fate with
  | done => exact ⟨⟨rfl,fun h => h,fun h => h,fun h => h⟩,fun e he => nomatch he⟩
  | failed | lost | torn n =>
    refine ⟨⟨rfl,fun h => h,fun h => h,fun h => h⟩,fun e he => ?_⟩
    cases he
    exact StorageError.noConfusion

theorem moves_unlinkat (context name : String) : MovesAlone NotBusy (unlinkat context name) := by
  refine moves_call fun fate s => ?_
  dsimp only
  cases s.folder.find name with
  | none =>
    refine ⟨quietly_refl s,fun e he => ?_⟩
    cases he
    exact StorageError.noConfusion
  | some i =>
    have hgone : Quietly s
        { s with folder := s.folder.remove name, unlinked := i::s.unlinked } :=
      ⟨rfl,fun h => h,fun h => h,fun h => h.remove name⟩
    cases fate with
    | done => exact ⟨hgone,fun e he => nomatch he⟩
    | lost =>
      refine ⟨hgone,fun e he => ?_⟩
      cases he
      exact StorageError.noConfusion
    | failed | torn n =>
      refine ⟨quietly_refl s,fun e he => ?_⟩
      cases he
      exact StorageError.noConfusion

/-- `removeConfigTemp`. -/
theorem moves_removeConfigTemp (temporary : ConfigTemp) :
    MovesAlone NotBusy (removeConfigTemp temporary) := by
  refine moves_then (moves_requireRegular _) fun _ => moves_then (moves_requireName _ _) fun _ =>
    moves_then (moves_unlinkat _ _) fun _ => moves_look fun s e he => ?_
  split_ifs at he
  cases he
  exact StorageError.noConfusion

theorem moves_renameat (source destination : String) (exchange : Bool) :
    MovesAlone NotBusy (renameat source destination exchange) := by
  have hidle : ∀ (s : Control) (context : String) (kind : IoKind), Quietly s s ∧
      ∀ e, (Except.error (.io context kind) : Except StorageError Unit)=.error e → NotBusy e := by
    refine fun s context kind => ⟨quietly_refl s,fun e he => ?_⟩
    cases he
    exact StorageError.noConfusion
  refine moves_call fun fate s => ?_
  dsimp only
  cases s.folder.find source with
  | none => exact hidle s _ _
  | some i =>
    cases s.folder.find destination with
    | none =>
      cases exchange with
      | true => exact hidle s _ _
      | false =>
        cases fate with
        | done =>
          exact ⟨⟨rfl,fun _ => Option.some_ne_none _,fun _ => rfl,fun h => h.rename source
            destination⟩,
            fun e he => nomatch he⟩
        | lost =>
          exact ⟨⟨rfl,fun _ => Option.some_ne_none _,fun _ => rfl,fun h => h.rename source
            destination⟩,
            (hidle s _ _).2⟩
        | failed | torn n => exact hidle s _ _
    | some j =>
      cases exchange with
      | false => exact hidle s _ _
      | true =>
        cases fate with
        | done =>
          exact ⟨⟨rfl,fun _ => Option.some_ne_none _,fun _ => rfl,fun h => h.exchange source
            destination⟩,
            fun e he => nomatch he⟩
        | lost =>
          exact ⟨⟨rfl,fun _ => Option.some_ne_none _,fun _ => rfl,fun h => h.exchange source
            destination⟩,
            (hidle s _ _).2⟩
        | failed | torn n => exact hidle s _ _

/-- `replaceOwnedConfig`. -/
theorem moves_replaceOwnedConfig (temporary : ConfigTemp) (destination : String)
    (wanted : Option ℕ) :
    MovesAlone (fun failure => NotBusy failure.cause)
      (replaceOwnedConfig temporary destination wanted) := by
  have hbefore : MovesAlone NotBusy (beforeReplace temporary destination wanted) := by
    refine moves_then (moves_inspect fun s e he => ?_) fun _ =>
      moves_then (moves_requireRegular _) fun _ => moves_then (moves_requireName _ _) fun _ => ?_
    · split_ifs at he
      cases he
      exact StorageError.noConfusion
    cases wanted with
    | none => exact moves_see
    | some identity => exact moves_then (moves_requireName _ _) fun _ => moves_see
  have hafter : MovesAlone NotBusy (afterReplace temporary destination wanted) := by
    refine moves_then (moves_requireName _ _) fun _ => ?_
    cases wanted with
    | none => exact moves_pure _
    | some identity =>
      exact moves_then (moves_requireName _ _) fun _ => moves_then (moves_openRegular _) fun _ =>
        moves_pure _
  exact moves_then (moves_orFail hbefore fun e he => he) fun _ =>
    moves_then (moves_orFail (moves_renameat _ _ _) fun e he => he) fun _ =>
      moves_then (moves_orFail hafter fun e he => he) fun _ => moves_pure _

end Librairii.ControlMoves
