import Mathlib

/-!
# Programs of steps that may fail or be cut off

A program works on a state through single steps. Every step is decided by a
choice: it may succeed, fail, or fail after its effect. The run keeps every
state it went through, since the process can end in any of them. `Ensures`
describes a program from one state under all allowed choices: what holds of
every state passed, of each result and of each error.
-/

namespace Librairii.InterruptedSteps

variable {σ ω ε ε' α β γ : Type}

/-- What one run of a program did. -/
structure Outcome (σ ω ε α : Type) where
  /-- The result or the error returned. -/
  reply : Except ε α
  state : σ
  /-- The states gone through, in order; the first one is not repeated. -/
  passed : List σ
  /-- The choices not used. -/
  rest : List ω

/-- A program over states `σ` with choices `ω`, errors `ε` and a result. -/
def Steps (σ ω ε α : Type) : Type := σ → List ω → Outcome σ ω ε α

/-- Return without a step. -/
protected def Steps.pure (a : α) : Steps σ ω ε α := fun s script => ⟨.ok a,s,[],script⟩

/-- Run the second program after the first one returned a result. -/
protected def Steps.bind (m : Steps σ ω ε α) (f : α → Steps σ ω ε β) : Steps σ ω ε β :=
  fun s script =>
    let first := m s script
    match first.reply with
    | .error e => ⟨.error e,first.state,first.passed,first.rest⟩
    | .ok a =>
      let second := f a first.state first.rest
      ⟨second.reply,second.state,first.passed ++ second.passed,second.rest⟩

instance : Monad (Steps σ ω ε) where
  pure := Steps.pure
  bind := Steps.bind

/-- Stop with an error. -/
def fail (e : ε) : Steps σ ω ε α := fun s script => ⟨.error e,s,[],script⟩

/-- Look at the state without a step. -/
def inspect (f : σ → Except ε α) : Steps σ ω ε α := fun s script => ⟨f s,s,[],script⟩

/-- Look at the state with a call that may fail by choice. -/
def observe [Inhabited ω] (f : ω → σ → Except ε α) : Steps σ ω ε α := fun s script =>
  ⟨f (script.headD default) s,s,[],script.tail⟩

/-- One step, decided by the next choice. -/
def act [Inhabited ω] (f : ω → σ → Except ε α×σ) : Steps σ ω ε α := fun s script =>
  let done := f (script.headD default) s
  ⟨done.1,done.2,[done.2],script.tail⟩

/-- Run a program and return its error as a value. -/
def attempt (m : Steps σ ω ε α) : Steps σ ω ε' (Except ε α) := fun s script =>
  let done := m s script
  ⟨.ok done.reply,done.state,done.passed,done.rest⟩

/-- Continue with a stored result or error. -/
def resume (reply : Except ε α) : Steps σ ω ε α := fun s script => ⟨reply,s,[],script⟩

/-- A program on a part of the state. -/
def focus {τ : Type} (get : σ → τ) (set : τ → σ → σ) (m : Steps τ ω ε α) : Steps σ ω ε α :=
  fun s script =>
    let done := m (get s) script
    ⟨done.reply,set done.state s,done.passed.map fun t => set t s,done.rest⟩

/-- The state a process leaves when it is cut off in the given state passed, or ends. -/
def left (o : Outcome σ ω ε α) (s : σ) : Option ℕ → σ
  | none => o.state
  | some n => (s::o.passed).getD n o.state

/-- The states gone through before the process ends or is cut off. -/
def gone (o : Outcome σ ω ε α) : Option ℕ → List σ
  | none => o.passed
  | some n => o.passed.take n

theorem mem_gone {o : Outcome σ ω ε α} {s t : σ} {cut : Option ℕ}
    (h : t ∈ gone o cut ++ [left o s cut]) : t=s ∨ t ∈ o.passed ∨ t=o.state := by
  cases cut with
  | none =>
    cases List.mem_append.mp h with
    | inl h => exact .inr (.inl h)
    | inr h => exact .inr (.inr (List.mem_singleton.mp h))
  | some n =>
    cases List.mem_append.mp h with
    | inl h => exact .inr (.inl (List.mem_of_mem_take h))
    | inr h =>
      rw [List.mem_singleton.mp h]
      unfold left
      dsimp only
      rw [List.getD_eq_getElem?_getD]
      cases hn : (s::o.passed)[n]? with
      | none => exact .inr (.inr rfl)
      | some u =>
        cases List.mem_cons.mp (List.mem_of_getElem? hn) with
        | inl hu => exact .inl hu
        | inr hu => exact .inr (.inl hu)

/-- What is known of an outcome: the choices left are allowed, every state passed is in
`C`, a result is in `Q` and an error is in `E`. -/
structure Holds (A : ω → Prop) (o : Outcome σ ω ε α) (C : σ → Prop) (Q : α → σ → Prop)
    (E : ε → σ → Prop) : Prop where
  /-- The remaining choices are allowed. -/
  rest : ∀ w ∈ o.rest, A w
  passed : ∀ t ∈ o.passed, C t
  result : ∀ a, o.reply=.ok a → Q a o.state
  error : ∀ e, o.reply=.error e → E e o.state

/-- From state `s`, under every script of allowed choices, the run is as described. -/
def Ensures (A : ω → Prop) (m : Steps σ ω ε α) (s : σ) (C : σ → Prop) (Q : α → σ → Prop)
    (E : ε → σ → Prop) : Prop :=
  ∀ script, (∀ w ∈ script, A w) → Holds A (m s script) C Q E

/-- The states of an outcome in order are related by `R`, the first one included, and an
error is in `B`. -/
structure Moved (A : ω → Prop) (R : σ → σ → Prop) (B : ε → Prop) (s : σ)
    (o : Outcome σ ω ε α) : Prop where
  /-- The remaining choices are allowed. -/
  rest : ∀ w ∈ o.rest, A w
  /-- Earlier states are related to later ones. -/
  passed : (s::o.passed).Pairwise R
  state : ∀ t ∈ s::o.passed, R t o.state
  error : ∀ e, o.reply=.error e → B e

/-- Under every script of allowed choices a program moves along `R` and fails within `B`. -/
def Moves (A : ω → Prop) (R : σ → σ → Prop) (B : ε → Prop) (m : Steps σ ω ε α) : Prop :=
  ∀ s script, (∀ w ∈ script, A w) → Moved A R B s (m s script)

section Rules

variable {A : ω → Prop} {C C' : σ → Prop} {Q Q' : α → σ → Prop} {E E' : ε → σ → Prop} {s : σ}

/-- A returned value. -/
theorem ensures_pure {a : α} (h : Q a s) : Ensures A (pure a : Steps σ ω ε α) s C Q E := by
  intro script hscript
  refine ⟨hscript,fun t ht => absurd ht List.not_mem_nil,?_,?_⟩
  · intro b hb
    cases hb
    exact h
  · intro e he
    cases he

/-- An error. -/
theorem ensures_fail {e : ε} (h : E e s) : Ensures A (fail e : Steps σ ω ε α) s C Q E := by
  intro script hscript
  refine ⟨hscript,fun t ht => absurd ht List.not_mem_nil,?_,?_⟩
  · intro b hb
    cases hb
  · intro e' he
    cases he
    exact h

/-- A look at the state. -/
theorem ensures_inspect {f : σ → Except ε α} (hq : ∀ a, f s=.ok a → Q a s)
    (he : ∀ e, f s=.error e → E e s) : Ensures A (inspect f : Steps σ ω ε α) s C Q E := by
  intro script hscript
  exact ⟨hscript,fun t ht => absurd ht List.not_mem_nil,hq,he⟩

theorem headD_allowed [Inhabited ω] (hdefault : A default) {script : List ω}
    (h : ∀ w ∈ script, A w) : A (script.headD default) := by
  cases script with
  | nil => exact hdefault
  | cons w rest => exact h w List.mem_cons_self

/-- One step: the state it leaves is passed. -/
theorem ensures_act [Inhabited ω] (hdefault : A default) {f : ω → σ → Except ε α×σ}
    (h : ∀ w, A w → C (f w s).2 ∧ (∀ a, (f w s).1=.ok a → Q a (f w s).2) ∧
      ∀ e, (f w s).1=.error e → E e (f w s).2) : Ensures A (act f) s C Q E := by
  intro script hscript
  have hw := h _ (headD_allowed hdefault hscript)
  refine ⟨fun w h => hscript w (List.mem_of_mem_tail h),?_,hw.2.1,hw.2.2⟩
  intro t ht
  rw [List.mem_singleton.mp ht]
  exact hw.1

/-- Two programs in order. -/
theorem ensures_bind {m : Steps σ ω ε α} {f : α → Steps σ ω ε β} {R : α → σ → Prop}
    {Q : β → σ → Prop} (hm : Ensures A m s C R E)
    (hf : ∀ a t, R a t → Ensures A (f a) t C Q E) : Ensures A (m >>= f) s C Q E := by
  intro script hscript
  have hfirst := hm script hscript
  change Holds A (Steps.bind m f s script) C Q E
  unfold Steps.bind
  cases hr : (m s script).reply with
  | error e =>
    dsimp only
    rw [hr]
    refine ⟨hfirst.rest,hfirst.passed,?_,?_⟩
    · intro b hb
      cases hb
    · intro e' he
      cases he
      exact hfirst.error e hr
  | ok a =>
    dsimp only
    rw [hr]
    have hsecond := hf a _ (hfirst.result a hr) (m s script).rest hfirst.rest
    refine ⟨hsecond.rest,?_,hsecond.result,hsecond.error⟩
    intro t ht
    cases List.mem_append.mp ht with
    | inl h => exact hfirst.passed t h
    | inr h => exact hsecond.passed t h

/-- A program whose error is returned as a value. -/
theorem ensures_attempt {m : Steps σ ω ε α} {Q : Except ε α → σ → Prop} {E : ε' → σ → Prop}
    (hm : Ensures A m s C (fun a => Q (.ok a)) fun e => Q (.error e)) :
    Ensures A (attempt m : Steps σ ω ε' (Except ε α)) s C Q E := by
  intro script hscript
  have h := hm script hscript
  refine ⟨h.rest,h.passed,?_,fun e he => nomatch he⟩
  intro reply hreply
  cases hreply
  cases hr : (m s script).reply with
  | ok a => exact h.result a hr
  | error e => exact h.error e hr

/-- A program whose error is returned as a value, and what follows in either case. -/
theorem ensures_attempt_bind {m : Steps σ ω ε α} {k : Except ε α → Steps σ ω ε' β}
    {R : α → σ → Prop} {F : ε → σ → Prop} {Q : β → σ → Prop} {E : ε' → σ → Prop}
    (hm : Ensures A m s C R F) (hok : ∀ a t, R a t → Ensures A (k (.ok a)) t C Q E)
    (herror : ∀ e t, F e t → Ensures A (k (.error e)) t C Q E) :
    Ensures A (attempt m >>= k) s C Q E := by
  have hattempt : Ensures A (attempt m : Steps σ ω ε' (Except ε α)) s C
      (fun reply t => Ensures A (k reply) t C Q E) E := by
    apply ensures_attempt
    intro script hscript
    have h := hm script hscript
    exact ⟨h.rest,h.passed,fun a ha => hok a _ (h.result a ha),
      fun e he => herror e _ (h.error e he)⟩
  exact ensures_bind hattempt fun _ _ h => h

/-- Weaker descriptions. -/
theorem Ensures.weaken {m : Steps σ ω ε α} (h : Ensures A m s C Q E) (hc : ∀ t, C t → C' t)
    (hq : ∀ a t, Q a t → Q' a t) (he : ∀ e t, E e t → E' e t) : Ensures A m s C' Q' E' := by
  intro script hscript
  have h := h script hscript
  exact ⟨h.rest,fun t ht => hc t (h.passed t ht),fun a ha => hq a _ (h.result a ha),
    fun e hr => he e _ (h.error e hr)⟩

/-- A program on a part of the state. -/
theorem ensures_focus {τ : Type} {get : σ → τ} {set : τ → σ → σ} {m : Steps τ ω ε α}
    (h : Ensures A m (get s) (fun t => C (set t s)) (fun a t => Q a (set t s))
      fun e t => E e (set t s)) : Ensures A (focus get set m) s C Q E := by
  intro script hscript
  have h := h script hscript
  refine ⟨h.rest,?_,h.result,h.error⟩
  intro t ht
  obtain ⟨u,hu,rfl⟩ := List.mem_map.mp ht
  exact h.passed u hu

/-- A program over the elements of a list: what each element keeps of the elements left. -/
theorem ensures_forM {f : γ → Steps σ ω ε PUnit} {I : List γ → σ → Prop}
    (hstep : ∀ x xs t, I (x::xs) t → Ensures A (f x) t C (fun _ => I xs) E) (xs : List γ) :
    ∀ s, I xs s → Ensures A (xs.forM f) s C (fun _ => I []) E := by
  induction xs with
  | nil => exact fun s hs => ensures_pure hs
  | cons x xs ih =>
    intro s hs
    change Ensures A (f x >>= fun _ => xs.forM f) s C _ E
    exact ensures_bind (hstep x xs s hs) fun _ t ht => ih t ht

end Rules

section MoveRules

variable {A : ω → Prop} {R : σ → σ → Prop} {B : ε → Prop} {B' : ε' → Prop}

/-- An outcome without a step. -/
theorem moved_idle (hrefl : ∀ s, R s s) {s : σ} {reply : Except ε α} {script : List ω}
    (h : ∀ w ∈ script, A w) (hB : ∀ e, reply=.error e → B e) :
    Moved A R B s ⟨reply,s,[],script⟩ := by
  refine ⟨h,List.pairwise_singleton R s,fun t ht => ?_,hB⟩
  rw [List.mem_singleton.mp ht]
  exact hrefl s

/-- A value, an error or a look. -/
theorem moves_idle (hrefl : ∀ s, R s s) {f : σ → Except ε α}
    (hB : ∀ s e, f s=.error e → B e) : Moves A R B (inspect f : Steps σ ω ε α) :=
  fun s _ h => moved_idle hrefl h (hB s)

/-- One step. -/
theorem moves_act [Inhabited ω] (hrefl : ∀ s, R s s) (hdefault : A default)
    {f : ω → σ → Except ε α×σ} (h : ∀ w s, A w → R s (f w s).2 ∧ ∀ e, (f w s).1=.error e → B e) :
    Moves A R B (act f) := by
  intro s script hscript
  have hstep := h (script.headD default) s (headD_allowed hdefault hscript)
  refine ⟨fun w hw => hscript w (List.mem_of_mem_tail hw),?_,fun t ht => ?_,hstep.2⟩
  · refine List.Pairwise.cons (fun t ht => ?_) (List.pairwise_singleton R _)
    rw [List.mem_singleton.mp ht]
    exact hstep.1
  · cases List.mem_cons.mp ht with
    | inl h => exact h ▸ hstep.1
    | inr h =>
      rw [List.mem_singleton.mp h]
      exact hrefl _

theorem Moved.append (htrans : ∀ a b c, R a b → R b c → R a c) {s : σ}
    {first : Outcome σ ω ε α} {second : Outcome σ ω ε' β} (hfirst : Moved A R B s first)
    (hsecond : Moved A R B' first.state second) :
    Moved A R B' s ⟨second.reply,second.state,first.passed ++ second.passed,second.rest⟩ := by
  have hlater : ∀ t ∈ s::first.passed, ∀ u ∈ second.passed, R t u := by
    intro t ht u hu
    exact htrans _ _ _ (hfirst.state t ht) ((List.pairwise_cons.mp hsecond.passed).1 u hu)
  refine ⟨hsecond.rest,?_,?_,hsecond.error⟩
  · change (s::(first.passed ++ second.passed)).Pairwise R
    rw [← List.cons_append]
    exact List.pairwise_append.mpr
      ⟨hfirst.passed,(List.pairwise_cons.mp hsecond.passed).2,hlater⟩
  · intro t ht
    change t ∈ s::(first.passed ++ second.passed) at ht
    rw [← List.cons_append] at ht
    cases List.mem_append.mp ht with
    | inl h => exact htrans _ _ _ (hfirst.state t h) (hsecond.state _ List.mem_cons_self)
    | inr h => exact hsecond.state t (List.mem_cons_of_mem _ h)

/-- Two programs in order. -/
theorem moves_bind (htrans : ∀ a b c, R a b → R b c → R a c) {m : Steps σ ω ε α}
    {f : α → Steps σ ω ε β} (hm : Moves A R B m) (hf : ∀ a, Moves A R B (f a)) :
    Moves A R B (m >>= f) := by
  intro s script hscript
  have hfirst := hm s script hscript
  change Moved A R B s (Steps.bind m f s script)
  unfold Steps.bind
  cases hr : (m s script).reply with
  | error e =>
    dsimp only
    rw [hr]
    refine ⟨hfirst.rest,hfirst.passed,hfirst.state,fun e' he => ?_⟩
    cases he
    exact hfirst.error e hr
  | ok a =>
    dsimp only
    rw [hr]
    exact hfirst.append htrans (hf a _ _ hfirst.rest)

/-- A program whose error is returned as a value, and what follows in either case. -/
theorem moves_attempt_bind (htrans : ∀ a b c, R a b → R b c → R a c) {m : Steps σ ω ε α}
    {k : Except ε α → Steps σ ω ε' β} (hm : Moves A R B m) (hok : ∀ a, Moves A R B' (k (.ok a)))
    (herror : ∀ e, B e → Moves A R B' (k (.error e))) : Moves A R B' (attempt m >>= k) := by
  intro s script hscript
  have hfirst := hm s script hscript
  change Moved A R B' s (Steps.bind (attempt m) k s script)
  unfold Steps.bind attempt
  dsimp only
  cases hr : (m s script).reply with
  | ok a => exact hfirst.append htrans (hok a _ _ hfirst.rest)
  | error e => exact hfirst.append htrans (herror e (hfirst.error e hr) _ _ hfirst.rest)

/-- A program over the elements of a list. -/
theorem moves_forM (hrefl : ∀ s, R s s) (htrans : ∀ a b c, R a b → R b c → R a c)
    {f : γ → Steps σ ω ε PUnit} (hf : ∀ x, Moves A R B (f x)) (xs : List γ) :
    Moves A R B (xs.forM f) := by
  induction xs with
  | nil => exact fun _ _ h => moved_idle hrefl h fun _ he => nomatch he
  | cons x xs ih => exact moves_bind htrans (hf x) fun _ => ih

/-- A program on a part of the state. -/
theorem moves_focus {τ : Type} {get : σ → τ} {set : τ → σ → σ} {R' : τ → τ → Prop}
    {m : Steps τ ω ε α} (hm : Moves A R' B m) (hset : ∀ s t u, R' t u → R (set t s) (set u s))
    (hget : ∀ s, set (get s) s=s) : Moves A R B (focus get set m) := by
  intro s script hscript
  have h := hm (get s) script hscript
  have hstates : s::(m (get s) script).passed.map (fun t => set t s)=
      ((get s)::(m (get s) script).passed).map fun t => set t s := by
    rw [List.map_cons,hget]
  refine ⟨h.rest,?_,?_,h.error⟩
  · change (s::(m (get s) script).passed.map fun t => set t s).Pairwise R
    rw [hstates]
    exact h.passed.map _ fun t u htu => hset s t u htu
  · intro t ht
    change t ∈ s::(m (get s) script).passed.map (fun t => set t s) at ht
    rw [hstates] at ht
    obtain ⟨u,hu,rfl⟩ := List.mem_map.mp ht
    exact hset s _ _ (h.state u hu)

theorem Moved.pairwise_gone (hrefl : ∀ s, R s s) {s : σ} {o : Outcome σ ω ε α}
    (h : Moved A R B s o) (cut : Option ℕ) : (gone o cut ++ [left o s cut]).Pairwise R := by
  have hpassed := (List.pairwise_cons.mp h.passed).2
  have hend : ∀ l x, l.Pairwise R → (∀ t ∈ l, R t x) → (l ++ [x]).Pairwise R := by
    intro l x hl hx
    refine List.pairwise_append.mpr ⟨hl,List.pairwise_singleton R x,fun t ht u hu => ?_⟩
    rw [List.mem_singleton.mp hu]
    exact hx t ht
  cases cut with
  | none => exact hend _ _ hpassed fun t ht => h.state t (List.mem_cons_of_mem _ ht)
  | some n =>
    refine hend _ _ (hpassed.sublist (List.take_sublist n _)) fun t ht => ?_
    obtain ⟨i,hi,rfl⟩ := List.mem_take_iff_getElem.mp ht
    obtain ⟨hin,hil⟩ := Nat.lt_min.mp hi
    cases n with
    | zero => exact absurd hin (Nat.not_lt_zero i)
    | succ n =>
      change R o.passed[i] ((s::o.passed).getD (n+1) o.state)
      rw [List.getD_eq_getElem?_getD,List.getElem?_cons_succ]
      by_cases hn : n<o.passed.length
      · rw [List.getElem?_eq_getElem hn]
        change R o.passed[i] o.passed[n]
        by_cases hne : i=n
        · subst hne
          exact hrefl _
        · exact List.pairwise_iff_getElem.mp hpassed i n hil hn
            (Nat.lt_of_le_of_ne (Nat.lt_succ_iff.mp hin) hne)
      · rw [List.getElem?_eq_none (Nat.not_lt.mp hn)]
        exact h.state _ (List.mem_cons_of_mem _ (List.getElem_mem hil))

/-- What is known of every state passed, together with how it was reached. -/
theorem Moves.ensures {m : Steps σ ω ε α} {s : σ} {C : σ → Prop} {Q : α → σ → Prop}
    {E : ε → σ → Prop} (hm : Moves A R B m) (h : Ensures A m s C Q E) :
    Ensures A m s (fun t => C t ∧ R s t) (fun a t => Q a t ∧ R s t)
      (fun e t => (E e t ∧ B e) ∧ R s t) := by
  intro script hscript
  have hmoved := hm s script hscript
  have h := h script hscript
  have hstate := hmoved.state s List.mem_cons_self
  refine ⟨h.rest,fun t ht => ⟨h.passed t ht,?_⟩,fun a ha => ⟨h.result a ha,hstate⟩,
    fun e he => ⟨⟨h.error e he,hmoved.error e he⟩,hstate⟩⟩
  exact (List.pairwise_cons.mp hmoved.passed).1 t ht

end MoveRules

end Librairii.InterruptedSteps
