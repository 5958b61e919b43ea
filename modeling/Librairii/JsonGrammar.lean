import Mathlib

/-!
# The grammar of JSON over bytes

Texts are byte lists. A string body admits every byte from 0x20 on but quote and backslash,
and the JSON escapes. A number is read by maximal munch: as many bytes as some number still
admits. Values carry a bound on their nesting, and the texts of the elements of an array and
of the members of an object are part of the derivation.
-/

namespace Librairii.JsonGrammar

section Munch

variable {σ α : Type} (step : σ → α → Option σ)

/-- The state after reading a whole text. -/
def readAll : σ → List α → Option σ
  | state,[] => some state
  | state,a::rest => (step state a).bind fun next => readAll next rest

/-- Read while there is a next state; the number of symbols read and the last state. -/
def munch : σ → List α → ℕ×σ
  | state,[] => (0,state)
  | state,a::rest =>
    match step state a with
    | none => (0,state)
    | some next => ((munch next rest).1+1,(munch next rest).2)

variable {step}

theorem readAll_append (state : σ) (s t : List α) :
    readAll step state (s++t)=(readAll step state s).bind fun next => readAll step next t := by
  induction s generalizing state with
  | nil => rfl
  | cons a rest ih =>
    rw [List.cons_append,readAll,readAll]
    cases step state a with
    | none => rfl
    | some next => exact ih next

theorem munch_append {state final : σ} {s : List α} (h : readAll step state s=some final)
    (t : List α) :
    munch step state (s++t)=(s.length+(munch step final t).1,(munch step final t).2) := by
  induction s generalizing state with
  | nil =>
    cases h
    rw [List.nil_append,List.length_nil,Nat.zero_add]
  | cons a rest ih =>
    rw [readAll] at h
    obtain ⟨next,hnext,hrest⟩ := Option.bind_eq_some_iff.mp h
    rw [List.cons_append,munch,hnext]
    dsimp only
    rw [ih hrest,List.length_cons]
    exact Prod.ext (by dsimp only; omega) rfl

theorem munch_maximal (state : σ) (t : List α) :
    (munch step state t).1≤t.length ∧
      readAll step state (t.take (munch step state t).1)=some (munch step state t).2 ∧
      ∀ a rest, t.drop (munch step state t).1=a::rest →
        step (munch step state t).2 a=none := by
  induction t generalizing state with
  | nil =>
    refine ⟨Nat.le_refl _,rfl,?_⟩
    intro a rest h
    cases h
  | cons b t ih =>
    cases hstep : step state b with
    | none =>
      simp only [munch,hstep]
      refine ⟨Nat.zero_le _,rfl,?_⟩
      intro a rest h
      cases h
      exact hstep
    | some next =>
      obtain ⟨hle,hread,hstop⟩ := ih next
      simp only [munch,hstep]
      refine ⟨?_,?_,?_⟩
      · rw [List.length_cons]
        omega
      · rw [List.take_succ_cons,readAll,hstep]
        exact hread
      · intro a rest h
        rw [List.drop_succ_cons] at h
        exact hstop a rest h

theorem munch_loop {state : σ} {p : α → Bool}
    (h : ∀ a, p a=true → step state a=some state) (t : List α) :
    munch step state t=((t.takeWhile p).length+(munch step state (t.dropWhile p)).1,
      (munch step state (t.dropWhile p)).2) := by
  induction t with
  | nil => rfl
  | cons a t ih =>
    cases ha : p a with
    | true =>
      rw [List.takeWhile_cons_of_pos ha,List.dropWhile_cons_of_pos ha,munch,h a ha]
      dsimp only
      rw [ih,List.length_cons]
      exact Prod.ext (by dsimp only; omega) rfl
    | false =>
      have hno : ¬p a=true := by simp [ha]
      rw [List.takeWhile_cons_of_neg hno,List.dropWhile_cons_of_neg hno,List.length_nil,
        Nat.zero_add]

end Munch

def isSpace (b : UInt8) : Bool := b=0x20 || b=0x09 || b=0x0d || b=0x0a

def isDigit (b : UInt8) : Bool := 0x30≤b && b≤0x39

def isHexDigit (b : UInt8) : Bool := isDigit b || (0x41≤b && b≤0x46) || (0x61≤b && b≤0x66)

/-- The second byte of a two-byte escape. -/
def isShortEscape (b : UInt8) : Bool :=
  b=0x22 || b=0x5c || b=0x2f || b=0x62 || b=0x66 || b=0x6e || b=0x72 || b=0x74

def Space (t : List UInt8) : Prop := ∀ b ∈ t, isSpace b=true

def Digits (t : List UInt8) : Prop := ∀ b ∈ t, isDigit b=true

/-- What stands between the quotes of a string. -/
inductive StringBody : List UInt8 → Prop where
  /-- Nothing. -/
  | nil : StringBody []
  /-- A byte that stands for itself. -/
  | plain {b : UInt8} {t : List UInt8} (hb : 0x20≤b ∧ b≠0x22 ∧ b≠0x5c) (ht : StringBody t) :
    StringBody (b::t)
  /-- An escape of two bytes. -/
  | short {b : UInt8} {t : List UInt8} (hb : isShortEscape b=true) (ht : StringBody t) :
    StringBody (0x5c::b::t)
  /-- An escape of four hexadecimal digits. -/
  | unicode {a b c d : UInt8} {t : List UInt8} (ha : isHexDigit a=true)
    (hb : isHexDigit b=true) (hc : isHexDigit c=true) (hd : isHexDigit d=true)
    (ht : StringBody t) : StringBody (0x5c::0x75::a::b::c::d::t)

def StringToken (t : List UInt8) : Prop := ∃ body, StringBody body ∧ t=0x22::(body++[0x22])

/-- The sign of a number. -/
def Minus (t : List UInt8) : Prop := t=[] ∨ t=[0x2d]

/-- An integer part that does not start with zero. -/
def Nonzero (t : List UInt8) : Prop :=
  ∃ b ds, (0x31≤b ∧ b≤0x39) ∧ Digits ds ∧ t=b::ds

def IntegerPart (t : List UInt8) : Prop := t=[0x30] ∨ Nonzero t

def FractionPart (t : List UInt8) : Prop := t=[] ∨ ∃ ds, ds≠[] ∧ Digits ds ∧ t=0x2e::ds

def ExponentLetter (b : UInt8) : Prop := b=0x65 ∨ b=0x45

def ExponentSign (b : UInt8) : Prop := b=0x2b ∨ b=0x2d

def ExponentPart (t : List UInt8) : Prop :=
  t=[] ∨ ∃ e sign ds, ExponentLetter e ∧ (sign=[] ∨ ∃ s, ExponentSign s ∧ sign=[s]) ∧
    ds≠[] ∧ Digits ds ∧ t=e::(sign++ds)

def NumberToken (t : List UInt8) : Prop :=
  ∃ minus int fraction exponent, Minus minus ∧ IntegerPart int ∧ FractionPart fraction ∧
    ExponentPart exponent ∧ t=minus++int++fraction++exponent

/-- A number read by maximal munch: no number continues with the byte after it. -/
def Munched (t rest : List UInt8) : Prop :=
  NumberToken t ∧ ∀ b tail, rest=b::tail → ¬∃ more, NumberToken (t++b::more)

def Literal (t : List UInt8) : Prop :=
  t=[0x6e,0x75,0x6c,0x6c] ∨ t=[0x74,0x72,0x75,0x65] ∨ t=[0x66,0x61,0x6c,0x73,0x65]

mutual

/-- A value that nests at most `n` containers. -/
inductive Value : ℕ → List UInt8 → Prop where
  | literal {n : ℕ} {t : List UInt8} (ht : Literal t) : Value n t
  | number {n : ℕ} {t : List UInt8} (ht : NumberToken t) : Value n t
  | string {n : ℕ} {t : List UInt8} (ht : StringToken t) : Value n t
  | emptyArray {n : ℕ} {a : List UInt8} (ha : Space a) : Value (n+1) (0x5b::(a++[0x5d]))
  | array {n : ℕ} {values : List (List UInt8)} {t : List UInt8} (ht : Elements n values t) :
    Value (n+1) (0x5b::(t++[0x5d]))
  | emptyObject {n : ℕ} {a : List UInt8} (ha : Space a) : Value (n+1) (0x7b::(a++[0x7d]))
  | object {n : ℕ} {members : List (List UInt8×List UInt8)} {t : List UInt8}
    (ht : Members n members t) : Value (n+1) (0x7b::(t++[0x7d]))

/-- The elements of an array, each nesting at most `n` containers, separated by commas. -/
inductive Elements : ℕ → List (List UInt8) → List UInt8 → Prop where
  | last {n : ℕ} {a v b : List UInt8} (ha : Space a) (hv : Value n v) (hb : Space b) :
    Elements n [v] (a++v++b)
  /-- An element and those after it. -/
  | more {n : ℕ} {a v b t : List UInt8} {values : List (List UInt8)} (ha : Space a)
    (hv : Value n v) (hb : Space b) (ht : Elements n values t) :
    Elements n (v::values) (a++v++b++0x2c::t)

/-- The members of an object, each with its key, separated by commas. -/
inductive Members : ℕ → List (List UInt8×List UInt8) → List UInt8 → Prop where
  | last {n : ℕ} {a k b c v d : List UInt8} (ha : Space a) (hk : StringToken k) (hb : Space b)
    (hc : Space c) (hv : Value n v) (hd : Space d) :
    Members n [(k,v)] (a++k++b++0x3a::(c++v++d))
  /-- A member and those after it. -/
  | more {n : ℕ} {a k b c v d t : List UInt8} {members : List (List UInt8×List UInt8)}
    (ha : Space a) (hk : StringToken k) (hb : Space b) (hc : Space c) (hv : Value n v)
    (hd : Space d) (ht : Members n members t) :
    Members n ((k,v)::members) (a++k++b++0x3a::(c++v++d++0x2c::t))

end

/-- Where a reader of a number stands. -/
inductive NumberState where
  | start
  | minus
  | zero
  | integer
  | point
  | fraction
  | letter
  | sign
  | exponent
  deriving DecidableEq

/-- The states in which the bytes read are a number. -/
def NumberState.accepting : NumberState → Bool
  | .zero | .integer | .fraction | .exponent => true
  | _ => false

/-- The first digit of the integer part. -/
def leadStep (b : UInt8) : Option NumberState :=
  if b=0x30 then some .zero else if 0x31≤b ∧ b≤0x39 then some .integer else none

def letterStep (b : UInt8) : Option NumberState :=
  if b=0x65 ∨ b=0x45 then some .letter else none

/-- What follows the integer part. -/
def tailStep (b : UInt8) : Option NumberState :=
  if b=0x2e then some .point else letterStep b

/-- Read one more byte of a number. -/
def numberStep : NumberState → UInt8 → Option NumberState
  | .start,b => if b=0x2d then some .minus else leadStep b
  | .minus,b => leadStep b
  | .zero,b => tailStep b
  | .integer,b => if isDigit b then some .integer else tailStep b
  | .point,b => if isDigit b then some .fraction else none
  | .fraction,b => if isDigit b then some .fraction else letterStep b
  | .letter,b =>
    if b=0x2b ∨ b=0x2d then some .sign else if isDigit b then some .exponent else none
  | .sign,b => if isDigit b then some .exponent else none
  | .exponent,b => if isDigit b then some .exponent else none

/-- The bytes that lead to a state. -/
def Shape : NumberState → List UInt8 → Prop
  | .start,t => t=[]
  | .minus,t => t=[0x2d]
  | .zero,t => ∃ m, Minus m ∧ t=m++[0x30]
  | .integer,t => ∃ m i, Minus m ∧ Nonzero i ∧ t=m++i
  | .point,t => ∃ m i, Minus m ∧ IntegerPart i ∧ t=m++i++[0x2e]
  | .fraction,t => ∃ m i ds, Minus m ∧ IntegerPart i ∧ ds≠[] ∧ Digits ds ∧ t=m++i++0x2e::ds
  | .letter,t => ∃ m i f e, Minus m ∧ IntegerPart i ∧ FractionPart f ∧ ExponentLetter e ∧
      t=m++i++f++[e]
  | .sign,t => ∃ m i f e s, Minus m ∧ IntegerPart i ∧ FractionPart f ∧ ExponentLetter e ∧
      ExponentSign s ∧ t=m++i++f++[e,s]
  | .exponent,t => ∃ m i f e sign ds, Minus m ∧ IntegerPart i ∧ FractionPart f ∧
      ExponentLetter e ∧ (sign=[] ∨ ∃ s, ExponentSign s ∧ sign=[s]) ∧ ds≠[] ∧ Digits ds ∧
      t=m++i++f++e::(sign++ds)

theorem Digits.concat {ds : List UInt8} {b : UInt8} (h : Digits ds) (hb : isDigit b=true) :
    Digits (ds++[b]) := by
  intro x hx
  rcases List.mem_append.mp hx with hx | hx
  · exact h x hx
  · rw [List.mem_singleton.mp hx]
    exact hb

theorem Digits.single {b : UInt8} (hb : isDigit b=true) : Digits [b] := by
  intro x hx
  rw [List.mem_singleton.mp hx]
  exact hb

/-- The bytes before a first integer digit. -/
theorem shape_lead {m : List UInt8} {b : UInt8} {next : NumberState} (hm : Minus m)
    (h : leadStep b=some next) : Shape next (m++[b]) := by
  unfold leadStep at h
  split_ifs at h with h0 h9
  · cases h
    exact ⟨m,hm,by rw [h0]⟩
  · cases h
    exact ⟨m,[b],hm,⟨b,[],h9,List.forall_mem_nil _,rfl⟩,rfl⟩

theorem shape_letter {m i f : List UInt8} {b : UInt8} {next : NumberState} (hm : Minus m)
    (hi : IntegerPart i) (hf : FractionPart f) (h : letterStep b=some next) :
    Shape next (m++i++f++[b]) := by
  unfold letterStep at h
  split_ifs at h with he
  cases h
  exact ⟨m,i,f,b,hm,hi,hf,he,rfl⟩

theorem shape_tail {m i : List UInt8} {b : UInt8} {next : NumberState} (hm : Minus m)
    (hi : IntegerPart i) (h : tailStep b=some next) : Shape next (m++i++[b]) := by
  unfold tailStep at h
  split_ifs at h with hp
  · cases h
    exact ⟨m,i,hm,hi,by rw [hp]⟩
  · have hletter := shape_letter hm hi (.inl rfl) h
    rwa [List.append_nil] at hletter

theorem shape_step {state next : NumberState} {t : List UInt8} {b : UInt8}
    (ht : Shape state t) (h : numberStep state b=some next) : Shape next (t++[b]) := by
  cases state with
  | start =>
    have ht : t=[] := ht
    subst ht
    simp only [numberStep] at h
    split_ifs at h with hm
    · cases h
      rw [hm]
      rfl
    · exact shape_lead (.inl rfl) h
  | minus =>
    have ht : t=[0x2d] := ht
    subst ht
    exact shape_lead (.inr rfl) h
  | zero =>
    obtain ⟨m,hm,rfl⟩ := ht
    exact shape_tail hm (.inl rfl) h
  | integer =>
    obtain ⟨m,i,hm,hi,rfl⟩ := ht
    simp only [numberStep] at h
    split_ifs at h with hd
    · cases h
      obtain ⟨a,ds,ha,hds,rfl⟩ := hi
      exact ⟨m,(a::ds)++[b],hm,⟨a,ds++[b],ha,hds.concat hd,rfl⟩,List.append_assoc _ _ _⟩
    · exact shape_tail hm (.inr hi) h
  | point =>
    obtain ⟨m,i,hm,hi,rfl⟩ := ht
    simp only [numberStep] at h
    split_ifs at h with hd
    cases h
    exact ⟨m,i,[b],hm,hi,List.cons_ne_nil _ _,.single hd,by simp⟩
  | fraction =>
    obtain ⟨m,i,ds,hm,hi,hne,hds,rfl⟩ := ht
    simp only [numberStep] at h
    split_ifs at h with hd
    · cases h
      exact ⟨m,i,ds++[b],hm,hi,by simp,hds.concat hd,by simp⟩
    · exact shape_letter hm hi (.inr ⟨ds,hne,hds,rfl⟩) h
  | letter =>
    obtain ⟨m,i,f,e,hm,hi,hf,he,rfl⟩ := ht
    simp only [numberStep] at h
    split_ifs at h with hs hd
    · cases h
      exact ⟨m,i,f,e,b,hm,hi,hf,he,hs,by simp⟩
    · cases h
      exact ⟨m,i,f,e,[],[b],hm,hi,hf,he,.inl rfl,List.cons_ne_nil _ _,.single hd,by simp⟩
  | sign =>
    obtain ⟨m,i,f,e,s,hm,hi,hf,he,hs,rfl⟩ := ht
    simp only [numberStep] at h
    split_ifs at h with hd
    cases h
    exact ⟨m,i,f,e,[s],[b],hm,hi,hf,he,.inr ⟨s,hs,rfl⟩,List.cons_ne_nil _ _,.single hd,by simp⟩
  | exponent =>
    obtain ⟨m,i,f,e,sign,ds,hm,hi,hf,he,hs,hne,hds,rfl⟩ := ht
    simp only [numberStep] at h
    split_ifs at h with hd
    cases h
    exact ⟨m,i,f,e,sign,ds++[b],hm,hi,hf,he,hs,by simp,hds.concat hd,by simp⟩

theorem shape_of_readAll {t : List UInt8} {state : NumberState}
    (h : readAll numberStep .start t=some state) : Shape state t := by
  induction t using List.reverseRecOn generalizing state with
  | nil =>
    cases h
    rfl
  | append_singleton t b ih =>
    rw [readAll_append] at h
    obtain ⟨middle,hmiddle,hlast⟩ := Option.bind_eq_some_iff.mp h
    rw [readAll] at hlast
    obtain ⟨next,hnext,hend⟩ := Option.bind_eq_some_iff.mp hlast
    cases hend
    exact shape_step (ih hmiddle) hnext

theorem readAll_digits {state : NumberState} {ds : List UInt8} (hds : Digits ds)
    (h : ∀ b, isDigit b=true → numberStep state b=some state) :
    readAll numberStep state ds=some state := by
  induction ds with
  | nil => rfl
  | cons b ds ih =>
    rw [readAll,h b (hds b List.mem_cons_self)]
    exact ih fun x hx => hds x (List.mem_cons_of_mem _ hx)

theorem readAll_first {state next : NumberState} {ds : List UInt8} (hds : Digits ds)
    (hne : ds≠[]) (hfirst : ∀ b, isDigit b=true → numberStep state b=some next)
    (h : ∀ b, isDigit b=true → numberStep next b=some next) :
    readAll numberStep state ds=some next := by
  cases ds with
  | nil => exact absurd rfl hne
  | cons b ds =>
    rw [readAll,hfirst b (hds b List.mem_cons_self)]
    exact readAll_digits (fun x hx => hds x (List.mem_cons_of_mem _ hx)) h

theorem readAll_integer {m i : List UInt8} (hm : Minus m) (hi : IntegerPart i) :
    ∃ state, readAll numberStep .start (m++i)=some state ∧
      ((i=[0x30] ∧ state=.zero) ∨ (Nonzero i ∧ state=.integer)) := by
  have hlead : ∀ state, (state=.start ∨ state=.minus) → ∀ b : UInt8, b≠0x2d →
      numberStep state b=leadStep b := by
    rintro state (rfl | rfl) b hb
    · simp only [numberStep,hb,if_false]
    · rfl
  have hpart : ∀ state, (state=.start ∨ state=.minus) →
      ∃ next, readAll numberStep state i=some next ∧
        ((i=[0x30] ∧ next=.zero) ∨ (Nonzero i ∧ next=.integer)) := by
    intro state hstate
    rcases hi with rfl | hi
    · refine ⟨.zero,?_,.inl ⟨rfl,rfl⟩⟩
      rw [readAll,hlead state hstate 0x30 (by decide)]
      rfl
    · refine ⟨.integer,?_,.inr ⟨hi,rfl⟩⟩
      obtain ⟨b,ds,hb,hds,rfl⟩ := hi
      have hstep : leadStep b=some .integer := by
        have hne : b≠0x30 := by
          rintro rfl
          exact absurd hb.1 (by decide)
        rw [leadStep,if_neg hne,if_pos hb]
      have hminus : b≠0x2d := by
        rintro rfl
        exact absurd hb.1 (by decide)
      rw [readAll,hlead state hstate b hminus,hstep]
      exact readAll_digits hds fun x hx => by simp only [numberStep,hx,if_true]
  rcases hm with rfl | rfl
  · exact hpart .start (.inl rfl)
  · obtain ⟨next,hnext,hcase⟩ := hpart .minus (.inr rfl)
    exact ⟨next,hnext,hcase⟩

theorem readAll_fraction {m i f : List UInt8} (hm : Minus m) (hi : IntegerPart i)
    (hf : FractionPart f) :
    ∃ state, readAll numberStep .start (m++i++f)=some state ∧ state.accepting=true ∧
      ∀ b, numberStep state b=letterStep b ∨ isDigit b=true ∨ b=0x2e := by
  obtain ⟨state,hread,hstate⟩ := readAll_integer hm hi
  have hafter : ∀ b, numberStep state b=letterStep b ∨ isDigit b=true ∨ b=0x2e := by
    intro b
    by_cases hp : b=0x2e
    · exact .inr (.inr hp)
    by_cases hd : isDigit b=true
    · exact .inr (.inl hd)
    left
    rcases hstate with ⟨-,rfl⟩ | ⟨-,rfl⟩
    · simp only [numberStep,tailStep,hp,if_false]
    · simp only [numberStep,tailStep,hp,hd,if_false,Bool.false_eq_true]
  rcases hf with rfl | ⟨ds,hne,hds,rfl⟩
  · refine ⟨state,?_,?_,hafter⟩
    · rw [List.append_nil]
      exact hread
    · rcases hstate with ⟨-,rfl⟩ | ⟨-,rfl⟩ <;> rfl
  · refine ⟨.fraction,?_,rfl,?_⟩
    · rw [readAll_append,hread,Option.bind_some,readAll]
      have hpoint : numberStep state 0x2e=some .point := by
        rcases hstate with ⟨-,rfl⟩ | ⟨-,rfl⟩ <;> rfl
      rw [hpoint]
      exact readAll_first hds hne (fun b hb => by simp only [numberStep,hb,if_true])
        (fun b hb => by simp only [numberStep,hb,if_true])
    · intro b
      by_cases hd : isDigit b=true
      · exact .inr (.inl hd)
      · exact .inl (by simp only [numberStep,hd,if_false,Bool.false_eq_true])

theorem readAll_number {t : List UInt8} (h : NumberToken t) :
    ∃ state, readAll numberStep .start t=some state ∧ state.accepting=true := by
  obtain ⟨m,i,f,e,hm,hi,hf,he,rfl⟩ := h
  obtain ⟨state,hread,haccept,hafter⟩ := readAll_fraction hm hi hf
  rcases he with rfl | ⟨letter,sign,ds,hletter,hsign,hne,hds,rfl⟩
  · exact ⟨state,by rw [List.append_nil]; exact hread,haccept⟩
  · refine ⟨.exponent,?_,rfl⟩
    have hstep : numberStep state letter=some .letter := by
      have hother : ¬(isDigit letter=true ∨ letter=0x2e) := by
        rcases hletter with rfl | rfl <;> decide
      rw [(hafter letter).resolve_right hother]
      exact if_pos hletter
    rw [readAll_append,hread,Option.bind_some,readAll,hstep,Option.bind_some]
    have hdigit : ∀ b, isDigit b=true → numberStep .letter b=some .exponent := by
      intro b hb
      have hno : ¬(b=0x2b ∨ b=0x2d) := by
        rintro (rfl | rfl) <;> exact absurd hb (by decide)
      simp only [numberStep,hno,hb,if_false,if_true]
    have hloop : ∀ b, isDigit b=true → numberStep .exponent b=some .exponent := by
      intro b hb
      simp only [numberStep,hb,if_true]
    rcases hsign with rfl | ⟨s,hs,rfl⟩
    · exact readAll_first hds hne hdigit hloop
    · rw [List.singleton_append,readAll]
      have hsigned : numberStep .letter s=some .sign := if_pos hs
      rw [hsigned]
      exact readAll_first hds hne (fun b hb => by simp only [numberStep,hb,if_true]) hloop

theorem number_of_readAll {t : List UInt8} {state : NumberState}
    (h : readAll numberStep .start t=some state) (ha : state.accepting=true) : NumberToken t := by
  have hshape := shape_of_readAll h
  cases state with
  | zero =>
    obtain ⟨m,hm,rfl⟩ := hshape
    exact ⟨m,[0x30],[],[],hm,.inl rfl,.inl rfl,.inl rfl,by simp⟩
  | integer =>
    obtain ⟨m,i,hm,hi,rfl⟩ := hshape
    exact ⟨m,i,[],[],hm,.inr hi,.inl rfl,.inl rfl,by simp⟩
  | fraction =>
    obtain ⟨m,i,ds,hm,hi,hne,hds,rfl⟩ := hshape
    exact ⟨m,i,0x2e::ds,[],hm,hi,.inr ⟨ds,hne,hds,rfl⟩,.inl rfl,by simp⟩
  | exponent =>
    obtain ⟨m,i,f,e,sign,ds,hm,hi,hf,he,hs,hne,hds,rfl⟩ := hshape
    exact ⟨m,i,f,e::(sign++ds),hm,hi,hf,.inr ⟨e,sign,ds,he,hs,hne,hds,rfl⟩,rfl⟩
  | start | minus | point | letter | sign => cases ha

theorem completable (state : NumberState) :
    ∃ more final, readAll numberStep state more=some final ∧ final.accepting=true := by
  cases state with
  | start | minus | point | letter | sign => exact ⟨[0x30],_,rfl,rfl⟩
  | zero | integer | fraction | exponent => exact ⟨[],_,rfl,rfl⟩

/-- A number is munched exactly when reading to the end of it is reading as far as possible. -/
theorem munched_iff {t rest : List UInt8} : Munched t rest ↔
    (munch numberStep .start (t++rest)).1=t.length ∧
      (munch numberStep .start (t++rest)).2.accepting=true := by
  constructor
  · rintro ⟨htoken,hstop⟩
    obtain ⟨state,hread,haccept⟩ := readAll_number htoken
    rw [munch_append hread]
    have hnone : munch numberStep state rest=(0,state) := by
      cases rest with
      | nil => rfl
      | cons b tail =>
        cases hstep : numberStep state b with
        | none => simp only [munch,hstep]
        | some next =>
          exfalso
          obtain ⟨more,final,hmore,hfinal⟩ := completable next
          have hall : readAll numberStep .start (t++b::more)=some final := by
            rw [readAll_append,hread,Option.bind_some,readAll,hstep]
            exact hmore
          exact hstop b tail rfl ⟨more,number_of_readAll hall hfinal⟩
    rw [hnone]
    exact ⟨rfl,haccept⟩
  · rintro ⟨hlength,haccept⟩
    obtain ⟨-,hread,hstop⟩ := @munch_maximal _ _ numberStep .start (t++rest)
    rw [hlength,List.take_left] at hread
    rw [hlength,List.drop_left] at hstop
    refine ⟨number_of_readAll hread haccept,?_⟩
    rintro b tail hrest ⟨more,hmore⟩
    obtain ⟨final,hfinal,-⟩ := readAll_number hmore
    rw [readAll_append,hread,Option.bind_some,readAll,hstop b tail hrest] at hfinal
    cases hfinal

end Librairii.JsonGrammar
