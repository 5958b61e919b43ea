import Librairii.JsonGrammar
import Librairii.CheckedResults

/-!
# The scanner of story JSON

The scanner finds the first complete value of a byte string with an explicit stack of open
containers. A cursor walks the elements or members of a container that was scanned. Both
return spans of the input and decode nothing.
-/

namespace Librairii.StudioScanner

open CheckedResults JsonGrammar

/-- A refusal of the scanner. -/
inductive DecodeFailure where
  /-- The byte where the syntax fails. -/
  | syntaxAt (offset : ℕ)
  deriving DecidableEq

/-- The bound on open containers. -/
def maxDepth : ℕ := 10000

/-- What a value is, by its first byte. -/
inductive Kind where
  | object
  | array
  | string
  | null
  | other
  deriving DecidableEq

/-- A value of the input. -/
structure Span where
  /-- Its bytes. -/
  raw : List UInt8
  /-- What it is. -/
  kind : Kind
  deriving DecidableEq

/-- What an open container expects next. -/
inductive Frame where
  | arrayFirst
  | arrayNext
  | arrayAfter
  | objectFirst
  | objectKey
  | objectColon
  | objectAfter
  deriving DecidableEq

/-- The position after white space. -/
def whitespace (input : List UInt8) (pos : ℕ) : ℕ :=
  pos+((input.drop pos).takeWhile isSpace).length

/-- The end of a string whose opening quote was read, from the bytes at a position. -/
def stringLoop (pos : ℕ) (bytes : List UInt8) : Except DecodeFailure ℕ :=
  match bytes with
  | [] => .error (.syntaxAt pos)
  | byte::rest =>
    if byte=0x22 then .ok (pos+1)
    else if byte=0x5c then
      match rest with
      | [] => .error (.syntaxAt (pos+1))
      | escape::rest =>
        if isShortEscape escape then stringLoop (pos+2) rest
        else if escape=0x75 then
          let digits := ((rest.take 4).takeWhile isHexDigit).length
          if digits<4 then .error (.syntaxAt (pos+2+digits))
          else stringLoop (pos+6) (rest.drop 4)
        else .error (.syntaxAt (pos+1))
    else if byte≤0x1f then .error (.syntaxAt pos)
    else stringLoop (pos+1) rest
termination_by bytes.length
decreasing_by all_goals simp_wf <;> omega

def stringEnd (input : List UInt8) (start : ℕ) : Except DecodeFailure ℕ :=
  if input[start]?=some 0x22 then stringLoop (start+1) (input.drop (start+1))
  else .error (.syntaxAt start)

def digitsEnd (input : List UInt8) (pos : ℕ) : ℕ :=
  pos+((input.drop pos).takeWhile isDigit).length

/-- The position after at least one digit. -/
def someDigitsEnd (input : List UInt8) (first : ℕ) : Except DecodeFailure ℕ :=
  if digitsEnd input first=first then .error (.syntaxAt first) else .ok (digitsEnd input first)

def integerEnd (input : List UInt8) (pos : ℕ) : Except DecodeFailure ℕ :=
  match input[pos]? with
  | some b =>
    if b=0x30 then .ok (pos+1)
    else if 0x31≤b ∧ b≤0x39 then .ok (digitsEnd input (pos+1))
    else .error (.syntaxAt pos)
  | none => .error (.syntaxAt pos)

def fractionEnd (input : List UInt8) (pos : ℕ) : Except DecodeFailure ℕ :=
  if input[pos]?=some 0x2e then someDigitsEnd input (pos+1) else .ok pos

def exponentEnd (input : List UInt8) (pos : ℕ) : Except DecodeFailure ℕ :=
  if input[pos]?=some 0x65 ∨ input[pos]?=some 0x45 then
    if input[pos+1]?=some 0x2b ∨ input[pos+1]?=some 0x2d then someDigitsEnd input (pos+2)
    else someDigitsEnd input (pos+1)
  else .ok pos

def numberEnd (input : List UInt8) (start : ℕ) : Except DecodeFailure ℕ := do
  let pos ← integerEnd input (if input[start]?=some 0x2d then start+1 else start)
  let pos ← fractionEnd input pos
  exponentEnd input pos

def literalOf (b : UInt8) : Option (List UInt8) :=
  if b=0x6e then some [0x6e,0x75,0x6c,0x6c]
  else if b=0x74 then some [0x74,0x72,0x75,0x65]
  else if b=0x66 then some [0x66,0x61,0x6c,0x73,0x65]
  else none

variable {input : List UInt8} {pos : ℕ} {b : UInt8} {t : List UInt8}

/-- What a position holds is the first byte from there. -/
theorem getElem?_of_drop (h : input.drop pos=b::t) : input[pos]?=some b := by
  rw [←List.head?_drop,h]
  rfl

/-- The bytes from a position that holds one. -/
theorem drop_of_getElem? (h : input[pos]?=some b) : input.drop pos=b::input.drop (pos+1) := by
  obtain ⟨hlt,hb⟩ := List.getElem?_eq_some_iff.mp h
  rw [List.drop_eq_getElem_cons hlt,hb]

theorem drop_after {s : List UInt8} (h : input.drop pos=s++t) : input.drop (pos+s.length)=t := by
  rw [←List.drop_drop,h,List.drop_left]

theorem drop_succ (h : input.drop pos=b::t) : input.drop (pos+1)=t := drop_after (s:=[b]) h

/-- White space is passed to its end. -/
theorem whitespace_split (input : List UInt8) (pos : ℕ) :
    ∃ a, Space a ∧ input.drop pos=a++input.drop (whitespace input pos) ∧
      whitespace input pos=pos+a.length ∧
      ∀ b, input[whitespace input pos]?=some b → isSpace b=false := by
  refine ⟨(input.drop pos).takeWhile isSpace,fun b hb => List.mem_takeWhile_imp hb,?_,rfl,?_⟩
  · have hall := List.takeWhile_append_dropWhile (p:=isSpace) (l:=input.drop pos)
    rw [whitespace,drop_after hall.symm,hall]
  · intro b hb
    have hall := List.takeWhile_append_dropWhile (p:=isSpace) (l:=input.drop pos)
    rw [whitespace,←List.head?_drop,drop_after hall.symm] at hb
    have hstop := List.head?_dropWhile_not isSpace (input.drop pos)
    rw [hb] at hstop
    simpa using hstop

theorem whitespace_of_space {a : List UInt8} (ha : Space a)
    (ht : ∀ b, t.head?=some b → isSpace b=false) (h : input.drop pos=a++t) :
    whitespace input pos=pos+a.length := by
  rw [whitespace,h,List.takeWhile_append_of_pos ha]
  have hnone : t.takeWhile isSpace=[] := by
    cases t with
    | nil => rfl
    | cons b t =>
      have hb : ¬isSpace b=true := by simp [ht b rfl]
      exact List.takeWhile_cons_of_neg hb
  rw [hnone,List.append_nil]

theorem four_digits {rest : List UInt8} (h : ¬((rest.take 4).takeWhile isHexDigit).length<4) :
    ∃ a b c d t, rest=a::b::c::d::t ∧ isHexDigit a=true ∧ isHexDigit b=true ∧
      isHexDigit c=true ∧ isHexDigit d=true := by
  have hle := (List.takeWhile_sublist (l:=rest.take 4) isHexDigit).length_le
  have hfour : (rest.take 4).length=4 := by
    have := List.length_take_le 4 rest
    omega
  have hall : (rest.take 4).takeWhile isHexDigit=rest.take 4 :=
    (List.takeWhile_prefix _).eq_of_length (by omega)
  have hdigit := List.takeWhile_eq_self_iff.mp hall
  match rest with
  | a::b::c::d::t =>
    have hmem : ∀ x ∈ [a,b,c,d], isHexDigit x=true := hdigit
    exact ⟨a,b,c,d,t,rfl,hmem a (by simp),hmem b (by simp),hmem c (by simp),hmem d (by simp)⟩
  | [] | [_] | [_,_] | [_,_,_] => simp at hfour

theorem stringLoop_body {body : List UInt8} (h : StringBody body) (pos : ℕ)
    (rest : List UInt8) : stringLoop pos (body++0x22::rest)=.ok (pos+body.length+1) := by
  induction h generalizing pos with
  | nil =>
    rw [List.nil_append,stringLoop.eq_def]
    rfl
  | @plain b t hb ht ih =>
    have hcontrol : ¬b≤0x1f := by
      intro hle
      have := UInt8.le_iff_toNat_le.mp hle
      have := UInt8.le_iff_toNat_le.mp hb.1
      simp at *
      omega
    rw [List.cons_append,stringLoop.eq_def]
    simp only [hb.2.1,hb.2.2,hcontrol,if_false]
    rw [ih,List.length_cons]
    congr 1
    omega
  | @short b t hb ht ih =>
    rw [List.cons_append,List.cons_append,stringLoop.eq_def]
    simp only [show (0x5c : UInt8)≠0x22 by decide,hb,if_false,if_true]
    rw [ih,List.length_cons,List.length_cons]
    congr 1
    omega
  | @unicode a b c d t ha hb hc hd ht ih =>
    rw [List.cons_append,List.cons_append,stringLoop.eq_def]
    simp only [show (0x5c : UInt8)≠0x22 by decide,show isShortEscape 0x75=false by decide,
      if_false,if_true,List.cons_append,List.take_succ_cons,List.take_zero,List.takeWhile_cons,
      ha,hb,hc,hd,List.takeWhile_nil,List.length_cons,List.length_nil,Bool.false_eq_true,
      List.drop_succ_cons,List.drop_zero]
    rw [if_neg (by omega),ih]
    congr 1
    omega

variable {e : ℕ}

theorem body_of_stringLoop {bytes : List UInt8} (h : stringLoop pos bytes=.ok e) :
    ∃ body rest, bytes=body++0x22::rest ∧ StringBody body ∧ e=pos+body.length+1 := by
  fun_induction stringLoop pos bytes with
  | case1 => cases h
  | case2 pos rest => 
    cases h
    exact ⟨[],rest,rfl,.nil,rfl⟩
  | case3 => cases h
  | case4 pos escape rest hshort hquote ih =>
    obtain ⟨body,tail,rfl,hbody,rfl⟩ := ih h
    refine ⟨0x5c::escape::body,tail,rfl,.short hshort hbody,?_⟩
    rw [List.length_cons,List.length_cons]
    omega
  | case5 => cases h
  | case6 pos rest digits hdigits hquote hshort ih =>
    obtain ⟨a,b,c,d,t,rfl,ha,hb,hc,hd⟩ := four_digits hdigits
    obtain ⟨body,tail,hbody,hb',rfl⟩ := ih h
    rw [List.drop_succ_cons,List.drop_succ_cons,List.drop_succ_cons,List.drop_succ_cons,
      List.drop_zero] at hbody
    refine ⟨0x5c::0x75::a::b::c::d::body,tail,by rw [hbody]; rfl,.unicode ha hb hc hd hb',?_⟩
    simp only [List.length_cons]
    omega
  | case7 => cases h
  | case8 => cases h
  | case9 pos byte rest hquote hslash hcontrol ih =>
    obtain ⟨body,tail,rfl,hbody,rfl⟩ := ih h
    have hplain : 0x20≤byte := by
      rw [UInt8.le_iff_toNat_le]
      have := mt UInt8.le_iff_toNat_le.mpr hcontrol
      simp at *
      omega
    refine ⟨byte::body,tail,rfl,.plain ⟨hplain,hquote,hslash⟩ hbody,?_⟩
    rw [List.length_cons]
    omega

theorem stringEnd_iff {start : ℕ} :
    stringEnd input start=.ok e ↔
      ∃ t rest, input.drop start=t++rest ∧ StringToken t ∧ e=start+t.length := by
  constructor
  · intro h
    unfold stringEnd at h
    split_ifs at h with hquote
    obtain ⟨body,rest,hbytes,hbody,rfl⟩ := body_of_stringLoop h
    refine ⟨0x22::(body++[0x22]),rest,?_,⟨body,hbody,rfl⟩,?_⟩
    · rw [drop_of_getElem? hquote,hbytes]
      simp
    · simp only [List.length_cons,List.length_append,List.length_nil]
      omega
  · rintro ⟨t,rest,hdrop,⟨body,hbody,rfl⟩,rfl⟩
    have hstart : input.drop start=0x22::(body++0x22::rest) := by
      rw [hdrop]
      simp
    unfold stringEnd
    rw [if_pos (getElem?_of_drop hstart),drop_succ hstart,stringLoop_body hbody]
    simp only [List.length_cons,List.length_append,List.length_nil]
    congr 1
    omega

def munchedEnd (pos : ℕ) (read : ℕ×NumberState) : Option ℕ :=
  if read.2.accepting then some (pos+read.1) else none

/-- A byte read before the rest moves the position. -/
theorem munchedEnd_shift (pos k : ℕ) (read : ℕ×NumberState) :
    munchedEnd pos (k+read.1,read.2)=munchedEnd (pos+k) read := by
  simp only [munchedEnd,Nat.add_assoc]

variable {state : NumberState}

theorem munchedEnd_step {next : NumberState} (h : input.drop pos=b::t)
    (hstep : numberStep state b=some next) :
    munchedEnd pos (munch numberStep state (input.drop pos))=
      munchedEnd (pos+1) (munch numberStep next (input.drop (pos+1))) := by
  rw [drop_succ h,h,munch,hstep,←munchedEnd_shift,Nat.add_comm 1]

theorem munch_stuck (h : ∀ b, input[pos]?=some b → numberStep state b=none) :
    munch numberStep state (input.drop pos)=(0,state) := by
  cases hdrop : input.drop pos with
  | nil => rfl
  | cons b t => rw [munch,h b (getElem?_of_drop hdrop)]

theorem digitsEnd_stop (h : input[digitsEnd input pos]?=some b) : isDigit b=false := by
  have hall := List.takeWhile_append_dropWhile (p:=isDigit) (l:=input.drop pos)
  rw [digitsEnd,←List.head?_drop,drop_after hall.symm] at h
  have hstop := List.head?_dropWhile_not isDigit (input.drop pos)
  rw [h] at hstop
  simpa using hstop

theorem munchedEnd_digits (input : List UInt8) (pos : ℕ)
    (h : ∀ b, isDigit b=true → numberStep state b=some state) :
    munchedEnd pos (munch numberStep state (input.drop pos))=
      munchedEnd (digitsEnd input pos)
        (munch numberStep state (input.drop (digitsEnd input pos))) := by
  have hall := List.takeWhile_append_dropWhile (p:=isDigit) (l:=input.drop pos)
  rw [munch_loop h,munchedEnd_shift,digitsEnd,drop_after hall.symm]

theorem digitsEnd_none (h : ∀ b, input[pos]?=some b → isDigit b=false) :
    digitsEnd input pos=pos := by
  have hnone : (input.drop pos).takeWhile isDigit=[] := by
    cases hdrop : input.drop pos with
    | nil => rfl
    | cons b t =>
      have hb : ¬isDigit b=true := by simp [h b (getElem?_of_drop hdrop)]
      exact List.takeWhile_cons_of_neg hb
  rw [digitsEnd,hnone,List.length_nil,Nat.add_zero]

theorem digitsEnd_cons (h : input.drop pos=b::t) (hb : isDigit b=true) :
    digitsEnd input pos=digitsEnd input (pos+1) := by
  rw [digitsEnd,digitsEnd,drop_succ h,h,List.takeWhile_cons_of_pos hb,List.length_cons]
  omega

/-- Required digits, read in a state that needs one and a state that loops on them. -/
theorem someDigits_munched {next : NumberState} (hstate : state.accepting=false)
    (hfirst : ∀ b, input[pos]?=some b →
      numberStep state b=if isDigit b then some next else none)
    (hloop : ∀ b, isDigit b=true → numberStep next b=some next) :
    (∃ offset, someDigitsEnd input pos=.error (.syntaxAt offset) ∧
      munchedEnd pos (munch numberStep state (input.drop pos))=none) ∨
    (someDigitsEnd input pos=.ok (digitsEnd input pos) ∧
      munchedEnd pos (munch numberStep state (input.drop pos))=
        munchedEnd (digitsEnd input pos)
          (munch numberStep next (input.drop (digitsEnd input pos)))) := by
  by_cases hdigit : ∀ b, input[pos]?=some b → isDigit b=false
  · left
    have hstuck : ∀ b, input[pos]?=some b → numberStep state b=none := by
      intro b hb
      rw [hfirst b hb,hdigit b hb]
      rfl
    refine ⟨pos,if_pos (digitsEnd_none hdigit),?_⟩
    rw [munch_stuck hstuck,munchedEnd,hstate]
    rfl
  · right
    simp only [not_forall,Bool.not_eq_false] at hdigit
    obtain ⟨b,hb,hd⟩ := hdigit
    have hdrop := drop_of_getElem? hb
    have hstep : numberStep state b=some next := by rw [hfirst b hb,hd,if_pos rfl]
    have hmore := digitsEnd_cons hdrop hd
    have hne : digitsEnd input pos≠pos := by
      have hle : pos+1≤digitsEnd input (pos+1) := Nat.le_add_right _ _
      omega
    refine ⟨if_neg hne,?_⟩
    rw [munchedEnd_step hdrop hstep,munchedEnd_digits input (pos+1) hloop,hmore]

theorem exponentEnd_munched (haccept : state.accepting=true)
    (h : ∀ b, input[pos]?=some b → numberStep state b=letterStep b) :
    (exponentEnd input pos).toOption=
      munchedEnd pos (munch numberStep state (input.drop pos)) := by
  have hdigits : ∀ first origin, origin.accepting=false →
      (∀ b, input[first]?=some b →
        numberStep origin b=if isDigit b then some .exponent else none) →
      (someDigitsEnd input first).toOption=
        munchedEnd first (munch numberStep origin (input.drop first)) := by
    intro first origin hno hfirst
    have hloop : ∀ b, isDigit b=true → numberStep .exponent b=some .exponent := by
      intro b hb
      simp only [numberStep,hb,if_true]
    rcases someDigits_munched hno hfirst hloop with ⟨offset,herr,hnone⟩ | ⟨hok,hmunch⟩
    · rw [herr,hnone]
      rfl
    · have hstuck : ∀ b, input[digitsEnd input first]?=some b →
          numberStep .exponent b=none := by
        intro b hb
        simp only [numberStep,digitsEnd_stop hb,if_false,Bool.false_eq_true]
      rw [hok,hmunch,munch_stuck hstuck]
      rfl
  unfold exponentEnd
  split_ifs with hletter hsign
  · obtain ⟨b,hb,hl⟩ : ∃ b, input[pos]?=some b ∧ (b=0x65 ∨ b=0x45) := by
      rcases hletter with hb | hb
      · exact ⟨_,hb,.inl rfl⟩
      · exact ⟨_,hb,.inr rfl⟩
    obtain ⟨s,hs,hsign⟩ : ∃ s, input[pos+1]?=some s ∧ (s=0x2b ∨ s=0x2d) := by
      rcases hsign with hs | hs
      · exact ⟨_,hs,.inl rfl⟩
      · exact ⟨_,hs,.inr rfl⟩
    have hfirst : numberStep state b=some .letter := by rw [h b hb,letterStep,if_pos hl]
    have hnext : numberStep .letter s=some .sign := if_pos hsign
    rw [munchedEnd_step (drop_of_getElem? hb) hfirst,
      munchedEnd_step (drop_of_getElem? hs) hnext]
    exact hdigits (pos+2) .sign rfl fun b _ => rfl
  · obtain ⟨b,hb,hl⟩ : ∃ b, input[pos]?=some b ∧ (b=0x65 ∨ b=0x45) := by
      rcases hletter with hb | hb
      · exact ⟨_,hb,.inl rfl⟩
      · exact ⟨_,hb,.inr rfl⟩
    have hfirst : numberStep state b=some .letter := by rw [h b hb,letterStep,if_pos hl]
    rw [munchedEnd_step (drop_of_getElem? hb) hfirst]
    refine hdigits (pos+1) .letter rfl fun s hs => ?_
    have hno : ¬(s=0x2b ∨ s=0x2d) := by
      intro hs'
      rcases hs' with rfl | rfl
      · exact hsign (.inl hs)
      · exact hsign (.inr hs)
    simp only [numberStep,hno,if_false]
  · have hstuck : ∀ b, input[pos]?=some b → numberStep state b=none := by
      intro b hb
      have hno : ¬(b=0x65 ∨ b=0x45) := by
        intro hb'
        rcases hb' with rfl | rfl
        · exact hletter (.inl hb)
        · exact hletter (.inr hb)
      rw [h b hb,letterStep,if_neg hno]
    rw [munch_stuck hstuck,munchedEnd,haccept]
    rfl

theorem fractionEnd_munched (haccept : state.accepting=true)
    (h : ∀ b, input[pos]?=some b → numberStep state b=tailStep b) :
    (fractionEnd input pos >>= exponentEnd input).toOption=
      munchedEnd pos (munch numberStep state (input.drop pos)) := by
  unfold fractionEnd
  by_cases hpoint : input[pos]?=some 0x2e
  · rw [if_pos hpoint]
    have hfirst : numberStep state 0x2e=some .point := by rw [h _ hpoint]; rfl
    rw [munchedEnd_step (drop_of_getElem? hpoint) hfirst]
    have hloop : ∀ b, isDigit b=true → numberStep .fraction b=some .fraction := by
      intro b hb
      simp only [numberStep,hb,if_true]
    rcases @someDigits_munched input (pos+1) .point .fraction rfl (fun b _ => rfl) hloop with
      ⟨offset,herr,hnone⟩ | ⟨hok,hmunch⟩
    · rw [herr,hnone]
      rfl
    · rw [hok,hmunch]
      refine exponentEnd_munched rfl fun b hb => ?_
      simp only [numberStep,digitsEnd_stop hb,if_false,Bool.false_eq_true]
  · rw [if_neg hpoint]
    refine exponentEnd_munched haccept fun b hb => ?_
    have hno : b≠0x2e := by
      rintro rfl
      exact hpoint hb
    rw [h b hb,tailStep,if_neg hno]

theorem integerEnd_munched (hreject : state.accepting=false)
    (h : ∀ b, input[pos]?=some b → numberStep state b=leadStep b) :
    (integerEnd input pos >>= fun e => fractionEnd input e >>= exponentEnd input).toOption=
      munchedEnd pos (munch numberStep state (input.drop pos)) := by
  unfold integerEnd
  cases hb : input[pos]? with
  | none =>
    rw [munch_stuck (fun b hb' => by rw [hb] at hb'; cases hb'),munchedEnd,hreject]
    rfl
  | some b =>
    dsimp only
    have hdrop := drop_of_getElem? hb
    split_ifs with hzero hnine
    · have hfirst : numberStep state b=some .zero := by rw [h b hb,leadStep,if_pos hzero]
      rw [munchedEnd_step hdrop hfirst]
      exact fractionEnd_munched rfl fun b _ => rfl
    · have hfirst : numberStep state b=some .integer := by
        rw [h b hb,leadStep,if_neg hzero,if_pos hnine]
      have hloop : ∀ b, isDigit b=true → numberStep .integer b=some .integer := by
        intro b hb
        simp only [numberStep,hb,if_true]
      rw [munchedEnd_step hdrop hfirst,munchedEnd_digits input (pos+1) hloop]
      refine fractionEnd_munched rfl fun b hb => ?_
      simp only [numberStep,digitsEnd_stop hb,if_false,Bool.false_eq_true]
    · have hstuck : ∀ c, input[pos]?=some c → numberStep state c=none := by
        intro c hc
        rw [hb] at hc
        cases hc
        rw [h b hb,leadStep,if_neg hzero,if_neg hnine]
      rw [munch_stuck hstuck,munchedEnd,hreject]
      rfl

theorem numberEnd_munched (input : List UInt8) (start : ℕ) :
    (numberEnd input start).toOption=
      munchedEnd start (munch numberStep .start (input.drop start)) := by
  unfold numberEnd
  split_ifs with hminus
  · have hfirst : numberStep .start 0x2d=some .minus := rfl
    rw [munchedEnd_step (drop_of_getElem? hminus) hfirst]
    exact integerEnd_munched rfl fun b _ => rfl
  · refine integerEnd_munched rfl fun b hb => ?_
    have hno : b≠0x2d := by
      rintro rfl
      exact hminus hb
    simp only [numberStep,if_neg hno]

theorem numberEnd_iff {start : ℕ} :
    numberEnd input start=.ok e ↔
      ∃ t rest, input.drop start=t++rest ∧ Munched t rest ∧ e=start+t.length := by
  have hok : numberEnd input start=.ok e ↔ (numberEnd input start).toOption=some e := by
    cases numberEnd input start <;> simp [Except.toOption]
  rw [hok,numberEnd_munched]
  constructor
  · intro h
    unfold munchedEnd at h
    split_ifs at h with haccept
    cases h
    have hle := (@munch_maximal _ _ numberStep .start (input.drop start)).1
    refine ⟨_,_,(List.take_append_drop (munch numberStep .start (input.drop start)).1 _).symm,
      munched_iff.mpr ?_,?_⟩
    · rw [List.take_append_drop,List.length_take,Nat.min_eq_left hle]
      exact ⟨rfl,haccept⟩
    · rw [List.length_take,Nat.min_eq_left hle]
  · rintro ⟨t,rest,hdrop,hmunched,rfl⟩
    obtain ⟨hlength,haccept⟩ := munched_iff.mp hmunched
    rw [hdrop,munchedEnd,if_pos haccept,hlength]

/-- A scan: the position, the open containers and whether a value is expected. -/
structure Scan where
  /-- The position in the input. -/
  pos : ℕ
  /-- The open containers, the innermost first. -/
  frames : List Frame
  needValue : Bool

/-- Read a scalar or open a container. -/
def valueStep (input : List UInt8) (pos : ℕ) (frames : List Frame) :
    Except DecodeFailure (ℕ×List Frame) :=
  match input[pos]? with
  | none => .error (.syntaxAt pos)
  | some b =>
    if b=0x7b then .ok (pos+1,.objectFirst::frames)
    else if b=0x5b then .ok (pos+1,.arrayFirst::frames)
    else if b=0x22 then (stringEnd input pos).map fun e => (e,frames)
    else match literalOf b with
    | some literal =>
      if literal.isPrefixOf (input.drop pos) then .ok (pos+literal.length,frames)
      else .error (.syntaxAt pos)
    | none =>
      if b=0x2d ∨ isDigit b=true then (numberEnd input pos).map fun e => (e,frames)
      else .error (.syntaxAt pos)

def keyStep (input : List UInt8) (pos : ℕ) (frames : List Frame) : Except DecodeFailure Scan :=
  (stringEnd input pos).map fun e => ⟨e,.objectColon::frames,false⟩

/-- Go on in the innermost container. -/
def frameStep (input : List UInt8) (pos : ℕ) (frames : List Frame) :
    Frame → Except DecodeFailure Scan
  | .arrayFirst =>
    if input[pos]?=some 0x5d then .ok ⟨pos+1,frames,false⟩
    else .ok ⟨pos,.arrayAfter::frames,true⟩
  | .arrayNext => .ok ⟨pos,.arrayAfter::frames,true⟩
  | .arrayAfter =>
    if input[pos]?=some 0x2c then .ok ⟨pos+1,.arrayNext::frames,false⟩
    else if input[pos]?=some 0x5d then .ok ⟨pos+1,frames,false⟩
    else .error (.syntaxAt pos)
  | .objectFirst =>
    if input[pos]?=some 0x7d then .ok ⟨pos+1,frames,false⟩ else keyStep input pos frames
  | .objectKey => keyStep input pos frames
  | .objectColon =>
    if input[pos]?=some 0x3a then .ok ⟨pos+1,.objectAfter::frames,true⟩
    else .error (.syntaxAt pos)
  | .objectAfter =>
    if input[pos]?=some 0x2c then .ok ⟨pos+1,.objectKey::frames,false⟩
    else if input[pos]?=some 0x7d then .ok ⟨pos+1,frames,false⟩
    else .error (.syntaxAt pos)

/-- One round of the scanner. -/
def step (input : List UInt8) (s : Scan) : Except DecodeFailure Scan :=
  let pos := whitespace input s.pos
  if s.needValue then do
    let (pos,frames) ← valueStep input pos s.frames
    if maxDepth<frames.length then throw (.syntaxAt (pos-1))
    return ⟨pos,frames,false⟩
  else match s.frames with
  | [] => .ok {s with pos := pos}
  | frame::frames => frameStep input pos frames frame

def Scan.complete (s : Scan) : Bool := s.frames.isEmpty && !s.needValue

/-- A text that is read as one value without opening a container, before the bytes after it. -/
def Scalar (v rest : List UInt8) : Prop := Literal v ∨ StringToken v ∨ Munched v rest

variable {v : List UInt8}

theorem literalOf_iff :
    literalOf b=some v ↔ Literal v ∧ v.head?=some b := by
  constructor
  · intro h
    unfold literalOf at h
    split_ifs at h with hn ht hf
    · cases h
      exact ⟨.inl rfl,by rw [hn]; rfl⟩
    · cases h
      exact ⟨.inr (.inl rfl),by rw [ht]; rfl⟩
    · cases h
      exact ⟨.inr (.inr rfl),by rw [hf]; rfl⟩
  · rintro ⟨rfl | rfl | rfl,hb⟩ <;> cases hb <;> rfl

theorem number_head (h : NumberToken v) : ∃ b t, v=b::t ∧ (b=0x2d ∨ isDigit b=true) := by
  obtain ⟨m,i,f,e,hm,hi,-,-,rfl⟩ := h
  rcases hm with rfl | rfl
  · rcases hi with rfl | ⟨b,ds,hb,-,rfl⟩
    · exact ⟨0x30,_,rfl,.inr rfl⟩
    · refine ⟨b,_,rfl,.inr ?_⟩
      have hlow := UInt8.le_iff_toNat_le.mp hb.1
      have hzero : (0x30 : UInt8)≤b := by
        rw [UInt8.le_iff_toNat_le]
        simp at *
        omega
      simp only [isDigit,hzero,hb.2,decide_true,Bool.and_self]
  · exact ⟨0x2d,_,rfl,.inl rfl⟩

theorem number_byte (h : b=0x2d ∨ isDigit b=true) :
    b≠0x7b ∧ b≠0x5b ∧ b≠0x22 ∧ literalOf b=none ∧ isSpace b=false ∧ b≠0x5d := by
  have hne : ∀ c : UInt8, ¬(c=0x2d ∨ isDigit c=true) → b≠c := by
    rintro c hc rfl
    exact hc h
  refine ⟨hne _ (by decide),hne _ (by decide),hne _ (by decide),?_,?_,hne _ (by decide)⟩
  · rw [literalOf,if_neg (hne _ (by decide)),if_neg (hne _ (by decide)),
      if_neg (hne _ (by decide))]
  · have h1 := hne 0x20 (by decide)
    have h2 := hne 0x09 (by decide)
    have h3 := hne 0x0d (by decide)
    have h4 := hne 0x0a (by decide)
    simp only [isSpace,h1,h2,h3,h4,decide_false,Bool.or_false]

variable {frames : List Frame}

/-- A scalar or the start of a container is read exactly where one stands. -/
theorem valueStep_iff {next : ℕ} {after : List Frame} :
    valueStep input pos frames=.ok (next,after) ↔
      (∃ rest, input.drop pos=0x7b::rest ∧ next=pos+1 ∧ after=.objectFirst::frames) ∨
      (∃ rest, input.drop pos=0x5b::rest ∧ next=pos+1 ∧ after=.arrayFirst::frames) ∨
      (∃ v rest, input.drop pos=v++rest ∧ Scalar v rest ∧ next=pos+v.length ∧
        after=frames) := by
  constructor
  · intro h
    unfold valueStep at h
    split at h
    · cases h
    next b hb =>
    have hdrop := drop_of_getElem? hb
    by_cases hobject : b=0x7b
    · rw [if_pos hobject] at h
      cases h
      exact .inl ⟨_,by rw [hdrop,hobject],rfl,rfl⟩
    by_cases harray : b=0x5b
    · rw [if_neg hobject,if_pos harray] at h
      cases h
      exact .inr (.inl ⟨_,by rw [hdrop,harray],rfl,rfl⟩)
    by_cases hstring : b=0x22
    · rw [if_neg hobject,if_neg harray,if_pos hstring] at h
      cases hend : stringEnd input pos with
      | error e =>
        rw [hend] at h
        cases h
      | ok e =>
        rw [hend] at h
        cases h
        obtain ⟨v,rest,hv,htoken,rfl⟩ := stringEnd_iff.mp hend
        exact .inr (.inr ⟨v,rest,hv,.inr (.inl htoken),rfl,rfl⟩)
    · rw [if_neg hobject,if_neg harray,if_neg hstring] at h
      split at h
      next v hv =>
        split_ifs at h with hprefix
        cases h
        obtain ⟨rest,hrest⟩ := List.isPrefixOf_iff_prefix.mp hprefix
        exact .inr (.inr ⟨v,rest,hrest.symm,.inl (literalOf_iff.mp hv).1,rfl,rfl⟩)
      next hv =>
        split_ifs at h with hnumber
        cases hend : numberEnd input pos with
        | error e =>
          rw [hend] at h
          cases h
        | ok e =>
          rw [hend] at h
          cases h
          obtain ⟨v,rest,hv,hmunched,rfl⟩ := numberEnd_iff.mp hend
          exact .inr (.inr ⟨v,rest,hv,.inr (.inr hmunched),rfl,rfl⟩)
  · rintro (⟨rest,hdrop,rfl,rfl⟩ | ⟨rest,hdrop,rfl,rfl⟩ | ⟨v,rest,hdrop,hv,rfl,rfl⟩)
    · rw [valueStep,getElem?_of_drop hdrop]
      rfl
    · rw [valueStep,getElem?_of_drop hdrop]
      rfl
    · rcases hv with hv | hv | hv
      · have hhead : ∃ b t, v=b::t ∧ literalOf b=some v ∧ b≠0x7b ∧ b≠0x5b ∧ b≠0x22 := by
          rcases hv with rfl | rfl | rfl
          · exact ⟨_,_,rfl,rfl,by decide,by decide,by decide⟩
          · exact ⟨_,_,rfl,rfl,by decide,by decide,by decide⟩
          · exact ⟨_,_,rfl,rfl,by decide,by decide,by decide⟩
        obtain ⟨b,t,hbt,hliteral,hobject,harray,hstring⟩ := hhead
        have hget : input[pos]?=some b := getElem?_of_drop (by rw [hdrop,hbt]; rfl)
        have hprefix : v.isPrefixOf (input.drop pos)=true :=
          List.isPrefixOf_iff_prefix.mpr ⟨rest,hdrop.symm⟩
        simp only [valueStep,hget,if_neg hobject,if_neg harray,if_neg hstring,hliteral,
          if_pos hprefix]
      · have hend := stringEnd_iff.mpr ⟨v,rest,hdrop,hv,rfl⟩
        obtain ⟨body,-,rfl⟩ := hv
        have hget : input[pos]?=some 0x22 := getElem?_of_drop hdrop
        rw [valueStep,hget]
        dsimp only
        rw [if_neg (by decide),if_neg (by decide),if_pos rfl,hend]
        rfl
      · have hend := numberEnd_iff.mpr ⟨v,rest,hdrop,hv,rfl⟩
        obtain ⟨b,t,hbt,hb⟩ := number_head hv.1
        obtain ⟨hobject,harray,hstring,hliteral,-⟩ := number_byte hb
        have hget : input[pos]?=some b := getElem?_of_drop (by rw [hdrop,hbt]; rfl)
        simp only [valueStep,hget,if_neg hobject,if_neg harray,if_neg hstring,hliteral,
          if_pos hb,hend]
        rfl

/-- White space is not passed backward. -/
theorem whitespace_le (input : List UInt8) (pos : ℕ) : pos≤whitespace input pos :=
  Nat.le_add_right _ _

/-- A position with bytes stands before the end. -/
theorem pos_lt_length (h : input[pos]?=some b) :
    pos < input.length := (List.getElem?_eq_some_iff.mp h).1

theorem stringEnd_advances (h : stringEnd input pos=.ok e) : pos<e ∧ pos < input.length := by
  obtain ⟨t,rest,hdrop,⟨body,-,rfl⟩,rfl⟩ := stringEnd_iff.mp h
  refine ⟨by simp,pos_lt_length (getElem?_of_drop hdrop)⟩

theorem scalar_head {rest : List UInt8} (h : Scalar v rest) :
    ∃ b t, v=b::t ∧ isSpace b=false ∧ b≠0x5d := by
  rcases h with (rfl | rfl | rfl) | ⟨body,-,rfl⟩ | h
  · exact ⟨_,_,rfl,rfl,by decide⟩
  · exact ⟨_,_,rfl,rfl,by decide⟩
  · exact ⟨_,_,rfl,rfl,by decide⟩
  · exact ⟨_,_,rfl,rfl,by decide⟩
  · obtain ⟨b,t,hbt,hb⟩ := number_head h.1
    obtain ⟨-,-,-,-,hspace,hclose⟩ := number_byte hb
    exact ⟨b,t,hbt,hspace,hclose⟩

theorem valueStep_advances {next : ℕ} {after : List Frame}
    (h : valueStep input pos frames=.ok (next,after)) : pos<next ∧ pos < input.length := by
  rcases valueStep_iff.mp h with ⟨rest,hdrop,rfl,-⟩ | ⟨rest,hdrop,rfl,-⟩ |
    ⟨v,rest,hdrop,hv,rfl,-⟩
  · exact ⟨Nat.lt_succ_self _,pos_lt_length (getElem?_of_drop hdrop)⟩
  · exact ⟨Nat.lt_succ_self _,pos_lt_length (getElem?_of_drop hdrop)⟩
  · obtain ⟨b,t,rfl,-⟩ := scalar_head hv
    exact ⟨by simp,pos_lt_length (getElem?_of_drop hdrop)⟩

variable {s : Scan}

theorem frameStep_advances {frame : Frame} (h : frameStep input pos frames frame=.ok s) :
    s=⟨pos,.arrayAfter::frames,true⟩ ∨ (pos<s.pos ∧ pos < input.length) := by
  have hkey : keyStep input pos frames=.ok s → pos<s.pos ∧ pos < input.length := by
    intro h
    unfold keyStep at h
    cases hend : stringEnd input pos with
    | error e =>
      rw [hend] at h
      cases h
    | ok e =>
      rw [hend] at h
      cases h
      exact stringEnd_advances hend
  cases frame with
  | arrayFirst =>
    simp only [frameStep] at h
    split_ifs at h with hb
    · cases h
      exact .inr ⟨Nat.lt_succ_self _,pos_lt_length hb⟩
    · cases h
      exact .inl rfl
  | arrayNext =>
    cases h
    exact .inl rfl
  | arrayAfter =>
    simp only [frameStep] at h
    split_ifs at h with hb hb
    · cases h
      exact .inr ⟨Nat.lt_succ_self _,pos_lt_length hb⟩
    · cases h
      exact .inr ⟨Nat.lt_succ_self _,pos_lt_length hb⟩
  | objectFirst =>
    simp only [frameStep] at h
    split_ifs at h with hb
    · cases h
      exact .inr ⟨Nat.lt_succ_self _,pos_lt_length hb⟩
    · exact .inr (hkey h)
  | objectKey => exact .inr (hkey h)
  | objectColon =>
    simp only [frameStep] at h
    split_ifs at h with hb
    cases h
    exact .inr ⟨Nat.lt_succ_self _,pos_lt_length hb⟩
  | objectAfter =>
    simp only [frameStep] at h
    split_ifs at h with hb hb
    · cases h
      exact .inr ⟨Nat.lt_succ_self _,pos_lt_length hb⟩
    · cases h
      exact .inr ⟨Nat.lt_succ_self _,pos_lt_length hb⟩

theorem step_value_iff :
    step input ⟨pos,frames,true⟩=.ok s ↔ ∃ next after,
      valueStep input (whitespace input pos) frames=.ok (next,after) ∧
      after.length ≤ maxDepth ∧ s=⟨next,after,false⟩ := by
  simp only [step,if_true]
  cases hvalue : valueStep input (whitespace input pos) frames with
  | error e => simp [bind,Except.bind]
  | ok read =>
    obtain ⟨next,after⟩ := read
    by_cases hdepth : maxDepth<after.length
    · simp only [bind,Except.bind,hdepth,if_true,throw,throwThe,MonadExceptOf.throw]
      constructor
      · intro h
        cases h
      · rintro ⟨next,after,heq,hle,rfl⟩
        cases heq
        omega
    · simp only [bind,Except.bind,hdepth,if_false,pure,Except.pure]
      constructor
      · intro h
        cases h
        exact ⟨_,_,rfl,by omega,rfl⟩
      · rintro ⟨next,after,heq,hle,rfl⟩
        cases heq
        rfl

/-- What is left of a scan. -/
def rank (input : List UInt8) (s : Scan) : ℕ :=
  2*(input.length-s.pos)+if s.needValue then 0 else 1

/-- A round that does not complete the value leaves less. -/
theorem step_decreases {next : Scan} (h : step input s=.ok next) (hopen : next.complete=false) :
    rank input next<rank input s := by
  obtain ⟨pos,frames,needValue⟩ := s
  have hle := whitespace_le input pos
  cases needValue with
  | true =>
    obtain ⟨after,stack,hvalue,-,rfl⟩ := step_value_iff.mp h
    obtain ⟨hlt,hlength⟩ := valueStep_advances hvalue
    simp only [rank,if_true,if_false,Bool.false_eq_true]
    omega
  | false =>
    cases frames with
    | nil =>
      cases h
      cases hopen
    | cons frame frames =>
      have hframe : frameStep input (whitespace input pos) frames frame=.ok next := h
      rcases frameStep_advances hframe with rfl | ⟨hlt,hlength⟩
      · simp only [rank,if_true,if_false,Bool.false_eq_true]
        omega
      · simp only [rank,if_false,Bool.false_eq_true]
        split_ifs <;> omega

/-- Scan to the end of the first complete value. -/
def loop (input : List UInt8) (s : Scan) : Except DecodeFailure ℕ :=
  match _h : step input s with
  | .error e => .error e
  | .ok next => if _hopen : next.complete=true then .ok next.pos else loop input next
termination_by rank input s
decreasing_by exact step_decreases _h (by simpa using _hopen)

/-- What a value is that starts with a byte. -/
def kindAt : Option UInt8 → Kind
  | some b =>
    if b=0x7b then .object else if b=0x5b then .array else if b=0x22 then .string
    else if b=0x6e then .null else .other
  | none => .other

def value (input : List UInt8) (offset : ℕ) : Except DecodeFailure (Span×ℕ) := do
  let start := whitespace input offset
  let e ← loop input ⟨start,[],true⟩
  return (⟨(input.drop start).take (e-start),kindAt input[start]?⟩,e)

/-- A walk of the contents of a container. -/
structure Cursor where
  /-- The contents. -/
  input : List UInt8
  /-- The position in them. -/
  pos : ℕ
  /-- Nothing was read yet. -/
  first : Bool
  deriving DecidableEq

/-- Start a walk of a container. -/
def Cursor.new (container : Span) : Cursor :=
  ⟨(container.raw.drop 1).take (container.raw.length-1-1),0,true⟩

/-- Go to the next entry; false at the end of the container. -/
def Cursor.next (c : Cursor) : Except DecodeFailure (Bool×Cursor) :=
  let pos := whitespace c.input c.pos
  if pos=c.input.length then .ok (false,{c with pos})
  else if c.first then .ok (true,{c with pos, first := false})
  else if c.input[pos]?=some 0x2c then
    .ok (true,{c with pos := whitespace c.input (pos+1), first := false})
  else .error (.syntaxAt pos)

def Cursor.element (c : Cursor) : Except DecodeFailure (Option Span×Cursor) := do
  let (more,c) ← c.next
  if !more then return (none,c)
  let (span,e) ← value c.input c.pos
  return (some span,{c with pos := e})

def Cursor.member (c : Cursor) : Except DecodeFailure (Option (List UInt8×Span)×Cursor) := do
  let (more,c) ← c.next
  if !more then return (none,c)
  let e ← stringEnd c.input c.pos
  let key := (c.input.drop c.pos).take (e-c.pos)
  let pos := whitespace c.input e
  if c.input[pos]?≠some 0x3a then throw (.syntaxAt pos)
  let (span,e) ← value c.input (pos+1)
  return (some (key,span),{c with pos := e})

end Librairii.StudioScanner
