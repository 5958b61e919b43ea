import Librairii.FrozenText

/-!
# Compact JSON texts and their bytes

A JSON value is written compactly: no white space, decimal integers, and every
character of a text through an escaping. An escaping is good when each
character stands for itself or for one of its JSON escape sequences; repairing
further characters by textual replacement keeps it good and leaves the
structural characters alone. Texts are read as their UTF-8 bytes.
-/

namespace Librairii.JsonText

open FrozenText

/-- A JSON value with integer numbers and ordered members. -/
inductive Json where
  | null
  | bool (value : Bool)
  | number (value : ℤ)
  | string (value : String)
  | array (values : List Json)
  | object (members : List (String×Json))

def digitChar (digit : ℕ) : Char := Char.ofNat (digit+48)

def decimalNat (n : ℕ) : List Char :=
  if n=0 then ['0'] else ((Nat.digits 10 n).map digitChar).reverse

def decimal (n : ℤ) : List Char :=
  if n<0 then '-' :: decimalNat n.natAbs else decimalNat n.natAbs

section Writing

variable (escape : Char → List Char)

/-- A quoted text. -/
def writeString (value : String) : List Char := '"' :: (value.toList.flatMap escape++['"'])

mutual

/-- The compact text of a value. -/
def write : Json → List Char
  | .null => ['n','u','l','l']
  | .bool true => ['t','r','u','e']
  | .bool false => ['f','a','l','s','e']
  | .number value => decimal value
  | .string value => writeString escape value
  | .array values => '[' :: writeElements values
  | .object members => '{' :: writeMembers members

/-- The elements of an array up to its closing bracket. -/
def writeElements : List Json → List Char
  | [] => [']']
  | value::values => write value++writeMoreElements values

/-- The remaining elements, each after its comma. -/
def writeMoreElements : List Json → List Char
  | [] => [']']
  | value::values => ',' :: (write value++writeMoreElements values)

/-- The members of an object up to its closing brace. -/
def writeMembers : List (String×Json) → List Char
  | [] => ['}']
  | (key,value)::members =>
    writeString escape key++ ':' :: (write value++writeMoreMembers members)

/-- The remaining members, each after its comma. -/
def writeMoreMembers : List (String×Json) → List Char
  | [] => ['}']
  | (key,value)::members =>
    ',' :: (writeString escape key++ ':' :: (write value++writeMoreMembers members))

end

end Writing

mutual

/-- The deepest level of a value inside a value. -/
def height : Json → ℕ
  | .array values => heightElements values
  | .object members => heightMembers members
  | _ => 0

/-- The deepest level of a value among the elements, which are one level down. -/
def heightElements : List Json → ℕ
  | [] => 0
  | value::values => max (height value+1) (heightElements values)

/-- The deepest level of a value among the members, which are one level down. -/
def heightMembers : List (String×Json) → ℕ
  | [] => 0
  | (_,value)::members => max (height value+1) (heightMembers members)

end

def bytes (text : List Char) : List UInt8 := text.flatMap String.utf8EncodeChar

/-- Two-character escapes and the characters they stand for. -/
def shortEscape : Char → Option Char
  | '"' => some '"'
  | '\\' => some '\\'
  | '/' => some '/'
  | 'b' => some '\x08'
  | 'f' => some '\x0c'
  | 'n' => some '\n'
  | 'r' => some '\r'
  | 't' => some '\t'
  | _ => none

def hexDigit (c : Char) : Option ℕ :=
  if 48≤c.toNat ∧ c.toNat≤57 then some (c.toNat-48)
  else if 97≤c.toNat ∧ c.toNat≤102 then some (c.toNat-87)
  else if 65≤c.toNat ∧ c.toNat≤70 then some (c.toNat-55)
  else none

/-- A text that stands for one character inside a quoted text. -/
inductive Denotes : List Char → Char → Prop where
  /-- A character other than quote, backslash and controls stands for itself. -/
  | plain {c : Char} (hq : c ≠ '"') (hb : c ≠ '\\') (hc : 0x20≤c.toNat) : Denotes [c] c
  /-- A two-character escape. -/
  | short {s c : Char} (hs : shortEscape s=some c) : Denotes ['\\',s] c
  /-- A four-digit escape of a character that is no surrogate. -/
  | unicode {a b d e c : Char} {va vb vd ve : ℕ} (ha : hexDigit a=some va)
      (hb : hexDigit b=some vb) (hd : hexDigit d=some vd) (he : hexDigit e=some ve)
      (hc : ((va*16+vb)*16+vd)*16+ve=c.toNat) : Denotes ['\\','u',a,b,d,e] c

/-- Every character is written as a text that stands for it. -/
def Escaping (escape : Char → List Char) : Prop := ∀ c, Denotes (escape c) c

def SyntaxCharacter (c : Char) : Prop :=
  c ∈ ['"','\\','/','{','}','[',']',',',':','-'] ∨ 48≤c.toNat ∧ c.toNat≤57 ∨
    65≤c.toNat ∧ c.toNat≤70 ∨ 97≤c.toNat ∧ c.toNat≤122

theorem digitChar_toNat {d : ℕ} (h : d<10) : (digitChar d).toNat=d+48 := by
  have hall : ∀ d<10, (digitChar d).toNat=d+48 := by decide
  exact hall d h

theorem decimalNat_digits (n : ℕ) : decimalNat n≠[] ∧
    ∀ c ∈ decimalNat n, 48≤c.toNat ∧ c.toNat≤57 := by
  unfold decimalNat
  split
  · exact ⟨List.cons_ne_nil _ _,List.all_iff_forall_prop.mp (by decide)⟩
  · next hn =>
    constructor
    · intro h
      rw [List.reverse_eq_nil_iff,List.map_eq_nil_iff,Nat.digits_eq_nil_iff_eq_zero] at h
      exact hn h
    · intro c hc
      obtain ⟨d,hd,rfl⟩ := List.mem_map.mp (List.mem_reverse.mp hc)
      have hlt : d<10 := Nat.digits_lt_base (by decide) hd
      rw [digitChar_toNat hlt]
      omega

theorem decimal_cons (n : ℤ) : ∃ c tail, decimal n=c::tail ∧
    (c = '-' ∨ 48≤c.toNat ∧ c.toNat≤57) ∧ ∀ d ∈ tail, 48≤d.toNat ∧ d.toNat≤57 := by
  obtain ⟨hne,hall⟩ := decimalNat_digits n.natAbs
  unfold decimal
  split
  · exact ⟨'-',decimalNat n.natAbs,rfl,.inl rfl,hall⟩
  · cases hd : decimalNat n.natAbs with
    | nil => exact absurd hd hne
    | cons c tail =>
      rw [hd] at hall
      exact ⟨c,tail,rfl,.inr (hall c List.mem_cons_self),
        fun d hm => hall d (List.mem_cons_of_mem _ hm)⟩

section Repair

variable {escape repair : Char → List Char}

theorem repair_syntax (hr : ∀ c, SyntaxCharacter c → repair c=[c]) {text : List Char}
    (ht : ∀ c ∈ text, SyntaxCharacter c) : text.flatMap repair=text := by
  induction text with
  | nil => rfl
  | cons c text ih =>
    have hc := hr c (ht c List.mem_cons_self)
    have htext := ih fun d hd => ht d (List.mem_cons_of_mem _ hd)
    rw [List.flatMap_cons,hc,htext]
    rfl

theorem repair_decimal (hr : ∀ c, SyntaxCharacter c → repair c=[c]) (n : ℤ) :
    (decimal n).flatMap repair=decimal n := by
  apply repair_syntax hr
  intro c hc
  obtain ⟨first,tail,he,hfirst,htail⟩ := decimal_cons n
  rw [he] at hc
  rcases List.mem_cons.mp hc with rfl | hc
  · rcases hfirst with rfl | hdigit
    · exact .inl (by decide)
    · exact .inr (.inl hdigit)
  · exact .inr (.inl (htail c hc))

theorem repair_writeString (hr : ∀ c, SyntaxCharacter c → repair c=[c]) (value : String) :
    (writeString escape value).flatMap repair=
      writeString (fun c => (escape c).flatMap repair) value := by
  have hq : repair '"'=['"'] := hr _ (.inl (by decide))
  rw [writeString,List.flatMap_cons,List.flatMap_append,List.flatMap_singleton,hq,
    List.flatMap_assoc]
  rfl

mutual

theorem repair_write (hr : ∀ c, SyntaxCharacter c → repair c=[c]) : ∀ j : Json,
    (write escape j).flatMap repair=write (fun c => (escape c).flatMap repair) j
  | .null => by
    have hl : ∀ c ∈ ['n','u','l','l'], 97≤c.toNat ∧ c.toNat≤122 :=
      List.all_iff_forall_prop.mp (by decide)
    exact repair_syntax hr fun c hc => .inr (.inr (.inr (hl c hc)))
  | .bool true => by
    have hl : ∀ c ∈ ['t','r','u','e'], 97≤c.toNat ∧ c.toNat≤122 :=
      List.all_iff_forall_prop.mp (by decide)
    exact repair_syntax hr fun c hc => .inr (.inr (.inr (hl c hc)))
  | .bool false => by
    have hl : ∀ c ∈ ['f','a','l','s','e'], 97≤c.toNat ∧ c.toNat≤122 :=
      List.all_iff_forall_prop.mp (by decide)
    exact repair_syntax hr fun c hc => .inr (.inr (.inr (hl c hc)))
  | .number n => repair_decimal hr n
  | .string value => repair_writeString hr value
  | .array values => by
    rw [write,write,List.flatMap_cons,hr _ (.inl (by decide)),repair_writeElements hr values]
    rfl
  | .object members => by
    rw [write,write,List.flatMap_cons,hr _ (.inl (by decide)),repair_writeMembers hr members]
    rfl

theorem repair_writeElements (hr : ∀ c, SyntaxCharacter c → repair c=[c]) :
    ∀ values : List Json, (writeElements escape values).flatMap repair=
      writeElements (fun c => (escape c).flatMap repair) values
  | [] => by
    rw [writeElements,writeElements,List.flatMap_singleton,hr _ (.inl (by decide))]
  | value::values => by
    rw [writeElements,writeElements,List.flatMap_append,repair_write hr value,
      repair_writeMoreElements hr values]

theorem repair_writeMoreElements (hr : ∀ c, SyntaxCharacter c → repair c=[c]) :
    ∀ values : List Json, (writeMoreElements escape values).flatMap repair=
      writeMoreElements (fun c => (escape c).flatMap repair) values
  | [] => by
    rw [writeMoreElements,writeMoreElements,List.flatMap_singleton,hr _ (.inl (by decide))]
  | value::values => by
    rw [writeMoreElements,writeMoreElements,List.flatMap_cons,List.flatMap_append,
      hr _ (.inl (by decide)),repair_write hr value,repair_writeMoreElements hr values]
    rfl

theorem repair_writeMembers (hr : ∀ c, SyntaxCharacter c → repair c=[c]) :
    ∀ members : List (String×Json), (writeMembers escape members).flatMap repair=
      writeMembers (fun c => (escape c).flatMap repair) members
  | [] => by
    rw [writeMembers,writeMembers,List.flatMap_singleton,hr _ (.inl (by decide))]
  | (key,value)::members => by
    rw [writeMembers,writeMembers,List.flatMap_append,List.flatMap_cons,List.flatMap_append,
      hr _ (.inl (by decide)),repair_writeString hr key,repair_write hr value,
      repair_writeMoreMembers hr members]
    rfl

theorem repair_writeMoreMembers (hr : ∀ c, SyntaxCharacter c → repair c=[c]) :
    ∀ members : List (String×Json), (writeMoreMembers escape members).flatMap repair=
      writeMoreMembers (fun c => (escape c).flatMap repair) members
  | [] => by
    rw [writeMoreMembers,writeMoreMembers,List.flatMap_singleton,hr _ (.inl (by decide))]
  | (key,value)::members => by
    rw [writeMoreMembers,writeMoreMembers,List.flatMap_cons,List.flatMap_append,
      List.flatMap_cons,List.flatMap_append,hr ',' (.inl (by decide)),
      hr ':' (.inl (by decide)),repair_writeString hr key,repair_write hr value,
      repair_writeMoreMembers hr members]
    rfl

end

theorem shortEscape_syntax {s c : Char} (h : shortEscape s=some c) : SyntaxCharacter s := by
  unfold shortEscape at h
  split at h
  · exact .inl (by decide)
  · exact .inl (by decide)
  · exact .inl (by decide)
  · exact .inr (.inr (.inr (by decide)))
  · exact .inr (.inr (.inr (by decide)))
  · exact .inr (.inr (.inr (by decide)))
  · exact .inr (.inr (.inr (by decide)))
  · exact .inr (.inr (.inr (by decide)))
  · cases h

theorem hexDigit_syntax {c : Char} {v : ℕ} (h : hexDigit c=some v) : SyntaxCharacter c := by
  unfold hexDigit at h
  by_cases h1 : 48≤c.toNat ∧ c.toNat≤57
  · exact .inr (.inl h1)
  · rw [if_neg h1] at h
    by_cases h2 : 97≤c.toNat ∧ c.toNat≤102
    · exact .inr (.inr (.inr (by omega)))
    · rw [if_neg h2] at h
      by_cases h3 : 65≤c.toNat ∧ c.toNat≤70
      · exact .inr (.inr (.inl h3))
      · rw [if_neg h3] at h
        cases h

/-- Repairing an escaping keeps it an escaping, when the repair keeps the syntax
characters and writes every other character as a text that stands for it. -/
theorem escaping_repair (he : Escaping escape) (hr : ∀ c, SyntaxCharacter c → repair c=[c])
    (hd : ∀ c, c ≠ '"' → c ≠ '\\' → 0x20≤c.toNat → Denotes (repair c) c) :
    Escaping fun c => (escape c).flatMap repair := by
  intro c
  have hb : SyntaxCharacter '\\' := .inl (by decide)
  have ht := he c
  change Denotes ((escape c).flatMap repair) c
  generalize escape c=text at ht
  cases ht with
  | plain hq hs hc =>
    rw [List.flatMap_singleton]
    exact hd c hq hs hc
  | @short s _ hs =>
    have hkeep : List.flatMap repair ['\\',s]=['\\',s] := by
      apply repair_syntax hr
      intro d hm
      rcases List.mem_cons.mp hm with rfl | hm
      · exact hb
      · rw [List.mem_singleton.mp hm]
        exact shortEscape_syntax hs
    rw [hkeep]
    exact .short hs
  | @unicode a b d e _ va vb vd ve hha hhb hhd hhe hc =>
    have hkeep : List.flatMap repair ['\\','u',a,b,d,e]=['\\','u',a,b,d,e] := by
      apply repair_syntax hr
      intro f hm
      simp only [List.mem_cons,List.not_mem_nil,or_false] at hm
      rcases hm with rfl | rfl | rfl | rfl | rfl | rfl
      · exact hb
      · exact .inr (.inr (.inr (by decide)))
      · exact hexDigit_syntax hha
      · exact hexDigit_syntax hhb
      · exact hexDigit_syntax hhd
      · exact hexDigit_syntax hhe
    rw [hkeep]
    exact .unicode hha hhb hhd hhe hc

end Repair

theorem bytes_append (a b : List Char) : bytes (a++b)=bytes a++bytes b := List.flatMap_append

theorem bytes_cons (c : Char) (text : List Char) :
    bytes (c::text)=String.utf8EncodeChar c++bytes text := rfl

/-- A character below 128 is one byte of the same value. -/
theorem encode_ascii {c : Char} (h : c.toNat<128) :
    String.utf8EncodeChar c=[UInt8.ofNat c.toNat] := by
  have hv : c.val.toNat≤0x7f := Nat.le_of_lt_succ h
  rw [String.utf8EncodeChar]
  exact if_pos hv

def textSize (escape : Char → List Char) (value : Json) : ℕ := (bytes (write escape value)).length

section Sizes

variable {escape : Char → List Char}

theorem length_bytes_separator {c : Char} (h : c.toNat<128) (text : List Char) :
    (bytes (c::text)).length=(bytes text).length+1 := by
  rw [bytes_cons,encode_ascii h,List.length_append,List.length_singleton,Nat.add_comm]

/-- A text of characters below 128 has a byte for each. -/
theorem length_bytes_ascii {text : List Char} (h : ∀ c ∈ text, c.toNat<128) :
    (bytes text).length=text.length := by
  induction text with
  | nil => rfl
  | cons c text ih =>
    have hc := h c List.mem_cons_self
    have htext := ih fun d hd => h d (List.mem_cons_of_mem _ hd)
    rw [length_bytes_separator hc,htext,List.length_cons]

theorem length_writeMoreMembers (key : String) (value value' : Json)
    (after before : List (String×Json)) :
    (bytes (writeMoreMembers escape (before++(key,value)::after))).length+textSize escape value'=
      (bytes (writeMoreMembers escape (before++(key,value')::after))).length+
        textSize escape value := by
  induction before with
  | nil =>
    simp only [List.nil_append,writeMoreMembers,bytes_cons,bytes_append,List.length_append,
      textSize]
    omega
  | cons first before ih =>
    obtain ⟨key',first⟩ := first
    simp only [List.cons_append,writeMoreMembers,bytes_cons,bytes_append,List.length_append]
    omega

/-- Exchanging the value of a member exchanges its bytes. -/
theorem textSize_exchange (before after : List (String×Json)) (key : String) (value value' : Json) :
    textSize escape (.object (before++(key,value)::after))+textSize escape value'=
      textSize escape (.object (before++(key,value')::after))+textSize escape value := by
  cases before with
  | nil =>
    simp only [List.nil_append,textSize,write,writeMembers,bytes_cons,bytes_append,
      List.length_append]
    omega
  | cons first before =>
    obtain ⟨key',first⟩ := first
    have hmore : _+textSize escape value'=_ :=
      length_writeMoreMembers key value value' after before
    simp only [textSize] at hmore
    simp only [List.cons_append,textSize,write,writeMembers,bytes_cons,bytes_append,
      List.length_append]
    omega

theorem length_writeMoreElements {n : ℕ} {values : List Json}
    (h : ∀ value ∈ values, textSize escape value=n) :
    (bytes (writeMoreElements escape values)).length=(n+1)*values.length+1 := by
  induction values with
  | nil => rfl
  | cons value values ih =>
    have hvalue := h value List.mem_cons_self
    have hvalues := ih fun value hm => h value (List.mem_cons_of_mem _ hm)
    rw [textSize] at hvalue
    rw [writeMoreElements,length_bytes_separator (by decide),bytes_append,List.length_append,
      hvalue,hvalues,List.length_cons,Nat.mul_succ]
    omega

theorem textSize_array {n : ℕ} {value : Json} {values : List Json}
    (h : ∀ v ∈ value::values, textSize escape v=n) :
    textSize escape (.array (value::values))=(n+1)*(values.length+1)+1 := by
  have hvalue := h value List.mem_cons_self
  have hvalues := length_writeMoreElements fun v hm => h v (List.mem_cons_of_mem value hm)
  rw [textSize] at hvalue
  rw [textSize,write,length_bytes_separator (by decide),writeElements,bytes_append,
    List.length_append,hvalue,hvalues,Nat.mul_succ]
  omega

theorem textSize_singleton (value : Json) :
    textSize escape (.array [value])=textSize escape value+2 := by
  have h := textSize_array (List.forall_mem_singleton.mpr (Eq.refl (textSize escape value)))
  rw [h,List.length_nil,Nat.zero_add,Nat.mul_one]

end Sizes

end Librairii.JsonText
