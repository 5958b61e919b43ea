import Librairii.JsonText

/-!
# The strict wire parser

The parser reads bytes, keeps number lexemes and ordered keys, rejects keys that
fold to one it has seen, and bounds nesting at 128 levels. Invalid bytes and
lone surrogates inside a text become replacement characters one at a time. It
reads every compact JSON text back as the value that was written.
-/

namespace Librairii.WireParser

open FrozenText JsonText

/-- Why a saved query is refused. -/
inductive CodecError where
  | invalid
  | unsupportedVersion
  | frozenData
  deriving DecidableEq

/-- A parsed value: number lexemes and repeated spellings are kept. -/
inductive Wire where
  | null
  | bool (value : Bool)
  | number (lexeme : String)
  | string (value : String)
  | array (values : List Wire)
  | object (fields : List (String×Wire))

/-- What the parser takes from tables and third parties. -/
structure WireEnv where
  /-- Frozen lower casing of a key. -/
  lowercaseKey : String → Except CodecError String
  /-- Whether a lexeme is a JSON number. -/
  numberSyntax : String → Bool

def space (bytes : List UInt8) : List UInt8 :=
  bytes.dropWhile fun b => b=0x20 || b=0x09 || b=0x0d || b=0x0a

def take (byte : UInt8) : List UInt8 → Option (List UInt8)
  | [] => none
  | b::rest => if b=byte then some rest else none

/-- The value of one hexadecimal digit byte. -/
def hexByte (b : UInt8) : Option ℕ :=
  if 0x30≤b ∧ b≤0x39 then some (b.toNat-0x30)
  else if 0x61≤b ∧ b≤0x66 then some (b.toNat-0x61+10)
  else if 0x41≤b ∧ b≤0x46 then some (b.toNat-0x41+10)
  else none

/-- Four hexadecimal digits. -/
def hex : List UInt8 → Option (ℕ×List UInt8)
  | a::b::c::d::rest =>
    match hexByte a,hexByte b,hexByte c,hexByte d with
    | some va,some vb,some vc,some vd => some (((va*16+vb)*16+vc)*16+vd,rest)
    | _,_,_,_ => none
  | _ => none

/-- The character of a code point that is no surrogate. -/
def fromU32 (code : ℕ) : Except CodecError Char :=
  if code.isValidChar then .ok (Char.ofNat code) else .error .frozenData

/-- A second surrogate written as an escape of its own. -/
def lowSurrogate (bytes : List UInt8) : Option (ℕ×List UInt8) :=
  match (take 0x5c bytes).bind (take 0x75) with
  | none => none
  | some rest => (hex rest).filter fun p => 0xdc00≤p.1 && p.1≤0xdfff

/-- The character of a four-digit escape; a lone surrogate is replaced. -/
def unicodeEscape (bytes : List UInt8) : Except CodecError (Char×List UInt8) :=
  match hex bytes with
  | none => .error .invalid
  | some (first,rest) =>
    if 0xd800≤first ∧ first≤0xdbff then
      match lowSurrogate rest with
      | some (second,rest) =>
        (fromU32 (0x10000+(first-0xd800)*1024+second-0xdc00)).map fun c => (c,rest)
      | none => .ok ('\ufffd',rest)
    else if 0xdc00≤first ∧ first≤0xdfff then .ok ('\ufffd',rest)
    else (fromU32 first).map fun c => (c,rest)

/-- The two-character escapes by their second byte. -/
def shortByte (b : UInt8) : Option Char :=
  if b=0x22 then some '"'
  else if b=0x5c then some '\\'
  else if b=0x2f then some '/'
  else if b=0x62 then some '\x08'
  else if b=0x66 then some '\x0c'
  else if b=0x6e then some '\n'
  else if b=0x72 then some '\r'
  else if b=0x74 then some '\t'
  else none

/-- The character of an escape, after its backslash. -/
def escaped : List UInt8 → Except CodecError (Char×List UInt8)
  | [] => .error .invalid
  | b::rest =>
    if b=0x75 then unicodeEscape rest
    else match shortByte b with
    | some c => .ok (c,rest)
    | none => .error .invalid

/-- The encoded width a lead byte announces; zero for any other byte. -/
def width (b : UInt8) : ℕ :=
  if 0xc2≤b ∧ b≤0xdf then 2
  else if 0xe0≤b ∧ b≤0xef then 3
  else if 0xf0≤b ∧ b≤0xf4 then 4
  else 0

/-- A whole character at the front when its announced bytes are well formed. -/
def validCharacter (b : UInt8) (rest : List UInt8) : Option Char :=
  if width b=0 ∨ (b::rest).length<width b then none
  else decodeFirst ((b::rest).take (width b))

/-- One character inside a text, past the closing quote test. -/
def character (b : UInt8) (rest : List UInt8) : Except CodecError (Char×List UInt8) :=
  if b=0x5c then escaped rest
  else if b≤0x1f then .error .invalid
  else if b≤0x7f then .ok (Char.ofNat b.toNat,rest)
  else match validCharacter b rest with
  | some c => .ok (c,(b::rest).drop (width b))
  | none => .ok ('\ufffd',rest)

/-- The characters of a text up to its closing quote. Every step consumes a
byte, so as much fuel as bytes suffices. -/
def stringBody : ℕ → List UInt8 → Except CodecError (List Char×List UInt8)
  | 0,_ | _,[] => .error .invalid
  | fuel+1,b::rest =>
    if b=0x22 then .ok ([],rest)
    else do
      let (c,rest) ← character b rest
      let (cs,rest) ← stringBody fuel rest
      .ok (c::cs,rest)

/-- A quoted text. -/
def string (bytes : List UInt8) : Except CodecError (String×List UInt8) :=
  match take 0x22 bytes with
  | none => .error .invalid
  | some rest => (stringBody rest.length rest).map fun p => (String.ofList p.1,p.2)

/-- The bytes a number lexeme is made of. -/
def numberByte (b : UInt8) : Bool :=
  b=0x2d || b=0x2b || (0x30≤b && b≤0x39) || b=0x2e || b=0x65 || b=0x45

def number (env : WireEnv) (bytes : List UInt8) : Except CodecError (Wire×List UInt8) :=
  let raw := String.ofList ((bytes.takeWhile numberByte).map fun b => Char.ofNat b.toNat)
  if env.numberSyntax raw=true then .ok (.number raw,bytes.dropWhile numberByte)
  else .error .invalid

def literal (bytes : List UInt8) : Except CodecError (Wire×List UInt8) :=
  if (JsonText.bytes ['n','u','l','l']).isPrefixOf bytes then .ok (.null,bytes.drop 4)
  else if (JsonText.bytes ['t','r','u','e']).isPrefixOf bytes then .ok (.bool true,bytes.drop 4)
  else if (JsonText.bytes ['f','a','l','s','e']).isPrefixOf bytes then
    .ok (.bool false,bytes.drop 5)
  else .error .invalid

mutual

/-- A value at a nesting depth. Every nested call follows a consumed byte, so
one more fuel than bytes suffices. -/
def value (env : WireEnv) : ℕ → ℕ → List UInt8 → Except CodecError (Wire×List UInt8)
  | 0,_,_ => .error .invalid
  | fuel+1,depth,bytes =>
    if 128<depth then .error .invalid
    else match space bytes with
    | [] => .error .invalid
    | b::rest =>
      if b=0x22 then (string (b::rest)).map fun p => (.string p.1,p.2)
      else if b=0x7b then
        match take 0x7d (space rest) with
        | some rest => .ok (.object [],rest)
        | none => (members env fuel depth [] (space rest)).map fun p => (.object p.1,p.2)
      else if b=0x5b then
        match take 0x5d (space rest) with
        | some rest => .ok (.array [],rest)
        | none => (elements env fuel depth (space rest)).map fun p => (.array p.1,p.2)
      else if b=0x2d ∨ (0x30≤b ∧ b≤0x39) then number env (b::rest)
      else literal (b::rest)

/-- Members up to the closing brace, with the folded keys seen so far. -/
def members (env : WireEnv) : ℕ → ℕ → List String → List UInt8 →
    Except CodecError (List (String×Wire)×List UInt8)
  | 0,_,_,_ => .error .invalid
  | fuel+1,depth,seen,bytes => do
    let (key,rest) ← string (space bytes)
    let folded ← env.lowercaseKey key
    if folded ∈ seen then .error .invalid
    else match take 0x3a (space rest) with
    | none => .error .invalid
    | some rest => do
      let (field,rest) ← value env fuel (depth+1) rest
      match take 0x7d (space rest) with
      | some rest => .ok ([(key,field)],rest)
      | none =>
        match take 0x2c (space rest) with
        | none => .error .invalid
        | some rest => do
          let (fields,rest) ← members env fuel depth (folded::seen) rest
          .ok ((key,field)::fields,rest)

/-- Elements up to the closing bracket. -/
def elements (env : WireEnv) : ℕ → ℕ → List UInt8 →
    Except CodecError (List Wire×List UInt8)
  | 0,_,_ => .error .invalid
  | fuel+1,depth,bytes => do
    let (first,rest) ← value env fuel (depth+1) bytes
    match take 0x5d (space rest) with
    | some rest => .ok ([first],rest)
    | none =>
      match take 0x2c (space rest) with
      | none => .error .invalid
      | some rest => do
        let (values,rest) ← elements env fuel depth rest
        .ok (first::values,rest)

end

/-- Parse a whole byte string as one value. -/
def parse (env : WireEnv) (bytes : List UInt8) : Except CodecError Wire := do
  let (wire,rest) ← value env (bytes.length+1) 0 bytes
  if space rest=[] then .ok wire else .error .invalid

/-- Encoding and decoding one character at the front of a byte string. -/
theorem decodeFirst_encode (c : Char) : decodeFirst (String.utf8EncodeChar c)=some c := by
  have hl : (String.utf8EncodeChar c).length≤4 := by
    rw [String.length_utf8EncodeChar]
    exact c.utf8Size_le_four
  have h := ByteArray.utf8DecodeChar?_utf8EncodeChar_append (b:=ByteArray.empty) (c:=c)
  rw [ByteArray.append_empty] at h
  rw [decodeFirst,List.take_of_length_le hl,h]

theorem width_ofNat {n : ℕ} (h : n<256) : width (UInt8.ofNat n)=
    if 0xc2≤n ∧ n≤0xdf then 2 else if 0xe0≤n ∧ n≤0xef then 3
      else if 0xf0≤n ∧ n≤0xf4 then 4 else 0 := by
  have hn : (UInt8.ofNat n).toNat=n := by
    rw [UInt8.toNat_ofNat']
    exact Nat.mod_eq_of_lt h
  simp only [width,UInt8.le_iff_toNat_le,hn]
  rfl

/-- The lead byte of a character beyond 127 announces exactly its bytes. -/
theorem encode_wide {c : Char} (h : 128≤c.toNat) :
    ∃ n tail, String.utf8EncodeChar c=UInt8.ofNat n::tail ∧ 0x80≤n ∧ n<256 ∧
      width (UInt8.ofNat n)=tail.length+1 := by
  have hv : ¬c.val.toNat≤0x7f := Nat.not_le.mpr h
  have hmax : c.val.toNat<0x110000 := by
    rcases c.valid with hc | hc
    · exact lt_trans hc (by decide)
    · exact hc.2
  unfold String.utf8EncodeChar
  dsimp only
  rw [if_neg hv]
  split
  · next h2 =>
    refine ⟨_,_,rfl,by omega,by omega,?_⟩
    rw [width_ofNat (by omega),if_pos (by omega)]
    rfl
  · next h2 =>
    split
    · next h3 =>
      refine ⟨_,_,rfl,by omega,by omega,?_⟩
      rw [width_ofNat (by omega),if_neg (by omega),if_pos (by omega)]
      rfl
    · next h3 =>
      refine ⟨_,_,rfl,by omega,by omega,?_⟩
      rw [width_ofNat (by omega),if_neg (by omega),if_neg (by omega),if_pos (by omega)]
      rfl

/-- A one-byte number survives as a byte. -/
theorem toNat_ofNat {n : ℕ} (h : n<256) : (UInt8.ofNat n).toNat=n := by
  rw [UInt8.toNat_ofNat']
  exact Nat.mod_eq_of_lt h

/-- Distinct one-byte numbers are distinct bytes. -/
theorem ofNat_ne {m n : ℕ} (hm : m<256) (hn : n<256) (h : m≠n) : UInt8.ofNat m≠UInt8.ofNat n := by
  intro he
  have ht := congrArg UInt8.toNat he
  rw [toNat_ofNat hm,toNat_ofNat hn] at ht
  exact h ht

theorem read_plain {c : Char} (hq : c ≠ '"') (hb : c ≠ '\\') (hc : 0x20≤c.toNat)
    (rest : List UInt8) :
    ∃ b tail, String.utf8EncodeChar c=b::tail ∧ b≠0x22 ∧
      character b (tail++rest)=.ok (c,rest) := by
  by_cases ha : c.toNat<128
  · have hnq : c.toNat≠0x22 := fun h => hq (Char.ext (UInt32.toNat_inj.mp h))
    have hnb : c.toNat≠0x5c := fun h => hb (Char.ext (UInt32.toNat_inj.mp h))
    have hlow : ¬UInt8.ofNat c.toNat≤0x1f := by
      rw [UInt8.le_iff_toNat_le,toNat_ofNat (by omega)]
      exact Nat.not_le.mpr hc
    have hhigh : UInt8.ofNat c.toNat≤0x7f := by
      rw [UInt8.le_iff_toNat_le,toNat_ofNat (by omega)]
      exact Nat.le_of_lt_succ ha
    refine ⟨UInt8.ofNat c.toNat,[],encode_ascii ha,
      ofNat_ne (n:=0x22) (by omega) (by decide) hnq,?_⟩
    have hne : UInt8.ofNat c.toNat≠0x5c := ofNat_ne (n:=0x5c) (by omega) (by decide) hnb
    rw [character,if_neg hne,if_neg hlow,if_pos hhigh,toNat_ofNat (by omega),Char.ofNat_toNat]
    rfl
  · obtain ⟨n,tail,he,h80,h256,hw⟩ := encode_wide (Nat.not_lt.mp ha)
    have hne : ∀ m : ℕ, m<0x80 → UInt8.ofNat n≠UInt8.ofNat m := by
      intro m hm
      exact ofNat_ne h256 (by omega) (by omega)
    have hgt : ∀ m : ℕ, m<0x80 → ¬UInt8.ofNat n≤UInt8.ofNat m := by
      intro m hm
      rw [UInt8.le_iff_toNat_le,toNat_ofNat h256,toNat_ofNat (by omega)]
      omega
    refine ⟨UInt8.ofNat n,tail,he,hne 0x22 (by decide),?_⟩
    have hvalid : validCharacter (UInt8.ofNat n) (tail++rest)=some c := by
      rw [validCharacter,if_neg]
      · rw [hw,←List.cons_append,←List.length_cons (a:=UInt8.ofNat n),List.take_left,←he,
          decodeFirst_encode]
      · rw [hw,List.length_cons,List.length_append]
        omega
    have h5c : UInt8.ofNat n≠0x5c := hne 0x5c (by decide)
    have h1f : ¬UInt8.ofNat n≤0x1f := hgt 0x1f (by decide)
    have h7f : ¬UInt8.ofNat n≤0x7f := hgt 0x7f (by decide)
    rw [character,if_neg h5c,if_neg h1f,if_neg h7f,hvalid]
    dsimp only
    rw [hw,←List.cons_append,←List.length_cons (a:=UInt8.ofNat n),List.drop_left]

theorem hexByte_digit {c : Char} {v : ℕ} (h : hexDigit c=some v) :
    ∃ b, String.utf8EncodeChar c=[b] ∧ hexByte b=some v := by
  have hrange : c.toNat<128 ∧ (48≤c.toNat ∧ c.toNat≤57 ∧ v=c.toNat-48 ∨
      97≤c.toNat ∧ c.toNat≤102 ∧ v=c.toNat-87 ∨ 65≤c.toNat ∧ c.toNat≤70 ∧ v=c.toNat-55) := by
    unfold hexDigit at h
    split_ifs at h with h1 h2 h3
    · cases h
      omega
    · cases h
      omega
    · cases h
      omega
  refine ⟨UInt8.ofNat c.toNat,encode_ascii hrange.1,?_⟩
  have hn : (UInt8.ofNat c.toNat).toNat=c.toNat := toNat_ofNat (by omega)
  simp only [hexByte,UInt8.le_iff_toNat_le,hn,UInt8.reduceToNat]
  rcases hrange.2 with ⟨h1,h2,rfl⟩ | ⟨h1,h2,rfl⟩ | ⟨h1,h2,rfl⟩
  · rw [if_pos ⟨h1,h2⟩]
  · rw [if_neg (by omega),if_pos ⟨h1,h2⟩]
    exact congrArg some (by omega)
  · rw [if_neg (by omega),if_neg (by omega),if_pos ⟨h1,h2⟩]
    exact congrArg some (by omega)

theorem hex_digits {a b d e : Char} {va vb vd ve : ℕ} (ha : hexDigit a=some va)
    (hb : hexDigit b=some vb) (hd : hexDigit d=some vd) (he : hexDigit e=some ve)
    (rest : List UInt8) : hex (bytes [a,b,d,e]++rest)=some (((va*16+vb)*16+vd)*16+ve,rest) := by
  obtain ⟨ba,ea,ha⟩ := hexByte_digit ha
  obtain ⟨bb,eb,hb⟩ := hexByte_digit hb
  obtain ⟨bd,ed,hd⟩ := hexByte_digit hd
  obtain ⟨be,ee,he⟩ := hexByte_digit he
  have hbytes : bytes [a,b,d,e]=[ba,bb,bd,be] := by
    simp only [bytes_cons,ea,eb,ed,ee]
    rfl
  rw [hbytes]
  simp only [List.cons_append,List.nil_append,hex,ha,hb,hd,he]

/-- A character is the character of its own code point. -/
theorem fromU32_toNat (c : Char) : fromU32 c.toNat=.ok c := by
  have hv : c.toNat.isValidChar := c.valid
  rw [fromU32,if_pos hv,Char.ofNat_toNat]

/-- A two-character escape is read as the character it stands for. -/
theorem escaped_short {s c : Char} (h : shortEscape s=some c) (rest : List UInt8) :
    escaped (String.utf8EncodeChar s++rest)=.ok (c,rest) := by
  unfold shortEscape at h
  split at h <;> cases h <;> rfl

/-- A text that stands for a character is read as that character, and never
starts with the closing quote. -/
theorem read_denotes {text : List Char} {c : Char} (h : Denotes text c) (rest : List UInt8) :
    ∃ b tail, bytes text=b::tail ∧ b≠0x22 ∧ character b (tail++rest)=.ok (c,rest) := by
  cases h with
  | plain hq hb hc =>
    have hs : bytes [c]=String.utf8EncodeChar c := List.append_nil _
    rw [hs]
    exact read_plain hq hb hc rest
  | @short s _ hs =>
    refine ⟨0x5c,String.utf8EncodeChar s,?_,by decide,?_⟩
    · rw [bytes_cons,bytes_cons]
      exact congrArg (0x5c :: ·) (List.append_nil _)
    · rw [character,if_pos rfl,escaped_short hs]
  | @unicode a b d e _ va vb vd ve ha hb hd he hc =>
    refine ⟨0x5c,0x75::bytes [a,b,d,e],rfl,by decide,?_⟩
    have hval := c.valid
    have hc' : c.val.toNat=c.toNat := rfl
    have hfirst : ¬(0xd800≤c.toNat ∧ c.toNat≤0xdbff) := by
      rcases hval with h | h <;> omega
    have hsecond : ¬(0xdc00≤c.toNat ∧ c.toNat≤0xdfff) := by
      rcases hval with h | h <;> omega
    rw [character,if_pos rfl,List.cons_append,escaped,if_pos rfl,unicodeEscape,
      hex_digits ha hb hd he,hc]
    dsimp only
    rw [if_neg hfirst,if_neg hsecond,fromU32_toNat]
    rfl

theorem stringBody_write {escape : Char → List Char} (he : Escaping escape) (text : List Char)
    (rest : List UInt8) (fuel : ℕ) (hf : (bytes (text.flatMap escape)).length<fuel) :
    stringBody fuel (bytes (text.flatMap escape)++0x22::rest)=.ok (text,rest) := by
  induction text generalizing fuel with
  | nil =>
    cases fuel with
    | zero => omega
    | succ fuel => rfl
  | cons c text ih =>
    rw [List.flatMap_cons,bytes_append] at hf ⊢
    obtain ⟨b,tail,hb,hq,hr⟩ := read_denotes (he c) (bytes (text.flatMap escape)++0x22::rest)
    rw [hb] at hf ⊢
    rw [List.length_append,List.length_cons] at hf
    cases fuel with
    | zero => omega
    | succ fuel =>
      rw [List.append_assoc,List.cons_append,stringBody,if_neg hq,hr]
      change (stringBody fuel _ >>= _)=_
      rw [ih fuel (by omega)]
      rfl

/-- A written text is read back. -/
theorem string_write {escape : Char → List Char} (he : Escaping escape) (value : String)
    (rest : List UInt8) : string (bytes (writeString escape value)++rest)=.ok (value,rest) := by
  have hb : bytes (writeString escape value)++rest=
      0x22::(bytes (value.toList.flatMap escape)++0x22::rest) := by
    rw [writeString,bytes_cons,bytes_append]
    simp only [List.append_assoc]
    rfl
  rw [hb,string,take,if_pos rfl]
  dsimp only
  rw [stringBody_write he]
  · exact congrArg (fun t => Except.ok (t,rest)) String.ofList_toList
  · rw [List.length_append,List.length_cons]
    omega

mutual

/-- The parsed form of a value. -/
def wireOf : Json → Wire
  | .null => .null
  | .bool value => .bool value
  | .number value => .number (String.ofList (decimal value))
  | .string value => .string value
  | .array values => .array (wiresOf values)
  | .object members => .object (fieldsOf members)

/-- The parsed form of every element. -/
def wiresOf : List Json → List Wire
  | [] => []
  | value::values => wireOf value::wiresOf values

/-- The parsed form of every member, under its key. -/
def fieldsOf : List (String×Json) → List (String×Wire)
  | [] => []
  | (key,value)::members => (key,wireOf value)::fieldsOf members

end

/-- Keys whose foldings are new and distinct. -/
def Keyed (env : WireEnv) : List String → List (String×Json) → Prop
  | _,[] => True
  | seen,(key,_)::members => ∃ folded, env.lowercaseKey key=.ok folded ∧ folded ∉ seen ∧
      Keyed env (folded::seen) members

mutual

/-- A value the parser admits: its numbers and its keys at every level. -/
def Fit (env : WireEnv) : Json → Prop
  | .number value => env.numberSyntax (String.ofList (decimal value))=true
  | .array values => FitElements env values
  | .object members => Keyed env [] members ∧ FitMembers env members
  | _ => True

def FitElements (env : WireEnv) : List Json → Prop
  | [] => True
  | value::values => Fit env value ∧ FitElements env values

def FitMembers (env : WireEnv) : List (String×Json) → Prop
  | [] => True
  | (_,value)::members => Fit env value ∧ FitMembers env members

end

/-- A continuation that cannot extend a number lexeme. -/
def Stop (rest : List UInt8) : Prop := ∀ b tail, rest=b::tail → numberByte b=false

theorem digit_byte {c : Char} (h : c = '-' ∨ 48≤c.toNat ∧ c.toNat≤57) :
    String.utf8EncodeChar c=[UInt8.ofNat c.toNat] ∧
      numberByte (UInt8.ofNat c.toNat)=true ∧ Char.ofNat (UInt8.ofNat c.toNat).toNat=c := by
  rcases h with rfl | ⟨h1,h2⟩
  · exact ⟨rfl,rfl,rfl⟩
  · have hn : (UInt8.ofNat c.toNat).toNat=c.toNat := toNat_ofNat (by omega)
    refine ⟨encode_ascii (by omega),?_,by rw [hn,Char.ofNat_toNat]⟩
    have hr : (0x30≤UInt8.ofNat c.toNat && UInt8.ofNat c.toNat≤0x39)=true := by
      simp only [Bool.and_eq_true,decide_eq_true_eq,UInt8.le_iff_toNat_le,hn,UInt8.reduceToNat]
      exact ⟨h1,h2⟩
    unfold numberByte
    rw [hr,Bool.or_true,Bool.true_or,Bool.true_or,Bool.true_or]

/-- A decimal text is taken whole as one lexeme. -/
theorem digits_span {text : List Char} (h : ∀ c ∈ text, c = '-' ∨ 48≤c.toNat ∧ c.toNat≤57)
    {rest : List UInt8} (hs : Stop rest) :
    ((bytes text++rest).takeWhile numberByte).map (fun b => Char.ofNat b.toNat)=text ∧
      (bytes text++rest).dropWhile numberByte=rest := by
  induction text with
  | nil =>
    cases rest with
    | nil => exact ⟨rfl,rfl⟩
    | cons b tail =>
      have hb := hs b tail rfl
      change ((b::tail).takeWhile numberByte).map _=[] ∧ (b::tail).dropWhile numberByte=b::tail
      rw [List.takeWhile_cons,List.dropWhile_cons,hb]
      exact ⟨rfl,rfl⟩
  | cons c text ih =>
    obtain ⟨he,hn,hc⟩ := digit_byte (h c List.mem_cons_self)
    obtain ⟨ht,hd⟩ := ih fun d hm => h d (List.mem_cons_of_mem _ hm)
    rw [bytes_cons,he,List.append_assoc,List.singleton_append,List.takeWhile_cons,
      List.dropWhile_cons,hn,if_pos rfl,if_pos rfl,List.map_cons,hc,ht]
    exact ⟨rfl,hd⟩

theorem number_write {env : WireEnv} {n : ℤ}
    (hn : env.numberSyntax (String.ofList (decimal n))=true) {rest : List UInt8} (hs : Stop rest) :
    number env (bytes (decimal n)++rest)=.ok (.number (String.ofList (decimal n)),rest) := by
  obtain ⟨c,tail,he,hc,ht⟩ := decimal_cons n
  have hall : ∀ d ∈ decimal n, d = '-' ∨ 48≤d.toNat ∧ d.toNat≤57 := by
    intro d hd
    rw [he] at hd
    rcases List.mem_cons.mp hd with rfl | hd
    · exact hc
    · exact .inr (ht d hd)
  obtain ⟨hraw,hrest⟩ := digits_span hall hs
  unfold number
  dsimp only
  rw [hraw,if_pos hn,hrest]

theorem space_cons {b : UInt8} (hb : (b=0x20 || b=0x09 || b=0x0d || b=0x0a)=false)
    (rest : List UInt8) : space (b::rest)=b::rest := by
  rw [space,List.dropWhile_cons,hb]
  rfl

theorem stop_cons {b : UInt8} (hb : numberByte b=false) (rest : List UInt8) : Stop (b::rest) := by
  intro c tail he
  cases he
  exact hb

/-- The byte classes a lead digit or sign falls into. -/
theorem number_lead {c : Char} (h : c = '-' ∨ 48≤c.toNat ∧ c.toNat≤57) :
    (UInt8.ofNat c.toNat=0x20 || UInt8.ofNat c.toNat=0x09 || UInt8.ofNat c.toNat=0x0d ||
        UInt8.ofNat c.toNat=0x0a)=false ∧
      UInt8.ofNat c.toNat≠0x22 ∧ UInt8.ofNat c.toNat≠0x7b ∧ UInt8.ofNat c.toNat≠0x5b ∧
      (UInt8.ofNat c.toNat=0x2d ∨ 0x30≤UInt8.ofNat c.toNat ∧ UInt8.ofNat c.toNat≤0x39) := by
  rcases h with rfl | ⟨h1,h2⟩
  · decide
  · have hn : (UInt8.ofNat c.toNat).toNat=c.toNat := toNat_ofNat (by omega)
    simp only [Bool.or_eq_false_iff,decide_eq_false_iff_not,ne_eq,←UInt8.toNat_inj,
      UInt8.le_iff_toNat_le,hn,UInt8.reduceToNat]
    omega

/-- Past white space and within the depth bound, the first byte decides. -/
theorem value_dispatch (env : WireEnv) {fuel depth : ℕ} {b : UInt8} (rest : List UInt8)
    (hd : ¬128<depth) (hb : (b=0x20 || b=0x09 || b=0x0d || b=0x0a)=false) :
    value env (fuel+1) depth (b::rest)=
      if b=0x22 then (string (b::rest)).map fun p => (.string p.1,p.2)
      else if b=0x7b then
        match take 0x7d (space rest) with
        | some rest => .ok (.object [],rest)
        | none => (members env fuel depth [] (space rest)).map fun p => (.object p.1,p.2)
      else if b=0x5b then
        match take 0x5d (space rest) with
        | some rest => .ok (.array [],rest)
        | none => (elements env fuel depth (space rest)).map fun p => (.array p.1,p.2)
      else if b=0x2d ∨ (0x30≤b ∧ b≤0x39) then number env (b::rest)
      else literal (b::rest) := by
  rw [value,if_neg hd,space_cons hb]

/-- A written text starts with its quote. -/
theorem bytes_writeString (escape : Char → List Char) (value : String) :
    ∃ tail, bytes (writeString escape value)=0x22::tail := ⟨_,rfl⟩

/-- The first byte of a written value is no white space and no closing bracket. -/
theorem bytes_write (escape : Char → List Char) (j : Json) :
    ∃ b tail, bytes (write escape j)=b::tail ∧
      (b=0x20 || b=0x09 || b=0x0d || b=0x0a)=false ∧ b≠0x5d := by
  cases j with
  | null => exact ⟨_,_,rfl,rfl,by decide⟩
  | bool value => cases value <;> exact ⟨_,_,rfl,rfl,by decide⟩
  | number value =>
    obtain ⟨c,tail,he,hc,-⟩ := decimal_cons value
    obtain ⟨hb,-⟩ := digit_byte hc
    obtain ⟨hs,-⟩ := number_lead hc
    refine ⟨UInt8.ofNat c.toNat,bytes tail,?_,hs,?_⟩
    · rw [write,he,bytes_cons,hb]
      rfl
    · rcases hc with rfl | ⟨h1,h2⟩
      · decide
      · exact ofNat_ne (n:=0x5d) (by omega) (by decide) (by omega)
  | string value => exact ⟨_,_,rfl,rfl,by decide⟩
  | array values => exact ⟨_,_,rfl,rfl,by decide⟩
  | object members => exact ⟨_,_,rfl,rfl,by decide⟩

theorem keyed_of_nodup {env : WireEnv} {fold : String → String} {fields : List (String×Json)}
    {seen : List String} (hl : ∀ entry ∈ fields, env.lowercaseKey entry.1=.ok (fold entry.1))
    (hn : (fields.map fun entry => fold entry.1).Nodup)
    (hs : ∀ entry ∈ fields, fold entry.1 ∉ seen) : Keyed env seen fields := by
  induction fields generalizing seen with
  | nil => trivial
  | cons entry fields ih =>
    obtain ⟨key,value⟩ := entry
    rw [List.map_cons,List.nodup_cons] at hn
    have hkey := hl (key,value) List.mem_cons_self
    have hnew := hs (key,value) List.mem_cons_self
    refine ⟨fold key,hkey,hnew,ih (fun e he => hl e (List.mem_cons_of_mem _ he)) hn.2 ?_⟩
    intro e he hm
    rcases List.mem_cons.mp hm with heq | hm
    · have hmem := List.mem_map_of_mem (f := fun entry : String×Json => fold entry.1) he
      have heq' : fold e.1=fold key := heq
      rw [heq'] at hmem
      exact hn.1 hmem
    · exact hs e (List.mem_cons_of_mem _ he) hm

theorem fitMembers_append {env : WireEnv} (a b : List (String×Json)) :
    FitMembers env (a++b) ↔ FitMembers env a ∧ FitMembers env b := by
  induction a with
  | nil => exact ⟨fun h => ⟨trivial,h⟩,fun h => h.2⟩
  | cons entry a ih =>
    obtain ⟨key,value⟩ := entry
    rw [List.cons_append,FitMembers,FitMembers,ih,and_assoc]

theorem fitElements_of_mem {env : WireEnv} {values : List Json}
    (h : ∀ value ∈ values, Fit env value) : FitElements env values := by
  induction values with
  | nil => trivial
  | cons value values ih =>
    have hrest := ih fun other ho => h other (List.mem_cons_of_mem _ ho)
    exact ⟨h value List.mem_cons_self,hrest⟩

theorem fitElements_map {α : Type} {env : WireEnv} {f : α → Json} (h : ∀ x, Fit env (f x))
    (xs : List α) : FitElements env (xs.map f) := by
  apply fitElements_of_mem
  intro value hm
  obtain ⟨x,-,rfl⟩ := List.mem_map.mp hm
  exact h x

section ReadBack

variable {env : WireEnv} {escape : Char → List Char}

/-- Beyond the nesting bound nothing is read. -/
theorem value_deep {fuel depth : ℕ} {input : List UInt8} (hd : 128<depth) :
    value env (fuel+1) depth input=.error .invalid := by
  rw [value,if_pos hd]

/-- A value without nested values is read within the nesting bound. -/
theorem value_flat {j : Json} {fuel depth : ℕ} {input : List UInt8} {x : Wire×List UInt8}
    (hj : height j=0) (h : ¬128<depth → value env (fuel+1) depth input=.ok x) :
    value env (fuel+1) depth input=if depth+height j≤128 then .ok x else .error .invalid := by
  by_cases hd : 128<depth
  · rw [value_deep hd,if_neg (by omega)]
  · rw [h hd,if_pos (by omega)]

mutual

/-- Every written value within the nesting bound is read back, with the bytes
after it left over, and a deeper one is refused. -/
theorem value_write (he : Escaping escape) : ∀ (j : Json) (fuel depth : ℕ)
    (rest : List UInt8), Fit env j → (bytes (write escape j)).length<fuel → Stop rest →
    value env fuel depth (bytes (write escape j)++rest)=
      if depth+height j≤128 then .ok (wireOf j,rest) else .error .invalid
  | j,0,_,_,_,hf,_ => absurd hf (Nat.not_lt_zero _)
  | .null,fuel+1,depth,rest,_,_,_ => by
    refine value_flat rfl fun hdepth => ?_
    exact value_dispatch env (0x75::0x6c::0x6c::rest) hdepth rfl
  | .bool true,fuel+1,depth,rest,_,_,_ => by
    refine value_flat rfl fun hdepth => ?_
    exact value_dispatch env (0x72::0x75::0x65::rest) hdepth rfl
  | .bool false,fuel+1,depth,rest,_,_,_ => by
    refine value_flat rfl fun hdepth => ?_
    exact value_dispatch env (0x61::0x6c::0x73::0x65::rest) hdepth rfl
  | .number n,fuel+1,depth,rest,hfit,_,hs => by
    refine value_flat rfl fun hdepth => ?_
    simp only [Fit] at hfit
    obtain ⟨c,tail,hdec,hc,-⟩ := decimal_cons n
    obtain ⟨hb,-⟩ := digit_byte hc
    obtain ⟨hsp,hq,ho,ha,hnum⟩ := number_lead hc
    have hbytes : bytes (decimal n)++rest=UInt8.ofNat c.toNat::(bytes tail++rest) := by
      rw [hdec,bytes_cons,hb]
      rfl
    rw [write,hbytes,value_dispatch env _ hdepth hsp,if_neg hq,if_neg ho,if_neg ha,if_pos hnum,
      ←hbytes,number_write hfit hs]
    rfl
  | .string text,fuel+1,depth,rest,_,_,_ => by
    refine value_flat rfl fun hdepth => ?_
    obtain ⟨tail,ht⟩ := bytes_writeString escape text
    have hr := string_write he text rest
    rw [ht,List.cons_append] at hr
    rw [write,ht,List.cons_append,value_dispatch env _ hdepth rfl,if_pos rfl,hr]
    rfl
  | .array [],fuel+1,depth,rest,_,_,_ => by
    refine value_flat rfl fun hdepth => ?_
    exact value_dispatch env (0x5d::rest) hdepth rfl
  | .array (first::values),fuel+1,depth,rest,hfit,hf,_ => by
    simp only [Fit] at hfit
    have hheight : height (.array (first::values))=heightElements (first::values) := rfl
    by_cases hdepth : 128<depth
    · rw [value_deep hdepth,if_neg (by omega)]
    · have hlen : (bytes (writeElements escape (first::values))).length<fuel := by
        rw [write,bytes_cons,List.length_append] at hf
        have h1 : (String.utf8EncodeChar '[').length=1 := rfl
        omega
      have hel := elements_write he (first::values) (List.cons_ne_nil _ _) fuel depth rest hfit
        hlen
      obtain ⟨b,tail,hb,hsp,hne⟩ := bytes_write escape first
      have hcons : bytes (writeElements escape (first::values))++rest=
          b::(tail++(bytes (writeMoreElements escape values)++rest)) := by
        rw [writeElements,bytes_append,hb]
        simp only [List.append_assoc,List.cons_append]
      have hspace : space (bytes (writeElements escape (first::values))++rest)=
          bytes (writeElements escape (first::values))++rest := by
        rw [hcons,space_cons hsp]
      have htake : take 0x5d (bytes (writeElements escape (first::values))++rest)=none := by
        rw [hcons,take,if_neg hne]
      change value env (fuel+1) depth
        (0x5b::(bytes (writeElements escape (first::values))++rest))=_
      rw [value_dispatch env _ hdepth rfl,if_neg (by decide),if_neg (by decide),if_pos rfl,
        hspace,htake]
      dsimp only
      rw [hel,hheight]
      by_cases hd : depth+heightElements (first::values)≤128
      · rw [if_pos hd,if_pos hd]
        rfl
      · rw [if_neg hd,if_neg hd]
        rfl
  | .object [],fuel+1,depth,rest,_,_,_ => by
    refine value_flat rfl fun hdepth => ?_
    exact value_dispatch env (0x7d::rest) hdepth rfl
  | .object ((key,first)::fields),fuel+1,depth,rest,hfit,hf,_ => by
    simp only [Fit] at hfit
    have hheight : height (.object ((key,first)::fields))=
        heightMembers ((key,first)::fields) := rfl
    by_cases hdepth : 128<depth
    · rw [value_deep hdepth,if_neg (by omega)]
    · have hlen : (bytes (writeMembers escape ((key,first)::fields))).length<fuel := by
        rw [write,bytes_cons,List.length_append] at hf
        have h1 : (String.utf8EncodeChar '{').length=1 := rfl
        omega
      have hmem := members_write he ((key,first)::fields) (List.cons_ne_nil _ _) fuel depth []
        rest hfit.1 hfit.2 hlen
      obtain ⟨tail,ht⟩ := bytes_writeString escape key
      have hcons : bytes (writeMembers escape ((key,first)::fields))++rest=
          0x22::(tail++(bytes (':' :: (write escape first++writeMoreMembers escape fields))++
            rest)) := by
        rw [writeMembers,bytes_append,ht]
        simp only [List.append_assoc,List.cons_append]
      have hspace : space (bytes (writeMembers escape ((key,first)::fields))++rest)=
          bytes (writeMembers escape ((key,first)::fields))++rest := by
        rw [hcons,space_cons rfl]
      have htake : take 0x7d (bytes (writeMembers escape ((key,first)::fields))++rest)=
          none := by
        rw [hcons]
        rfl
      change value env (fuel+1) depth
        (0x7b::(bytes (writeMembers escape ((key,first)::fields))++rest))=_
      rw [value_dispatch env _ hdepth rfl,if_neg (by decide),if_pos rfl,hspace,htake]
      dsimp only
      rw [hmem,hheight]
      by_cases hd : depth+heightMembers ((key,first)::fields)≤128
      · rw [if_pos hd,if_pos hd]
        rfl
      · rw [if_neg hd,if_neg hd]
        rfl

/-- The written elements are read back up to their closing bracket. -/
theorem elements_write (he : Escaping escape) : ∀ (values : List Json), values≠[] →
    ∀ (fuel depth : ℕ) (rest : List UInt8), FitElements env values →
    (bytes (writeElements escape values)).length<fuel →
    elements env fuel depth (bytes (writeElements escape values)++rest)=
      if depth+heightElements values≤128 then .ok (wiresOf values,rest) else .error .invalid
  | [],hne,_,_,_,_,_ => absurd rfl hne
  | values,_,0,_,_,_,hf => absurd hf (Nat.not_lt_zero _)
  | [first],_,fuel+1,depth,rest,hfit,hf => by
    simp only [FitElements] at hfit
    have hmax : heightElements [first]=height first+1 := Nat.max_zero _
    have hsplit : bytes (writeElements escape [first])++rest=
        bytes (write escape first)++0x5d::rest := by
      rw [writeElements,bytes_append,List.append_assoc]
      rfl
    have hlen : (bytes (write escape first)).length<fuel := by
      rw [writeElements,bytes_append,List.length_append] at hf
      have h1 : (bytes (writeMoreElements escape [])).length=1 := rfl
      omega
    have hv := value_write he first fuel (depth+1) (0x5d::rest) hfit.1 hlen (stop_cons rfl rest)
    rw [hsplit,elements,hv,hmax]
    by_cases hd : depth+1+height first≤128
    · rw [if_pos hd,if_pos (by omega)]
      rfl
    · rw [if_neg hd,if_neg (by omega)]
      rfl
  | first::second::values,_,fuel+1,depth,rest,hfit,hf => by
    simp only [FitElements] at hfit
    have hmax : heightElements (first::second::values)=
        max (height first+1) (heightElements (second::values)) := rfl
    have hsplit : bytes (writeElements escape (first::second::values))++rest=
        bytes (write escape first)++
          0x2c::(bytes (writeElements escape (second::values))++rest) := by
      rw [writeElements,bytes_append,List.append_assoc]
      rfl
    have hlen : (bytes (write escape first)).length<fuel ∧
        (bytes (writeElements escape (second::values))).length<fuel := by
      have h2 := congrArg List.length hsplit
      rw [List.length_append,List.length_append,List.length_cons,List.length_append] at h2
      omega
    have hv := value_write he first fuel (depth+1)
      (0x2c::(bytes (writeElements escape (second::values))++rest)) hfit.1 hlen.1
      (stop_cons rfl _)
    have hr := elements_write he (second::values) (List.cons_ne_nil _ _) fuel depth rest hfit.2
      hlen.2
    rw [hsplit,elements,hv,hmax]
    by_cases hd : depth+1+height first≤128
    · rw [if_pos hd]
      change (elements env fuel depth _ >>= _)=_
      rw [hr]
      by_cases hd' : depth+heightElements (second::values)≤128
      · rw [if_pos hd',if_pos (by omega)]
        rfl
      · rw [if_neg hd',if_neg (by omega)]
        rfl
    · rw [if_neg hd,if_neg (by omega)]
      rfl

/-- The written members are read back up to their closing brace. -/
theorem members_write (he : Escaping escape) : ∀ (fields : List (String×Json)), fields≠[] →
    ∀ (fuel depth : ℕ) (seen : List String) (rest : List UInt8), Keyed env seen fields →
    FitMembers env fields → (bytes (writeMembers escape fields)).length<fuel →
    members env fuel depth seen (bytes (writeMembers escape fields)++rest)=
      if depth+heightMembers fields≤128 then .ok (fieldsOf fields,rest) else .error .invalid
  | [],hne,_,_,_,_,_,_,_ => absurd rfl hne
  | fields,_,0,_,_,_,_,_,hf => absurd hf (Nat.not_lt_zero _)
  | [(key,first)],_,fuel+1,depth,seen,rest,hkey,hfit,hf => by
    obtain ⟨folded,hl,hnew,-⟩ := hkey
    simp only [FitMembers] at hfit
    have hmax : heightMembers [(key,first)]=height first+1 := Nat.max_zero _
    have hsplit : bytes (writeMembers escape [(key,first)])++rest=
        bytes (writeString escape key)++
          0x3a::(bytes (write escape first)++0x7d::rest) := by
      rw [writeMembers,bytes_append,bytes_cons,bytes_append]
      simp only [List.append_assoc]
      rfl
    have hlen : (bytes (write escape first)).length<fuel := by
      have h2 := congrArg List.length hsplit
      rw [List.length_append,List.length_append,List.length_cons,List.length_append,
        List.length_cons] at h2
      omega
    have hv := value_write he first fuel (depth+1) (0x7d::rest) hfit.1 hlen
      (stop_cons rfl rest)
    obtain ⟨tail,ht⟩ := bytes_writeString escape key
    have hs := string_write he key (0x3a::(bytes (write escape first)++0x7d::rest))
    have hspace : space (bytes (writeString escape key)++
        0x3a::(bytes (write escape first)++0x7d::rest))=bytes (writeString escape key)++
        0x3a::(bytes (write escape first)++0x7d::rest) := by
      rw [ht,List.cons_append,space_cons rfl]
    rw [hsplit,members,hspace,hs,hmax]
    change (env.lowercaseKey key >>= _)=_
    rw [hl]
    change (if folded ∈ seen then _ else _)=_
    rw [if_neg hnew]
    change (value env fuel (depth+1) _ >>= _)=_
    rw [hv]
    by_cases hd : depth+1+height first≤128
    · rw [if_pos hd,if_pos (by omega)]
      rfl
    · rw [if_neg hd,if_neg (by omega)]
      rfl
  | (key,first)::(key',second)::fields,_,fuel+1,depth,seen,rest,hkey,hfit,hf => by
    obtain ⟨folded,hl,hnew,hkeys⟩ := hkey
    simp only [FitMembers] at hfit
    have hmax : heightMembers ((key,first)::(key',second)::fields)=
        max (height first+1) (heightMembers ((key',second)::fields)) := rfl
    have hsplit : bytes (writeMembers escape ((key,first)::(key',second)::fields))++rest=
        bytes (writeString escape key)++0x3a::(bytes (write escape first)++
          0x2c::(bytes (writeMembers escape ((key',second)::fields))++rest)) := by
      rw [writeMembers,bytes_append,bytes_cons,bytes_append]
      simp only [List.append_assoc]
      rfl
    have hlen : (bytes (write escape first)).length<fuel ∧
        (bytes (writeMembers escape ((key',second)::fields))).length<fuel := by
      have h2 := congrArg List.length hsplit
      rw [List.length_append,List.length_append,List.length_cons,List.length_append,
        List.length_cons,List.length_append] at h2
      omega
    have hv := value_write he first fuel (depth+1)
      (0x2c::(bytes (writeMembers escape ((key',second)::fields))++rest)) hfit.1
      hlen.1 (stop_cons rfl _)
    have hr := members_write he ((key',second)::fields) (List.cons_ne_nil _ _) fuel depth
      (folded::seen) rest hkeys hfit.2 hlen.2
    obtain ⟨tail,ht⟩ := bytes_writeString escape key
    have hs := string_write he key (0x3a::(bytes (write escape first)++
      0x2c::(bytes (writeMembers escape ((key',second)::fields))++rest)))
    have hspace : space (bytes (writeString escape key)++0x3a::(bytes (write escape first)++
        0x2c::(bytes (writeMembers escape ((key',second)::fields))++rest)))=
        bytes (writeString escape key)++0x3a::(bytes (write escape first)++
        0x2c::(bytes (writeMembers escape ((key',second)::fields))++rest)) := by
      rw [ht,List.cons_append,space_cons rfl]
    rw [hsplit,members,hspace,hs,hmax]
    change (env.lowercaseKey key >>= _)=_
    rw [hl]
    change (if folded ∈ seen then _ else _)=_
    rw [if_neg hnew]
    change (value env fuel (depth+1) _ >>= _)=_
    rw [hv]
    by_cases hd : depth+1+height first≤128
    · rw [if_pos hd]
      change (members env fuel depth (folded::seen) _ >>= _)=_
      rw [hr]
      by_cases hd' : depth+heightMembers ((key',second)::fields)≤128
      · rw [if_pos hd',if_pos (by omega)]
        rfl
      · rw [if_neg hd',if_neg (by omega)]
        rfl
    · rw [if_neg hd,if_neg (by omega)]
      rfl

end

/-- A whole compact text within the nesting bound is parsed as the value it was
written from, and a deeper one is refused. -/
theorem parse_write (he : Escaping escape) {j : Json} (hfit : Fit env j) :
    parse env (bytes (write escape j))=
      if height j≤128 then .ok (wireOf j) else .error .invalid := by
  have hv := value_write he j ((bytes (write escape j)).length+1) 0 [] hfit
    (Nat.lt_succ_self _) (fun _ _ h => nomatch h)
  rw [List.append_nil,Nat.zero_add] at hv
  rw [parse,hv]
  by_cases hd : height j≤128
  · rw [if_pos hd,if_pos hd]
    rfl
  · rw [if_neg hd,if_neg hd]
    rfl

end ReadBack

end Librairii.WireParser
