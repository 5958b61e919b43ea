import Librairii.ScannerCorrectness
import Librairii.WireParser

/-!
# Two decoders of quoted strings

The saved-query parser reads a quoted string in one pass and goes back when a second surrogate
is missing. The story scanner finds the end of the string first and then decodes what stands
between the quotes. Both accept the same prefixes and produce the same text.
-/

namespace Librairii.StudioStrings

open FrozenText JsonText JsonGrammar StudioScanner

def digitValue (byte : UInt8) : Option ℕ :=
  if 0x30≤byte ∧ byte≤0x39 then some (byte.toNat-0x30)
  else if 0x61≤byte ∧ byte≤0x66 then some (byte.toNat-0x61+10)
  else if 0x41≤byte ∧ byte≤0x46 then some (byte.toNat-0x41+10)
  else none

/-- The number of four hexadecimal digits. -/
def hex4 (input : List UInt8) : Option ℕ :=
  if input.length<4 then none
  else (input.take 4).foldlM (fun value byte => (digitValue byte).map (value<<<4 ||| ·)) 0

def leadBounds (first : UInt8) : Option (ℕ×UInt8×UInt8) :=
  if 0xc2≤first ∧ first≤0xdf then some (2,0x80,0xbf)
  else if first=0xe0 then some (3,0xa0,0xbf)
  else if (0xe1≤first ∧ first≤0xec) ∨ (0xee≤first ∧ first≤0xef) then some (3,0x80,0xbf)
  else if first=0xed then some (3,0x80,0x9f)
  else if first=0xf0 then some (4,0x90,0xbf)
  else if 0xf1≤first ∧ first≤0xf3 then some (4,0x80,0xbf)
  else if first=0xf4 then some (4,0x80,0x8f)
  else none

def continues (byte : UInt8) : Bool := 0x80≤byte && byte≤0xbf

/-- The first character of bytes and its width; one invalid byte is replaced. -/
def rune (first : UInt8) (rest : List UInt8) : Char×ℕ :=
  if first<0x80 then (Char.ofNat first.toNat,1)
  else match leadBounds first with
  | none => ('\ufffd',1)
  | some (width,minimum,maximum) =>
    if rest.length+1<width ∨ ¬rest.head?.any (fun b => minimum≤b && b ≤ maximum) ∨
        ((rest.take (width-1)).drop 1).any (fun b => !continues b) then ('\ufffd',1)
    else
      let value := (rest.take (width-1)).foldl
        (fun value byte => value<<<6 ||| (byte.toNat &&& 0x3f))
        (first.toNat &&& (0x7f>>>width))
      (if value.isValidChar then Char.ofNat value else '\ufffd',width)

/-- The character of an escape other than a four-digit one. -/
def shortText (escape : UInt8) : Char :=
  if escape=0x62 then '\x08'
  else if escape=0x66 then '\x0c'
  else if escape=0x6e then '\n'
  else if escape=0x72 then '\r'
  else if escape=0x74 then '\t'
  else Char.ofNat escape.toNat

/-- The second surrogate at the front of bytes, written as an escape of its own. -/
def lowEscape : List UInt8 → Option ℕ
  | 0x5c::0x75::rest => (hex4 rest).filter fun low => 0xdc00≤low && low≤0xdfff
  | _ => none

/-- The character of a four-digit escape and the bytes it takes of those after its digits. -/
def scalarText (high : ℕ) (rest : List UInt8) : Char×ℕ :=
  let character := fun scalar : ℕ => if scalar.isValidChar then Char.ofNat scalar else '\ufffd'
  if 0xd800≤high ∧ high≤0xdfff then
    match if high≤0xdbff then lowEscape rest else none with
    | some low => (character (0x10000+((high-0xd800)<<<10)+low-0xdc00),6)
    | none => (character 0xfffd,0)
  else (character high,0)

/-- The characters between the quotes; nothing where an index leaves the input. -/
def unquoteBody (input : List UInt8) : Option (List Char) :=
  match input with
  | [] => some []
  | byte::rest =>
    if byte=0x5c then
      match rest with
      | [] => none
      | escape::rest =>
        if escape=0x75 then
          let read := scalarText ((hex4 rest).getD 0xfffd) (rest.drop 4)
          (unquoteBody ((rest.drop 4).drop read.2)).map (read.1::·)
        else (unquoteBody rest).map (shortText escape::·)
    else
      let read := rune byte rest
      (unquoteBody (rest.drop (read.2-1))).map (read.1::·)
termination_by input.length
decreasing_by all_goals simp_wf <;> omega

/-- The text of a quoted token; nothing where an index leaves the token. -/
def unquote (token : List UInt8) : Option String :=
  if token.length<2 then none
  else (unquoteBody ((token.drop 1).take (token.length-2))).map String.ofList

theorem shift_digit {value digit : ℕ} (h : digit<16) : value<<<4 ||| digit=value*16+digit := by
  rw [←Nat.shiftLeft_add_eq_or_of_lt (show digit<2^4 from h),Nat.shiftLeft_eq]

theorem shift_bits (value byte : ℕ) : value<<<6 ||| (byte &&& 0x3f)=value*64+byte%64 := by
  have hbits : byte &&& 0x3f=byte%64 := Nat.and_two_pow_sub_one_eq_mod byte 6
  have hlt : byte%64<2^6 := Nat.mod_lt _ (by decide)
  rw [hbits,←Nat.shiftLeft_add_eq_or_of_lt hlt,Nat.shiftLeft_eq]

theorem digitValue_eq (byte : UInt8) : digitValue byte=WireParser.hexByte byte := rfl

variable {v : ℕ}

theorem digitValue_lt {byte : UInt8} (h : digitValue byte=some v) : v<16 := by
  unfold digitValue at h
  simp only [UInt8.le_iff_toNat_le,UInt8.reduceToNat] at h
  split_ifs at h with h1 h2 h3
  · cases h
    omega
  · cases h
    omega
  · cases h
    omega

/-- The two readings of four digits are one. -/
theorem hex_eq (input : List UInt8) :
    WireParser.hex input=(hex4 input).map fun v => (v,input.drop 4) := by
  match input with
  | [] | [_] | [_,_] | [_,_,_] => rfl
  | a::b::c::d::rest =>
    have hlength : ¬(a::b::c::d::rest).length<4 := by simp
    simp only [WireParser.hex,←digitValue_eq,hex4,if_neg hlength,List.take_succ_cons,
      List.take_zero,List.foldlM_cons,List.foldlM_nil,List.drop_succ_cons,List.drop_zero]
    cases ha : digitValue a with
    | none => rfl
    | some va =>
    cases hb : digitValue b with
    | none => rfl
    | some vb =>
    cases hc : digitValue c with
    | none => rfl
    | some vc =>
    cases hd : digitValue d with
    | none => rfl
    | some vd =>
      simp only [Option.map_some,Option.bind_eq_bind,Option.bind_some,
        shift_digit (digitValue_lt ha),shift_digit (digitValue_lt hb),
        shift_digit (digitValue_lt hc),shift_digit (digitValue_lt hd),Option.pure_def]
      congr 2
      omega

variable {b : UInt8}

theorem byte_eq {n : ℕ} (hn : n<256) (h : b.toNat=n) : UInt8.ofNat n=b := by
  refine UInt8.toNat_inj.mp ?_
  rw [WireParser.toNat_ofNat hn,h]

/-- The number of the character of a valid code point. -/
theorem toNat_charOfNat (h : v.isValidChar) : (Char.ofNat v).val.toNat=v := by
  rw [Char.ofNat,dif_pos h]
  rfl

variable {x : UInt8}

theorem encode_two (hb : 0xc2≤b.toNat ∧ b.toNat≤0xdf) (hx : 0x80≤x.toNat ∧ x.toNat≤0xbf) :
    (b.toNat%32*64+x.toNat%64).isValidChar ∧
      String.utf8EncodeChar (Char.ofNat (b.toNat%32*64+x.toNat%64))=[b,x] := by
  have hvalid : (b.toNat%32*64+x.toNat%64).isValidChar := .inl (by omega)
  refine ⟨hvalid,?_⟩
  unfold String.utf8EncodeChar
  dsimp only
  rw [toNat_charOfNat hvalid,if_neg (by omega),if_pos (by omega)]
  rw [byte_eq (b:=b) (by omega) (by omega),byte_eq (b:=x) (by omega) (by omega)]

variable {y : UInt8}

theorem encode_three (hb : 0xe0≤b.toNat ∧ b.toNat≤0xef) (hx : 0x80≤x.toNat ∧ x.toNat≤0xbf)
    (hy : 0x80≤y.toNat ∧ y.toNat≤0xbf)
    (hlow : b.toNat=0xe0 → 0xa0≤x.toNat) (hhigh : b.toNat=0xed → x.toNat≤0x9f) :
    ((b.toNat%16*64+x.toNat%64)*64+y.toNat%64).isValidChar ∧
      String.utf8EncodeChar (Char.ofNat ((b.toNat%16*64+x.toNat%64)*64+y.toNat%64))=
        [b,x,y] := by
  have hvalid : ((b.toNat%16*64+x.toNat%64)*64+y.toNat%64).isValidChar := by
    unfold Nat.isValidChar
    omega
  refine ⟨hvalid,?_⟩
  unfold String.utf8EncodeChar
  dsimp only
  rw [toNat_charOfNat hvalid,if_neg (by omega),if_neg (by omega),if_pos (by omega)]
  rw [byte_eq (b:=b) (by omega) (by omega),byte_eq (b:=x) (by omega) (by omega),
    byte_eq (b:=y) (by omega) (by omega)]

variable {z : UInt8}

theorem encode_four (hb : 0xf0≤b.toNat ∧ b.toNat≤0xf4) (hx : 0x80≤x.toNat ∧ x.toNat≤0xbf)
    (hy : 0x80≤y.toNat ∧ y.toNat≤0xbf) (hz : 0x80≤z.toNat ∧ z.toNat≤0xbf)
    (hlow : b.toNat=0xf0 → 0x90≤x.toNat) (hhigh : b.toNat=0xf4 → x.toNat≤0x8f) :
    (((b.toNat%8*64+x.toNat%64)*64+y.toNat%64)*64+z.toNat%64).isValidChar ∧
      String.utf8EncodeChar
        (Char.ofNat (((b.toNat%8*64+x.toNat%64)*64+y.toNat%64)*64+z.toNat%64))=
        [b,x,y,z] := by
  have hvalid : (((b.toNat%8*64+x.toNat%64)*64+y.toNat%64)*64+z.toNat%64).isValidChar := by
    unfold Nat.isValidChar
    omega
  refine ⟨hvalid,?_⟩
  unfold String.utf8EncodeChar
  dsimp only
  rw [toNat_charOfNat hvalid,if_neg (by omega),if_neg (by omega),if_neg (by omega)]
  rw [byte_eq (b:=b) (by omega) (by omega),byte_eq (b:=x) (by omega) (by omega),
    byte_eq (b:=y) (by omega) (by omega),byte_eq (b:=z) (by omega) (by omega)]

/-- What a lead byte announces, by its number. -/
theorem leadBounds_cases (b : UInt8) :
    ((0xc2≤b.toNat ∧ b.toNat≤0xdf) ∧ leadBounds b=some (2,0x80,0xbf)) ∨
    ((0xe0≤b.toNat ∧ b.toNat≤0xef) ∧ ∃ low high, leadBounds b=some (3,low,high) ∧
      low.toNat=(if b.toNat=0xe0 then 0xa0 else 0x80) ∧
      high.toNat=if b.toNat=0xed then 0x9f else 0xbf) ∨
    ((0xf0≤b.toNat ∧ b.toNat≤0xf4) ∧ ∃ low high, leadBounds b=some (4,low,high) ∧
      low.toNat=(if b.toNat=0xf0 then 0x90 else 0x80) ∧
      high.toNat=if b.toNat=0xf4 then 0x8f else 0xbf) ∨
    ((b.toNat<0xc2 ∨ 0xf4<b.toNat) ∧ leadBounds b=none) := by
  have heq : ∀ n : UInt8, b=n ↔ b.toNat=n.toNat := fun n => UInt8.toNat_inj.symm
  unfold leadBounds
  simp only [UInt8.le_iff_toNat_le,heq,UInt8.reduceToNat]
  by_cases h2 : 0xc2≤b.toNat ∧ b.toNat≤0xdf
  · left
    rw [if_pos h2]
    exact ⟨h2,rfl⟩
  rw [if_neg h2]
  by_cases h3 : 0xe0≤b.toNat ∧ b.toNat≤0xef
  · right
    left
    refine ⟨h3,?_⟩
    by_cases he0 : b.toNat=0xe0
    · exact ⟨0xa0,0xbf,by rw [if_pos he0],by rw [if_pos he0]; rfl,
        by rw [if_neg (by omega)]; rfl⟩
    by_cases hed : b.toNat=0xed
    · exact ⟨0x80,0x9f,by rw [if_neg he0,if_neg (by omega),if_pos hed],
        by rw [if_neg he0]; rfl,by rw [if_pos hed]; rfl⟩
    · exact ⟨0x80,0xbf,by rw [if_neg he0,if_pos (by omega)],by rw [if_neg he0]; rfl,
        by rw [if_neg hed]; rfl⟩
  rw [if_neg (by omega),if_neg (by omega),if_neg (by omega)]
  by_cases h4 : 0xf0≤b.toNat ∧ b.toNat≤0xf4
  · right
    right
    left
    refine ⟨h4,?_⟩
    by_cases hf0 : b.toNat=0xf0
    · exact ⟨0x90,0xbf,by rw [if_pos hf0],by rw [if_pos hf0]; rfl,
        by rw [if_neg (by omega)]; rfl⟩
    by_cases hf4 : b.toNat=0xf4
    · exact ⟨0x80,0x8f,by rw [if_neg hf0,if_neg (by omega),if_pos hf4],
        by rw [if_neg hf0]; rfl,by rw [if_pos hf4]; rfl⟩
    · exact ⟨0x80,0xbf,by rw [if_neg hf0,if_pos (by omega)],by rw [if_neg hf0]; rfl,
        by rw [if_neg hf4]; rfl⟩
  · right
    right
    right
    rw [if_neg (by omega),if_neg (by omega),if_neg (by omega)]
    exact ⟨by omega,rfl⟩

variable {high low : UInt8}

theorem bounds_iff : (low≤x && x≤high)=true ↔ low.toNat≤x.toNat ∧ x.toNat≤high.toNat := by
  simp only [Bool.and_eq_true,decide_eq_true_eq,UInt8.le_iff_toNat_le]

/-- A continuation byte, by its number. -/
theorem continues_iff : continues x=true ↔ 0x80≤x.toNat ∧ x.toNat≤0xbf :=
  bounds_iff

variable {t : List UInt8}

theorem rune_two (hb : ¬b<0x80) (hlead : leadBounds b=some (2,low,high))
    (hx : (low≤x && x≤high)=true) (hvalid : (b.toNat%32*64+x.toNat%64).isValidChar) :
    rune b (x::t)=(Char.ofNat (b.toNat%32*64+x.toNat%64),2) := by
  have hmask : b.toNat &&& (0x7f>>>2)=b.toNat%32 := Nat.and_two_pow_sub_one_eq_mod b.toNat 5
  rw [rune,if_neg hb,hlead]
  dsimp only
  rw [if_neg]
  · simp only [Nat.add_one_sub_one,List.take_succ_cons,List.take_zero,List.foldl_cons,
      List.foldl_nil,shift_bits,hmask,if_pos hvalid]
  · simp only [List.length_cons,List.head?_cons,Option.any_some,hx,Nat.add_one_sub_one,
      List.take_succ_cons,List.take_zero,List.drop_succ_cons,List.drop_nil,List.any_nil,
      not_true_eq_false,Bool.false_eq_true,or_false]
    omega

theorem rune_three (hb : ¬b<0x80) (hlead : leadBounds b=some (3,low,high))
    (hx : (low≤x && x≤high)=true) (hy : continues y=true)
    (hvalid : ((b.toNat%16*64+x.toNat%64)*64+y.toNat%64).isValidChar) :
    rune b (x::y::t)=(Char.ofNat ((b.toNat%16*64+x.toNat%64)*64+y.toNat%64),3) := by
  have hmask : b.toNat &&& (0x7f>>>3)=b.toNat%16 := Nat.and_two_pow_sub_one_eq_mod b.toNat 4
  rw [rune,if_neg hb,hlead]
  dsimp only
  rw [if_neg]
  · simp only [Nat.add_one_sub_one,List.take_succ_cons,List.take_zero,List.foldl_cons,
      List.foldl_nil,shift_bits,hmask,if_pos hvalid]
  · simp only [List.length_cons,List.head?_cons,Option.any_some,hx,Nat.add_one_sub_one,
      List.take_succ_cons,List.take_zero,List.drop_succ_cons,List.drop_zero,List.any_nil,
      List.any_cons,hy,Bool.not_true,Bool.false_or,not_true_eq_false,Bool.false_eq_true,or_false]
    omega

theorem rune_four (hb : ¬b<0x80) (hlead : leadBounds b=some (4,low,high))
    (hx : (low≤x && x≤high)=true) (hy : continues y=true) (hz : continues z=true)
    (hvalid : (((b.toNat%8*64+x.toNat%64)*64+y.toNat%64)*64+z.toNat%64).isValidChar) :
    rune b (x::y::z::t)=
      (Char.ofNat (((b.toNat%8*64+x.toNat%64)*64+y.toNat%64)*64+z.toNat%64),4) := by
  have hmask : b.toNat &&& (0x7f>>>4)=b.toNat%8 := Nat.and_two_pow_sub_one_eq_mod b.toNat 3
  rw [rune,if_neg hb,hlead]
  dsimp only
  rw [if_neg]
  · simp only [Nat.add_one_sub_one,List.take_succ_cons,List.take_zero,List.foldl_cons,
      List.foldl_nil,shift_bits,hmask,if_pos hvalid]
  · simp only [List.length_cons,List.head?_cons,Option.any_some,hx,Nat.add_one_sub_one,
      List.take_succ_cons,List.take_zero,List.drop_succ_cons,List.drop_zero,List.any_nil,
      List.any_cons,hy,hz,Bool.not_true,Bool.false_or,not_true_eq_false,Bool.false_eq_true,
      or_false]
    omega

/-- Bytes start with a character that takes several. -/
def Wide (input : List UInt8) (c : Char) : Prop :=
  128≤c.toNat ∧ ∃ tail, input=String.utf8EncodeChar c++tail

theorem high_byte {b : UInt8} (h : 0x80≤b.toNat) : ¬b<0x80 := by
  simp only [UInt8.lt_iff_toNat_lt,UInt8.reduceToNat]
  omega

variable {c : Char}

theorem decoded_eq {n : ℕ} (h : v=c.toNat) : (Char.ofNat v,n)=(c,n) := by
  rw [h,Char.ofNat_toNat]

theorem rune_wide_two (hc : 128≤c.toNat ∧ c.toNat≤0x7ff) (hb : b.toNat=c.toNat/64%32+0xc0)
    (hx : x.toNat=c.toNat%64+0x80) : ¬b<0x80 ∧ rune b (x::t)=(c,2) := by
  have hvalid : c.toNat.isValidChar := c.valid
  have hlow : ¬b<0x80 := high_byte (by omega)
  have hcode : b.toNat%32*64+x.toNat%64=c.toNat := by omega
  have hbound : (0x80≤x && x≤0xbf)=true := by
    simp only [bounds_iff,UInt8.reduceToNat]
    omega
  refine ⟨hlow,?_⟩
  rcases leadBounds_cases b with ⟨hr,hlead⟩ | ⟨hr,-⟩ | ⟨hr,-⟩ | ⟨hr,-⟩
  · rw [rune_two hlow hlead hbound (hcode.symm ▸ hvalid)]
    exact decoded_eq hcode
  · omega
  · omega
  · omega

theorem rune_wide_three (hc : 0x800≤c.toNat ∧ c.toNat≤0xffff) (hb : b.toNat=c.toNat/4096%16+0xe0)
    (hx : x.toNat=c.toNat/64%64+0x80) (hy : y.toNat=c.toNat%64+0x80) :
    ¬b<0x80 ∧ rune b (x::y::t)=(c,3) := by
  have hvalid : c.toNat.isValidChar := c.valid
  have hlow : ¬b<0x80 := high_byte (by omega)
  have hcode : (b.toNat%16*64+x.toNat%64)*64+y.toNat%64=c.toNat := by omega
  refine ⟨hlow,?_⟩
  rcases leadBounds_cases b with ⟨hr,-⟩ | ⟨hr,low,high,hlead,hlo,hhi⟩ | ⟨hr,-⟩ | ⟨hr,-⟩
  · omega
  · have hrange := hvalid
    unfold Nat.isValidChar at hrange
    have hbound : (low≤x && x≤high)=true := by
      rw [bounds_iff,hlo,hhi]
      split_ifs <;> omega
    have hnext : continues y=true := by
      rw [continues_iff]
      omega
    rw [rune_three hlow hlead hbound hnext (hcode.symm ▸ hvalid)]
    exact decoded_eq hcode
  · omega
  · omega

theorem rune_wide_four (hc : 0x10000≤c.toNat) (hb : b.toNat=c.toNat/262144%8+0xf0)
    (hx : x.toNat=c.toNat/4096%64+0x80) (hy : y.toNat=c.toNat/64%64+0x80)
    (hz : z.toNat=c.toNat%64+0x80) : ¬b<0x80 ∧ rune b (x::y::z::t)=(c,4) := by
  have hvalid : c.toNat.isValidChar := c.valid
  have hmax : c.toNat<0x110000 := by
    unfold Nat.isValidChar at hvalid
    omega
  have hlow : ¬b<0x80 := high_byte (by omega)
  have hcode : ((b.toNat%8*64+x.toNat%64)*64+y.toNat%64)*64+z.toNat%64=c.toNat := by omega
  refine ⟨hlow,?_⟩
  rcases leadBounds_cases b with ⟨hr,-⟩ | ⟨hr,-⟩ | ⟨hr,low,high,hlead,hlo,hhi⟩ | ⟨hr,-⟩
  · omega
  · omega
  · have hbound : (low≤x && x≤high)=true := by
      rw [bounds_iff,hlo,hhi]
      split_ifs <;> omega
    have hsecond : continues y=true := by
      rw [continues_iff]
      omega
    have hthird : continues z=true := by
      rw [continues_iff]
      omega
    rw [rune_four hlow hlead hbound hsecond hthird (hcode.symm ▸ hvalid)]
    exact decoded_eq hcode
  · omega

/-- Bytes that a character starts with are decoded to it. -/
theorem rune_wide {b : UInt8} {rest : List UInt8} {c : Char} (h : Wide (b::rest) c) :
    ¬b<0x80 ∧ rune b rest=(c,(String.utf8EncodeChar c).length) := by
  obtain ⟨hc,tail,heq⟩ := h
  have hv : c.val.toNat=c.toNat := rfl
  unfold String.utf8EncodeChar at heq ⊢
  dsimp only at heq ⊢
  rw [hv] at heq ⊢
  have hno : ¬c.toNat≤0x7f := by omega
  simp only [if_neg hno] at heq ⊢
  by_cases h2 : c.toNat≤0x7ff
  · simp only [if_pos h2] at heq ⊢
    cases heq
    exact rune_wide_two ⟨hc,h2⟩ (WireParser.toNat_ofNat (by omega))
      (WireParser.toNat_ofNat (by omega))
  simp only [if_neg h2] at heq ⊢
  by_cases h3 : c.toNat≤0xffff
  · simp only [if_pos h3] at heq ⊢
    cases heq
    exact rune_wide_three ⟨by omega,h3⟩ (WireParser.toNat_ofNat (by omega))
      (WireParser.toNat_ofNat (by omega)) (WireParser.toNat_ofNat (by omega))
  · simp only [if_neg h3] at heq ⊢
    cases heq
    exact rune_wide_four (by omega) (WireParser.toNat_ofNat (by omega))
      (WireParser.toNat_ofNat (by omega)) (WireParser.toNat_ofNat (by omega))
      (WireParser.toNat_ofNat (by omega))

theorem wide_of_code {s : List UInt8} (hv : 128≤v) (hvalid : v.isValidChar)
    (h : String.utf8EncodeChar (Char.ofNat v)=s) : Wide (s++t) (Char.ofNat v) := by
  refine ⟨?_,t,by rw [h]⟩
  have hcode := toNat_charOfNat hvalid
  exact le_of_le_of_eq hv hcode.symm

/-- A byte that starts no character is replaced alone. -/
theorem rune_invalid {b : UInt8} {rest : List UInt8} (hb : ¬b<0x80)
    (h : ∀ c, ¬Wide (b::rest) c) : rune b rest=('\ufffd',1) := by
  rw [rune,if_neg hb]
  rcases leadBounds_cases b with ⟨hr,hlead⟩ | ⟨hr,low,high,hlead,hlo,hhi⟩ |
    ⟨hr,low,high,hlead,hlo,hhi⟩ | ⟨-,hlead⟩
  · rw [hlead]
    dsimp only
    refine if_pos ?_
    by_contra hgood
    simp only [not_or,not_not] at hgood
    obtain ⟨hlength,hx,-⟩ := hgood
    cases rest with
    | nil => simp at hlength
    | cons x t =>
      have hx := bounds_iff.mp hx
      simp only [UInt8.reduceToNat] at hx
      obtain ⟨hvalid,hcode⟩ := encode_two hr hx
      exact h _ (wide_of_code (t:=t) (by omega) hvalid hcode)
  · rw [hlead]
    dsimp only
    refine if_pos ?_
    by_contra hgood
    simp only [not_or,not_not] at hgood
    obtain ⟨hlength,hx,hcont⟩ := hgood
    match rest with
    | [] | [_] => simp at hlength
    | x::y::t =>
      have hx := bounds_iff.mp hx
      have hy : continues y=true := by simpa using hcont
      rw [hlo,hhi] at hx
      have hbound : 0x80≤x.toNat ∧ x.toNat≤0xbf := by split_ifs at hx <;> omega
      have hfirst : b.toNat=0xe0 → 0xa0≤x.toNat := by split_ifs at hx <;> omega
      have hlast : b.toNat=0xed → x.toNat≤0x9f := by split_ifs at hx <;> omega
      have hy := continues_iff.mp hy
      obtain ⟨hvalid,hcode⟩ := encode_three hr hbound hy hfirst hlast
      exact h _ (wide_of_code (t:=t) (by omega) hvalid hcode)
  · rw [hlead]
    dsimp only
    refine if_pos ?_
    by_contra hgood
    simp only [not_or,not_not] at hgood
    obtain ⟨hlength,hx,hcont⟩ := hgood
    match rest with
    | [] | [_] | [_,_] => simp at hlength
    | x::y::z::t =>
      have hx := bounds_iff.mp hx
      have hyz : continues y=true ∧ continues z=true := by simpa using hcont
      rw [hlo,hhi] at hx
      have hbound : 0x80≤x.toNat ∧ x.toNat≤0xbf := by split_ifs at hx <;> omega
      have hfirst : b.toNat=0xf0 → 0x90≤x.toNat := by split_ifs at hx <;> omega
      have hlast : b.toNat=0xf4 → x.toNat≤0x8f := by split_ifs at hx <;> omega
      have hy := continues_iff.mp hyz.1
      have hz := continues_iff.mp hyz.2
      obtain ⟨hvalid,hcode⟩ := encode_four hr hbound hy hz hfirst hlast
      exact h _ (wide_of_code (t:=t) (by omega) hvalid hcode)
  · rw [hlead]

/-- The bytes of a character that takes several are beyond 127. -/
theorem encode_high {c : Char} (hc : 128≤c.toNat) :
    ∀ x ∈ String.utf8EncodeChar c, 0x80≤x.toNat := by
  have hv : c.val.toNat=c.toNat := rfl
  have hno : ¬c.toNat≤0x7f := by omega
  have hbyte : ∀ n, n<64 → 0x80≤(UInt8.ofNat (n+0x80)).toNat := by
    intro n hn
    rw [WireParser.toNat_ofNat (by omega)]
    omega
  intro x hx
  unfold String.utf8EncodeChar at hx
  dsimp only at hx
  rw [hv,if_neg hno] at hx
  split_ifs at hx with h2 h3
  · rcases List.mem_cons.mp hx with rfl | hx
    · rw [WireParser.toNat_ofNat (by omega)]
      omega
    · rw [List.mem_singleton.mp hx]
      exact hbyte _ (Nat.mod_lt _ (by decide))
  · rcases List.mem_cons.mp hx with rfl | hx
    · rw [WireParser.toNat_ofNat (by omega)]
      omega
    rcases List.mem_cons.mp hx with rfl | hx
    · exact hbyte _ (Nat.mod_lt _ (by decide))
    · rw [List.mem_singleton.mp hx]
      exact hbyte _ (Nat.mod_lt _ (by decide))
  · rcases List.mem_cons.mp hx with rfl | hx
    · rw [WireParser.toNat_ofNat (by omega)]
      omega
    rcases List.mem_cons.mp hx with rfl | hx
    · exact hbyte _ (Nat.mod_lt _ (by decide))
    rcases List.mem_cons.mp hx with rfl | hx
    · exact hbyte _ (Nat.mod_lt _ (by decide))
    · rw [List.mem_singleton.mp hx]
      exact hbyte _ (Nat.mod_lt _ (by decide))

theorem width_of_wide {b : UInt8} {rest tail : List UInt8} {c : Char} (hc : 128≤c.toNat)
    (h : b::rest=String.utf8EncodeChar c++tail) :
    WireParser.width b=(String.utf8EncodeChar c).length := by
  obtain ⟨n,t,hencode,-,-,hwidth⟩ := WireParser.encode_wide hc
  rw [hencode] at h ⊢
  cases h
  exact hwidth

theorem validCharacter_iff {b : UInt8} {rest : List UInt8} {c : Char} (hb : 0x80≤b.toNat) :
    WireParser.validCharacter b rest=some c ↔ Wide (b::rest) c := by
  constructor
  · intro h
    unfold WireParser.validCharacter at h
    split_ifs at h with hwidth
    unfold decodeFirst at h
    obtain ⟨l,hl⟩ := ByteArray.exists_of_utf8DecodeChar?_eq_some h
    have hlist := congrArg (fun bytes : ByteArray => bytes.data.toList) hl
    simp only [List.toList_data_toByteArray,ByteArray.data_append,Array.toList_append] at hlist
    rw [List.take_take] at hlist
    have heq : b::rest=String.utf8EncodeChar c++
        (l.data.toList++(b::rest).drop (min 4 (WireParser.width b))) := by
      rw [←List.append_assoc,←hlist,List.take_append_drop]
    refine ⟨?_,_,heq⟩
    by_contra hc
    rw [encode_ascii (by omega)] at heq
    have hcode := congrArg UInt8.toNat (List.cons.inj heq).1
    rw [WireParser.toNat_ofNat (by omega)] at hcode
    omega
  · rintro ⟨hc,tail,heq⟩
    have hwidth := width_of_wide hc heq
    have hne : String.utf8EncodeChar c≠[] := String.utf8EncodeChar_ne_nil
    rw [WireParser.validCharacter,if_neg,hwidth,heq,List.take_left,
      WireParser.decodeFirst_encode]
    rw [hwidth,heq,List.length_append]
    have hpos := List.length_pos_iff.mpr hne
    omega

/-- Bytes beyond 127 stand for themselves in a string. -/
theorem body_of_high {s : List UInt8} (hs : ∀ x ∈ s, 0x80≤x.toNat) (ht : StringBody t) :
    StringBody (s++t) := by
  induction s with
  | nil => exact ht
  | cons x s ih =>
    have hx := hs x List.mem_cons_self
    refine .plain ⟨?_,?_,?_⟩ (ih fun y hy => hs y (List.mem_cons_of_mem _ hy))
    · rw [UInt8.le_iff_toNat_le]
      exact le_trans (by decide) hx
    · rintro rfl
      exact absurd hx (by decide)
    · rintro rfl
      exact absurd hx (by decide)

theorem body_after_high {s t : List UInt8} (hs : ∀ x ∈ s, 0x80≤x.toNat)
    (h : StringBody (s++t)) : StringBody t := by
  induction s with
  | nil => exact h
  | cons x s ih =>
    have hx := hs x List.mem_cons_self
    refine ih (fun y hy => hs y (List.mem_cons_of_mem _ hy)) ?_
    rw [List.cons_append] at h
    generalize hall : x::(s++t)=all at h
    cases h with
    | nil => cases hall
    | plain hb ht =>
      cases hall
      exact ht
    | short hb ht =>
      rw [(List.cons.inj hall).1] at hx
      exact absurd hx (by decide)
    | unicode ha hb hc hd ht =>
      rw [(List.cons.inj hall).1] at hx
      exact absurd hx (by decide)

theorem wide_before_quote {body rest : List UInt8} {c : Char}
    (h : Wide (body++0x22::rest) c) : Wide body c := by
  obtain ⟨hc,tail,heq⟩ := h
  rcases List.append_eq_append_iff.mp heq with ⟨a,ha,hrest⟩ | ⟨a,ha,-⟩
  · cases a with
    | nil => exact ⟨hc,[],by rw [ha,List.append_nil,List.append_nil]⟩
    | cons x a =>
      have hx := encode_high hc x (by rw [ha]; simp)
      rw [←(List.cons.inj hrest).1] at hx
      exact absurd hx (by decide)
  · exact ⟨hc,a,ha⟩

theorem digitValue_of_hex : isHexDigit x=true ↔ ∃ v, digitValue x=some v := by
  have hx := UInt8.toNat_lt x
  simp only [isHexDigit,isDigit,digitValue,Bool.or_eq_true,Bool.and_eq_true,decide_eq_true_eq]
  split_ifs with h1 h2 h3
  · simp [h1]
  · simp [h2]
  · simp [h3]
  · simp only [exists_false,iff_false]
    tauto

theorem hex4_digits {a b c d : UInt8} (ha : isHexDigit a=true) (hb : isHexDigit b=true)
    (hc : isHexDigit c=true) (hd : isHexDigit d=true) :
    ∃ v, v<0x10000 ∧ ∀ t, hex4 (a::b::c::d::t)=some v := by
  obtain ⟨va,ha⟩ := digitValue_of_hex.mp ha
  obtain ⟨vb,hb⟩ := digitValue_of_hex.mp hb
  obtain ⟨vc,hc⟩ := digitValue_of_hex.mp hc
  obtain ⟨vd,hd⟩ := digitValue_of_hex.mp hd
  have := digitValue_lt ha
  have := digitValue_lt hb
  have := digitValue_lt hc
  have := digitValue_lt hd
  refine ⟨((va*16+vb)*16+vc)*16+vd,by omega,fun t => ?_⟩
  have hlength : ¬(a::b::c::d::t).length<4 := by simp
  have hhex : WireParser.hex (a::b::c::d::t)=some (((va*16+vb)*16+vc)*16+vd,t) := by
    simp only [WireParser.hex,←digitValue_eq,ha,hb,hc,hd]
  rw [hex_eq] at hhex
  cases h4 : hex4 (a::b::c::d::t) with
  | none =>
    rw [h4] at hhex
    cases hhex
  | some v =>
    rw [h4,Option.map_some] at hhex
    cases hhex
    rfl

variable {rest input : List UInt8}

theorem digits_of_hex (h : WireParser.hex input=some (v,rest)) :
    ∃ a b c d, input=a::b::c::d::rest ∧ isHexDigit a=true ∧ isHexDigit b=true ∧
      isHexDigit c=true ∧ isHexDigit d=true := by
  match input with
  | [] | [_] | [_,_] | [_,_,_] => cases h
  | a::b::c::d::t =>
    simp only [WireParser.hex,←digitValue_eq] at h
    cases ha : digitValue a with
    | none => simp [ha] at h
    | some va =>
    cases hb : digitValue b with
    | none => simp [ha,hb] at h
    | some vb =>
    cases hc : digitValue c with
    | none => simp [ha,hb,hc] at h
    | some vc =>
    cases hd : digitValue d with
    | none => simp [ha,hb,hc,hd] at h
    | some vd =>
      simp only [ha,hb,hc,hd,Option.some.injEq,Prod.mk.injEq] at h
      obtain ⟨-,rfl⟩ := h
      exact ⟨a,b,c,d,rfl,digitValue_of_hex.mpr ⟨va,ha⟩,digitValue_of_hex.mpr ⟨vb,hb⟩,
        digitValue_of_hex.mpr ⟨vc,hc⟩,digitValue_of_hex.mpr ⟨vd,hd⟩⟩

theorem digits_of_low {low : ℕ} (h : WireParser.lowSurrogate input=some (low,rest)) :
    ∃ a b c d, input=0x5c::0x75::a::b::c::d::rest ∧ isHexDigit a=true ∧ isHexDigit b=true ∧
      isHexDigit c=true ∧ isHexDigit d=true := by
  unfold WireParser.lowSurrogate at h
  match input with
  | [] => cases h
  | [x] =>
    by_cases hx : x=0x5c
    · simp [WireParser.take,hx] at h
    · simp [WireParser.take,hx] at h
  | x::y::t =>
    by_cases hx : x=0x5c
    · by_cases hy : y=0x75
      · simp only [WireParser.take,hx,hy,if_true,Option.bind_some,Option.filter_eq_some_iff] at h
        obtain ⟨a,b,c,d,rfl,hdigits⟩ := digits_of_hex h.1
        exact ⟨a,b,c,d,by rw [hx,hy],hdigits⟩
      · simp [WireParser.take,hx,hy] at h
    · simp [WireParser.take,hx] at h

theorem character_reads {after : List UInt8} (hb : b≠0x22)
    (h : WireParser.character b rest=.ok (c,after)) :
    ∃ used, b::rest=used++after ∧ ∀ t, StringBody t → StringBody (used++t) := by
  unfold WireParser.character at h
  split_ifs at h with hslash hcontrol hascii
  · rw [hslash]
    cases rest with
    | nil => cases h
    | cons e rest =>
      simp only [WireParser.escaped] at h
      split_ifs at h with hu
      · rw [hu]
        unfold WireParser.unicodeEscape at h
        split at h
        · cases h
        next first tail hhex =>
        obtain ⟨w,x,y,z,rfl,hw,hx,hy,hz⟩ := digits_of_hex hhex
        have hused : ∀ t, StringBody t → StringBody ([0x5c,0x75,w,x,y,z]++t) :=
          fun t ht => .unicode hw hx hy hz ht
        split_ifs at h with hhigh hlow
        · split at h
          next second tail' hsecond =>
            obtain ⟨w',x',y',z',rfl,hw',hx',hy',hz'⟩ := digits_of_low hsecond
            have hafter : after=tail' := by
              cases hfrom : WireParser.fromU32
                  (0x10000+(first-0xd800)*1024+second-0xdc00) with
              | error f =>
                rw [hfrom] at h
                cases h
              | ok c' =>
                rw [hfrom] at h
                cases h
                rfl
            refine ⟨[0x5c,0x75,w,x,y,z,0x5c,0x75,w',x',y',z'],by rw [hafter]; rfl,fun t ht => ?_⟩
            exact .unicode hw hx hy hz (.unicode hw' hx' hy' hz' ht)
          next hsecond =>
            cases h
            exact ⟨_,rfl,hused⟩
        · cases h
          exact ⟨_,rfl,hused⟩
        · have hafter : after=tail := by
            cases hfrom : WireParser.fromU32 first with
            | error f =>
              rw [hfrom] at h
              cases h
            | ok c' =>
              rw [hfrom] at h
              cases h
              rfl
          exact ⟨_,by rw [hafter]; rfl,hused⟩
      · split at h
        next c' hshort =>
          cases h
          refine ⟨[0x5c,e],rfl,fun t ht => .short ?_ ht⟩
          unfold WireParser.shortByte at hshort
          unfold isShortEscape
          split_ifs at hshort <;> simp_all
        next => cases h
  · cases h
    have hplain : 0x20≤b := by
      have := mt UInt8.le_iff_toNat_le.mpr hcontrol
      simp only [UInt8.le_iff_toNat_le,UInt8.reduceToNat] at this ⊢
      omega
    exact ⟨[b],rfl,fun t ht => .plain ⟨hplain,hb,hslash⟩ ht⟩
  · have hhigh : 0x80≤b.toNat := by
      have := mt UInt8.le_iff_toNat_le.mpr hascii
      simp only [UInt8.reduceToNat] at this
      omega
    split at h
    next c' hvalid =>
      cases h
      obtain ⟨hc,tail,heq⟩ := (validCharacter_iff hhigh).mp hvalid
      refine ⟨String.utf8EncodeChar c,?_,fun t ht => body_of_high (encode_high hc) ht⟩
      rw [width_of_wide hc heq,heq,List.drop_left]
    next =>
      cases h
      refine ⟨[b],rfl,fun t ht => body_of_high (fun x hx => ?_) ht⟩
      rw [List.mem_singleton.mp hx]
      exact hhigh

theorem body_of_accepted {fuel : ℕ} {cs : List Char}
    (h : WireParser.stringBody fuel input=.ok (cs,rest)) :
    ∃ body, input=body++0x22::rest ∧ StringBody body := by
  induction fuel generalizing input cs with
  | zero => cases h
  | succ fuel ih =>
    cases input with
    | nil => cases h
    | cons b input =>
      rw [WireParser.stringBody] at h
      split_ifs at h with hquote
      · cases h
        exact ⟨[],by rw [hquote]; rfl,.nil⟩
      · cases hread : WireParser.character b input with
        | error e =>
          rw [hread] at h
          cases h
        | ok read =>
          rw [hread] at h
          cases hmore : WireParser.stringBody fuel read.2 with
          | error e =>
            simp only [bind,Except.bind,hmore] at h
            cases h
          | ok more =>
            simp only [bind,Except.bind,hmore] at h
            cases h
            obtain ⟨used,hused,hbody⟩ := character_reads hquote hread
            obtain ⟨body,hinput,ht⟩ := ih hmore
            exact ⟨used++body,by rw [hused,hinput,List.append_assoc],hbody body ht⟩

/-- Both decoders find the same second surrogate in the rest of a string. -/
theorem low_agrees (h : StringBody t) :
    (lowEscape t=none ∧ ∀ rest, WireParser.lowSurrogate (t++0x22::rest)=none) ∨
    ∃ low t', lowEscape t=some low ∧ t.drop 6=t' ∧ t'.length≤t.length ∧ StringBody t' ∧
      (0xdc00≤low ∧ low≤0xdfff) ∧
      ∀ rest, WireParser.lowSurrogate (t++0x22::rest)=some (low,t'++0x22::rest) := by
  cases h with
  | nil => exact .inl ⟨rfl,fun rest => rfl⟩
  | @plain b t hb ht =>
    left
    constructor
    · unfold lowEscape
      split
      next heq => exact absurd (List.cons.inj heq).1 hb.2.2
      next => rfl
    · intro rest
      simp [WireParser.lowSurrogate,WireParser.take,hb.2.2]
  | @short b t hb ht =>
    have hne : b≠0x75 := by
      rintro rfl
      exact absurd hb (by decide)
    left
    constructor
    · unfold lowEscape
      split
      next heq => exact absurd (List.cons.inj (List.cons.inj heq).2).1 hne
      next => rfl
    · intro rest
      simp [WireParser.lowSurrogate,WireParser.take,hne]
  | @unicode a b c d t ha hb hc hd ht =>
    obtain ⟨v,-,hv⟩ := hex4_digits ha hb hc hd
    have hwire : ∀ rest, WireParser.lowSurrogate (0x5c::0x75::a::b::c::d::t++0x22::rest)=
        (some (v,t++0x22::rest)).filter fun p => 0xdc00≤p.1 && p.1≤0xdfff := by
      intro rest
      have hhex := hex_eq (a::b::c::d::(t++0x22::rest))
      rw [hv] at hhex
      simp only [WireParser.lowSurrogate,WireParser.take,List.cons_append,if_true,
        Option.bind_some,hhex]
      rfl
    by_cases hlow : 0xdc00≤v ∧ v≤0xdfff
    · right
      refine ⟨v,t,?_,rfl,?_,ht,hlow,?_⟩
      · simp [lowEscape,hv,hlow]
      · simp only [List.length_cons]
        omega
      · intro rest
        rw [hwire]
        simp [hlow]
    · left
      have hfilter : (0xdc00≤v && v≤0xdfff)=false := by
        simpa using hlow
      refine ⟨?_,fun rest => ?_⟩
      · rw [lowEscape,hv,Option.filter_some,hfilter]
        rfl
      · rw [hwire,Option.filter_some]
        dsimp only
        rw [hfilter]
        rfl

/-- A four-digit escape is decoded to the same character, and leaves the same bytes. -/
theorem scalar_agrees {v : ℕ} {t : List UInt8} (hv : v<0x10000) (ht : StringBody t)
    {digits : List UInt8} (hhex : ∀ rest, WireParser.hex (digits++rest)=some (v,rest)) :
    (t.drop (scalarText v t).2).length≤t.length ∧ StringBody (t.drop (scalarText v t).2) ∧
      ∀ rest, WireParser.unicodeEscape (digits++(t++0x22::rest))=
        .ok ((scalarText v t).1,t.drop (scalarText v t).2++0x22::rest) := by
  have hreplaced : ∀ n : ℕ, n=0xfffd →
      (if n.isValidChar then Char.ofNat n else '\ufffd')= '\ufffd' := by
    rintro n rfl
    rfl
  by_cases hsurrogate : 0xd800≤v ∧ v≤0xdfff
  · by_cases hhigh : v≤0xdbff
    · rcases low_agrees ht with ⟨hnone,hwire⟩ | ⟨low,t',hsome,hdrop,hlength,ht',hlow,hwire⟩
      · have hscalar : scalarText v t=('\ufffd',0) := by
          simp only [scalarText,if_pos hsurrogate,if_pos hhigh,hnone]
          rfl
        rw [hscalar]
        refine ⟨Nat.le_refl _,ht,fun rest => ?_⟩
        rw [WireParser.unicodeEscape,hhex]
        simp only [if_pos (⟨hsurrogate.1,hhigh⟩ : 0xd800≤v ∧ v≤0xdbff),hwire]
        rfl
      · have hcode : 0x10000+((v-0xd800)<<<10)+low-0xdc00=
            0x10000+(v-0xd800)*1024+low-0xdc00 := by
          rw [Nat.shiftLeft_eq]
        have hvalid : (0x10000+(v-0xd800)*1024+low-0xdc00).isValidChar := by
          unfold Nat.isValidChar
          omega
        have hscalar : scalarText v t=
            (Char.ofNat (0x10000+(v-0xd800)*1024+low-0xdc00),6) := by
          simp only [scalarText,if_pos hsurrogate,if_pos hhigh,hsome,hcode,if_pos hvalid]
        rw [hscalar]
        dsimp only
        rw [hdrop]
        refine ⟨hlength,ht',fun rest => ?_⟩
        rw [WireParser.unicodeEscape,hhex]
        simp only [if_pos (⟨hsurrogate.1,hhigh⟩ : 0xd800≤v ∧ v≤0xdbff),hwire,WireParser.fromU32,
          if_pos hvalid]
        rfl
    · have hscalar : scalarText v t=('\ufffd',0) := by
        simp only [scalarText,if_pos hsurrogate,if_neg hhigh]
        rfl
      rw [hscalar]
      refine ⟨Nat.le_refl _,ht,fun rest => ?_⟩
      rw [WireParser.unicodeEscape,hhex]
      have hfirst : ¬(0xd800≤v ∧ v≤0xdbff) := fun hc => hhigh hc.2
      have hsecond : 0xdc00≤v ∧ v≤0xdfff := by omega
      simp only [if_neg hfirst,if_pos hsecond]
      rfl
  · have hvalid : v.isValidChar := by
      unfold Nat.isValidChar
      omega
    have hscalar : scalarText v t=(Char.ofNat v,0) := by
      simp only [scalarText,if_neg hsurrogate,if_pos hvalid]
    rw [hscalar]
    refine ⟨Nat.le_refl _,ht,fun rest => ?_⟩
    rw [WireParser.unicodeEscape,hhex]
    have hfirst : ¬(0xd800≤v ∧ v≤0xdbff) := by omega
    have hsecond : ¬(0xdc00≤v ∧ v≤0xdfff) := by omega
    simp only [if_neg hfirst,if_neg hsecond,WireParser.fromU32,if_pos hvalid]
    rfl

theorem read_one {b : UInt8} {t : List UInt8} (h : StringBody (b::t)) :
    b≠0x22 ∧ ∃ c t', t'.length≤t.length ∧ StringBody t' ∧
      (∀ rest, WireParser.character b (t++0x22::rest)=.ok (c,t'++0x22::rest)) ∧
      unquoteBody (b::t)=(unquoteBody t').map (c::·) := by
  cases h with
  | plain hb ht =>
    obtain ⟨hspace,hquote,hslash⟩ := hb
    refine ⟨hquote,?_⟩
    have hcontrol : ¬b≤0x1f := by
      have := UInt8.le_iff_toNat_le.mp hspace
      simp only [UInt8.le_iff_toNat_le,UInt8.reduceToNat] at this ⊢
      omega
    by_cases hascii : b≤0x7f
    · have hlow : b<0x80 := by
        have := UInt8.le_iff_toNat_le.mp hascii
        simp only [UInt8.lt_iff_toNat_lt,UInt8.reduceToNat] at this ⊢
        omega
      refine ⟨Char.ofNat b.toNat,t,Nat.le_refl _,ht,fun rest => ?_,?_⟩
      · rw [WireParser.character,if_neg hslash,if_neg hcontrol,if_pos hascii]
      · rw [unquoteBody.eq_def]
        dsimp only
        rw [if_neg hslash,rune,if_pos hlow]
        rfl
    have hhigh : 0x80≤b.toNat := by
      have := mt UInt8.le_iff_toNat_le.mpr hascii
      simp only [UInt8.reduceToNat] at this
      omega
    by_cases hwide : ∃ c, Wide (b::t) c
    · obtain ⟨c,hwide⟩ := hwide
      obtain ⟨-,hrune⟩ := rune_wide hwide
      obtain ⟨hc,tail,heq⟩ := hwide
      have hpos : 0<(String.utf8EncodeChar c).length :=
        List.length_pos_iff.mpr String.utf8EncodeChar_ne_nil
      have hdrop : t.drop ((String.utf8EncodeChar c).length-1)=tail := by
        have hall := congrArg (List.drop (String.utf8EncodeChar c).length) heq
        rw [List.drop_left] at hall
        rw [←hall,←Nat.succ_pred_eq_of_pos hpos]
        rfl
      have hbody : StringBody tail := by
        have hall : StringBody (b::t) := .plain ⟨hspace,hquote,hslash⟩ ht
        rw [heq] at hall
        exact body_after_high (encode_high hc) hall
      refine ⟨c,tail,?_,hbody,fun rest => ?_,?_⟩
      · rw [←hdrop,List.length_drop]
        omega
      · have hlong : b::(t++0x22::rest)=String.utf8EncodeChar c++(tail++0x22::rest) := by
          rw [←List.append_assoc,←heq]
          rfl
        have hvalid := (validCharacter_iff hhigh).mpr ⟨hc,_,hlong⟩
        rw [WireParser.character,if_neg hslash,if_neg hcontrol,if_neg hascii,hvalid]
        dsimp only
        rw [width_of_wide hc hlong,hlong,List.drop_left]
      · rw [unquoteBody.eq_def]
        dsimp only
        rw [if_neg hslash,hrune]
        dsimp only
        rw [hdrop]
    · have hnone : ∀ c, ¬Wide (b::t) c := fun c hc => hwide ⟨c,hc⟩
      refine ⟨'\ufffd',t,Nat.le_refl _,ht,fun rest => ?_,?_⟩
      · have hvalid : WireParser.validCharacter b (t++0x22::rest)=none := by
          cases hread : WireParser.validCharacter b (t++0x22::rest) with
          | none => rfl
          | some c =>
            have hlong := (validCharacter_iff hhigh).mp hread
            exact absurd (@wide_before_quote (b::t) rest c hlong) (hnone c)
        rw [WireParser.character,if_neg hslash,if_neg hcontrol,if_neg hascii,hvalid]
      · rw [unquoteBody.eq_def]
        dsimp only
        rw [if_neg hslash,rune_invalid (high_byte hhigh) hnone]
        rfl
  | @short e t hb ht =>
    refine ⟨by decide,shortText e,t,by simp,ht,fun rest => ?_,?_⟩
    · have hbytes : e=0x22 ∨ e=0x5c ∨ e=0x2f ∨ e=0x62 ∨ e=0x66 ∨ e=0x6e ∨ e=0x72 ∨
          e=0x74 := by
        simpa [isShortEscape,or_assoc] using hb
      rcases hbytes with rfl | rfl | rfl | rfl | rfl | rfl | rfl | rfl <;> rfl
    · have hne : e≠0x75 := by
        rintro rfl
        exact absurd hb (by decide)
      rw [unquoteBody.eq_def]
      dsimp only
      rw [if_pos rfl]
      rw [if_neg hne]
  | @unicode w x y z t hw hx hy hz ht =>
    refine ⟨by decide,?_⟩
    obtain ⟨v,hv,hhex4⟩ := hex4_digits hw hx hy hz
    have hhex : ∀ rest, WireParser.hex ([w,x,y,z]++rest)=some (v,rest) := by
      intro rest
      rw [hex_eq]
      simp only [List.cons_append,List.nil_append,hhex4]
      rfl
    obtain ⟨hlength,hbody,hwire⟩ := scalar_agrees hv ht hhex
    refine ⟨(scalarText v t).1,t.drop (scalarText v t).2,?_,hbody,fun rest => ?_,?_⟩
    · simp only [List.length_cons]
      omega
    · have hescape := hwire rest
      rw [WireParser.character,if_pos rfl,List.cons_append,WireParser.escaped,if_pos rfl]
      exact hescape
    · rw [unquoteBody.eq_def]
      dsimp only
      rw [if_pos rfl]
      rw [if_pos rfl,hhex4]
      rfl

theorem body_agrees (n : ℕ) {body : List UInt8} (hn : body.length≤n) (h : StringBody body)
    {fuel : ℕ} (hfuel : body.length<fuel) (rest : List UInt8) :
    ∃ cs, unquoteBody body=some cs ∧
      WireParser.stringBody fuel (body++0x22::rest)=.ok (cs,rest) := by
  induction n generalizing body fuel with
  | zero =>
    have hnil : body=[] := List.length_eq_zero_iff.mp (by omega)
    subst hnil
    cases fuel with
    | zero => omega
    | succ fuel => exact ⟨[],by rw [unquoteBody],rfl⟩
  | succ n ih =>
    cases body with
    | nil =>
      cases fuel with
      | zero => omega
      | succ fuel => exact ⟨[],by rw [unquoteBody],rfl⟩
    | cons b t =>
      rw [List.length_cons] at hn hfuel
      cases fuel with
      | zero => omega
      | succ fuel =>
        obtain ⟨hquote,c,t',hle,ht',hwire,hstudio⟩ := read_one h
        have hfuel' : t'.length<fuel := by omega
        obtain ⟨cs,hcs,hmore⟩ := ih (by omega) ht' hfuel'
        refine ⟨c::cs,by rw [hstudio,hcs]; rfl,?_⟩
        rw [List.cons_append,WireParser.stringBody,if_neg hquote,hwire]
        simp only [bind,Except.bind,hmore]

/-- Bytes that start with a quote are refused by both decoders of strings, or both take the
same prefix and produce the same text. -/
theorem decoders_agree (rest : List UInt8) :
    (∃ e text, stringEnd (0x22::rest) 0=.ok e ∧ e≤(0x22::rest).length ∧
      unquote ((0x22::rest).take e)=some text ∧
      WireParser.string (0x22::rest)=.ok (text,(0x22::rest).drop e)) ∨
    ∃ failure error, stringEnd (0x22::rest) 0=.error failure ∧
      WireParser.string (0x22::rest)=.error error := by
  have hstring : WireParser.string (0x22::rest)=
      (WireParser.stringBody rest.length rest).map fun p => (String.ofList p.1,p.2) := rfl
  cases hend : stringEnd (0x22::rest) 0 with
  | ok e =>
    left
    obtain ⟨token,after,hdrop,⟨body,hbody,rfl⟩,rfl⟩ := stringEnd_iff.mp hend
    have hdrop : 0x22::rest=0x22::(body++[0x22])++after := hdrop
    have hrest : rest=body++0x22::after := by
      have := (List.cons.inj hdrop).2
      simpa using this
    have hlength : rest.length=body.length+1+after.length := by
      rw [hrest,List.length_append,List.length_cons]
      omega
    have hfuel : body.length<rest.length := by omega
    obtain ⟨cs,hstudio,hwire⟩ := body_agrees body.length (Nat.le_refl _) hbody hfuel after
    have htoken : (0x22::(body++[0x22])).length=body.length+2 := by simp
    refine ⟨_,String.ofList cs,rfl,?_,?_,?_⟩
    · simp only [List.length_cons,List.length_append,List.length_nil]
      omega
    · rw [Nat.zero_add,hdrop,List.take_left,unquote,if_neg (by omega),htoken]
      have hinner : ((0x22::(body++[0x22])).drop 1).take (body.length+2-2)=body := by simp
      rw [hinner,hstudio]
      rfl
    · rw [hstring,Nat.zero_add]
      rw [show (0x22::rest).drop (0x22::(body++[0x22])).length=after by
        rw [hdrop,List.drop_left]]
      rw [show WireParser.stringBody rest.length rest=.ok (cs,after) by
        rw [←hwire,←hrest]]
      rfl
  | error failure =>
    right
    cases hread : WireParser.stringBody rest.length rest with
    | error error => exact ⟨failure,error,rfl,by rw [hstring,hread]; rfl⟩
    | ok read =>
      obtain ⟨body,hinput,hbody⟩ := body_of_accepted hread
      have hdrop : (0x22::rest).drop 0=0x22::(body++[0x22])++read.2 := by
        rw [List.drop_zero,hinput]
        simp
      have haccept := stringEnd_iff.mpr ⟨_,_,hdrop,⟨body,hbody,rfl⟩,rfl⟩
      rw [hend] at haccept
      cases haccept

end Librairii.StudioStrings
