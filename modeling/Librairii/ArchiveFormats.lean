import Librairii.SimpleLower

/-!
# The formats of import and export

Import selects a format from the suffix of a file name and from what its container
holds. Export supports a name and a format when the name has the format's own
extension. Import reads the suffix from the name's bytes and export from the lowered
name; both read the same suffixes. A plain pack that import recognizes by its
contents alone keeps a name that export does not support.
-/

namespace Librairii.ArchiveFormats

open FrozenText JsonText SimpleLower WireParser

/-- The formats import selects. -/
inductive ArchiveFormat where
  | plainPk
  | v1Pk
  | v2Pk
  | genericPk
  | zip
  | sevenZip
  | studioZip
  deriving DecidableEq

def ArchiveFormat.asStr : ArchiveFormat → String
  | .plainPk => "plain_pk"
  | .v1Pk => "v1_pk"
  | .v2Pk => "v2_pk"
  | .genericPk => "generic_pk"
  | .zip => "zip"
  | .sevenZip => "seven_zip"
  | .studioZip => "studio_zip"

/-- Why a selection is refused. -/
inductive ValidationCode where
  | invalidContainer
  | unsupportedFormat
  deriving DecidableEq

/-- The observed container. -/
inductive ContainerKind where
  | zip
  | sevenZip
  | other
  deriving DecidableEq

/-- What the container's root holds. -/
structure ContentFacts where
  container : ContainerKind
  hasStoryJson : Bool
  hasUuidBin : Bool

/-- The layout of a pack. -/
inductive PackStructure where
  | plain
  | uuidRoot
  | studio
  deriving DecidableEq

/-- The verification a plan asks for. -/
inductive IntegrityRequirement where
  | allZipPayloads
  | selectedSevenZipPayloads
  deriving DecidableEq

/-- The plan of an import. -/
structure ArchivePlan where
  format : ArchiveFormat
  packStructure : PackStructure
  integrity : IntegrityRequirement
  deriving DecidableEq

def toAsciiLowercase (b : UInt8) : UInt8 := if 0x41≤b ∧ b≤0x5a then b+0x20 else b

/-- Strip one expected byte, or a character that is lowered to it, from the end. -/
def stripLast (name : List UInt8) (expected : UInt8) : Option (List UInt8) :=
  if name.getLast?.any fun b => toAsciiLowercase b=expected then
    some (name.take (name.length-1))
  else if expected=0x69 ∧ [0xc4,0xb0] <:+ name then some (name.take (name.length-2))
  else if expected=0x6b ∧ [0xe2,0x84,0xaa] <:+ name then some (name.take (name.length-3))
  else none

def suffixMatches (name : List UInt8) (suffix : String) : Bool :=
  ((bytes suffix.toList).reverse.foldlM stripLast name).isSome

def uuidRootFormat (filename : List UInt8) (seven zip : Bool) : ArchiveFormat :=
  if seven then .sevenZip
  else if suffixMatches filename ".v1.pk" then .v1Pk
  else if suffixMatches filename ".v2.pk" then .v2Pk
  else if zip then .zip
  else .genericPk

/-- Select a format from the suffix and the contents. -/
def dispatch (filename : List UInt8) (facts : ContentFacts) :
    Except ValidationCode ArchivePlan :=
  let seven := suffixMatches filename ".7z"
  let zip := suffixMatches filename ".zip"
  if !seven && !zip && !suffixMatches filename ".pk" then .error .unsupportedFormat
  else
    let expected := if seven then ContainerKind.sevenZip else ContainerKind.zip
    if facts.container≠expected then .error .invalidContainer
    else
      let integrity := if seven then IntegrityRequirement.selectedSevenZipPayloads
        else IntegrityRequirement.allZipPayloads
      if facts.hasStoryJson then
        if !seven && !zip then .error .unsupportedFormat
        else .ok ⟨if seven then .sevenZip else .studioZip,.studio,integrity⟩
      else if !seven && (suffixMatches filename ".plain.pk" || facts.hasUuidBin) then
        .ok ⟨.plainPk,.plain,integrity⟩
      else .ok ⟨uuidRootFormat filename seven zip,.uuidRoot,integrity⟩

def extension : String → Option String
  | "plain_pk" => some ".plain.pk"
  | "v1_pk" => some ".v1.pk"
  | "v2_pk" => some ".v2.pk"
  | "generic_pk" => some ".pk"
  | "zip" => some ".zip"
  | "studio_zip" => some ".zip"
  | "seven_zip" => some ".7z"
  | _ => none

def supportedName (name format : String) : Bool :=
  if name="" ∨ tagTrim name≠name ∨ name="." ∨ name=".." ∨
      name.toList.any fun c => c = '/' || c = '\\' || c = '\x00' then false
  else match extension format with
    | none => false
    | some extension => match lowercaseKey name with
      | .ok name => extension.toList.isSuffixOf name.toList
      | .error _ => false

def SuffixCharacter (c : Char) : Prop := c.toNat<128 ∧ ¬(65≤c.toNat ∧ c.toNat≤90)

instance (c : Char) : Decidable (SuffixCharacter c) := inferInstanceAs (Decidable (_∧_))

theorem suffix_append_iff {α : Type} {s t : List α} (h : s.length=t.length) (x : List α) :
    s <:+ x++t ↔ s=t := by
  constructor
  · rintro ⟨front,hfront⟩
    exact (List.append_inj' hfront h).2
  · rintro rfl
    exact List.suffix_append x s

/-- Bytes below 256 are equal when their values are. -/
theorem byte_eq_iff {a b : ℕ} (ha : a<256) (hb : b<256) : UInt8.ofNat a=UInt8.ofNat b ↔ a=b := by
  rw [← UInt8.toNat_inj,UInt8.toNat_ofNat',UInt8.toNat_ofNat']
  omega

/-- Lower casing of a byte below 256 by its value. -/
theorem toAsciiLowercase_ofNat {n : ℕ} (hn : n<256) :
    toAsciiLowercase (UInt8.ofNat n)=
      UInt8.ofNat (if 65≤n ∧ n≤90 then n+32 else n) := by
  rw [← UInt8.toNat_inj,toAsciiLowercase]
  by_cases h : 65≤n ∧ n≤90
  · have hrange : 0x41≤UInt8.ofNat n ∧ UInt8.ofNat n≤0x5a := by
      rw [UInt8.le_iff_toNat_le,UInt8.le_iff_toNat_le,UInt8.toNat_ofNat']
      simp
      omega
    rw [if_pos hrange,if_pos h,UInt8.toNat_add,UInt8.toNat_ofNat',UInt8.toNat_ofNat']
    simp
  · have hrange : ¬(0x41≤UInt8.ofNat n ∧ UInt8.ofNat n≤0x5a) := by
      rw [UInt8.le_iff_toNat_le,UInt8.le_iff_toNat_le,UInt8.toNat_ofNat']
      simp
      omega
    rw [if_neg hrange,if_neg h]

/-- The last byte of a character above 127 is not ASCII. -/
theorem encode_wide {c : Char} (hwide : 128≤c.toNat) :
    ∃ front last, 128≤last ∧ last<256 ∧
      String.utf8EncodeChar c=front++[UInt8.ofNat last] := by
  have hv : ¬c.val.toNat≤0x7f := Nat.not_le_of_lt hwide
  rw [String.utf8EncodeChar]
  simp only [hv,if_false]
  by_cases h2 : c.val.toNat≤0x7ff
  · exact ⟨[_],c.val.toNat%64+128,by omega,by omega,by rw [if_pos h2]; rfl⟩
  · by_cases h3 : c.val.toNat≤0xffff
    · exact ⟨[_,_],c.val.toNat%64+128,by omega,by omega,by rw [if_neg h2,if_pos h3]; rfl⟩
    · exact ⟨[_,_,_],c.val.toNat%64+128,by omega,by omega,by rw [if_neg h2,if_neg h3]; rfl⟩

theorem dottedI_suffix {c : Char} (hwide : 128≤c.toNat) (front : List UInt8) :
    [0xc4,0xb0] <:+ front++String.utf8EncodeChar c ↔ c.toNat=0x130 := by
  have hv : ¬c.val.toNat≤0x7f := Nat.not_le_of_lt hwide
  have hpair : ∀ a b : ℕ, a<256 → b<256 → ∀ x : List UInt8,
      ([0xc4,0xb0] <:+ x++[UInt8.ofNat a,UInt8.ofNat b] ↔ a=0xc4 ∧ b=0xb0) := by
    intro a b ha hb x
    rw [suffix_append_iff (s:=[0xc4,0xb0]) (t:=[UInt8.ofNat a,UInt8.ofNat b]) rfl]
    simp only [List.cons.injEq,and_true]
    exact and_congr ((byte_eq_iff (a:=0xc4) (by omega) ha).trans eq_comm)
      ((byte_eq_iff (a:=0xb0) (by omega) hb).trans eq_comm)
  change _ ↔ c.val.toNat=0x130
  rw [String.utf8EncodeChar]
  simp only [hv,if_false]
  by_cases h2 : c.val.toNat≤0x7ff
  · rw [if_pos h2,hpair _ _ (by omega) (by omega)]
    omega
  · by_cases h3 : c.val.toNat≤0xffff
    · rw [if_neg h2,if_pos h3,List.append_cons,hpair _ _ (by omega) (by omega)]
      omega
    · rw [if_neg h2,if_neg h3,List.append_cons,List.append_cons,
        hpair _ _ (by omega) (by omega)]
      omega

theorem kelvin_suffix {c : Char} (hwide : 128≤c.toNat) (front : List UInt8) :
    [0xe2,0x84,0xaa] <:+ front++String.utf8EncodeChar c ↔ c.toNat=0x212a := by
  have hv : ¬c.val.toNat≤0x7f := Nat.not_le_of_lt hwide
  have htriple : ∀ a b d : ℕ, a<256 → b<256 → d<256 → ∀ x : List UInt8,
      ([0xe2,0x84,0xaa] <:+ x++[UInt8.ofNat a,UInt8.ofNat b,UInt8.ofNat d] ↔
        a=0xe2 ∧ b=0x84 ∧ d=0xaa) := by
    intro a b d ha hb hd x
    rw [suffix_append_iff (s:=[0xe2,0x84,0xaa])
      (t:=[UInt8.ofNat a,UInt8.ofNat b,UInt8.ofNat d]) rfl]
    simp only [List.cons.injEq,and_true]
    exact and_congr ((byte_eq_iff (a:=0xe2) (by omega) ha).trans eq_comm)
      (and_congr ((byte_eq_iff (a:=0x84) (by omega) hb).trans eq_comm)
        ((byte_eq_iff (a:=0xaa) (by omega) hd).trans eq_comm))
  have hpair : ∀ a b : ℕ, a<256 → b<256 → ∀ x : List UInt8,
      [0xe2,0x84,0xaa] <:+ x++[UInt8.ofNat a,UInt8.ofNat b] → a=0x84 ∧ b=0xaa := by
    intro a b ha hb x h
    have hshort : [0x84,0xaa] <:+ x++[UInt8.ofNat a,UInt8.ofNat b] :=
      (List.suffix_cons 0xe2 _).trans h
    rw [suffix_append_iff (s:=[0x84,0xaa]) (t:=[UInt8.ofNat a,UInt8.ofNat b]) rfl] at hshort
    simp only [List.cons.injEq,and_true] at hshort
    exact ⟨((byte_eq_iff (a:=0x84) (by omega) ha).mp hshort.1).symm,
      ((byte_eq_iff (a:=0xaa) (by omega) hb).mp hshort.2).symm⟩
  change _ ↔ c.val.toNat=0x212a
  rw [String.utf8EncodeChar]
  simp only [hv,if_false]
  by_cases h2 : c.val.toNat≤0x7ff
  · rw [if_pos h2]
    constructor
    · intro h
      have := hpair _ _ (by omega) (by omega) _ h
      omega
    · omega
  · by_cases h3 : c.val.toNat≤0xffff
    · rw [if_neg h2,if_pos h3,htriple _ _ _ (by omega) (by omega) (by omega)]
      omega
    · rw [if_neg h2,if_neg h3,List.append_cons,htriple _ _ _ (by omega) (by omega) (by omega)]
      omega

theorem stripLast_ascii (front : List UInt8) {c e : Char} (he : SuffixCharacter e)
    (hascii : c.toNat<128) :
    stripLast (front++[UInt8.ofNat c.toNat]) (UInt8.ofNat e.toNat)=
      if lower c=e then some front else none := by
  obtain ⟨hlow,hnocap⟩ := he
  have hlast : (front++[UInt8.ofNat c.toNat]).getLast?=some (UInt8.ofNat c.toNat) := by simp
  have hsame : toAsciiLowercase (UInt8.ofNat c.toNat)=UInt8.ofNat e.toNat ↔ lower c=e := by
    rw [toAsciiLowercase_ofNat (by omega),← Char.toNat_inj]
    by_cases hcap : 65≤c.toNat ∧ c.toNat≤90
    · rw [if_pos hcap,byte_eq_iff (by omega) (by omega),lower_capital hcap]
    · rw [if_neg hcap,byte_eq_iff (by omega) (by omega),lower_ascii hascii hcap]
  have hnoI : ¬[0xc4,0xb0] <:+ front++[UInt8.ofNat c.toNat] := by
    intro h
    have hend : [0xb0] <:+ front++[UInt8.ofNat c.toNat] := (List.suffix_cons _ _).trans h
    rw [suffix_append_iff (s:=[0xb0]) (t:=[UInt8.ofNat c.toNat]) rfl] at hend
    have := (byte_eq_iff (a:=0xb0) (by omega) (by omega)).mp (List.cons.inj hend).1
    omega
  have hnoK : ¬[0xe2,0x84,0xaa] <:+ front++[UInt8.ofNat c.toNat] := by
    intro h
    have hend : [0xaa] <:+ front++[UInt8.ofNat c.toNat] :=
      ((List.suffix_cons _ _).trans (List.suffix_cons _ _)).trans h
    rw [suffix_append_iff (s:=[0xaa]) (t:=[UInt8.ofNat c.toNat]) rfl] at hend
    have := (byte_eq_iff (a:=0xaa) (by omega) (by omega)).mp (List.cons.inj hend).1
    omega
  by_cases h : lower c=e
  · simp [stripLast,hlast,hsame,h]
  · simp [stripLast,hlast,hsame,h,hnoI,hnoK]

/-- Stripping from a name that ends in a character above 127. -/
theorem stripLast_wide (front : List UInt8) {c e : Char} (he : SuffixCharacter e)
    (hwide : 128≤c.toNat) :
    stripLast (front++String.utf8EncodeChar c) (UInt8.ofNat e.toNat)=
      if lower c=e then some front else none := by
  obtain ⟨hlow,hnocap⟩ := he
  obtain ⟨start,last,hmin,hmax,hencode⟩ := encode_wide hwide
  have hnoByte : ((front++String.utf8EncodeChar c).getLast?.any
      fun b => toAsciiLowercase b=UInt8.ofNat e.toNat)=false := by
    rw [hencode,← List.append_assoc]
    simp only [List.getLast?_concat,Option.any_some,decide_eq_false_iff_not]
    rw [toAsciiLowercase_ofNat hmax,if_neg (by omega),byte_eq_iff hmax (by omega)]
    omega
  have hi : UInt8.ofNat e.toNat=0x69 ↔ e.toNat=0x69 :=
    byte_eq_iff (b:=0x69) (by omega) (by omega)
  have hk : UInt8.ofNat e.toNat=0x6b ↔ e.toNat=0x6b :=
    byte_eq_iff (b:=0x6b) (by omega) (by omega)
  have hlower : lower c=e ↔ (lower c).toNat=e.toNat := by rw [Char.toNat_inj]
  simp only [stripLast,hnoByte,dottedI_suffix hwide,kelvin_suffix hwide,hi,hk,hlower]
  by_cases hdotted : c.toNat=0x130
  · have hcode := lower_dottedI hdotted
    have hsize : (String.utf8EncodeChar c).length=2 := by
      have hv : c.val.toNat=0x130 := hdotted
      simp [String.utf8EncodeChar,hv]
    have htake : (front++String.utf8EncodeChar c).take
        ((front++String.utf8EncodeChar c).length-2)=front := by
      simp [hsize]
    rw [htake]
    by_cases h : e.toNat=0x69
    · simp [h,hdotted,hcode]
    · simp [h,hdotted,hcode,Ne.symm h]
  · by_cases hkelvin : c.toNat=0x212a
    · have hcode := lower_kelvin hkelvin
      have hsize : (String.utf8EncodeChar c).length=3 := by
        have hv : c.val.toNat=0x212a := hkelvin
        simp [String.utf8EncodeChar,hv]
      have htake : (front++String.utf8EncodeChar c).take
          ((front++String.utf8EncodeChar c).length-3)=front := by
        simp [hsize]
      rw [htake]
      by_cases h : e.toNat=0x6b
      · simp [h,hkelvin,hcode]
      · simp [h,hkelvin,hcode,Ne.symm h]
    · have hcode := lower_wide hwide hdotted hkelvin
      have hother : (lower c).toNat≠e.toNat := by omega
      simp [hdotted,hkelvin,hother]

theorem stripLast_concat (front : List UInt8) (name : List Char) (c : Char) {e : Char}
    (he : SuffixCharacter e) : stripLast (front++bytes (name++[c])) (UInt8.ofNat e.toNat)=
      if lower c=e then some (front++bytes name) else none := by
  have hsplit : front++bytes (name++[c])=front++bytes name++String.utf8EncodeChar c := by
    rw [bytes_append,bytes_cons]
    simp [bytes]
  rw [hsplit]
  by_cases hascii : c.toNat<128
  · rw [encode_ascii hascii]
    exact stripLast_ascii (front++bytes name) he hascii
  · exact stripLast_wide (front++bytes name) he (by omega)

/-- Bytes that do not end in a valid character. -/
def Unended (front : List UInt8) : Prop := ∀ c : Char, ¬String.utf8EncodeChar c <:+ front

theorem unended_nil : Unended [] := by
  intro c h
  have hsize := String.utf8EncodeChar_ne_nil (c:=c)
  exact hsize (List.suffix_nil.mp h)

/-- Nothing is stripped from bytes that do not end in a valid character. -/
theorem stripLast_unended {front : List UInt8} (h : Unended front) {e : Char}
    (he : SuffixCharacter e) : stripLast front (UInt8.ofNat e.toNat)=none := by
  have hi : ¬[0xc4,0xb0] <:+ front := h '\u0130'
  have hk : ¬[0xe2,0x84,0xaa] <:+ front := h '\u212a'
  have hlast : (front.getLast?.any fun b => toAsciiLowercase b=UInt8.ofNat e.toNat)=false := by
    rw [Option.any_eq_false]
    intro b hb
    obtain ⟨start,rfl⟩ := List.getLast?_eq_some_iff.mp hb
    rw [decide_eq_false_iff_not]
    intro hsame
    by_cases hascii : b.toNat<128
    · have hchar : (Char.ofNat b.toNat).toNat=b.toNat := toNat_ofNat (.inl (by omega))
      refine h (Char.ofNat b.toNat) ?_
      rw [encode_ascii (by omega),hchar,UInt8.ofNat_toNat]
      exact List.suffix_append _ _
    · rw [←UInt8.ofNat_toNat (x:=b),toAsciiLowercase_ofNat b.toNat_lt,if_neg (by omega),
        byte_eq_iff b.toNat_lt (by have := he.1; omega)] at hsame
      have := he.1
      omega
  simp [stripLast,hlast,hi,hk]

theorem suffixMatches_tail (suffix : List Char) (hs : ∀ e ∈ suffix, SuffixCharacter e)
    {front : List UInt8} (hfront : Unended front) : ∀ tail : List Char,
      suffixMatches (front++bytes tail) (String.ofList suffix)=true ↔
        suffix <:+ tail.map lower := by
  induction suffix using List.reverseRecOn with
  | nil =>
    intro tail
    simp [suffixMatches,bytes]
  | append_singleton suffix e ih =>
    intro tail
    have he := hs e (by simp)
    have hrest := ih fun d hd => hs d (List.mem_append_left [e] hd)
    have hbytes : (bytes (suffix++[e])).reverse=
        UInt8.ofNat e.toNat::(bytes suffix).reverse := by
      rw [bytes_append,bytes_cons,encode_ascii he.1]
      simp [bytes]
    simp only [suffixMatches,String.toList_ofList,hbytes,List.foldlM_cons] at hrest ⊢
    induction tail using List.reverseRecOn with
    | nil =>
      have hnil : stripLast (front++bytes []) (UInt8.ofNat e.toNat)=none := by
        simpa [bytes] using stripLast_unended hfront he
      simp [hnil]
    | append_singleton tail c =>
      rw [stripLast_concat front tail c he,List.map_append,List.map_singleton]
      by_cases h : lower c=e
      · rw [if_pos h,h]
        change ((bytes suffix).reverse.foldlM stripLast (front++bytes tail)).isSome=true ↔ _
        rw [hrest tail,List.suffix_concat_iff]
        simp
      · rw [if_neg h]
        simp [List.suffix_concat_iff,Ne.symm h]

theorem suffixMatches_iff (suffix : List Char) (hs : ∀ e ∈ suffix, SuffixCharacter e)
    (name : List Char) : suffixMatches (bytes name) (String.ofList suffix)=true ↔
      suffix <:+ name.map lower := suffixMatches_tail suffix hs unended_nil name

theorem trailing_characters (name : List UInt8) :
    ∃ front tail, name=front++bytes tail ∧ Unended front := by
  by_cases h : Unended name
  · exact ⟨name,[],by simp [bytes],h⟩
  · simp only [Unended,not_forall,not_not] at h
    obtain ⟨c,pre,hpre⟩ := h
    have hsize := String.utf8EncodeChar_ne_nil (c:=c)
    have hshort : pre.length<name.length := by
      rw [←hpre,List.length_append]
      have := List.length_pos_of_ne_nil hsize
      omega
    obtain ⟨front,tail,hname,hfront⟩ := trailing_characters pre
    refine ⟨front,tail++[c],?_,hfront⟩
    rw [←hpre,hname,bytes_append,bytes_cons]
    simp [bytes]
  termination_by name.length

/-- Reading a suffix backward from the bytes of a name agrees with lowering the whole name. In
bytes that are not a text it depends only on the valid characters at their end. -/
theorem suffix_agrees (suffix : List Char) (hs : ∀ e ∈ suffix, SuffixCharacter e) :
    (∀ name : String, suffixMatches (bytes name.toList) (String.ofList suffix)=true ↔
      ∃ lowered, lowercaseKey name=.ok lowered ∧ suffix <:+ lowered.toList) ∧
    ∀ name : List UInt8, ∃ front tail, name=front++bytes tail ∧ Unended front ∧
      ∀ other, Unended other → (suffixMatches (other++bytes tail) (String.ofList suffix)=true ↔
        suffix <:+ tail.map lower) := by
  refine ⟨fun name => ?_,fun name => ?_⟩
  · rw [suffixMatches_iff suffix hs,lowercaseKey_eq]
    simp
  · obtain ⟨front,tail,hname,hfront⟩ := trailing_characters name
    exact ⟨front,tail,hname,hfront,fun other hother => suffixMatches_tail suffix hs hother tail⟩

/-- The extension of a version one pack with the Kelvin sign. -/
theorem suffix_agrees_kelvin : suffixMatches (bytes "B\u00fcch.V1.P\u212a".toList) ".v1.pk"=true ∧
    ".v1.pk".toList <:+ "b\u00fcch.v1.pk".toList :=
  ⟨((suffix_agrees ".v1.pk".toList (List.all_iff_forall_prop.mp (by decide))).1 _).mpr
    ⟨_,lowercaseKey_eq _,by decide +kernel⟩,by decide⟩

theorem extension_shape {format suffix : String} (h : extension format=some suffix) :
    3 ≤ suffix.toList.length ∧ ∀ e ∈ suffix.toList, SuffixCharacter e := by
  unfold extension at h
  split at h
  all_goals cases h
  all_goals exact ⟨by decide,List.all_iff_forall_prop.mp (by decide)⟩

/-- Export supports a trimmed name of one component exactly when import reads the
format's extension from its bytes. -/
theorem supportedName_iff {name : String} (htrim : tagTrim name=name)
    (hplain : ∀ c ∈ name.toList, c ≠ '/' ∧ c ≠ '\\' ∧ c ≠ '\x00') {format suffix : String}
    (hformat : extension format=some suffix) :
    supportedName name format=true ↔ suffixMatches (bytes name.toList) suffix=true := by
  obtain ⟨hlength,hcharacters⟩ := extension_shape hformat
  have hmatch := suffixMatches_iff suffix.toList hcharacters name.toList
  rw [String.ofList_toList] at hmatch
  have hno : (name.toList.any fun c => c = '/' || c = '\\' || c = '\x00')=false := by
    rw [List.any_eq_false]
    intro c hc
    have := hplain c hc
    simp [this]
  have hsupported : supportedName name format=true ↔ ¬(name="" ∨ name="." ∨ name="..") ∧
      suffix.toList <:+ name.toList.map lower := by
    rw [supportedName,hformat,lowercaseKey_eq]
    by_cases hshort : name="" ∨ name="." ∨ name=".."
    · rcases hshort with rfl | rfl | rfl
      all_goals simp
    · simp_all
  rw [hsupported,hmatch]
  constructor
  · exact And.right
  · intro h
    have hlong : 3≤name.toList.length := by
      have hle := h.length_le
      rw [List.length_map] at hle
      exact hlength.trans hle
    refine ⟨?_,h⟩
    rintro (rfl | rfl | rfl)
    all_goals exact absurd hlong (by decide)

/-- A format has an extension that import reads from the name. -/
def Readable (name : List Char) (format : ArchiveFormat) : Prop :=
  ∃ suffix, extension format.asStr=some suffix ∧ suffixMatches (bytes name) suffix=true

theorem uuidRootFormat_readable {name : List Char} {seven zip : Bool}
    (hseven : seven=true → suffixMatches (bytes name) ".7z"=true)
    (hzip : zip=true → suffixMatches (bytes name) ".zip"=true)
    (hpk : seven=false → zip=false → suffixMatches (bytes name) ".pk"=true) :
    uuidRootFormat (bytes name) seven zip≠.plainPk ∧
      Readable name (uuidRootFormat (bytes name) seven zip) := by
  cases seven with
  | true => exact ⟨by simp [uuidRootFormat],".7z",rfl,hseven rfl⟩
  | false =>
    cases hv1 : suffixMatches (bytes name) ".v1.pk" with
    | true => simp [uuidRootFormat,hv1,Readable,ArchiveFormat.asStr,extension]
    | false =>
      cases hv2 : suffixMatches (bytes name) ".v2.pk" with
      | true => simp [uuidRootFormat,hv1,hv2,Readable,ArchiveFormat.asStr,extension]
      | false =>
        cases zip with
        | true => simp [uuidRootFormat,hv1,hv2,Readable,ArchiveFormat.asStr,extension,hzip]
        | false => simp [uuidRootFormat,hv1,hv2,Readable,ArchiveFormat.asStr,extension,hpk]

theorem dispatch_readable {name : List Char} {facts : ContentFacts} {plan : ArchivePlan}
    (h : dispatch (bytes name) facts=.ok plan) :
    plan.format=.plainPk ∨ plan.format≠.plainPk ∧ Readable name plan.format := by
  simp only [dispatch] at h
  generalize hseven : suffixMatches (bytes name) ".7z"=seven at h
  generalize hzip : suffixMatches (bytes name) ".zip"=zip at h
  by_cases hnone : (!seven && !zip && !suffixMatches (bytes name) ".pk")=true
  · rw [if_pos hnone] at h
    cases h
  rw [if_neg hnone] at h
  generalize hexpected : (if seven=true then ContainerKind.sevenZip else .zip)=expected at h
  by_cases hc : facts.container≠expected
  · rw [if_pos hc] at h
    cases h
  rw [if_neg hc] at h
  by_cases hj : facts.hasStoryJson=true
  · rw [if_pos hj] at h
    cases seven with
    | true =>
      obtain rfl := Except.ok.inj h
      exact .inr ⟨by simp,".7z",rfl,hseven⟩
    | false =>
      cases zip with
      | true =>
        obtain rfl := Except.ok.inj h
        exact .inr ⟨by simp,".zip",rfl,hzip⟩
      | false => cases h
  rw [if_neg hj] at h
  by_cases hp : (!seven && (suffixMatches (bytes name) ".plain.pk" || facts.hasUuidBin))=true
  · rw [if_pos hp] at h
    obtain rfl := Except.ok.inj h
    exact .inl rfl
  · rw [if_neg hp] at h
    obtain rfl := Except.ok.inj h
    have hpk : seven=false → zip=false → suffixMatches (bytes name) ".pk"=true := by
      intro hs hz
      simpa [hs,hz] using hnone
    exact .inr (uuidRootFormat_readable (fun hs => hseven.trans hs) (fun hz => hzip.trans hz)
      hpk)

end Librairii.ArchiveFormats
