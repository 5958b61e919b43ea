import Librairii.WireParser

/-!
# Displayed names and visible texts

A text is visible exactly when it has a character that is not white space. The bytes of a
text are displayed as that text, a name with bytes never displays as nothing, and the text
of an absolute path is visible.
-/

namespace Librairii.DisplayNames

open FrozenText JsonText WireParser

theorem dropWhile_both_nil_iff {α : Type} (p : α → Bool) (l : List α) :
    ((l.dropWhile p).reverse.dropWhile p).reverse=[] ↔ ∀ x ∈ l, p x=true := by
  rw [List.reverse_eq_nil_iff,List.dropWhile_eq_nil_iff]
  constructor
  · intro h
    by_contra hne
    have hleft : l.dropWhile p≠[] := fun he => hne (List.dropWhile_eq_nil_iff.mp he)
    have hhead := List.head_dropWhile_not p hleft
    have hp := h _ (List.mem_reverse.mpr (List.head_mem hleft))
    rw [hp] at hhead
    cases hhead
  · intro h x hx
    exact h x ((List.dropWhile_sublist p).subset (List.mem_reverse.mp hx))

theorem textPresent_iff (value : String) :
    textPresent value=true ↔ ∃ c ∈ value.toList, isSpace c=false := by
  have hempty : tagTrim value="" ↔ ∀ c ∈ value.toList, isSpace c=true := by
    rw [← dropWhile_both_nil_iff isSpace value.toList,tagTrim,trimMatches,
      ← String.toList_inj,String.toList_ofList]
    rfl
  rw [textPresent,decide_eq_true_eq,ne_eq,hempty]
  simp

theorem textPresent_of_mem {value : String} {c : Char} (hc : c ∈ value.toList)
    (h : isSpace c=false) : textPresent value=true := (textPresent_iff value).mpr ⟨c,hc,h⟩

theorem textPresent_of_trim {value : String} (htrim : tagTrim value=value)
    (h : value≠"") : textPresent value=true := by
  rw [textPresent,htrim,decide_eq_true_eq]
  exact h

/-- Dropping a selected front keeps what is not selected. -/
theorem mem_dropWhile {α : Type} {p : α → Bool} {l : List α} {x : α} (hx : x ∈ l)
    (h : p x=false) : x ∈ l.dropWhile p := by
  rw [← List.takeWhile_append_dropWhile (p:=p) (l:=l),List.mem_append] at hx
  cases hx with
  | inl hfront =>
    have hp := List.mem_takeWhile_imp hfront
    rw [hp] at h
    cases h
  | inr hrest => exact hrest

theorem textPresent_tagTrim {value : String} (h : textPresent value=true) :
    textPresent (tagTrim value)=true := by
  obtain ⟨c,hc,hspace⟩ := (textPresent_iff value).mp h
  have hfront := mem_dropWhile hc hspace
  have hboth := mem_dropWhile (List.mem_reverse.mpr hfront) hspace
  refine textPresent_of_mem ?_ hspace
  rw [tagTrim,trimMatches,String.toList_ofList]
  exact List.mem_reverse.mpr hboth

theorem decodeFirst_encode_append (c : Char) (rest : List UInt8) :
    decodeFirst (String.utf8EncodeChar c++rest)=some c := by
  have hl : (String.utf8EncodeChar c).length≤4 := by
    rw [String.length_utf8EncodeChar]
    exact c.utf8Size_le_four
  have h := ByteArray.utf8DecodeChar?_utf8EncodeChar_append
    (b:=(rest.take (4-(String.utf8EncodeChar c).length)).toByteArray) (c:=c)
  rw [decodeFirst,List.take_append,List.take_of_length_le hl,List.toByteArray_append,h]

theorem encode_ne_nil (c : Char) : String.utf8EncodeChar c≠[] := by
  intro h
  have hl := String.length_utf8EncodeChar c
  have hpos := c.utf8Size_pos
  rw [h,List.length_nil] at hl
  omega

theorem displayChars_bytes (text : List Char) : ∀ fuel, (bytes text).length≤fuel →
    displayChars fuel (bytes text)=text := by
  induction text with
  | nil =>
    intro fuel _
    cases fuel <;> rfl
  | cons c text ih =>
    intro fuel hfuel
    obtain ⟨b,tail,hb⟩ := List.exists_cons_of_ne_nil (encode_ne_nil c)
    have hsize := String.length_utf8EncodeChar c
    have hdecode := decodeFirst_encode_append c (bytes text)
    have hdrop : (String.utf8EncodeChar c++bytes text).drop c.utf8Size=bytes text :=
      List.drop_left' hsize
    rw [bytes_cons,List.length_append,hsize] at hfuel
    have hpos := c.utf8Size_pos
    cases fuel with
    | zero => omega
    | succ fuel =>
      rw [bytes_cons]
      rw [hb,List.cons_append] at hdecode hdrop ⊢
      rw [displayChars,hdecode]
      dsimp only
      rw [hdrop,ih fuel (by omega)]

theorem displayNativeText_bytes (text : List Char) :
    displayNativeText (bytes text)=String.ofList text := by
  rw [displayNativeText,displayChars_bytes text _ le_rfl]

theorem bytes_inj {a b : List Char} (h : bytes a=bytes b) : a=b := by
  have htext : String.ofList a=String.ofList b := by
    rw [←displayNativeText_bytes,←displayNativeText_bytes,h]
  have hlist := congrArg String.toList htext
  rwa [String.toList_ofList,String.toList_ofList] at hlist

theorem displayNativeText_ne {name : List UInt8} (h : name≠[]) : displayNativeText name≠"" := by
  obtain ⟨b,rest,rfl⟩ := List.exists_cons_of_ne_nil h
  intro he
  have hlist := congrArg String.toList he
  rw [displayNativeText,String.toList_ofList,List.length_cons,displayChars] at hlist
  cases hd : decodeFirst (b::rest) with
  | none =>
    rw [hd] at hlist
    cases hlist
  | some c =>
    rw [hd] at hlist
    cases hlist

theorem utf8ByteSize_eq (value : String) : value.utf8ByteSize=(bytes value.toList).length := by
  have hencode := @String.utf8Encode_toList value
  rw [← String.size_toByteArray,← hencode]
  exact List.size_toByteArray

theorem bytes_of_fromUtf8 {name : List UInt8} {text : String} (h : fromUtf8 name=some text) :
    bytes text.toList=name := by
  rw [fromUtf8,String.fromUTF8?] at h
  split at h
  · next hv =>
    cases h
    have hencode := @String.utf8Encode_toList (String.fromUTF8 name.toByteArray hv)
    exact List.toByteArray_inj.mp hencode
  · cases h

theorem textPresent_absolute {rest : List UInt8} {text : String}
    (h : fromUtf8 (0x2f::rest)=some text) : textPresent text=true := by
  have hbytes := bytes_of_fromUtf8 h
  cases htext : text.toList with
  | nil =>
    rw [htext] at hbytes
    cases hbytes
  | cons c cs =>
    rw [htext,bytes_cons] at hbytes
    by_cases hc : c.toNat<128
    · rw [encode_ascii hc,List.singleton_append] at hbytes
      have hcode := (List.cons.inj hbytes).1
      have hslash : c = '/' := by
        by_contra hne
        have hcode' : c.toNat≠0x2f := fun he => hne (Char.ext (UInt32.toNat_inj.mp he))
        exact ofNat_ne (by omega) (by decide) hcode' hcode
      exact textPresent_of_mem (htext ▸ List.mem_cons_self) (hslash ▸ rfl)
    · obtain ⟨n,tail,hn,hlow,hhigh,-⟩ := encode_wide (not_lt.mp hc)
      rw [hn,List.cons_append] at hbytes
      have hne : n≠0x2f := by omega
      exact absurd (List.cons.inj hbytes).1 (ofNat_ne hhigh (by decide) hne)

end Librairii.DisplayNames
