import Mathlib

/-!
# Tagged fields

Optional byte strings written with a tag and their length, and optional machine
integers written with a tag, one after another. The writing of a list of fields
can be cut in one way only, so it names the fields and what follows them.
-/

namespace Librairii.TaggedFields

/-- The low bytes of a number, the least significant one first. -/
def littleEndian : ℕ → ℕ → List UInt8
  | 0,_ => []
  | width+1,n => UInt8.ofNat (n%256)::littleEndian width (n/256)

/-- The bytes fill the width. -/
@[simp] theorem littleEndian_length (width n : ℕ) : (littleEndian width n).length=width := by
  induction width generalizing n with
  | zero => rfl
  | succ width ih => rw [littleEndian,List.length_cons,ih]

/-- Bytes below 256 name their number. -/
theorem ofNat_injective {m n : ℕ} (hm : m<256) (hn : n<256)
    (h : UInt8.ofNat m=UInt8.ofNat n) : m=n := by
  have hnat := congrArg UInt8.toNat h
  simp only [UInt8.toNat_ofNat'] at hnat
  omega

/-- A number below the bound of its width is named by its bytes. -/
theorem littleEndian_injective {width m n : ℕ} (hm : m<256^width) (hn : n<256^width)
    (h : littleEndian width m=littleEndian width n) : m=n := by
  induction width generalizing m n with
  | zero =>
      simp only [pow_zero] at hm hn
      omega
  | succ width ih =>
      rw [littleEndian,littleEndian,List.cons.injEq] at h
      have hlow := ofNat_injective (Nat.mod_lt m (by omega)) (Nat.mod_lt n (by omega)) h.1
      have hbound : ∀ k, k<256^(width+1) → k/256<256^width := by
        intro k hk
        rw [pow_succ] at hk
        omega
      have hhigh := ih (hbound m hm) (hbound n hn) h.2
      omega

/-- A number of 64 bits is named by its eight bytes. -/
theorem littleEndian_word {m n : ℕ} (hm : m<2^64) (hn : n<2^64)
    (h : littleEndian 8 m=littleEndian 8 n) : m=n :=
  littleEndian_injective (lt_of_lt_of_le hm (by decide)) (lt_of_lt_of_le hn (by decide)) h

/-- An optional byte string: one byte for an absent one, else a tag, the length
and the bytes. -/
def textField : Option (List UInt8) → List UInt8
  | none => [0]
  | some value => 1::littleEndian 8 value.length++value

/-- An optional integer in two's complement: one byte for an absent one, else a
tag and eight bytes. -/
def numberField : Option ℤ → List UInt8
  | none => [0]
  | some n => 1::littleEndian 8 (n%2^64).toNat

/-- A byte string a machine can hold. -/
def HeldText (value : Option (List UInt8)) : Prop := ∀ text ∈ value, text.length<2^64

/-- An integer a machine word can hold. -/
def HeldNumber (value : Option ℤ) : Prop := ∀ n ∈ value, -2^63≤n ∧ n<2^63

theorem textField_append {v v' : Option (List UInt8)} {rest rest' : List UInt8} (hv : HeldText v)
    (hv' : HeldText v') (h : textField v++rest=textField v'++rest') : v=v' ∧ rest=rest' := by
  cases v with
  | none =>
      cases v' with
      | none => exact ⟨rfl,(List.cons.injEq _ _ _ _ ▸ h).2⟩
      | some text' => exact absurd (List.head_eq_of_cons_eq h) (by decide)
  | some text =>
      cases v' with
      | none => exact absurd (List.head_eq_of_cons_eq h) (by decide)
      | some text' =>
          simp only [textField,List.cons_append,List.append_assoc,List.cons.injEq,true_and] at h
          obtain ⟨hlength,hrest⟩ := List.append_inj h (by simp)
          have hsame := littleEndian_word (hv text rfl) (hv' text' rfl) hlength
          obtain ⟨htext,hrest⟩ := List.append_inj hrest hsame
          exact ⟨congrArg some htext,hrest⟩

theorem numberField_append {v v' : Option ℤ} {rest rest' : List UInt8} (hv : HeldNumber v)
    (hv' : HeldNumber v') (h : numberField v++rest=numberField v'++rest') : v=v' ∧ rest=rest' := by
  cases v with
  | none =>
      cases v' with
      | none => exact ⟨rfl,(List.cons.injEq _ _ _ _ ▸ h).2⟩
      | some n' => exact absurd (List.head_eq_of_cons_eq h) (by decide)
  | some n =>
      cases v' with
      | none => exact absurd (List.head_eq_of_cons_eq h) (by decide)
      | some n' =>
          simp only [numberField,List.cons_append,List.cons.injEq,true_and] at h
          obtain ⟨hword,hrest⟩ := List.append_inj h (by simp)
          have hn := hv n rfl
          have hn' := hv' n' rfl
          have hsame := littleEndian_word (by omega) (by omega) hword
          have heq : n=n' := by omega
          exact ⟨congrArg some heq,hrest⟩

theorem fields_append {α : Type} {field : α → List UInt8} {held : α → Prop}
    (hcut : ∀ {v v' : α} {rest rest' : List UInt8}, held v → held v' →
      field v++rest=field v'++rest' → v=v' ∧ rest=rest') {vs vs' : List α} {rest rest' : List UInt8}
    (hvs : ∀ v ∈ vs, held v) (hvs' : ∀ v ∈ vs', held v) (hlength : vs.length=vs'.length)
    (h : vs.flatMap field++rest=vs'.flatMap field++rest') : vs=vs' ∧ rest=rest' := by
  induction vs generalizing vs' with
  | nil =>
      rw [List.eq_nil_of_length_eq_zero hlength.symm] at h ⊢
      exact ⟨rfl,h⟩
  | cons v vs ih =>
      cases vs' with
      | nil => exact absurd hlength (by simp)
      | cons v' vs' =>
          rw [List.flatMap_cons,List.flatMap_cons,List.append_assoc,List.append_assoc] at h
          obtain ⟨hv,h⟩ := hcut (hvs v List.mem_cons_self) (hvs' v' List.mem_cons_self) h
          obtain ⟨hrest,h⟩ := ih (fun w hw => hvs w (List.mem_cons_of_mem _ hw))
            (fun w hw => hvs' w (List.mem_cons_of_mem _ hw)) (by simpa using hlength) h
          exact ⟨by rw [hv,hrest],h⟩

end Librairii.TaggedFields
