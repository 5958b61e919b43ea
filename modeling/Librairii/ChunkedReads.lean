import Mathlib

/-!
# Readers that answer in chunks

A reader is offered a size and answers with a chunk that is no longer, with nothing at its
end, or with an error. What it delivers is the concatenation of its chunks, however they are
split.
-/

namespace Librairii.ChunkedReads

variable {α σ : Type}

/-- What a reader has left. -/
structure Payload (α : Type) where
  /-- The elements it still delivers. -/
  content : List α
  /-- An error follows them, in place of the end. -/
  fails : Bool

/-- What one answer to an offered size can be, and what is left then. -/
def Answers (Left : σ → Payload α → Prop) (n : ℕ) (answer : Option (List α×σ))
    (p : Payload α) : Prop :=
  match answer with
  | none => p.content=[] ∧ p.fails=true
  | some (chunk,s) => chunk.length≤n ∧ ∃ rest, p.content=chunk++rest ∧ Left s ⟨rest,p.fails⟩ ∧
      (chunk=[] → p.content=[] ∧ p.fails=false)

/-- Every answer of the reader is in accord with what is left. -/
def Serves (read : σ → ℕ → Option (List α×σ)) (Left : σ → Payload α → Prop) : Prop :=
  ∀ s p n, 0 < n → Left s p → Answers Left n (read s n) p

/-- A reader delivers a payload, in chunks of its own choice. -/
def Delivers (read : σ → ℕ → Option (List α×σ)) (s : σ) (p : Payload α) : Prop :=
  ∃ Left, Serves read Left ∧ Left s p

variable {read : σ → ℕ → Option (List α×σ)} {s : σ} {p : Payload α}

theorem Delivers.answers (h : Delivers read s p) {n : ℕ} (hn : 0 < n) :
    Answers (Delivers read) n (read s n) p := by
  obtain ⟨Left,hserves,hleft⟩ := h
  have hanswer := hserves s p n hn hleft
  cases hread : read s n with
  | none =>
    rw [hread] at hanswer
    exact hanswer
  | some answer =>
    obtain ⟨chunk,next⟩ := answer
    rw [hread] at hanswer
    obtain ⟨hlength,rest,hsplit,hnext,hend⟩ := hanswer
    exact ⟨hlength,rest,hsplit,⟨Left,hserves,hnext⟩,hend⟩

/-- The answers of a reader: its end, its error, or a chunk and the rest. -/
theorem Delivers.cases (h : Delivers read s p) {n : ℕ} (hn : 0 < n) :
    (p.content=[] ∧ p.fails=false ∧ ∃ next, read s n=some ([],next)) ∨
    (p.content=[] ∧ p.fails=true ∧ read s n=none) ∨
    (∃ chunk rest next, read s n=some (chunk,next) ∧ chunk≠[] ∧ chunk.length≤n ∧
      p.content=chunk++rest ∧ Delivers read next ⟨rest,p.fails⟩) := by
  have hanswer := h.answers hn
  cases hread : read s n with
  | none =>
    rw [hread] at hanswer
    exact .inr (.inl ⟨hanswer.1,hanswer.2,rfl⟩)
  | some answer =>
    obtain ⟨chunk,next⟩ := answer
    rw [hread] at hanswer
    obtain ⟨hlength,rest,hsplit,hnext,hend⟩ := hanswer
    by_cases hchunk : chunk=[]
    · have hempty := hend hchunk
      exact .inl ⟨hempty.1,hempty.2,next,by rw [hchunk]⟩
    · exact .inr (.inr ⟨chunk,rest,next,rfl,hchunk,hlength,hsplit,hnext⟩)

/-- A reader that answers with what it is asked for, but never more than some number at once. -/
def slowRead (most : ℕ) (p : Payload α) (n : ℕ) : Option (List α×Payload α) :=
  if p.content=[] ∧ p.fails then none
  else some (p.content.take (min n most),⟨p.content.drop (min n most),p.fails⟩)

theorem slowRead_delivers {most : ℕ} (hmost : 0 < most) (p : Payload α) :
    Delivers (slowRead most) p p := by
  refine ⟨Eq,?_,rfl⟩
  rintro s p n hn rfl
  unfold slowRead
  by_cases hend : s.content=[] ∧ s.fails
  · rw [if_pos hend]
    exact hend
  · rw [if_neg hend]
    refine ⟨?_,s.content.drop (min n most),(List.take_append_drop _ _).symm,rfl,?_⟩
    · rw [List.length_take]
      omega
    · intro hnone
      have hempty : s.content=[] := by
        rcases List.take_eq_nil_iff.mp hnone with hzero | hempty
        · omega
        · exact hempty
      exact ⟨hempty,by simpa [hempty] using hend⟩

end Librairii.ChunkedReads
