import Mathlib

/-!
# Conditions with three levels of precedence

A condition is read from left to right with one frame for each open parenthesis. NOT binds
tighter than AND, and AND tighter than OR. A fragment reads as an operand when the reader
takes its value and goes on behind it; the rules compose fragments to larger ones.
-/

namespace Librairii.SqlConditions

variable {α : Type}

/-- A lexeme of a condition. -/
inductive Lexeme (α : Type) where
  | operand (a : α)
  | not
  | and
  | or
  | open
  | close

/-- What has been read behind an open parenthesis. -/
structure Frame where
  disjunction : Bool := false
  /-- The conjunction of the operands since then. -/
  conjunction : Bool := true
  negated : Bool := false

def Frame.take (f : Frame) (b : Bool) : Frame :=
  { f with conjunction := f.conjunction && (b != f.negated), negated := false }

/-- Finish a conjunction. -/
def Frame.alternative (f : Frame) : Frame := { disjunction := f.disjunction || f.conjunction }

def Frame.value (f : Frame) : Bool := f.disjunction || f.conjunction

/-- Read a condition; the flag tells whether an operand comes next. -/
def evaluate (v : α → Bool) : List (Lexeme α) → Bool → Frame → List Frame → Option Bool
  | [],false,f,[] => some f.value
  | .operand a::rest,true,f,outer => evaluate v rest false (f.take (v a)) outer
  | .not::rest,true,f,outer => evaluate v rest true { f with negated := !f.negated } outer
  | .open::rest,true,f,outer => evaluate v rest true {} (f::outer)
  | .and::rest,false,f,outer => evaluate v rest true f outer
  | .or::rest,false,f,outer => evaluate v rest true f.alternative outer
  | .close::rest,false,f,g::outer => evaluate v rest false (g.take f.value) outer
  | _,_,_,_ => none

def join {β : Type} (separator : List β) : List (List β) → List β
  | [] => []
  | [x] => x
  | x::y::rest => x++separator++join separator (y::rest)

theorem mem_join {β : Type} {separator : List β} {xs : List (List β)} {a : β}
    (h : a ∈ join separator xs) : a ∈ separator ∨ ∃ x ∈ xs, a ∈ x := by
  induction xs with
  | nil => exact absurd h List.not_mem_nil
  | cons x xs ih =>
    cases xs with
    | nil => exact .inr ⟨x,List.mem_cons_self,h⟩
    | cons y xs =>
      rw [join,List.mem_append,List.mem_append] at h
      rcases h with (h | h) | h
      · exact .inr ⟨x,List.mem_cons_self,h⟩
      · exact .inl h
      · rcases ih h with h | ⟨z,hz,h⟩
        · exact .inl h
        · exact .inr ⟨z,List.mem_cons_of_mem _ hz,h⟩

def Reads (v : α → Bool) (x : List (Lexeme α)) (b : Bool) : Prop :=
  ∀ rest f outer, evaluate v (x++rest) true f outer=evaluate v rest false (f.take b) outer

/-- A fragment reads as operands of one conjunction with the value. -/
def Conjoins (v : α → Bool) (x : List (Lexeme α)) (b : Bool) : Prop :=
  ∀ rest f outer, f.negated=false →
    evaluate v (x++rest) true f outer=evaluate v rest false (f.take b) outer

section Rules

variable {v : α → Bool} {x : List (Lexeme α)} {b : Bool}

theorem reads_operand (a : α) : Reads v [.operand a] (v a) := fun _ _ _ => rfl

theorem reads_not (h : Reads v x b) : Reads v (.not::x) (!b) := by
  intro rest f outer
  have hx := h rest { f with negated := !f.negated } outer
  have ht : Frame.take { f with negated := !f.negated } b=f.take (!b) := by
    cases b <;> cases hn : f.negated <;> simp [Frame.take,hn]
  rw [List.cons_append,evaluate,hx,ht]

/-- An operand is a conjunction of one. -/
theorem Reads.conjoins (h : Reads v x b) : Conjoins v x b := fun rest f outer _ => h rest f outer

theorem reads_parentheses (h : Conjoins v x b) : Reads v (.open::(x++[.close])) b := by
  intro rest f outer
  have hx := h (.close::rest) {} (f::outer) rfl
  have hvalue : (Frame.take {} b).value=b := by
    cases b <;> rfl
  rw [List.cons_append,List.append_assoc,List.singleton_append,evaluate,hx,evaluate,hvalue]

theorem Reads.ne_nil (h : Reads v x b) : x≠[] := by
  rintro rfl
  have hx := h [] {} []
  cases hx

theorem join_isEmpty {separator : List (Lexeme α)} {xs : List (List (Lexeme α))} {bs : List Bool}
    (h : List.Forall₂ (Reads v) xs bs) : (join separator xs).isEmpty=xs.isEmpty := by
  cases h with
  | nil => rfl
  | @cons x b xs bs hx hxs =>
    have hne := hx.ne_nil
    cases x with
    | nil => exact absurd rfl hne
    | cons l x =>
      cases xs with
      | nil => rfl
      | cons y xs => rfl

/-- Taking two operands takes their conjunction. -/
theorem take_take {f : Frame} (h : f.negated=false) (b c : Bool) :
    (f.take b).take c=f.take (b && c) := by
  cases b <;> cases c <;> simp [Frame.take,h]

theorem conjoins_join {xs : List (List (Lexeme α))} {bs : List Bool}
    (h : List.Forall₂ (Reads v) xs bs) (hne : xs≠[]) : Conjoins v (join [.and] xs) (bs.all id) := by
  induction h with
  | nil => exact absurd rfl hne
  | @cons x b xs bs hx hxs ih =>
    cases hxs with
    | nil =>
      rw [join,List.all_cons,List.all_nil,Bool.and_true]
      exact hx.conjoins
    | @cons y c ys cs hy hys =>
      intro rest f outer hf
      have hrest := ih (List.cons_ne_nil _ _) rest (f.take b) outer rfl
      rw [join,List.append_assoc,List.append_assoc,hx,List.singleton_append,evaluate,hrest,
        take_take hf,List.all_cons (l := c::cs)]
      rfl

theorem evaluate_alternatives {xs : List (List (Lexeme α))} {bs : List Bool}
    (h : List.Forall₂ (Reads v) xs bs) (hne : xs≠[]) : ∀ rest f outer, f.negated=false →
      f.conjunction=true → evaluate v (join [.or] xs++.close::rest) true f outer=
        evaluate v (.close::rest) false ⟨f.disjunction || bs.any id,false,false⟩ outer := by
  induction h with
  | nil => exact absurd rfl hne
  | @cons x b xs bs hx hxs ih =>
    intro rest f outer hf hc
    cases hxs with
    | nil =>
      rw [join,hx,List.any_cons,List.any_nil,Bool.or_false]
      cases outer with
      | nil => rfl
      | cons g outer =>
        have hvalue : (f.take b).value=Frame.value ⟨f.disjunction || b,false,false⟩ := by
          cases b <;> simp [Frame.take,Frame.value,hf,hc]
        rw [evaluate,evaluate,id,hvalue]
    | @cons y c ys cs hy hys =>
      have hrest := ih (List.cons_ne_nil _ _) rest (f.take b).alternative outer rfl rfl
      have halternative : (f.take b).alternative.disjunction=(f.disjunction || b) := by
        cases b <;> simp [Frame.take,Frame.alternative,hf,hc]
      rw [join,List.append_assoc,List.append_assoc,hx,List.singleton_append,evaluate,hrest,
        halternative,List.any_cons (l := c::cs),Bool.or_assoc]
      rfl

theorem reads_alternatives {xs : List (List (Lexeme α))} {bs : List Bool}
    (h : List.Forall₂ (Reads v) xs bs) (hne : xs≠[]) :
    Reads v (.open::(join [.or] xs++[.close])) (bs.any id) := by
  intro rest f outer
  have hall := evaluate_alternatives h hne rest {} (f::outer) rfl rfl
  have hvalue : Frame.value ⟨false || bs.any id,false,false⟩=bs.any id := by
    simp [Frame.value]
  rw [List.cons_append,List.append_assoc,List.singleton_append,evaluate,hall,evaluate,hvalue]

/-- A conjunction goes on with one more operand. -/
theorem Conjoins.and {y : List (Lexeme α)} {c : Bool} (h : Conjoins v x b) (hy : Reads v y c) :
    Conjoins v (x++.and::y) (b && c) := by
  intro rest f outer hf
  have hx := h (.and::(y++rest)) f outer hf
  rw [List.append_assoc,List.cons_append,hx,evaluate,hy,take_take hf]

/-- A conjunction that is all of a condition is its value. -/
theorem Conjoins.evaluate_eq (h : Conjoins v x b) : evaluate v x true {} []=some b := by
  have hx := h [] {} [] rfl
  rw [List.append_nil] at hx
  rw [hx]
  cases b <;> rfl

end Rules

end Librairii.SqlConditions
