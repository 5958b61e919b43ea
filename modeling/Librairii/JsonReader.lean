import Librairii.JsonValues
import Librairii.SavedQueryRoundTrip

/-!
# Reading compact texts back as values

The strict parser without key folding and with every number lexeme admitted
reads a compact text as a wire tree. Its lexemes are integers again, so every
value with distinct keys and bounded nesting is read back from its bytes.
-/

namespace Librairii.JsonReader

open CheckedResults JsonText JsonValues WireParser SavedQueryCodec SavedQueryRoundTrip

/-- The integer of a decimal lexeme. -/
def intOf (raw : String) : Option ℤ :=
  match raw.toList with
  | '-' :: digits => (digitsValue digits).map fun n : ℕ => -(n : ℤ)
  | digits => (digitsValue digits).map fun n : ℕ => (n : ℤ)

mutual

/-- The value of a wire tree whose numbers are integers. -/
def jsonOf : Wire → Option Json
  | .null => some .null
  | .bool value => some (.bool value)
  | .number raw => (intOf raw).map .number
  | .string value => some (.string value)
  | .array values => (jsonsOf values).map .array
  | .object fields => (membersOf fields).map .object

/-- The values of the elements. -/
def jsonsOf : List Wire → Option (List Json)
  | [] => some []
  | wire::wires => do
    let value ← jsonOf wire
    let values ← jsonsOf wires
    some (value::values)

def membersOf : List (String×Wire) → Option (List (String×Json))
  | [] => some []
  | (key,wire)::fields => do
    let value ← jsonOf wire
    let members ← membersOf fields
    some ((key,value)::members)

end

theorem intOf_decimal (n : ℤ) : intOf (String.ofList (decimal n))=some n := by
  obtain ⟨hne,hdigits⟩ := decimalNat_digits n.natAbs
  have hvalue := digitsValue_decimalNat n.natAbs
  rw [intOf,String.toList_ofList]
  by_cases hneg : n<0
  · have hd : decimal n = '-' :: decimalNat n.natAbs := if_pos hneg
    have hn : -(n.natAbs : ℤ)=n := by omega
    rw [hd]
    change (digitsValue (decimalNat n.natAbs)).map _=_
    rw [hvalue,Option.map_some,hn]
  · have hd : decimal n=decimalNat n.natAbs := if_neg hneg
    have hn : (n.natAbs : ℤ)=n := by omega
    rw [hd]
    cases hcons : decimalNat n.natAbs with
    | nil => exact absurd hcons hne
    | cons c tail =>
      rw [hcons] at hvalue hdigits
      have hc := hdigits c List.mem_cons_self
      split
      · next digits he =>
        cases he
        exact absurd hc (by decide)
      · rw [hvalue,Option.map_some,hn]

mutual

/-- A value is the value of its wire tree. -/
theorem jsonOf_wireOf : ∀ j : Json, jsonOf (wireOf j)=some j
  | .null => rfl
  | .bool _ => rfl
  | .number n => by
    rw [wireOf,jsonOf,intOf_decimal,Option.map_some]
  | .string _ => rfl
  | .array values => by
    rw [wireOf,jsonOf,jsonsOf_wiresOf values,Option.map_some]
  | .object members => by
    rw [wireOf,jsonOf,membersOf_fieldsOf members,Option.map_some]

/-- Elements are the values of their wire trees. -/
theorem jsonsOf_wiresOf : ∀ values : List Json, jsonsOf (wiresOf values)=some values
  | [] => rfl
  | value::values => by
    rw [wiresOf,jsonsOf,jsonOf_wireOf value,jsonsOf_wiresOf values]
    rfl

theorem membersOf_fieldsOf : ∀ members : List (String×Json),
    membersOf (fieldsOf members)=some members
  | [] => rfl
  | (key,value)::members => by
    rw [fieldsOf,membersOf,jsonOf_wireOf value,membersOf_fieldsOf members]
    rfl

end

def exactKeys : WireEnv where
  lowercaseKey key := .ok key
  numberSyntax _ := true

def readJson (bytes : List UInt8) : Option Json :=
  match parse exactKeys bytes with
  | .ok wire => jsonOf wire
  | .error _ => none

theorem readJson_write {escape : Char → List Char} (he : Escaping escape) {j : Json}
    (hfit : Fit exactKeys j) (hd : height j≤128) : readJson (bytes (write escape j))=some j := by
  have hparse := parse_write he hfit
  rw [if_pos hd] at hparse
  rw [readJson,hparse]
  exact jsonOf_wireOf j

theorem keyed_exactKeys {members : List (String×Json)} (hn : (members.map Prod.fst).Nodup) :
    Keyed exactKeys [] members := by
  have hl : ∀ entry ∈ members, exactKeys.lowercaseKey entry.1=.ok (id entry.1) :=
    fun _ _ => rfl
  exact keyed_of_nodup hl hn fun _ _ => List.not_mem_nil

mutual

theorem fit_valueForm : ∀ j : Json, ValueForm j → Fit exactKeys j
  | .null,_ => trivial
  | .bool _,_ => trivial
  | .number _,_ => rfl
  | .string _,_ => trivial
  | .array values,h => fitElements_valueForms values h
  | .object members,h => by
    have hn : (members.map Prod.fst).Nodup :=
      List.pairwise_map.mpr (h.1.imp fun hlt => ne_of_lt hlt)
    exact ⟨keyed_exactKeys hn,fitMembers_valueMembers members h.2⟩

theorem fitElements_valueForms : ∀ values : List Json, ValueForms values →
    FitElements exactKeys values
  | [],_ => trivial
  | value::values,h => ⟨fit_valueForm value h.1,fitElements_valueForms values h.2⟩

theorem fitMembers_valueMembers : ∀ members : List (String×Json), ValueMembers members →
    FitMembers exactKeys members
  | [],_ => trivial
  | (_,value)::members,h => ⟨fit_valueForm value h.1,fitMembers_valueMembers members h.2⟩

end

end Librairii.JsonReader
