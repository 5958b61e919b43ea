import Librairii.CanonicalQuery

/-!
# The saved-query codec

Encoding serializes the canonical query in its frozen field order, applies five
textual escapes and bounds the bytes. Decoding parses the bytes strictly, reads
the fields under their folded keys, checks the references, drops what older
versions retired and repeats the canonical passes. On a query with normalized
texts decoding returns the canonical query and encoding it gives the same text.
-/

namespace Librairii.SavedQueryCodec

open FrozenText CheckedResults JsonText WireParser SavedQuery CanonicalQuery

def maxBytes : ℕ := 262144

/-- The frozen upper folding of a key character that reaches an ASCII name. -/
def fieldCharacter (c : Char) : Option Char :=
  if 97≤c.toNat ∧ c.toNat≤122 then some (Char.ofNat (c.toNat-32))
  else if c = '\u017f' then some 'S'
  else if c = '\u212a' then some 'K'
  else if c.toNat<128 then some c
  else none

def asciiFieldKey (key : String) : Option String :=
  (key.toList.mapM fieldCharacter).map String.ofList

/-- The folded name of a key, or a refusal. -/
def field (key : String) : Except CodecError String :=
  match asciiFieldKey key with
  | some folded => .ok folded
  | none => .error .invalid

/-- Read a text; null keeps the target. -/
def scalarString : Wire → String → Except CodecError String
  | .null,target => .ok target
  | .string value,_ => .ok value
  | _,_ => .error .invalid

def digitsValue (digits : List Char) : Option ℕ :=
  digits.foldlM (fun n c =>
    if 48≤c.toNat ∧ c.toNat≤57 then some (n*10+(c.toNat-48)) else none) 0

def signedValue (negative : Bool) (digits : List Char) : Option I64 :=
  if digits=[] then none
  else match digitsValue digits with
  | none => none
  | some n =>
    let value : ℤ := if negative then -n else n
    if h : -2^63≤value ∧ value<2^63 then some ⟨value,h⟩ else none

/-- An optional sign and at least one digit, within 64 bits. -/
def parseI64 (raw : String) : Option I64 :=
  match raw.toList with
  | '-' :: digits => signedValue true digits
  | '+' :: digits => signedValue false digits
  | digits => signedValue false digits

/-- Read an integer; null keeps the target. -/
def scalarInteger : Wire → I64 → Except CodecError I64
  | .null,target => .ok target
  | .number raw,_ =>
    match parseI64 raw with
    | some value => .ok value
    | none => .error .invalid
  | _,_ => .error .invalid

def array {α : Type} (element : Wire → Except CodecError α) : Wire → Except CodecError (List α)
  | .null => .ok []
  | .array values => values.mapM element
  | _ => .error .invalid

def object : Wire → Except CodecError (List (String×Wire))
  | .null => .ok []
  | .object fields => .ok fields
  | _ => .error .invalid

def booleanField (result : BooleanFilter) (entry : String×Wire) :
    Except CodecError BooleanFilter := do
  let key ← field entry.1
  if key="DEFINITIONID" then
    (scalarInteger entry.2 result.definitionId).map fun n => { result with definitionId := n }
  else if key="STATE" then
    (scalarString entry.2 result.state).map fun s => { result with state := s }
  else .error .invalid

def boolean (wire : Wire) : Except CodecError BooleanFilter := do
  let fields ← object wire
  fields.foldlM booleanField {}

def choiceField (result : ChoiceFilter) (entry : String×Wire) :
    Except CodecError ChoiceFilter := do
  let key ← field entry.1
  if key="DEFINITIONID" then
    (scalarInteger entry.2 result.definitionId).map fun n => { result with definitionId := n }
  else if key="VALUEIDS" then
    (array (fun wire => scalarInteger wire zero) entry.2).map fun ids =>
      { result with valueIds := ids }
  else .error .invalid

def choice (wire : Wire) : Except CodecError ChoiceFilter := do
  let fields ← object wire
  fields.foldlM choiceField {}

/-- Read a flag; null keeps the target. -/
def scalarBool : Wire → Bool → Except CodecError Bool
  | .null,target => .ok target
  | .bool value,_ => .ok value
  | _,_ => .error .invalid

/-- Read one member of a query node besides `anyOf`. -/
def ownField (legacyNavigation : Bool) (own : Membership) (key : String) (wire : Wire) :
    Except CodecError Membership :=
  if key="BROKENVISIBILITY" then
    (scalarString wire own.brokenVisibility).map fun s => { own with brokenVisibility := s }
  else if key="BROKENSTATE" then
    (scalarString wire own.brokenState).map fun s => { own with brokenState := s }
  else if key="INCLUDEBROKEN" then
    (scalarBool wire own.includeBroken).map fun b => { own with includeBroken := b }
  else if key="NAME" then
    (scalarString wire own.name).map fun s => { own with name := s }
  else if key="LANGUAGES" then
    (array (fun wire => scalarString wire "") wire).map fun l => { own with languages := l }
  else if key="COMPATIBILITIES" then
    (array (fun wire => scalarString wire "") wire).map fun l =>
      { own with compatibilities := l }
  else if key="BOOLEANFILTERS" then
    (array boolean wire).map fun l => { own with booleanFilters := l }
  else if key="CHOICEFILTERS" then
    (array choice wire).map fun l => { own with choiceFilters := l }
  else if (key="PAGE" ∨ key="PAGESIZE") ∧ legacyNavigation=true then
    (scalarInteger wire zero).map fun _ => own
  else if key="SORT" ∧ legacyNavigation=true then
    (scalarString wire "").map fun _ => own
  else .error .invalid

mutual

def query : Wire → Bool → Except CodecError Query
  | .null,_ => .ok (.node {} [])
  | .object fields,legacyNavigation => queryFields legacyNavigation {} [] fields
  | _,_ => .error .invalid

/-- Read the members of a query node one after the other. -/
def queryFields (legacyNavigation : Bool) (own : Membership) (anyOf : List Query) :
    List (String×Wire) → Except CodecError Query
  | [] => .ok (.node own anyOf)
  | (key,wire)::fields => do
    let folded ← field key
    if folded="ANYOF" then do
      let anyOf ← queryArray wire
      queryFields legacyNavigation own anyOf fields
    else do
      let own ← ownField legacyNavigation own folded wire
      queryFields legacyNavigation own anyOf fields

/-- Read the branches; null is no branch. -/
def queryArray : Wire → Except CodecError (List Query)
  | .null => .ok []
  | .array values => queryElements values
  | _ => .error .invalid

/-- Read the branches one after the other. -/
def queryElements : List Wire → Except CodecError (List Query)
  | [] => .ok []
  | wire::wires => do
    let branch ← query wire false
    let branches ← queryElements wires
    .ok (branch::branches)

end

/-- The tables and the serializer the codec relies on. -/
structure CodecEnv extends WireEnv,NormalEnv where
  /-- Compact serialization of a value. -/
  serialize : Json → Option String

def member (key : String) (absent : Bool) (value : Json) : List (String×Json) :=
  if absent then [] else [(key,value)]

def booleanJson (f : BooleanFilter) : Json :=
  .object [("definitionId",.number f.definitionId.val),("state",.string f.state)]

def choiceJson (f : ChoiceFilter) : Json :=
  .object [("definitionId",.number f.definitionId.val),
    ("valueIds",.array (f.valueIds.map fun v => .number v.val))]

mutual

/-- A query node as a value, its members in their frozen order. -/
def queryJson : Query → Json
  | .node own anyOf => .object
    (member "brokenVisibility" (own.brokenVisibility="") (.string own.brokenVisibility)++
      (member "brokenState" (own.brokenState="") (.string own.brokenState)++
      (member "anyOf" anyOf.isEmpty (.array (queryJsons anyOf))++
      (member "includeBroken" (!own.includeBroken) (.bool own.includeBroken)++
      (member "name" (own.name="") (.string own.name)++
      (member "languages" own.languages.isEmpty (.array (own.languages.map .string))++
      (member "compatibilities" own.compatibilities.isEmpty
        (.array (own.compatibilities.map .string))++
      (member "booleanFilters" own.booleanFilters.isEmpty
        (.array (own.booleanFilters.map booleanJson))++
      member "choiceFilters" own.choiceFilters.isEmpty
        (.array (own.choiceFilters.map choiceJson))))))))))

/-- Every branch as a value. -/
def queryJsons : List Query → List Json
  | [] => []
  | branch::branches => queryJson branch::queryJsons branches

end

/-- The five textual escapes of a saved query, in their order. -/
def payloadEscapes (value : List Char) : List Char :=
  replace '\u2029' ['\\','u','2','0','2','9']
    (replace '\u2028' ['\\','u','2','0','2','8']
      (replace '&' ['\\','u','0','0','2','6']
        (replace '>' ['\\','u','0','0','3','e']
          (replace '<' ['\\','u','0','0','3','c'] value))))

section Codec

variable (env : CodecEnv)

/-- Serialize a query, apply the textual escapes and bound the bytes. -/
def payload (q : Query) : Except CodecError String :=
  match env.serialize (queryJson q) with
  | none => .error .frozenData
  | some text =>
    let text := String.ofList (payloadEscapes text.toList)
    if maxBytes<(bytes text.toList).length then .error .invalid else .ok text

/-- Parse a saved query of a supported version and check its references. -/
def decodePayload (version : I64) (bytes : List UInt8) : Except CodecError Query :=
  if ¬(1≤version.val ∧ version.val≤5) then .error .unsupportedVersion
  else if ¬(2≤bytes.length ∧ bytes.length ≤ maxBytes) then .error .invalid
  else do
    let wire ← parse env.toWireEnv bytes
    match wire with
    | .object fields => do
      let q ← query (.object fields) (version.val=1)
      let _ ← validateReferences q maxNodes (version.val=5)
      .ok q
    | _ => .error .invalid

/-- Decode a saved query into its canonical form. -/
def decode (version : I64) (bytes : List UInt8) (legacyId : I64) :
    Except CodecError Query := do
  let q ← decodePayload env version bytes
  canonicalSaved env.toNormalEnv (retire version legacyId q)

def encode (q : Query) : Except CodecError String := do
  let q ← canonicalSaved env.toNormalEnv q
  let _ ← validateReferences q maxNodes true
  payload env q

end Codec

end Librairii.SavedQueryCodec
