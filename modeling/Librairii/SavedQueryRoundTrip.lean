import Librairii.NormalizationPasses
import Librairii.SavedQueryCodec

/-!
# Saved queries survive encoding and decoding

The readers invert the field order and the omission of absent members. The
serialized text after its textual escapes is still a compact JSON text, whose
nesting stays below the parser's bound for at most fifty nodes. So decoding an
encoded query gives its canonical form.
-/

namespace Librairii.SavedQueryRoundTrip

open FrozenText CheckedResults JsonText WireParser SavedQuery CanonicalQuery NormalizationPasses
  SavedQueryCodec

theorem digitsValue_digits {digits : List ℕ} (h : ∀ d ∈ digits, d<10) :
    digitsValue (digits.map digitChar).reverse=some (Nat.ofDigits 10 digits) := by
  induction digits with
  | nil => rfl
  | cons d digits ih =>
    have hd := h d List.mem_cons_self
    have hrest := ih fun e he => h e (List.mem_cons_of_mem _ he)
    have hn := digitChar_toNat hd
    have hrange : 48≤(digitChar d).toNat ∧ (digitChar d).toNat≤57 := by omega
    unfold digitsValue at hrest ⊢
    rw [List.map_cons,List.reverse_cons,List.foldlM_append,hrest]
    change (if 48≤(digitChar d).toNat ∧ (digitChar d).toNat≤57 then
      some (Nat.ofDigits 10 digits*10+((digitChar d).toNat-48)) else none).bind _=_
    rw [if_pos hrange,hn,Nat.ofDigits_cons]
    change some _=some _
    congr 1
    push_cast
    omega

theorem digitsValue_decimalNat (n : ℕ) : digitsValue (decimalNat n)=some n := by
  unfold decimalNat
  by_cases hn : n=0
  · rw [if_pos hn,hn]
    rfl
  · rw [if_neg hn]
    have hlt : ∀ d ∈ Nat.digits 10 n, d<10 := fun d hd => Nat.digits_lt_base (by decide) hd
    have hd := digitsValue_digits hlt
    rw [hd,Nat.ofDigits_digits]

theorem parseI64_decimal (n : I64) : parseI64 (String.ofList (decimal n.val))=some n := by
  obtain ⟨n,hlow,hhigh⟩ := n
  obtain ⟨hne,hdigits⟩ := decimalNat_digits n.natAbs
  have hvalue := digitsValue_decimalNat n.natAbs
  have hsigned : ∀ negative : Bool, (if negative then -(n.natAbs : ℤ) else n.natAbs)=n →
      signedValue negative (decimalNat n.natAbs)=some ⟨n,hlow,hhigh⟩ := by
    intro negative hs
    unfold signedValue
    rw [if_neg hne,hvalue]
    dsimp only
    rw [hs,dif_pos ⟨hlow,hhigh⟩]
  rw [parseI64,String.toList_ofList]
  by_cases hneg : n<0
  · have hd : decimal n = '-' :: decimalNat n.natAbs := if_pos hneg
    rw [hd]
    exact hsigned true (by
      rw [if_pos rfl]
      omega)
  · have hd : decimal n=decimalNat n.natAbs := if_neg hneg
    have hs := hsigned false (by
      rw [if_neg Bool.false_ne_true]
      omega)
    rw [hd]
    cases hcons : decimalNat n.natAbs with
    | nil => exact absurd hcons hne
    | cons c tail =>
      rw [hcons] at hs hdigits
      have hc := hdigits c List.mem_cons_self
      split
      · next digits he =>
        cases he
        exact absurd hc (by decide)
      · next digits he =>
        cases he
        exact absurd hc (by decide)
      · exact hs

theorem scalarInteger_number (n target : I64) :
    scalarInteger (wireOf (.number n.val)) target=.ok n := by
  have h := parseI64_decimal n
  rw [wireOf,scalarInteger,h]

theorem wiresOf_map {α : Type} (f : α → Json) (xs : List α) :
    wiresOf (xs.map f)=xs.map fun x => wireOf (f x) := by
  induction xs with
  | nil => rfl
  | cons x xs ih => rw [List.map_cons,wiresOf,ih,List.map_cons]

theorem array_map {α : Type} {element : Wire → Except CodecError α} {f : α → Json}
    (h : ∀ x, element (wireOf (f x))=.ok x) (xs : List α) :
    array element (wireOf (.array (xs.map f)))=.ok xs := by
  rw [wireOf,wiresOf_map,array]
  induction xs with
  | nil => rfl
  | cons x xs ih =>
    rw [List.map_cons,List.mapM_cons,bind_of_ok (h x),bind_of_ok ih]
    rfl

theorem boolean_booleanJson (f : BooleanFilter) : boolean (wireOf (booleanJson f))=.ok f := by
  have h := scalarInteger_number f.definitionId zero
  have hkey : field "definitionId"=.ok "DEFINITIONID" := by decide
  have hstate : field "state"=.ok "STATE" := by decide
  have hid : booleanField {} ("definitionId",wireOf (.number f.definitionId.val))=
      .ok { definitionId := f.definitionId } := by
    rw [booleanField,bind_of_ok hkey,if_pos rfl,h]
    rfl
  have hs : booleanField { definitionId := f.definitionId } ("state",wireOf (.string f.state))=
      .ok f := by
    rw [booleanField,bind_of_ok hstate,if_neg (by decide),if_pos rfl]
    rfl
  change (booleanField {} ("definitionId",wireOf (.number f.definitionId.val)) >>= _)=_
  rw [bind_of_ok hid]
  change (booleanField _ ("state",wireOf (.string f.state)) >>= _)=_
  rw [bind_of_ok hs]
  rfl

theorem choice_choiceJson (f : ChoiceFilter) : choice (wireOf (choiceJson f))=.ok f := by
  have h := scalarInteger_number f.definitionId zero
  have hkey : field "definitionId"=.ok "DEFINITIONID" := by decide
  have hvalues : field "valueIds"=.ok "VALUEIDS" := by decide
  have ha : array (fun wire => scalarInteger wire zero)
      (wireOf (.array (f.valueIds.map fun v => .number v.val)))=.ok f.valueIds :=
    array_map (fun v => scalarInteger_number v zero) f.valueIds
  have hid : choiceField {} ("definitionId",wireOf (.number f.definitionId.val))=
      .ok { definitionId := f.definitionId } := by
    rw [choiceField,bind_of_ok hkey,if_pos rfl,h]
    rfl
  have hv : choiceField { definitionId := f.definitionId }
      ("valueIds",wireOf (.array (f.valueIds.map fun v => .number v.val)))=.ok f := by
    rw [choiceField,bind_of_ok hvalues,if_neg (by decide),if_pos rfl,ha]
    rfl
  change (choiceField {} ("definitionId",wireOf (.number f.definitionId.val)) >>= _)=_
  rw [bind_of_ok hid]
  change (choiceField _ ("valueIds",_) >>= _)=_
  rw [bind_of_ok hv]
  rfl

theorem fieldsOf_append (a b : List (String×Json)) : fieldsOf (a++b)=fieldsOf a++fieldsOf b := by
  induction a with
  | nil => rfl
  | cons entry a ih =>
    obtain ⟨key,value⟩ := entry
    rw [List.cons_append,fieldsOf,ih,fieldsOf,List.cons_append]

/-- Reading a member that may be left out. -/
theorem queryFields_member {legacyNavigation absent : Bool} {own own' : Membership}
    {anyOf : List Query} {value : Json} {rest : List (String×Json)} (key folded : String)
    (hk : field key=.ok folded) (hne : folded≠"ANYOF")
    (hread : ownField legacyNavigation own folded (wireOf value)=.ok own')
    (habsent : absent=true → own'=own) :
    queryFields legacyNavigation own anyOf (fieldsOf (member key absent value++rest))=
      queryFields legacyNavigation own' anyOf (fieldsOf rest) := by
  cases absent with
  | true =>
    rw [habsent rfl]
    rfl
  | false =>
    change queryFields legacyNavigation own anyOf ((key,wireOf value)::fieldsOf rest)=_
    rw [queryFields,bind_of_ok hk,if_neg hne,bind_of_ok hread]

theorem array_strings (texts : List String) :
    array (fun wire => scalarString wire "") (wireOf (.array (texts.map .string)))=.ok texts :=
  array_map (fun _ => rfl) texts

theorem ownField_languages {legacyNavigation : Bool} {own : Membership} (languages : List String) :
    ownField legacyNavigation own "LANGUAGES" (wireOf (.array (languages.map .string)))=
      .ok { own with languages := languages } := by
  change (array (fun wire => scalarString wire "") _).map _=_
  rw [array_strings]
  rfl

theorem ownField_compatibilities {legacyNavigation : Bool} {own : Membership}
    (compatibilities : List String) :
    ownField legacyNavigation own "COMPATIBILITIES"
        (wireOf (.array (compatibilities.map .string)))=
      .ok { own with compatibilities := compatibilities } := by
  change (array (fun wire => scalarString wire "") _).map _=_
  rw [array_strings]
  rfl

theorem ownField_booleanFilters {legacyNavigation : Bool} {own : Membership}
    (filters : List BooleanFilter) :
    ownField legacyNavigation own "BOOLEANFILTERS" (wireOf (.array (filters.map booleanJson)))=
      .ok { own with booleanFilters := filters } := by
  have h := array_map boolean_booleanJson filters
  change (array boolean _).map _=_
  rw [h]
  rfl

theorem ownField_choiceFilters {legacyNavigation : Bool} {own : Membership}
    (filters : List ChoiceFilter) :
    ownField legacyNavigation own "CHOICEFILTERS" (wireOf (.array (filters.map choiceJson)))=
      .ok { own with choiceFilters := filters } := by
  have h := array_map choice_choiceJson filters
  change (array choice _).map _=_
  rw [h]
  rfl

mutual

theorem query_queryJson : ∀ (q : Query) (legacyNavigation : Bool),
    query (wireOf (queryJson q)) legacyNavigation=.ok q
  | .node ⟨visibility,state,flag,name,languages,compatibilities,booleans,choices⟩ anyOf,
      legacyNavigation => by
    have hbranches := queryElements_queryJsons anyOf
    have hanyOf : field "anyOf"=.ok "ANYOF" := by decide
    have hread : ∀ (own : Membership) (rest : List (String×Json)),
        queryFields legacyNavigation own []
          (fieldsOf (member "anyOf" anyOf.isEmpty (.array (queryJsons anyOf))++rest))=
        queryFields legacyNavigation own anyOf (fieldsOf rest) := by
      intro own rest
      cases anyOf with
      | nil => rfl
      | cons branch branches =>
        change queryFields legacyNavigation own []
          (("anyOf",wireOf (.array (queryJsons (branch::branches))))::fieldsOf rest)=_
        rw [queryFields,bind_of_ok hanyOf,if_pos rfl,wireOf,queryArray,bind_of_ok hbranches]
    rw [queryJson,wireOf,query]
    dsimp only
    calc
      _ = queryFields legacyNavigation ⟨visibility,"",false,"",[],[],[],[]⟩ [] (fieldsOf _) :=
        queryFields_member "brokenVisibility" "BROKENVISIBILITY" (by decide) (by decide) rfl
          fun h => by rw [of_decide_eq_true h]
      _ = queryFields legacyNavigation ⟨visibility,state,false,"",[],[],[],[]⟩ []
          (fieldsOf _) :=
        queryFields_member "brokenState" "BROKENSTATE" (by decide) (by decide) rfl
          fun h => by rw [of_decide_eq_true h]
      _ = queryFields legacyNavigation ⟨visibility,state,false,"",[],[],[],[]⟩ anyOf
          (fieldsOf _) := hread _ _
      _ = queryFields legacyNavigation ⟨visibility,state,flag,"",[],[],[],[]⟩ anyOf
          (fieldsOf _) :=
        queryFields_member "includeBroken" "INCLUDEBROKEN" (by decide) (by decide) rfl
          fun h => by
            cases flag with
            | false => rfl
            | true => cases h
      _ = queryFields legacyNavigation ⟨visibility,state,flag,name,[],[],[],[]⟩ anyOf
          (fieldsOf _) :=
        queryFields_member "name" "NAME" (by decide) (by decide) rfl
          fun h => by rw [of_decide_eq_true h]
      _ = queryFields legacyNavigation ⟨visibility,state,flag,name,languages,[],[],[]⟩ anyOf
          (fieldsOf _) :=
        queryFields_member "languages" "LANGUAGES" (by decide) (by decide)
          (ownField_languages languages) fun h => by rw [List.isEmpty_iff.mp h]
      _ = queryFields legacyNavigation
          ⟨visibility,state,flag,name,languages,compatibilities,[],[]⟩ anyOf (fieldsOf _) :=
        queryFields_member "compatibilities" "COMPATIBILITIES" (by decide) (by decide)
          (ownField_compatibilities compatibilities) fun h => by rw [List.isEmpty_iff.mp h]
      _ = queryFields legacyNavigation
          ⟨visibility,state,flag,name,languages,compatibilities,booleans,[]⟩ anyOf
            (fieldsOf (_++[])) := by
        rw [List.append_nil]
        exact queryFields_member "booleanFilters" "BOOLEANFILTERS" (by decide) (by decide)
          (ownField_booleanFilters booleans) fun h => by rw [List.isEmpty_iff.mp h]
      _ = queryFields legacyNavigation
          ⟨visibility,state,flag,name,languages,compatibilities,booleans,choices⟩ anyOf
            (fieldsOf []) :=
        queryFields_member "choiceFilters" "CHOICEFILTERS" (by decide) (by decide)
          (ownField_choiceFilters choices) fun h => by rw [List.isEmpty_iff.mp h]

/-- Serialized branches are read back. -/
theorem queryElements_queryJsons : ∀ branches : List Query,
    queryElements (wiresOf (queryJsons branches))=.ok branches
  | [] => rfl
  | branch::branches => by
    have hfirst := query_queryJson branch false
    have hrest := queryElements_queryJsons branches
    rw [queryJsons,wiresOf,queryElements,bind_of_ok hfirst,bind_of_ok hrest]

end

theorem heightMembers_append (a b : List (String×Json)) :
    heightMembers (a++b)=max (heightMembers a) (heightMembers b) := by
  induction a with
  | nil => exact (Nat.zero_max _).symm
  | cons entry a ih =>
    obtain ⟨key,value⟩ := entry
    rw [List.cons_append,heightMembers,ih,heightMembers,Nat.max_assoc]

theorem heightMembers_member (key : String) (absent : Bool) (value : Json) :
    heightMembers (member key absent value)≤height value+1 := by
  cases absent with
  | true => exact Nat.zero_le _
  | false => exact Nat.le_of_eq (Nat.max_zero _)

theorem heightElements_le {values : List Json} {n : ℕ} (h : ∀ value ∈ values, height value≤n) :
    heightElements values≤n+1 := by
  induction values with
  | nil => exact Nat.zero_le _
  | cons value values ih =>
    have hv := h value List.mem_cons_self
    have hrest := ih fun other ho => h other (List.mem_cons_of_mem _ ho)
    exact Nat.max_le.mpr ⟨Nat.succ_le_succ hv,hrest⟩

theorem height_array_map {α : Type} {f : α → Json} {n : ℕ} (h : ∀ x, height (f x)≤n)
    (xs : List α) : height (.array (xs.map f))≤n+1 := by
  rw [height]
  apply heightElements_le
  intro value hv
  obtain ⟨x,-,rfl⟩ := List.mem_map.mp hv
  exact h x

theorem height_choiceJson (f : ChoiceFilter) : height (choiceJson f)≤2 := by
  have hv := height_array_map (n:=0) (fun v : I64 => Nat.le_refl (height (.number v.val)))
    f.valueIds
  have he : height (choiceJson f)=
      max 1 (max (height (.array (f.valueIds.map fun v => .number v.val))+1) 0) := rfl
  omega

mutual

theorem height_queryJson : ∀ q : Query, height (queryJson q)≤2*nodes q+2
  | .node own anyOf => by
    have hbranches := heightElements_queryJsons anyOf
    have hanyOf : height (.array (queryJsons anyOf))=heightElements (queryJsons anyOf) := rfl
    have hl := height_array_map (n:=0) (fun s => Nat.le_refl (height (.string s)))
      own.languages
    have hk := height_array_map (n:=0) (fun s => Nat.le_refl (height (.string s)))
      own.compatibilities
    have hb := height_array_map (n:=1) (fun f => Nat.le_refl (height (booleanJson f)))
      own.booleanFilters
    have hc := height_array_map height_choiceJson own.choiceFilters
    have hs : ∀ s, height (.string s)=0 := fun _ => rfl
    have hflag : ∀ b, height (.bool b)=0 := fun _ => rfl
    rw [queryJson,height,nodes]
    simp only [heightMembers_append]
    have h1 := heightMembers_member "brokenVisibility" (own.brokenVisibility="")
      (.string own.brokenVisibility)
    have h2 := heightMembers_member "brokenState" (own.brokenState="")
      (.string own.brokenState)
    have h3 := heightMembers_member "anyOf" anyOf.isEmpty (.array (queryJsons anyOf))
    have h4 := heightMembers_member "includeBroken" (!own.includeBroken)
      (.bool own.includeBroken)
    have h5 := heightMembers_member "name" (own.name="") (.string own.name)
    have h6 := heightMembers_member "languages" own.languages.isEmpty
      (.array (own.languages.map .string))
    have h7 := heightMembers_member "compatibilities" own.compatibilities.isEmpty
      (.array (own.compatibilities.map .string))
    have h8 := heightMembers_member "booleanFilters" own.booleanFilters.isEmpty
      (.array (own.booleanFilters.map booleanJson))
    have h9 := heightMembers_member "choiceFilters" own.choiceFilters.isEmpty
      (.array (own.choiceFilters.map choiceJson))
    simp only [hs,hflag] at h1 h2 h4 h5
    omega

/-- The nesting of serialized branches is bounded by their nodes. -/
theorem heightElements_queryJsons : ∀ branches : List Query,
    heightElements (queryJsons branches)≤2*nodesOf branches+3
  | [] => Nat.zero_le _
  | branch::branches => by
    have hfirst := height_queryJson branch
    have hrest := heightElements_queryJsons branches
    rw [queryJsons,heightElements,nodesOf]
    omega

end

def AsciiLetter (c : Char) : Prop := 65≤c.toNat ∧ c.toNat≤90 ∨ 97≤c.toNat ∧ c.toNat≤122

instance : DecidablePred AsciiLetter := fun _ => inferInstanceAs (Decidable (_ ∨ _))

theorem letters_of_all {keys : List String}
    (h : (keys.all fun key => key.toList.all fun c => decide (AsciiLetter c))=true) :
    ∀ key ∈ keys, ∀ c ∈ key.toList, AsciiLetter c := by
  intro key hk c hc
  have hkey := List.all_eq_true.mp h key hk
  exact of_decide_eq_true (List.all_eq_true.mp hkey c hc)

def lowerCharacter (c : Char) : Char :=
  if 65≤c.toNat ∧ c.toNat≤90 then Char.ofNat (c.toNat+32) else c

/-- ASCII lower casing. -/
def lowercase (key : String) : String := String.ofList (key.toList.map lowerCharacter)

/-- The documented behaviour of the serializer, the number syntax and the frozen
lower casing. -/
structure Documented (env : CodecEnv) : Prop where
  /-- Serialization writes compact JSON and escapes every character. -/
  serializes : ∃ escape, Escaping escape ∧
    ∀ j, env.serialize j=some (String.ofList (write escape j))
  integers : ∀ n : I64, env.numberSyntax (String.ofList (decimal n.val))=true
  letters : ∀ key : String, (∀ c ∈ key.toList, AsciiLetter c) →
    env.lowercaseKey key=.ok (lowercase key)

def queryKeys : List String :=
  ["brokenVisibility","brokenState","anyOf","includeBroken","name","languages",
    "compatibilities","booleanFilters","choiceFilters"]

section Admitted

variable {env : CodecEnv}

theorem keyed_letters (hd : Documented env) (keys : List String)
    (hk : ∀ key ∈ keys, ∀ c ∈ key.toList, AsciiLetter c) (hn : (keys.map lowercase).Nodup)
    {fields : List (String×Json)} (hs : (fields.map Prod.fst).Sublist keys) :
    Keyed env.toWireEnv [] fields := by
  have hl : ∀ entry ∈ fields, env.lowercaseKey entry.1=.ok (lowercase entry.1) := by
    intro entry he
    have hmem : entry.1 ∈ keys := hs.subset (List.mem_map_of_mem he)
    exact hd.letters entry.1 (hk entry.1 hmem)
  have hdistinct : (fields.map fun entry => lowercase entry.1).Nodup := by
    have hsub := (hs.map lowercase).nodup hn
    rw [List.map_map] at hsub
    exact hsub
  exact keyed_of_nodup hl hdistinct fun _ _ => List.not_mem_nil

/-- A serialized integer is admitted. -/
theorem fit_number (hd : Documented env) (n : I64) : Fit env.toWireEnv (.number n.val) :=
  hd.integers n

theorem fit_strings (texts : List String) : Fit env.toWireEnv (.array (texts.map .string)) := by
  have h : ∀ text : String, Fit env.toWireEnv (.string text) := fun _ => trivial
  exact fitElements_map h texts

theorem fit_booleanJson (hd : Documented env) (f : BooleanFilter) :
    Fit env.toWireEnv (booleanJson f) := by
  have hk := keyed_letters hd ["definitionId","state"] (letters_of_all (by decide)) (by decide)
    (List.Sublist.refl ([("definitionId",Json.number f.definitionId.val),
      ("state",Json.string f.state)].map Prod.fst))
  exact ⟨hk,fit_number hd f.definitionId,trivial,trivial⟩

theorem fit_choiceJson (hd : Documented env) (f : ChoiceFilter) :
    Fit env.toWireEnv (choiceJson f) := by
  have hk := keyed_letters hd ["definitionId","valueIds"] (letters_of_all (by decide)) (by decide)
    (List.Sublist.refl ([("definitionId",Json.number f.definitionId.val),
      ("valueIds",Json.array (f.valueIds.map fun v => .number v.val))].map Prod.fst))
  exact ⟨hk,fit_number hd f.definitionId,fitElements_map (fit_number hd) f.valueIds,trivial⟩

theorem fitMembers_member (key : String) (absent : Bool) {value : Json}
    (h : Fit env.toWireEnv value) : FitMembers env.toWireEnv (member key absent value) := by
  cases absent with
  | true => trivial
  | false => exact ⟨h,trivial⟩

theorem member_keys (key : String) (absent : Bool) (value : Json) :
    ((member key absent value).map Prod.fst).Sublist [key] := by
  cases absent with
  | true => exact List.nil_sublist _
  | false => exact List.Sublist.refl _

mutual

theorem fit_queryJson (hd : Documented env) : ∀ q : Query, Fit env.toWireEnv (queryJson q)
  | .node own anyOf => by
    have hbranches : Fit env.toWireEnv (.array (queryJsons anyOf)) := fit_queryJsons hd anyOf
    have hb : Fit env.toWireEnv (.array (own.booleanFilters.map booleanJson)) :=
      fitElements_map (fit_booleanJson hd) own.booleanFilters
    have hc : Fit env.toWireEnv (.array (own.choiceFilters.map choiceJson)) :=
      fitElements_map (fit_choiceJson hd) own.choiceFilters
    rw [queryJson,Fit]
    constructor
    · apply keyed_letters hd queryKeys (letters_of_all (by decide)) (by decide)
      simp only [List.map_append]
      exact (member_keys _ _ _).append ((member_keys _ _ _).append ((member_keys _ _ _).append
        ((member_keys _ _ _).append ((member_keys _ _ _).append ((member_keys _ _ _).append
        ((member_keys _ _ _).append ((member_keys _ _ _).append (member_keys _ _ _))))))))
    · simp only [fitMembers_append]
      exact ⟨fitMembers_member _ _ trivial,fitMembers_member _ _ trivial,
        fitMembers_member _ _ hbranches,fitMembers_member _ _ trivial,
        fitMembers_member _ _ trivial,fitMembers_member _ _ (fit_strings _),
        fitMembers_member _ _ (fit_strings _),fitMembers_member _ _ hb,
        fitMembers_member _ _ hc⟩

/-- Serialized branches are admitted. -/
theorem fit_queryJsons (hd : Documented env) : ∀ branches : List Query,
    FitElements env.toWireEnv (queryJsons branches)
  | [] => trivial
  | branch::branches => ⟨fit_queryJson hd branch,fit_queryJsons hd branches⟩

end

end Admitted

def escapeCharacter (c : Char) : List Char :=
  if c = '<' then ['\\','u','0','0','3','c']
  else if c = '>' then ['\\','u','0','0','3','e']
  else if c = '&' then ['\\','u','0','0','2','6']
  else if c = '\u2028' then ['\\','u','2','0','2','8']
  else if c = '\u2029' then ['\\','u','2','0','2','9']
  else [c]

theorem payloadEscapes_flatMap (text : List Char) :
    payloadEscapes text=text.flatMap escapeCharacter := by
  unfold payloadEscapes replace
  rw [List.flatMap_assoc,List.flatMap_assoc,List.flatMap_assoc,List.flatMap_assoc]
  congr 1
  funext c
  unfold escapeCharacter
  by_cases h1 : c = '<'
  · rw [h1]
    decide
  by_cases h2 : c = '>'
  · rw [h2]
    decide
  by_cases h3 : c = '&'
  · rw [h3]
    decide
  by_cases h4 : c = '\u2028'
  · rw [h4]
    decide
  by_cases h5 : c = '\u2029'
  · rw [h5]
    decide
  simp only [h1,h2,h3,h4,h5,if_false,List.flatMap_singleton]

theorem escapeCharacter_syntax (c : Char) (h : SyntaxCharacter c) : escapeCharacter c=[c] := by
  rcases h with h | h
  · have hall : (['"','\\','/','{','}','[',']',',',':','-'].all fun c =>
        decide (escapeCharacter c=[c]))=true := by decide
    exact of_decide_eq_true (List.all_eq_true.mp hall c h)
  · have hne : ∀ d : Char, (d.toNat<48 ∨ 57<d.toNat ∧ d.toNat<65 ∨ 122<d.toNat) → ¬c=d := by
      rintro d hd rfl
      omega
    unfold escapeCharacter
    rw [if_neg (hne _ (by decide)),if_neg (hne _ (by decide)),if_neg (hne _ (by decide)),
      if_neg (hne _ (by decide)),if_neg (hne _ (by decide))]

theorem escapeCharacter_denotes (c : Char) (hq : c ≠ '"') (hb : c ≠ '\\')
    (hc : 0x20≤c.toNat) : Denotes (escapeCharacter c) c := by
  unfold escapeCharacter
  by_cases h1 : c = '<'
  · rw [if_pos h1,h1]
    exact .unicode (by rfl) (by rfl) (by rfl) (by rfl) (by rfl)
  rw [if_neg h1]
  by_cases h2 : c = '>'
  · rw [if_pos h2,h2]
    exact .unicode (by rfl) (by rfl) (by rfl) (by rfl) (by rfl)
  rw [if_neg h2]
  by_cases h3 : c = '&'
  · rw [if_pos h3,h3]
    exact .unicode (by rfl) (by rfl) (by rfl) (by rfl) (by rfl)
  rw [if_neg h3]
  by_cases h4 : c = '\u2028'
  · rw [if_pos h4,h4]
    exact .unicode (by rfl) (by rfl) (by rfl) (by rfl) (by rfl)
  rw [if_neg h4]
  by_cases h5 : c = '\u2029'
  · rw [if_pos h5,h5]
    exact .unicode (by rfl) (by rfl) (by rfl) (by rfl) (by rfl)
  rw [if_neg h5]
  exact .plain hq hb hc

theorem length_writeObject (escape : Char → List Char) (fields : List (String×Json)) :
    2≤(bytes (write escape (.object fields))).length := by
  cases fields with
  | nil => exact Nat.le_refl 2
  | cons entry fields =>
    obtain ⟨key,value⟩ := entry
    have hb : bytes (write escape (.object ((key,value)::fields)))=
        0x7b::0x22::bytes (key.toList.flatMap escape++['"']++
          ':' :: (write escape value++writeMoreMembers escape fields)) := rfl
    rw [hb,List.length_cons,List.length_cons]
    omega

theorem payload_ok {env : CodecEnv} (hd : Documented env) {q : Query} {p : String}
    (h : payload env q=.ok p) : ∃ escape, Escaping escape ∧
      p.toList=write escape (queryJson q) ∧ (bytes p.toList).length ≤ maxBytes := by
  obtain ⟨escape,he,hs⟩ := hd.serializes
  unfold payload at h
  rw [hs] at h
  dsimp only at h
  rw [payloadEscapes_flatMap] at h
  simp only [String.toList_ofList] at h
  rw [repair_write escapeCharacter_syntax] at h
  have hrepaired := escaping_repair he escapeCharacter_syntax escapeCharacter_denotes
  obtain ⟨hlen,h⟩ := checked_ok.mp h
  cases h
  rw [String.toList_ofList]
  exact ⟨_,hrepaired,rfl,Nat.not_lt.mp hlen⟩

theorem parse_payload {env : CodecEnv} (hd : Documented env) {q : Query} {p : String}
    (h : payload env q=.ok p) (hn : nodes q ≤ maxNodes) :
    parse env.toWireEnv (bytes p.toList)=.ok (wireOf (queryJson q)) ∧
      2≤(bytes p.toList).length ∧ (bytes p.toList).length ≤ maxBytes := by
  obtain ⟨escape,he,hp,hlen⟩ := payload_ok hd h
  have hheight := height_queryJson q
  have hmax : maxNodes=50 := rfl
  have hparse := parse_write he (fit_queryJson hd q)
  rw [if_pos (by omega)] at hparse
  refine ⟨?_,?_,hlen⟩
  · rw [hp]
    exact hparse
  · rw [hp]
    cases q with
    | node own anyOf =>
      rw [queryJson]
      exact length_writeObject escape _

def currentVersion : I64 := ⟨5,by decide⟩

mutual

theorem retire_current (legacyId : I64) : ∀ q : Query, retire currentVersion legacyId q=q
  | .node own anyOf => by
    have hbranches := retireBranches_current legacyId anyOf
    have h4 : ¬(currentVersion.val<4 ∧ 0<legacyId.val) := fun h => absurd h.1 (by decide)
    have h5 : ¬currentVersion.val<5 := by decide
    rw [retire,if_neg h4,if_neg h5,hbranches]

theorem retireBranches_current (legacyId : I64) : ∀ branches : List Query,
    retireBranches currentVersion legacyId branches=branches
  | [] => rfl
  | branch::branches => by
    have hfirst := retire_current legacyId branch
    have hrest := retireBranches_current legacyId branches
    rw [retireBranches,hfirst,hrest]

end

theorem decodePayload_payload {env : CodecEnv} (hd : Documented env) {q : Query} {p : String}
    {left : ℕ} (h : payload env q=.ok p) (hn : nodes q ≤ maxNodes)
    (hv : validateReferences q maxNodes true=.ok left) :
    decodePayload env currentVersion (bytes p.toList)=.ok q := by
  obtain ⟨hparse,hlow,hhigh⟩ := parse_payload hd h hn
  have hversion : ¬¬(1≤currentVersion.val ∧ currentVersion.val≤5) := by decide
  have hread := query_queryJson q false
  unfold decodePayload
  rw [if_neg hversion,if_neg (not_not.mpr ⟨hlow,hhigh⟩),bind_of_ok hparse]
  cases q with
  | node own anyOf =>
    rw [queryJson,wireOf] at hread ⊢
    dsimp only
    exact exceptBind_ok.mpr ⟨_,hread,exceptBind_ok.mpr ⟨left,hv,rfl⟩⟩

/-- An encoded query decodes to its canonical form, which encodes to the same text. -/
theorem decode_encode {env : CodecEnv} (hd : Documented env) {q : Query} {p : String}
    (hfixed : ∀ own ∈ members q, Fixed env.toNormalEnv own) (he : encode env q=.ok p) :
    (∀ legacyId : I64,
      decode env currentVersion (bytes p.toList) legacyId=.ok (canonical q)) ∧
      encode env (canonical q)=.ok p := by
  unfold encode at he
  obtain ⟨c,hc,he⟩ := exceptBind_ok.mp he
  obtain ⟨left,hv,he⟩ := exceptBind_ok.mp he
  have hcanonical := canonicalSaved_fixed hfixed hc
  obtain ⟨hmax,hw,rfl⟩ := (canonicalSaved_ok q hfixed c).mp hc
  have hn : nodes (canonical q)=nodes q := by
    rw [←length_members,members_canonical,List.length_map,length_members]
  have hpayload := decodePayload_payload hd he (by omega) hv
  constructor
  · intro legacyId
    unfold decode
    rw [bind_of_ok hpayload,retire_current]
    exact hcanonical
  · unfold encode
    rw [bind_of_ok hcanonical,bind_of_ok hv]
    exact he

/-- The documented escapes of the serializer. -/
def serdeEscape (c : Char) : List Char :=
  if c = '"' then ['\\','"']
  else if c = '\\' then ['\\','\\']
  else if c = '\x08' then ['\\','b']
  else if c = '\x0c' then ['\\','f']
  else if c = '\n' then ['\\','n']
  else if c = '\r' then ['\\','r']
  else if c = '\t' then ['\\','t']
  else if c.toNat<0x10 then ['\\','u','0','0','0',Nat.digitChar c.toNat]
  else if c.toNat<0x20 then ['\\','u','0','0','1',Nat.digitChar (c.toNat-0x10)]
  else [c]

theorem escaping_serdeEscape : Escaping serdeEscape := by
  have hdigit : ∀ n<16, hexDigit (Nat.digitChar n)=some n := by decide
  intro c
  unfold serdeEscape
  by_cases h1 : c = '"'
  · rw [if_pos h1,h1]
    exact .short rfl
  rw [if_neg h1]
  by_cases h2 : c = '\\'
  · rw [if_pos h2,h2]
    exact .short rfl
  rw [if_neg h2]
  by_cases h3 : c = '\x08'
  · rw [if_pos h3,h3]
    exact .short rfl
  rw [if_neg h3]
  by_cases h4 : c = '\x0c'
  · rw [if_pos h4,h4]
    exact .short rfl
  rw [if_neg h4]
  by_cases h5 : c = '\n'
  · rw [if_pos h5,h5]
    exact .short rfl
  rw [if_neg h5]
  by_cases h6 : c = '\r'
  · rw [if_pos h6,h6]
    exact .short rfl
  rw [if_neg h6]
  by_cases h7 : c = '\t'
  · rw [if_pos h7,h7]
    exact .short rfl
  rw [if_neg h7]
  by_cases h8 : c.toNat<0x10
  · rw [if_pos h8]
    exact .unicode (hdigit 0 (by decide)) (hdigit 0 (by decide)) (hdigit 0 (by decide))
      (hdigit c.toNat h8) (by omega)
  rw [if_neg h8]
  by_cases h9 : c.toNat<0x20
  · rw [if_pos h9]
    exact .unicode (hdigit 0 (by decide)) (hdigit 0 (by decide)) (hdigit 1 (by decide))
      (hdigit (c.toNat-0x10) (by omega)) (by omega)
  rw [if_neg h9]
  exact .plain h1 h2 (Nat.not_lt.mp h9)

/-- An environment with the serializer's escapes, ASCII lower casing and texts
that are already normalized. -/
def plainEnv : CodecEnv where
  lowercaseKey key := .ok (lowercase key)
  numberSyntax raw := (parseI64 raw).isSome
  normalize name := .ok name
  canonicalLanguage language := .ok language
  serialize j := some (String.ofList (write serdeEscape j))

theorem documented_plainEnv : Documented plainEnv where
  serializes := ⟨serdeEscape,escaping_serdeEscape,fun _ => rfl⟩
  integers n := by
    have h := parseI64_decimal n
    change (parseI64 _).isSome=true
    rw [h]
    rfl
  letters _ _ := rfl

/-- The first positive integer. -/
def one : I64 := ⟨1,one_bounds⟩

/-- The second positive integer. -/
def two : I64 := ⟨2,by decide⟩

/-- The fields of a node with repeated, unsorted and ignored parts. -/
def mixedOwn : Membership :=
  { name := "loup <&>", languages := ["fr","en","fr"],
    booleanFilters := [⟨two,"ignored"⟩,⟨two,"true"⟩,⟨one,"false"⟩] }

def choiceOwn : Membership := { choiceFilters := [⟨two,[two,one,two]⟩] }

def mixedQuery : Query := .node mixedOwn [.node choiceOwn []]

theorem canonical_mixedQuery : canonical mixedQuery=
    .node { name := "loup <&>", languages := ["en","fr"],
            booleanFilters := [⟨one,"false"⟩,⟨two,"true"⟩] }
      [.node { choiceFilters := [⟨two,[one,two]⟩] } []] := by
  have hown : canonicalOwn mixedOwn=
      { name := "loup <&>", languages := ["en","fr"],
        booleanFilters := [⟨one,"false"⟩,⟨two,"true"⟩] } := by
    unfold canonicalOwn canonicalChoice
    simp only [←dedup_sort]
    decide
  have hchoice : canonicalOwn choiceOwn={ choiceFilters := [⟨two,[one,two]⟩] } := by
    unfold canonicalOwn canonicalChoice
    simp only [←dedup_sort]
    decide
  rw [mixedQuery,canonical,canonicalBranches,canonical,canonicalBranches,hown,hchoice]

set_option maxRecDepth 20000 in
theorem decode_encode_mixedQuery : ∃ p, encode plainEnv mixedQuery=.ok p ∧
    (∀ legacyId : I64, decode plainEnv currentVersion (bytes p.toList) legacyId=
      .ok (canonical mixedQuery)) ∧ encode plainEnv (canonical mixedQuery)=.ok p := by
  have hfixed : ∀ own ∈ members mixedQuery, Fixed plainEnv.toNormalEnv own :=
    fun own _ => ⟨rfl,fun _ _ => rfl⟩
  have hwithin : ∀ own ∈ members mixedQuery, Within (dropIgnored own) := by
    change ∀ own ∈ [mixedOwn,choiceOwn], Within (dropIgnored own)
    rw [List.forall_mem_cons,List.forall_mem_singleton]
    exact ⟨⟨by decide,by decide,by decide,by decide,by decide,by decide⟩,
      ⟨by decide,by decide,by decide,by decide,by decide,by decide⟩⟩
  have hsaved := (canonicalSaved_ok mixedQuery hfixed _).mpr ⟨by decide,hwithin,rfl⟩
  have hvalid : validateReferences (canonical mixedQuery) maxNodes true=.ok 48 := by
    rw [canonical_mixedQuery]
    rfl
  have hpayload : ∃ p, payload plainEnv (canonical mixedQuery)=.ok p := by
    rw [canonical_mixedQuery]
    unfold payload
    refine ⟨_,if_neg ?_⟩
    simp only [String.toList_ofList]
    decide
  obtain ⟨p,hp⟩ := hpayload
  have hencode : encode plainEnv mixedQuery=.ok p :=
    exceptBind_ok.mpr ⟨_,hsaved,exceptBind_ok.mpr ⟨_,hvalid,hp⟩⟩
  exact ⟨p,hencode,decode_encode documented_plainEnv hfixed hencode⟩

end Librairii.SavedQueryRoundTrip
