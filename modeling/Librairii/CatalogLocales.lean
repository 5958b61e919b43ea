import Librairii.CheckedResults
import Librairii.JsonText
import Librairii.TagRows
import Librairii.WireParser

/-!
# The localized variant of a catalog record

A record declares which locales are available and gives a localized variant for
each. The variant taken is an available one of the best rank and, within that rank,
of the least canonical spelling. The order of the maps is without influence, and a
map with two keys of one canonical spelling is refused.
-/

namespace Librairii.CatalogLocales

open CheckedResults JsonText TagRows
open WireParser (CodecError)

/-- A locale in its canonical spelling. -/
structure Locale where
  text : String
  deriving DecidableEq

/-- The members of an object, in the order of the map. -/
abbrev Members := List (String×Json)

variable (canonicalLanguage : String → Except CodecError String)

def Locale.parse (value : String) : Except MetadataError Locale :=
  match canonicalLanguage value with
  | .ok text => .ok ⟨text⟩
  | .error _ => .error .invalidCatalog

def object : Json → Except MetadataError Members
  | .object members => .ok members
  | _ => .error .invalidCatalog

def asBool : Json → Except MetadataError Bool
  | .bool value => .ok value
  | _ => .error .invalidCatalog

def folded (key : String) : String :=
  String.ofList (key.toList.map fun c =>
    if c.toNat=0x17f then 's' else if c.toNat=0x212a then 'k' else c.toLower)

/-- Look for a field in the members left, when another may have been found. -/
def wireFrom (field : String) : Option Json → Members → Except MetadataError (Option Json)
  | found,[] => .ok found
  | found,(key,value)::rest =>
    if folded key=field then
      if found.isSome then .error .invalidCatalog else wireFrom field (some value) rest
    else wireFrom field found rest

/-- The value of a field, in any spelling of its name. -/
def wire (values : Members) (field : String) : Except MetadataError (Option Json) :=
  wireFrom field none values

/-- A field that has to be there and to be an object. -/
def mapOf (record : Members) (field : String) : Except MetadataError Members := do
  match ← wire record field with
  | some value => object value
  | none => .error .invalidCatalog

/-- The entries of a map under the locales its keys name, none of which is named twice. -/
def distinct {β : Type} (read : Json → Except MetadataError β) (kept : List (Locale×β)) :
    Members → Except MetadataError (List (Locale×β))
  | [] => .ok kept
  | (key,value)::rest => do
    let locale ← Locale.parse canonicalLanguage key
    let content ← read value
    if kept.any fun entry => entry.1=locale then .error .invalidCatalog
    else distinct read (kept++[(locale,content)]) rest

/-- The language of a locale: its spelling up to the first hyphen. -/
def language (locale : Locale) : List Char := locale.text.toList.takeWhile (·≠ '-')

/-- How far a locale is from the preferred one. -/
def rank (preferred locale : Locale) : ℕ :=
  if locale=preferred then 0 else if language locale=language preferred then 1 else 2

def sortKey (preferred locale : Locale) : ℕ×ₗString := toLex (rank preferred locale,locale.text)

def select (record : Members) (preferred : Locale) :
    Except MetadataError (Option (Members×Locale)) := do
  let declared ← mapOf record "locales_available"
  let localized ← mapOf record "localized_infos"
  if declared.isEmpty ∨ localized.isEmpty then .error .invalidCatalog
  else do
    let available ← distinct canonicalLanguage asBool [] declared
    let variants ← distinct canonicalLanguage .ok [] localized
    let choices := variants.filter fun variant => (variant.1,true) ∈ available
    match choices.insertionSort fun a b => sortKey preferred a.1≤ sortKey preferred b.1 with
    | [] => .ok none
    | (locale,value)::_ => do
      let content ← object value
      .ok (some (content,locale))

variable {canonicalLanguage}

section Maps

variable {β : Type} (read : Json → Except MetadataError β)

variable (canonicalLanguage) in
def Reads (member : String×Json) (entry : Locale×β) : Prop :=
  Locale.parse canonicalLanguage member.1=.ok entry.1 ∧ read member.2=.ok entry.2

variable {read} {members : Members}

theorem distinct_from : ∀ {kept found : List (Locale×β)},
    distinct canonicalLanguage read kept members=.ok found ↔ ∃ entries,
      List.Forall₂ (Reads canonicalLanguage read) members entries ∧
      (∀ entry ∈ entries, entry.1 ∉ kept.map Prod.fst) ∧ (entries.map Prod.fst).Nodup ∧
      found=kept++entries := by
  induction members with
  | nil =>
    intro kept found
    constructor
    · intro h
      cases h
      exact ⟨[],.nil,fun _ he => absurd he List.not_mem_nil,List.nodup_nil,
        (List.append_nil kept).symm⟩
    · rintro ⟨entries,he,-,-,rfl⟩
      cases he
      rw [List.append_nil]
      rfl
  | cons member rest ih =>
    intro kept found
    have hany : ∀ key, (kept.any fun entry => entry.1=key)=true ↔ key ∈ kept.map Prod.fst := by
      intro key
      simp only [List.any_eq_true,decide_eq_true_eq,List.mem_map]
    constructor
    · intro h
      obtain ⟨key,hkey,h⟩ := exceptBind_ok.mp h
      obtain ⟨content,hcontent,h⟩ := exceptBind_ok.mp h
      by_cases hk : (kept.any fun entry => entry.1=key)=true
      · rw [if_pos hk] at h
        cases h
      rw [if_neg hk] at h
      obtain ⟨entries,he,hnew,hn,rfl⟩ := ih.mp h
      simp only [List.map_append,List.map_cons,List.map_nil,List.mem_append,List.mem_singleton,
        not_or] at hnew
      refine ⟨(key,content)::entries,.cons ⟨hkey,hcontent⟩ he,?_,?_,?_⟩
      · intro entry hm
        cases List.mem_cons.mp hm with
        | inl hm => exact hm ▸ mt (hany key).mpr hk
        | inr hm => exact (hnew entry hm).1
      · refine List.nodup_cons.mpr ⟨fun hm => ?_,hn⟩
        obtain ⟨entry,hm,hkey⟩ := List.mem_map.mp hm
        exact (hnew entry hm).2 hkey
      · rw [List.append_assoc]
        rfl
    · rintro ⟨entries,he,hnew,hn,rfl⟩
      cases he with
      | @cons _ entry _ entries hread he =>
        have hhead := hnew entry List.mem_cons_self
        obtain ⟨hfresh,hn⟩ := List.nodup_cons.mp hn
        refine exceptBind_ok.mpr ⟨entry.1,hread.1,exceptBind_ok.mpr ⟨entry.2,hread.2,?_⟩⟩
        rw [if_neg (mt (hany _).mp hhead)]
        refine ih.mpr ⟨entries,he,fun other hm => ?_,hn,by rw [List.append_assoc]; rfl⟩
        rw [List.map_append,List.mem_append,not_or]
        refine ⟨hnew other (List.mem_cons_of_mem _ hm),fun hs => hfresh ?_⟩
        rw [←List.mem_singleton.mp hs]
        exact List.mem_map_of_mem hm

theorem distinct_ok {found : List (Locale×β)} :
    distinct canonicalLanguage read [] members=.ok found ↔
      List.Forall₂ (Reads canonicalLanguage read) members found ∧ (found.map Prod.fst).Nodup := by
  rw [distinct_from]
  constructor
  · rintro ⟨entries,he,-,hn,rfl⟩
    exact ⟨he,hn⟩
  · exact fun h => ⟨found,h.1,fun _ _ => List.not_mem_nil,h.2,rfl⟩

/-- The entries of a map in another order are the entries in another order. -/
theorem distinct_perm {members' : Members} {found : List (Locale×β)} (hp : members.Perm members')
    (h : distinct canonicalLanguage read [] members=.ok found) :
    ∃ found', distinct canonicalLanguage read [] members'=.ok found' ∧ found.Perm found' := by
  obtain ⟨hentries,hn⟩ := distinct_ok.mp h
  have hcomp : Relation.Comp List.Perm (List.Forall₂ (Reads canonicalLanguage read)) members'
      found := ⟨members,hp.symm,hentries⟩
  rw [←List.forall₂_comp_perm_eq_perm_comp_forall₂] at hcomp
  obtain ⟨found',hentries',hp'⟩ := hcomp
  exact ⟨found',distinct_ok.mpr ⟨hentries',(hp'.map _).nodup_iff.mpr hn⟩,hp'.symm⟩

/-- Two keys of one locale refuse a map. -/
theorem distinct_repeated {first second : String×Json} {locale : Locale}
    (hsub : [first,second].Sublist members)
    (hfirst : Locale.parse canonicalLanguage first.1=.ok locale)
    (hsecond : Locale.parse canonicalLanguage second.1=.ok locale) (found : List (Locale×β)) :
    distinct canonicalLanguage read [] members≠.ok found := by
  intro h
  obtain ⟨hentries,hn⟩ := distinct_ok.mp h
  have hsame : members.map (fun member => Locale.parse canonicalLanguage member.1)=
      (found.map Prod.fst).map .ok := by
    rw [←List.forall₂_eq_eq_eq,List.forall₂_map_left_iff,List.map_map,List.forall₂_map_right_iff]
    exact hentries.imp fun _ _ h => h.1
  have hparsed : ((found.map Prod.fst).map .ok : List (Except MetadataError Locale)).Nodup :=
    hn.map fun _ _ h => Except.ok.inj h
  rw [←hsame] at hparsed
  have hpair := hparsed.sublist (hsub.map _)
  rw [List.map_cons,List.map_cons,hfirst,hsecond] at hpair
  exact (List.nodup_cons.mp hpair).1 List.mem_cons_self

end Maps

section Fields

variable {field : String} {record record' : Members}

def fieldValues (record : Members) (field : String) : List Json :=
  (record.filter fun member => folded member.1=field).map Prod.snd

theorem wireFrom_ok {value : Json} : ∀ {found : Option Json},
    wireFrom field found record=.ok (some value) ↔
      found.toList++fieldValues record field=[value] := by
  induction record with
  | nil =>
    intro found
    cases found <;> simp [wireFrom,fieldValues]
  | cons member rest ih =>
    intro found
    by_cases hf : folded member.1=field
    · have hvalues : fieldValues (member::rest) field=member.2::fieldValues rest field := by
        simp [fieldValues,hf]
      rw [wireFrom,if_pos hf,hvalues]
      cases found with
      | none => exact ih
      | some v => simp
    · have hvalues : fieldValues (member::rest) field=fieldValues rest field := by
        simp [fieldValues,hf]
      rw [wireFrom,if_neg hf,hvalues]
      exact ih

/-- A required object is read exactly when it is the one value of its field. -/
theorem mapOf_ok {members : Members} :
    mapOf record field=.ok members ↔ fieldValues record field=[.object members] := by
  have hwire : ∀ value, wire record field=.ok (some value) ↔ fieldValues record field=[value] :=
    fun value => wireFrom_ok
  rw [←hwire,mapOf,exceptBind_ok]
  constructor
  · rintro ⟨value,hvalue,h⟩
    cases value with
    | none => cases h
    | some value =>
      cases value with
      | object members' =>
        cases h
        exact hvalue
      | _ => cases h
  · exact fun h => ⟨_,h,rfl⟩

/-- Two values, or two objects with the same members in any order. -/
def SameMap (a b : Json) : Prop :=
  a=b ∨ ∃ members members', a=.object members ∧ b=.object members' ∧ members.Perm members'

/-- Records that differ in the order of their members and of the members of these. -/
def Reordered (record record' : Members) : Prop :=
  Relation.Comp List.Perm (List.Forall₂ fun a b => a.1=b.1 ∧ SameMap a.2 b.2) record record'

theorem SameMap.symm {a b : Json} (h : SameMap a b) : SameMap b a := by
  cases h with
  | inl h => exact .inl h.symm
  | inr h =>
    obtain ⟨members,members',ha,hb,hp⟩ := h
    exact .inr ⟨members',members,hb,ha,hp.symm⟩

theorem Reordered.symm (h : Reordered record record') : Reordered record' record := by
  obtain ⟨middle,hp,hsame⟩ := h
  rw [Reordered,←List.forall₂_comp_perm_eq_perm_comp_forall₂]
  exact ⟨middle,hsame.flip.imp fun _ _ h => ⟨h.1.symm,h.2.symm⟩,hp.symm⟩

theorem mapOf_reordered {members : Members} (h : Reordered record record')
    (hmap : mapOf record field=.ok members) :
    ∃ members', mapOf record' field=.ok members' ∧ members.Perm members' := by
  obtain ⟨middle,hp,hsame⟩ := h
  have hvalues : List.Forall₂ SameMap (fieldValues middle field) (fieldValues record' field) := by
    rw [fieldValues,fieldValues,List.forall₂_map_left_iff,List.forall₂_map_right_iff]
    clear hp
    induction hsame with
    | nil => exact .nil
    | @cons a b _ _ hab _ ih =>
      rw [List.filter_cons,List.filter_cons,hab.1]
      split_ifs
      · exact .cons hab.2 ih
      · exact ih
  have hmiddle : (fieldValues record field).Perm (fieldValues middle field) :=
    (hp.filter _).map _
  rw [mapOf_ok.mp hmap] at hmiddle
  rw [←List.singleton_perm.mp hmiddle] at hvalues
  generalize hfound : fieldValues record' field=values at hvalues
  cases hvalues with
  | cons hvalue hnone =>
    cases hnone
    cases hvalue with
    | inl he => exact ⟨members,mapOf_ok.mpr (he ▸ hfound),.refl _⟩
    | inr he =>
      obtain ⟨_,members',ha,rfl,hp'⟩ := he
      cases ha
      exact ⟨members',mapOf_ok.mpr hfound,hp'⟩

end Fields

section Selection

variable {record record' : Members} {preferred : Locale}

theorem sortKey_injective {a b : Locale} (h : sortKey preferred a=sortKey preferred b) : a=b := by
  have htext : a.text=b.text := congrArg (fun key => (ofLex key).2) h
  cases a
  cases htext
  rfl

variable (canonicalLanguage record) in
/-- The entries of the two maps of an accepted record. -/
structure Accepted (available : List (Locale×Bool)) (variants : List (Locale×Json)) : Prop where
  declared : ∃ members, mapOf record "locales_available"=.ok members ∧ members≠[] ∧
    distinct canonicalLanguage asBool [] members=.ok available
  localized : ∃ members, mapOf record "localized_infos"=.ok members ∧ members≠[] ∧
    distinct canonicalLanguage .ok [] members=.ok variants

variable (preferred) in
/-- The variant to choose: none when none is available, else the available one of the least
key. -/
def Chosen (available : List (Locale×Bool)) (variants : List (Locale×Json)) :
    Option (Members×Locale) → Prop
  | none => ∀ variant ∈ variants, (variant.1,true) ∉ available
  | some (content,locale) => (locale,.object content) ∈ variants ∧ (locale,true) ∈ available ∧
      ∀ other ∈ variants, (other.1,true) ∈ available →
        sortKey preferred locale≤ sortKey preferred other.1

theorem first_chosen {available : List (Locale×Bool)} {variants : List (Locale×Json)}
    (hn : (variants.map Prod.fst).Nodup) {chosen : Option (Members×Locale)} :
    (match (variants.filter fun variant => (variant.1,true) ∈ available).insertionSort
        fun a b => sortKey preferred a.1≤ sortKey preferred b.1 with
      | [] => .ok none
      | (locale,value)::_ => do
        let content ← object value
        .ok (some (content,locale)))=(.ok chosen : Except MetadataError _) ↔
      Chosen preferred available variants chosen := by
  have hmem : ∀ variant, variant ∈ (variants.filter fun variant =>
      (variant.1,true) ∈ available).insertionSort
        (fun a b => sortKey preferred a.1≤ sortKey preferred b.1) ↔
      variant ∈ variants ∧ (variant.1,true) ∈ available := by
    intro variant
    rw [List.mem_insertionSort,List.mem_filter,decide_eq_true_eq]
  have hsorted : ((variants.filter fun variant => (variant.1,true) ∈ available).insertionSort
      fun a b => sortKey preferred a.1≤ sortKey preferred b.1).Pairwise
        fun a b => sortKey preferred a.1≤ sortKey preferred b.1 := by
    have htotal : Std.Total fun a b : Locale×Json => sortKey preferred a.1≤ sortKey preferred b.1 :=
      ⟨fun a b => le_total _ _⟩
    have htrans : IsTrans (Locale×Json) fun a b =>
        sortKey preferred a.1≤ sortKey preferred b.1 := ⟨fun _ _ _ => le_trans⟩
    exact List.pairwise_insertionSort _ _
  generalize ((variants.filter fun variant => (variant.1,true) ∈ available).insertionSort
      fun a b => sortKey preferred a.1≤ sortKey preferred b.1)=sorted at hmem hsorted ⊢
  cases sorted with
  | nil =>
    cases chosen with
    | none =>
      refine iff_of_true rfl fun variant hv ha => ?_
      exact absurd ((hmem variant).mpr ⟨hv,ha⟩) List.not_mem_nil
    | some chosen =>
      refine iff_of_false (fun h => nomatch h) fun h => ?_
      exact absurd ((hmem _).mpr ⟨h.1,h.2.1⟩) List.not_mem_nil
  | cons first rest =>
    obtain ⟨locale,value⟩ := first
    obtain ⟨hfirst,-⟩ := List.pairwise_cons.mp hsorted
    obtain ⟨hvariant,havailable⟩ := (hmem (locale,value)).mp List.mem_cons_self
    have hleast : ∀ other ∈ variants, (other.1,true) ∈ available →
        sortKey preferred locale ≤ sortKey preferred other.1 := by
      intro other ho ha
      cases List.mem_cons.mp ((hmem other).mpr ⟨ho,ha⟩) with
      | inl he => exact he ▸ le_refl _
      | inr hr => exact hfirst other hr
    dsimp only
    constructor
    · intro h
      obtain ⟨content,hcontent,h⟩ := exceptBind_ok.mp h
      cases h
      cases value with
      | object members =>
        cases hcontent
        exact ⟨hvariant,havailable,hleast⟩
      | _ => cases hcontent
    · intro h
      cases chosen with
      | none => exact absurd havailable (h _ hvariant)
      | some chosen =>
        obtain ⟨content,other⟩ := chosen
        obtain ⟨ho,ha,hprecedes⟩ := h
        cases sortKey_injective (le_antisymm (hleast _ ho ha) (hprecedes _ hvariant havailable))
        cases List.inj_on_of_nodup_map hn ho hvariant rfl
        rfl

/-- A variant is chosen exactly when the record is accepted and it is the one to choose. -/
theorem select_ok {chosen : Option (Members×Locale)} :
    select canonicalLanguage record preferred=.ok chosen ↔ ∃ available variants,
      Accepted canonicalLanguage record available variants ∧
        Chosen preferred available variants chosen := by
  unfold select
  constructor
  · intro h
    obtain ⟨declared,hdeclared,h⟩ := exceptBind_ok.mp h
    obtain ⟨localized,hlocalized,h⟩ := exceptBind_ok.mp h
    by_cases hempty : declared.isEmpty=true ∨ localized.isEmpty=true
    · rw [if_pos hempty] at h
      cases h
    rw [if_neg hempty] at h
    rw [not_or,List.isEmpty_iff,List.isEmpty_iff] at hempty
    obtain ⟨available,havailable,h⟩ := exceptBind_ok.mp h
    obtain ⟨variants,hvariants,h⟩ := exceptBind_ok.mp h
    exact ⟨available,variants,⟨⟨declared,hdeclared,hempty.1,havailable⟩,
      ⟨localized,hlocalized,hempty.2,hvariants⟩⟩,(first_chosen (distinct_ok.mp hvariants).2).mp h⟩
  · rintro ⟨available,variants,⟨⟨declared,hdeclared,hd,havailable⟩,
      ⟨localized,hlocalized,hl,hvariants⟩⟩,hchosen⟩
    rw [bind_of_ok hdeclared,bind_of_ok hlocalized,if_neg,bind_of_ok havailable,
      bind_of_ok hvariants]
    · exact (first_chosen (distinct_ok.mp hvariants).2).mpr hchosen
    · rw [not_or,List.isEmpty_iff,List.isEmpty_iff]
      exact ⟨hd,hl⟩

theorem Accepted.reordered (h : Reordered record record') {available : List (Locale×Bool)}
    {variants : List (Locale×Json)} (ha : Accepted canonicalLanguage record available variants) :
    ∃ available' variants', Accepted canonicalLanguage record' available' variants' ∧
      available.Perm available' ∧ variants.Perm variants' := by
  have hmap : ∀ {β : Type} {read : Json → Except MetadataError β} {field : String}
      {found : List (Locale×β)}, (∃ members, mapOf record field=.ok members ∧ members≠[] ∧
        distinct canonicalLanguage read [] members=.ok found) →
      ∃ found', (∃ members, mapOf record' field=.ok members ∧ members≠[] ∧
        distinct canonicalLanguage read [] members=.ok found') ∧ found.Perm found' := by
    rintro β read field found ⟨members,hm,hne,hfound⟩
    obtain ⟨members',hm',hp⟩ := mapOf_reordered h hm
    obtain ⟨found',hfound',hp'⟩ := distinct_perm hp hfound
    exact ⟨found',⟨members',hm',mt (fun he => List.perm_nil.mp (he ▸ hp)) hne,hfound'⟩,hp'⟩
  obtain ⟨available',hdeclared,hp⟩ := hmap ha.declared
  obtain ⟨variants',hlocalized,hp'⟩ := hmap ha.localized
  exact ⟨available',variants',⟨hdeclared,hlocalized⟩,hp,hp'⟩

theorem Chosen.perm {available available' : List (Locale×Bool)}
    {variants variants' : List (Locale×Json)} (hp : available.Perm available')
    (hp' : variants.Perm variants') {chosen : Option (Members×Locale)}
    (h : Chosen preferred available variants chosen) :
    Chosen preferred available' variants' chosen := by
  cases chosen with
  | none => exact fun variant hv ha => h variant (hp'.mem_iff.mpr hv) (hp.mem_iff.mpr ha)
  | some chosen =>
    exact ⟨hp'.mem_iff.mp h.1,hp.mem_iff.mp h.2.1,fun other ho ha =>
      h.2.2 other (hp'.mem_iff.mpr ho) (hp.mem_iff.mpr ha)⟩

theorem select_reordered (h : Reordered record record') {chosen : Option (Members×Locale)}
    (hs : select canonicalLanguage record preferred=.ok chosen) :
    select canonicalLanguage record' preferred=.ok chosen := by
  obtain ⟨available,variants,haccepted,hchosen⟩ := select_ok.mp hs
  obtain ⟨available',variants',haccepted',hp,hp'⟩ := haccepted.reordered h
  exact select_ok.mpr ⟨available',variants',haccepted',hchosen.perm hp hp'⟩

/-- The locale selected. A variant is selected exactly when the record is accepted and the variant
is the available one of the best rank and, within it, of the least spelling. Records that differ in
the order of their maps give the same result, and a map with two keys of one canonical spelling is
refused. -/
theorem locale_selected (canonicalLanguage : String → Except CodecError String)
    (record : Members) (preferred : Locale) :
    (∀ chosen, select canonicalLanguage record preferred=.ok chosen ↔ ∃ available variants,
      Accepted canonicalLanguage record available variants ∧
        Chosen preferred available variants chosen) ∧
    (∀ record' chosen, Reordered record record' →
      (select canonicalLanguage record' preferred=.ok chosen ↔
        select canonicalLanguage record preferred=.ok chosen)) ∧
    ∀ field ∈ ["locales_available","localized_infos"], ∀ members first second locale chosen,
      mapOf record field=.ok members → [first,second].Sublist members →
      Locale.parse canonicalLanguage first.1=.ok locale →
      Locale.parse canonicalLanguage second.1=.ok locale →
      select canonicalLanguage record preferred≠.ok chosen := by
  refine ⟨fun chosen => select_ok,
    fun record' chosen h => ⟨select_reordered h.symm,select_reordered h⟩,?_⟩
  intro field hfield members first second locale chosen hm hsub hfirst hsecond hs
  obtain ⟨available,variants,haccepted,-⟩ := select_ok.mp hs
  cases List.mem_pair.mp hfield with
  | inl he =>
    obtain ⟨members',hm',-,hfound⟩ := haccepted.declared
    cases (he ▸ hm).symm.trans hm'
    exact distinct_repeated hsub hfirst hsecond _ hfound
  | inr he =>
    obtain ⟨members',hm',-,hfound⟩ := haccepted.localized
    cases (he ▸ hm).symm.trans hm'
    exact distinct_repeated hsub hfirst hsecond _ hfound

end Selection

section Example

/-- A record that localizes English twice. -/
def doubled : Members :=
  [("locales_available",.object [("en",.bool true)]),
    ("localized_infos",.object [("en",.object []),("en-",.object [])])]

/-- Two spellings of one locale are refused. -/
theorem locale_selected_doubled : ¬ ∃ chosen,
    select (fun _ => .ok "en") doubled ⟨"fr"⟩=.ok chosen := by
  rintro ⟨chosen,h⟩
  exact (locale_selected (fun _ => .ok "en") doubled ⟨"fr"⟩).2.2 "localized_infos" (by decide)
    [("en",.object []),("en-",.object [])] ("en",.object []) ("en-",.object []) ⟨"en"⟩ chosen
    (mapOf_ok.mpr rfl) (List.Sublist.refl _) rfl rfl h

end Example

end Librairii.CatalogLocales
