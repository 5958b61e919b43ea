import Librairii.FrozenText
import Librairii.TagRows

/-!
# The derived age facet

The age definition and one value for each configured band are inserted on first
use, and every use checks that the stored rows are exactly the configured ones.
A second use finds the rows of the first and changes nothing.
-/

namespace Librairii.AgeFacets

open CheckedResults FrozenText RowTables TagRows

/-- A band of ages. -/
structure AgeBand where
  key : String
  label : String
  minimum : ℤ
  maximum : ℤ
  deriving DecidableEq

/-- The configured bands, in their order. -/
structure AgeConfig where
  bands : List AgeBand
  deriving DecidableEq

def AgeConfig.default : AgeConfig := ⟨[⟨"3-5","3–5 years",3,5⟩,⟨"6-8","6–8 years",6,8⟩]⟩

/-- A band whose own fields are refused. -/
def AgeBand.invalid (b : AgeBand) : Bool :=
  b.key="" || 64<b.key.length ||
    !b.key.toList.all (fun c => ('a' ≤ c && c ≤ 'z') || ('0' ≤ c && c ≤ '9') || c = '-') ||
    b.label="" || tagTrim b.label≠b.label || 80<b.label.length || b.minimum<0 ||
    b.maximum<b.minimum

def AgeBand.conflicts (b a : AgeBand) : Bool :=
  a.key=b.key || (b.minimum≤a.maximum && a.minimum≤b.maximum)

/-- Check each band and that it does not conflict with an earlier one. -/
def validateBands : List AgeBand → List AgeBand → Except StorageError Unit
  | _,[] => .ok ()
  | seen,b::bands =>
    if b.invalid || seen.any b.conflicts then .error (.tag .invalidProjectionConfig)
    else validateBands (seen++[b]) bands

/-- The configuration has between 1 and 32 valid bands. -/
def AgeConfig.validate (config : AgeConfig) : Except StorageError Unit :=
  if config.bands=[] ∨ 32<config.bands.length then .error (.tag .invalidProjectionConfig)
  else validateBands [] config.bands

def AgeConfig.matchingBand (config : AgeConfig) : Option ℤ → Option ℤ → Option ℕ
  | some minimum,some maximum =>
    if maximum < minimum then none
    else match config.bands.findIdxs fun b => b.minimum ≤ minimum && maximum≤b.maximum with
    | [index] => some index
    | _ => none
  | _,_ => none

def ageDefinition : Definition :=
  ⟨0,"age","age","Age","#267D5D",.choice,.derived,.system,0,true⟩

/-- A stored definition is the age definition, whatever its id and color. -/
def isAge (d : Definition) : Bool :=
  d.key="age" && d.normalizedKey="age" && d.label="Age" && d.kind=.choice &&
    d.source=.derived && d.presentation=.system && d.position=0 && d.protected_

def isBand (index : ℕ) (b : AgeBand) (v : Value) : Bool :=
  v.key=b.key && v.normalizedKey=b.key && v.label=b.label && v.position=index

/-- Insert the age definition when it is missing, and find it. -/
def ensureDefinition (t : TagTables) : Except StorageError (ℤ×TagTables) := do
  let t ← insertDefinition ageDefinition t
  match t.definitions.find? fun d => nocase d.normalizedKey "age" with
  | none => .error .noRows
  | some found =>
    let d ← definition t found.id
    if isAge d then .ok (d.id,t) else .error (.tag .derivedFacetDrift)

def ensureValue (id : ℤ) (index : ℕ) (b : AgeBand) (t : TagTables) :
    Except StorageError (ℤ×TagTables) := do
  let t ← insertValue ⟨0,id,b.key,b.key,b.label,index⟩ t
  match t.values.find? fun v => v.definitionId=id && nocase v.normalizedKey b.key with
  | none => .error .noRows
  | some v => if isBand index b v then .ok (v.id,t) else .error (.tag .derivedFacetDrift)

def ensureValues (id : ℤ) : ℕ → List AgeBand → TagTables →
    Except StorageError (List ℤ×TagTables)
  | _,[],t => .ok ([],t)
  | index,b::bands,t => do
    let (v,t) ← ensureValue id index b t
    let (ids,t) ← ensureValues id (index+1) bands t
    return (v::ids,t)

/-- The age definition and its values, which are exactly the bands'. -/
def ensureAgeFacets (config : AgeConfig) (t : TagTables) :
    Except StorageError ((ℤ×List ℤ)×TagTables) := do
  config.validate
  let (id,t) ← ensureDefinition t
  let (ids,t) ← ensureValues id 0 config.bands t
  if (t.values.filter fun v => v.definitionId=id).length≠config.bands.length then
    .error (.tag .derivedFacetDrift)
  else return ((id,ids),t)

theorem insertDefinition_ok {new : Definition} {t t' : TagTables}
    (h : insertDefinition new t=.ok t') : t'.values=t.values ∧ insertDefinition new t'=.ok t' := by
  unfold insertDefinition at h
  by_cases htaken : (t.definitions.any fun d => nocase d.normalizedKey new.normalizedKey)=true
  · rw [if_pos htaken] at h
    obtain rfl := Except.ok.inj h
    exact ⟨rfl,if_pos htaken⟩
  rw [if_neg htaken] at h
  obtain ⟨-,h⟩ := checked_ok.mp h
  obtain rfl := Except.ok.inj h
  refine ⟨rfl,if_pos ?_⟩
  simp [nocase_self]

theorem ensureDefinition_ok {t t' : TagTables} {id : ℤ} (h : ensureDefinition t=.ok (id,t')) :
    t'.values=t.values ∧ (∃ d ∈ t'.definitions, d.id=id ∧ isAge d=true) ∧
      ∀ values, ensureDefinition ⟨t'.definitions,values⟩=.ok (id,⟨t'.definitions,values⟩) := by
  obtain ⟨s,hinsert,h⟩ := exceptBind_ok.mp h
  obtain ⟨hvalues,hagain⟩ := insertDefinition_ok hinsert
  cases hfind : s.definitions.find? fun d => nocase d.normalizedKey "age" with
  | none => simp [hfind] at h
  | some found =>
    simp only [hfind] at h
    obtain ⟨d,hd,h⟩ := exceptBind_ok.mp h
    by_cases hage : isAge d=true
    · rw [if_pos hage] at h
      obtain ⟨rfl,rfl⟩ := Prod.mk.inj (Except.ok.inj h)
      have hlookup : lookup (·.id) found.id s.definitions=some d := by
        unfold definition at hd
        split at hd
        · rename_i d' hd'
          rw [hd',Except.ok.inj hd]
        · cases hd
      refine ⟨hvalues,⟨d,(lookup_mem hlookup).1,rfl,hage⟩,?_⟩
      intro values
      have hkey : nocase found.normalizedKey "age"=true :=
        List.find?_some (p:=fun d : Definition => nocase d.normalizedKey "age") hfind
      have htaken : (s.definitions.any fun d =>
          nocase d.normalizedKey ageDefinition.normalizedKey)=true :=
        List.any_eq_true.mpr ⟨found,List.mem_of_find?_eq_some hfind,hkey⟩
      have hsame : insertDefinition ageDefinition ⟨s.definitions,values⟩=
          .ok ⟨s.definitions,values⟩ := if_pos htaken
      have hread : definition ⟨s.definitions,values⟩ found.id=.ok d := by
        simp [definition,hlookup]
      rw [ensureDefinition,hsame]
      simp [bind,Except.bind,hfind,hread,hage]
    · rw [if_neg hage] at h
      cases h

theorem insertValue_ok {new : Value} {t t' : TagTables} (h : insertValue new t=.ok t') :
    t'.definitions=t.definitions ∧ ∃ more, t'.values=t.values++more := by
  unfold insertValue at h
  split at h
  · obtain rfl := Except.ok.inj h
    exact ⟨rfl,[],by simp⟩
  obtain ⟨-,h⟩ := checked_ok.mp h
  split at h
  · obtain rfl := Except.ok.inj h
    exact ⟨rfl,_,rfl⟩
  · cases h

theorem insertValue_nodup {new : Value} {t t' : TagTables} (h : insertValue new t=.ok t')
    (ht : (t.values.map (·.id)).Nodup) : (t'.values.map (·.id)).Nodup := by
  unfold insertValue at h
  split at h
  · obtain rfl := Except.ok.inj h
    exact ht
  obtain ⟨-,h⟩ := checked_ok.mp h
  split at h
  · obtain rfl := Except.ok.inj h
    rw [List.map_append,List.map_singleton]
    refine List.nodup_append.mpr ⟨ht,List.nodup_singleton _,?_⟩
    intro id hid id' hid'
    have hbelow := lt_nextRowId hid
    rw [List.mem_singleton.mp hid']
    dsimp only
    omega
  · cases h

theorem ensureValue_ok {id v : ℤ} {index : ℕ} {b : AgeBand} {t t' : TagTables}
    (h : ensureValue id index b t=.ok (v,t')) :
    t'.definitions=t.definitions ∧ (∃ more, t'.values=t.values++more) ∧
      (∃ row ∈ t'.values, row.id=v ∧ row.definitionId=id ∧ row.key=b.key) ∧
      ∀ definitions more, ensureValue id index b ⟨definitions,t'.values++more⟩=
        .ok (v,⟨definitions,t'.values++more⟩) := by
  obtain ⟨s,hinsert,h⟩ := exceptBind_ok.mp h
  obtain ⟨hdefinitions,hmore⟩ := insertValue_ok hinsert
  cases hfind : s.values.find? fun v => v.definitionId=id && nocase v.normalizedKey b.key with
  | none => simp [hfind] at h
  | some row =>
    simp only [hfind] at h
    by_cases hband : isBand index b row=true
    · rw [if_pos hband] at h
      obtain ⟨rfl,rfl⟩ := Prod.mk.inj (Except.ok.inj h)
      have hrow := List.find?_some
        (p:=fun v : Value => v.definitionId=id && nocase v.normalizedKey b.key) hfind
      have hmem := List.mem_of_find?_eq_some hfind
      have howner : row.definitionId=id := by
        rw [Bool.and_eq_true,decide_eq_true_eq] at hrow
        exact hrow.1
      have hkey : row.key=b.key := by
        simp only [isBand,Bool.and_eq_true,decide_eq_true_eq] at hband
        exact hband.1.1.1
      refine ⟨hdefinitions,hmore,⟨row,hmem,rfl,howner,hkey⟩,?_⟩
      intro definitions more
      have htaken : ((s.values++more).any fun v =>
          v.definitionId=id && nocase v.normalizedKey b.key)=true :=
        List.any_eq_true.mpr ⟨row,List.mem_append_left more hmem,hrow⟩
      have hsame : insertValue ⟨0,id,b.key,b.key,b.label,index⟩ ⟨definitions,s.values++more⟩=
          .ok ⟨definitions,s.values++more⟩ := if_pos htaken
      rw [ensureValue,hsame]
      simp [bind,Except.bind,List.find?_append,hfind,hband]
    · rw [if_neg hband] at h
      cases h

theorem ensureValues_ok {id : ℤ} (bands : List AgeBand) : ∀ {index : ℕ} {ids : List ℤ}
    {t t' : TagTables}, ensureValues id index bands t=.ok (ids,t') →
    t'.definitions=t.definitions ∧ (∃ more, t'.values=t.values++more) ∧
      List.Forall₂ (fun b v => ∃ row ∈ t'.values, row.id=v ∧ row.key=b.key) bands ids ∧
      ∀ definitions more, ensureValues id index bands ⟨definitions,t'.values++more⟩=
        .ok (ids,⟨definitions,t'.values++more⟩) := by
  induction bands with
  | nil =>
    intro index ids t t' h
    obtain ⟨rfl,rfl⟩ := Prod.mk.inj (Except.ok.inj h)
    exact ⟨rfl,⟨[],by simp⟩,.nil,fun _ _ => rfl⟩
  | cons b bands ih =>
    intro index ids t t' h
    obtain ⟨⟨v,s⟩,hvalue,h⟩ := exceptBind_ok.mp h
    obtain ⟨⟨rest,s'⟩,hrest,h⟩ := exceptBind_ok.mp h
    obtain ⟨rfl,rfl⟩ := Prod.mk.inj (Except.ok.inj h)
    obtain ⟨hdef,⟨more,hmore⟩,⟨row,hrow,hid,-,hkey⟩,hagain⟩ := ensureValue_ok hvalue
    obtain ⟨hdef',⟨more',hmore'⟩,hpairs,hagain'⟩ := ih hrest
    refine ⟨hdef'.trans hdef,⟨more++more',by rw [hmore',hmore,List.append_assoc]⟩,?_,?_⟩
    · have hmem : row ∈ s'.values := by
        rw [hmore']
        exact List.mem_append_left _ hrow
      exact .cons ⟨row,hmem,hid,hkey⟩ hpairs
    · intro definitions last
      have hfirst := hagain definitions (more'++last)
      rw [← List.append_assoc,← hmore'] at hfirst
      rw [ensureValues,bind_of_ok hfirst]
      exact bind_of_ok (hagain' definitions last)

theorem ensureAgeFacets_again {config : AgeConfig} {t t' : TagTables} {r : ℤ×List ℤ}
    (h : ensureAgeFacets config t=.ok (r,t')) : ensureAgeFacets config t'=.ok (r,t') := by
  obtain ⟨u,hvalid,h⟩ := exceptBind_ok.mp h
  obtain ⟨⟨id,s⟩,hdefinition,h⟩ := exceptBind_ok.mp h
  obtain ⟨⟨ids,s'⟩,hvalues,h⟩ := exceptBind_ok.mp h
  obtain ⟨-,-,hagain⟩ := ensureDefinition_ok hdefinition
  obtain ⟨hdef,-,-,hagain'⟩ := ensureValues_ok _ hvalues
  dsimp only at h
  obtain ⟨hcount,h⟩ := checked_ok.mp h
  obtain ⟨rfl,rfl⟩ := Prod.mk.inj (Except.ok.inj h)
  have hfirst := hagain s'.values
  rw [← hdef] at hfirst
  have hsecond := hagain' s'.definitions []
  rw [List.append_nil] at hsecond
  rw [ensureAgeFacets,bind_of_ok hvalid,bind_of_ok hfirst]
  dsimp only
  rw [bind_of_ok hsecond]
  exact if_neg hcount

/-- The facet's definition is stored and derived, and each band has a value under its key. -/
theorem ensureAgeFacets_values {config : AgeConfig} {t t' : TagTables} {id : ℤ}
    {values : List ℤ} (h : ensureAgeFacets config t=.ok ((id,values),t')) :
    (∃ d ∈ t'.definitions, d.id=id ∧ isAge d=true) ∧
      List.Forall₂ (fun b v => ∃ row ∈ t'.values, row.id=v ∧ row.key=b.key)
        config.bands values := by
  obtain ⟨u,-,h⟩ := exceptBind_ok.mp h
  obtain ⟨⟨id',s⟩,hdefinition,h⟩ := exceptBind_ok.mp h
  obtain ⟨⟨ids,s'⟩,hvalues,h⟩ := exceptBind_ok.mp h
  obtain ⟨-,hage,-⟩ := ensureDefinition_ok hdefinition
  obtain ⟨hdef,-,hpairs,-⟩ := ensureValues_ok _ hvalues
  dsimp only at h
  obtain ⟨-,h⟩ := checked_ok.mp h
  obtain ⟨hpair,rfl⟩ := Prod.mk.inj (Except.ok.inj h)
  obtain ⟨rfl,rfl⟩ := Prod.mk.inj hpair
  rw [hdef]
  exact ⟨hage,hpairs⟩

theorem ensureAgeFacets_definitions {config : AgeConfig} {t t' : TagTables} {r : ℤ×List ℤ}
    (h : ensureAgeFacets config t=.ok (r,t')) : ∀ d ∈ t'.definitions,
      d ∈ t.definitions ∨ d.id=nextRowId (t.definitions.map (·.id)) := by
  obtain ⟨u,-,h⟩ := exceptBind_ok.mp h
  obtain ⟨⟨id,s⟩,hdefinition,h⟩ := exceptBind_ok.mp h
  obtain ⟨⟨ids,s'⟩,hvalues,h⟩ := exceptBind_ok.mp h
  obtain ⟨hdef,-,-,-⟩ := ensureValues_ok _ hvalues
  have hlast : t'.definitions=s.definitions := by
    dsimp only at h
    obtain ⟨-,h⟩ := checked_ok.mp h
    rw [← (Prod.mk.inj (Except.ok.inj h)).2,hdef]
  obtain ⟨inserted,hinsert,hread⟩ := exceptBind_ok.mp hdefinition
  have hsame : s=inserted := by
    split at hread
    · cases hread
    · obtain ⟨d,-,hread⟩ := exceptBind_ok.mp hread
      split at hread
      · exact (Prod.mk.inj (Except.ok.inj hread)).2.symm
      · cases hread
  intro d hd
  rw [hlast,hsame] at hd
  unfold insertDefinition at hinsert
  split at hinsert
  · obtain rfl := Except.ok.inj hinsert
    exact .inl hd
  obtain ⟨-,hinsert⟩ := checked_ok.mp hinsert
  obtain rfl := Except.ok.inj hinsert
  rcases List.mem_append.mp hd with hd | hd
  · exact .inl hd
  · rw [List.mem_singleton.mp hd]
    exact .inr rfl

theorem ensureValues_nodup {id : ℤ} (bands : List AgeBand) : ∀ {index : ℕ} {ids : List ℤ}
    {t t' : TagTables}, ensureValues id index bands t=.ok (ids,t') →
      (t.values.map (·.id)).Nodup → (t'.values.map (·.id)).Nodup := by
  induction bands with
  | nil =>
    intro index ids t t' h ht
    obtain ⟨-,rfl⟩ := Prod.mk.inj (Except.ok.inj h)
    exact ht
  | cons b bands ih =>
    intro index ids t t' h ht
    obtain ⟨⟨v,s⟩,hvalue,h⟩ := exceptBind_ok.mp h
    obtain ⟨⟨rest,s'⟩,hrest,h⟩ := exceptBind_ok.mp h
    obtain ⟨-,rfl⟩ := Prod.mk.inj (Except.ok.inj h)
    apply ih hrest
    obtain ⟨inserted,hinsert,hread⟩ := exceptBind_ok.mp hvalue
    have hsame : s=inserted := by
      split at hread
      · cases hread
      · split at hread
        · exact (Prod.mk.inj (Except.ok.inj hread)).2.symm
        · cases hread
    rw [hsame]
    exact insertValue_nodup hinsert ht

theorem values_nodup {rows : List Value} {bands : List AgeBand} {values : List ℤ}
    (hpairs : List.Forall₂ (fun b v => ∃ row ∈ rows, row.id=v ∧ row.key=b.key) bands values)
    (hkeys : (bands.map (·.key)).Nodup) (hrows : (rows.map (·.id)).Nodup) : values.Nodup := by
  induction hpairs with
  | nil => exact List.nodup_nil
  | @cons b v bands values hhead hrest ih =>
    rw [List.map_cons,List.nodup_cons] at hkeys
    refine List.nodup_cons.mpr ⟨?_,ih hkeys.2⟩
    intro hmem
    obtain ⟨row,hrow,hid,hkey⟩ := hhead
    obtain ⟨n,hn,hv⟩ := List.getElem_of_mem hmem
    have hlength := hrest.length_eq
    obtain ⟨row',hrow',hid',hkey'⟩ := (List.forall₂_iff_get.mp hrest).2 n (by omega) hn
    have hsame := List.inj_on_of_nodup_map hrows hrow hrow' (by rw [hid,hid',← hv]; rfl)
    apply hkeys.1
    rw [← hkey,hsame,hkey']
    exact List.mem_map_of_mem (List.getElem_mem _)

/-- The bands have different values when the row ids are unique. -/
theorem ensureAgeFacets_nodup {config : AgeConfig} {t t' : TagTables} {id : ℤ} {values : List ℤ}
    (h : ensureAgeFacets config t=.ok ((id,values),t')) (hkeys : (config.bands.map (·.key)).Nodup)
    (ht : (t.values.map (·.id)).Nodup) : values.Nodup := by
  apply values_nodup (ensureAgeFacets_values h).2 hkeys
  obtain ⟨u,-,h⟩ := exceptBind_ok.mp h
  obtain ⟨⟨id',s⟩,hdefinition,h⟩ := exceptBind_ok.mp h
  obtain ⟨⟨ids,s'⟩,hvalues,h⟩ := exceptBind_ok.mp h
  have hfirst := (ensureDefinition_ok hdefinition).1
  have hlast : t'=s' := by
    dsimp only at h
    obtain ⟨-,h⟩ := checked_ok.mp h
    exact (Prod.mk.inj (Except.ok.inj h)).2.symm
  rw [hlast]
  apply ensureValues_nodup _ hvalues
  rwa [hfirst]

end Librairii.AgeFacets
