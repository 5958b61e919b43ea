import Librairii.PassSchedules

/-!
# Repeated normalization of names

Every pass of the codec canonicalizes the fields of a node in the same way and normalizes
its name once more. The whole canonical pass therefore returns the canonical tree with the
name at each depth normalized a fixed number of times. On a name whose third normalization
is its first, one more whole pass takes the result of the second back to the first.
-/

namespace Librairii.NormalizationPasses

open CheckedResults SavedQuery CanonicalQuery PassSchedules NodeChanges
open WireParser hiding members

/-- The limits on a node besides the one on its name. -/
structure Limits (own : Membership) : Prop where
  /-- A node has at most 50 filter groups. -/
  groups : groups own≤50
  /-- A node lists at most 100 languages. -/
  languages : own.languages.length≤100
  /-- A node lists at most three compatibilities. -/
  compatibilities : own.compatibilities.length≤3
  /-- Every compatibility is admitted. -/
  known : ∀ c ∈ own.compatibilities, c ∈ compatibilityNames
  values : ∀ f ∈ own.choiceFilters, f.valueIds.length≤100

theorem within_iff {own : Membership} : Within own ↔ own.name.length≤200 ∧ Limits own := by
  constructor
  · rintro ⟨hname,hgroups,hlanguages,hcompatibilities,hknown,hvalues⟩
    exact ⟨hname,hgroups,hlanguages,hcompatibilities,hknown,hvalues⟩
  · rintro ⟨hname,hgroups,hlanguages,hcompatibilities,hknown,hvalues⟩
    exact ⟨hname,hgroups,hlanguages,hcompatibilities,hknown,hvalues⟩

def withName (own : Membership) (name : String) : Membership := { own with name := name }

theorem Limits.canonicalOwn {own : Membership} (h : Limits (dropIgnored own)) :
    Limits (canonicalOwn own) := by
  have hshort : Within (dropIgnored (withName own "")) :=
    within_iff.mpr ⟨Nat.zero_le _,h.groups,h.languages,h.compatibilities,h.known,h.values⟩
  have hw := hshort.canonicalOwn
  exact ⟨hw.groups,hw.languages,hw.compatibilities,hw.known,hw.values⟩

section Names

variable (env : NormalEnv)

/-- Normalize a name a number of times and bound every result. -/
def renamed : ℕ → String → Except CodecError String
  | 0,name => .ok name
  | k+1,name => do
    let name ← env.normalize name
    if 200<name.length then .error .invalid else renamed k name

/-- The third normalization of a name is its first. -/
def Cubic (name : String) : Prop :=
  (env.normalize name >>= env.normalize >>= env.normalize)=env.normalize name

def FixedLanguages (own : Membership) : Prop :=
  ∀ language ∈ own.languages, env.canonicalLanguage language=.ok language

end Names

section Renaming

variable {env : NormalEnv}

theorem renamed_succ {k : ℕ} {x z : String} : renamed env (k+1) x=.ok z ↔
    ∃ y, env.normalize x=.ok y ∧ y.length≤200 ∧ renamed env k y=.ok z := by
  rw [renamed,exceptBind_ok]
  constructor
  · rintro ⟨y,hy,h⟩
    obtain ⟨hlong,h⟩ := checked_ok.mp h
    exact ⟨y,hy,Nat.not_lt.mp hlong,h⟩
  · rintro ⟨y,hy,hshort,h⟩
    refine ⟨y,hy,?_⟩
    rw [if_neg (Nat.not_lt.mpr hshort)]
    exact h

theorem renamed_add (k j : ℕ) : ∀ {x z : String}, renamed env (k+j) x=.ok z ↔
    ∃ y, renamed env k x=.ok y ∧ renamed env j y=.ok z := by
  induction k with
  | zero =>
    intro x z
    rw [Nat.zero_add]
    constructor
    · exact fun h => ⟨x,rfl,h⟩
    · rintro ⟨y,hy,h⟩
      rw [Except.ok.inj hy]
      exact h
  | succ k ih =>
    intro x z
    have hk : k+1+j=k+j+1 := by omega
    rw [hk,renamed_succ]
    constructor
    · rintro ⟨y,hy,hshort,h⟩
      obtain ⟨w,hw,h⟩ := ih.mp h
      exact ⟨w,renamed_succ.mpr ⟨y,hy,hshort,hw⟩,h⟩
    · rintro ⟨w,hw,h⟩
      obtain ⟨y,hy,hshort,hw⟩ := renamed_succ.mp hw
      exact ⟨y,hy,hshort,ih.mpr ⟨w,hw,h⟩⟩

theorem renamed_alternate {a b : String} (hab : env.normalize a=.ok b)
    (hba : env.normalize b=.ok a) (ha : a.length≤200) (hb : b.length≤200) (k : ℕ) :
    renamed env k a=.ok (if k%2=0 then a else b) ∧
      renamed env k b=.ok (if k%2=0 then b else a) := by
  induction k with
  | zero => exact ⟨rfl,rfl⟩
  | succ k ih =>
    obtain ⟨hfirst,hsecond⟩ := ih
    constructor
    · rw [renamed_succ]
      refine ⟨b,hab,hb,?_⟩
      rw [hsecond]
      by_cases hk : k%2=0
      · rw [if_pos hk,if_neg (by omega)]
      · rw [if_neg hk,if_pos (by omega)]
    · rw [renamed_succ]
      refine ⟨a,hba,ha,?_⟩
      rw [hfirst]
      by_cases hk : k%2=0
      · rw [if_pos hk,if_neg (by omega)]
      · rw [if_neg hk,if_pos (by omega)]

/-- The same number of normalizations twice more leads back to the first result. -/
theorem renamed_cubic {x y z : String} {k : ℕ} (hx : Cubic env x) (hk : 0<k)
    (hy : renamed env k x=.ok y) (hz : renamed env k y=.ok z) : renamed env k z=.ok y := by
  obtain ⟨k,rfl⟩ := Nat.exists_eq_add_of_lt hk
  rw [Nat.zero_add] at hy hz ⊢
  have hboth := (renamed_add (k+1) (k+1)).mpr ⟨y,hy,hz⟩
  obtain ⟨a,ha,hshort,hrest⟩ := renamed_succ.mp hboth
  have hmore : renamed env (k+1+k) a=.ok z := hrest
  have hsucc : k+1+k=k+k+1 := by omega
  rw [hsucc] at hmore
  obtain ⟨b,hb,hshort',-⟩ := renamed_succ.mp hmore
  have hback : env.normalize b=.ok a := by
    rw [Cubic,ha,bind_of_ok rfl,hb,bind_of_ok rfl] at hx
    exact hx
  have halternate := renamed_alternate hb hback hshort hshort'
  obtain ⟨a',ha',-,hy'⟩ := renamed_succ.mp hy
  rw [ha] at ha'
  obtain rfl := Except.ok.inj ha'
  have hya := (halternate k).1
  rw [hy'] at hya
  have hza := (halternate (k+k+1)).1
  rw [hmore] at hza
  rw [Except.ok.inj hya,Except.ok.inj hza,if_neg (by omega)]
  have hlast := (halternate (k+1)).2
  rw [hlast]
  by_cases hparity : k%2=0
  · rw [if_pos hparity,if_neg (by omega)]
  · rw [if_neg hparity,if_pos (by omega)]

/-- A name that is normalized stays as it is. -/
theorem renamed_fixed {x y : String} {k : ℕ} (hx : env.normalize x=.ok x) (hk : 0<k) :
    renamed env k x=.ok y ↔ x.length≤200 ∧ y=x := by
  obtain ⟨k,rfl⟩ := Nat.exists_eq_add_of_lt hk
  rw [Nat.zero_add]
  constructor
  · intro h
    obtain ⟨a,ha,hshort,-⟩ := renamed_succ.mp h
    rw [hx] at ha
    obtain rfl := Except.ok.inj ha
    have halternate := (renamed_alternate hx hx hshort hshort (k+1)).1
    rw [h,ite_self] at halternate
    exact ⟨hshort,Except.ok.inj halternate⟩
  · rintro ⟨hshort,rfl⟩
    have halternate := (renamed_alternate hx hx hshort hshort (k+1)).1
    rwa [ite_self] at halternate

end Renaming

mutual

/-- Trees that differ only in their names, those at each depth normalized the given number
of times. -/
inductive Renames (env : NormalEnv) : (ℕ → ℕ) → Query → Query → Prop
  | node {k : ℕ → ℕ} {own : Membership} {name : String} {anyOf anyOf' : List Query}
    (hname : renamed env (k 0) own.name=.ok name)
    (hall : RenamesAll env (fun d => k (d+1)) anyOf anyOf') :
    Renames env k (.node own anyOf) (.node (withName own name) anyOf')

/-- Branches that differ only in their names. -/
inductive RenamesAll (env : NormalEnv) : (ℕ → ℕ) → List Query → List Query → Prop
  | nil {k : ℕ → ℕ} : RenamesAll env k [] []
  | cons {k : ℕ → ℕ} {branch branch' : Query} {branches branches' : List Query}
    (hfirst : Renames env k branch branch') (hrest : RenamesAll env k branches branches') :
    RenamesAll env k (branch::branches) (branch'::branches')

end

section Trees

variable {env : NormalEnv}

mutual

/-- A tree renamed twice the same number of times is renamed back by as many. -/
theorem renames_cubic : ∀ (q : Query) {k : ℕ → ℕ} {a b : Query},
    (∀ own ∈ members q, Cubic env own.name) → (∀ d, 0<k d) →
      Renames env k q a → Renames env k a b → Renames env k b a
  | .node own anyOf,k,a,b,hcubic,hk,ha,hb => by
    rw [members,List.forall_mem_cons] at hcubic
    cases ha with
    | node hy hall =>
      cases hb with
      | node hz hall' =>
        have hback := renamed_cubic hcubic.1 (hk 0) hy hz
        have hbranches := renamesAll_cubic anyOf hcubic.2 (fun d => hk (d+1)) hall hall'
        exact .node hback hbranches

/-- Branches renamed twice the same number of times are renamed back by as many. -/
theorem renamesAll_cubic : ∀ (branches : List Query) {k : ℕ → ℕ} {as bs : List Query},
    (∀ own ∈ membersOf branches, Cubic env own.name) → (∀ d, 0<k d) →
      RenamesAll env k branches as → RenamesAll env k as bs → RenamesAll env k bs as
  | [],k,as,bs,_,_,ha,hb => by
    cases ha
    cases hb
    exact .nil
  | branch::branches,k,as,bs,hcubic,hk,ha,hb => by
    rw [membersOf,List.forall_mem_append] at hcubic
    cases ha with
    | cons ha has =>
      cases hb with
      | cons hb hbs =>
        exact .cons (renames_cubic branch hcubic.1 hk ha hb)
          (renamesAll_cubic branches hcubic.2 hk has hbs)

end

mutual

theorem members_renames : ∀ (q : Query) {k : ℕ → ℕ} {q' : Query}, Renames env k q q' →
    nodes q'=nodes q ∧ ∀ own' ∈ members q', ∃ own ∈ members q, ∃ name, own'=withName own name
  | .node own anyOf,k,q',h => by
    cases h with
    | node hname hall =>
      obtain ⟨hnodes,hmembers⟩ := membersOf_renames anyOf hall
      constructor
      · rw [nodes,nodes,hnodes]
      · intro own' hown'
        rw [members] at hown'
        rcases List.mem_cons.mp hown' with rfl | hown'
        · exact ⟨own,List.mem_cons_self,_,rfl⟩
        · obtain ⟨o,ho,name,rfl⟩ := hmembers own' hown'
          exact ⟨o,List.mem_cons_of_mem _ ho,name,rfl⟩

theorem membersOf_renames : ∀ (branches : List Query) {k : ℕ → ℕ} {branches' : List Query},
    RenamesAll env k branches branches' → nodesOf branches'=nodesOf branches ∧
      ∀ own' ∈ membersOf branches', ∃ own ∈ membersOf branches, ∃ name,
        own'=withName own name
  | [],k,branches',h => by
    cases h
    exact ⟨rfl,fun own' hown' => absurd hown' List.not_mem_nil⟩
  | branch::branches,k,branches',h => by
    cases h with
    | cons hfirst hrest =>
      obtain ⟨hnodes,hmembers⟩ := members_renames branch hfirst
      obtain ⟨hnodes',hmembers'⟩ := membersOf_renames branches hrest
      constructor
      · rw [nodesOf,nodesOf,hnodes,hnodes']
      · intro own' hown'
        rw [membersOf] at hown'
        rcases List.mem_append.mp hown' with hown' | hown'
        · obtain ⟨o,ho,name,rfl⟩ := hmembers own' hown'
          exact ⟨o,List.mem_append_left _ ho,name,rfl⟩
        · obtain ⟨o,ho,name,rfl⟩ := hmembers' own' hown'
          exact ⟨o,List.mem_append_right _ ho,name,rfl⟩

end

mutual

theorem canonical_renames : ∀ (q : Query) {k : ℕ → ℕ} {q' : Query},
    Renames env k (canonical q) q' → canonical q'=q'
  | .node own anyOf,k,q',h => by
    rw [canonical] at h
    cases h with
    | node hname hall =>
      have hown : ∀ name, canonicalOwn (withName (canonicalOwn own) name)=
          withName (canonicalOwn own) name := by
        intro name
        change withName (canonicalOwn (canonicalOwn own)) name=_
        rw [canonicalOwn_idem]
      have hbranches := canonicalBranches_renames anyOf hall
      rw [canonical,hown,hbranches]

theorem canonicalBranches_renames : ∀ (branches : List Query) {k : ℕ → ℕ}
    {branches' : List Query}, RenamesAll env k (canonicalBranches branches) branches' →
      canonicalBranches branches'=branches'
  | [],k,branches',h => by
    rw [canonicalBranches] at h
    cases h
    rw [canonicalBranches]
  | branch::branches,k,branches',h => by
    rw [canonicalBranches] at h
    cases h with
    | cons hfirst hrest =>
      have hfirst := canonical_renames branch hfirst
      have hrest := canonicalBranches_renames branches hrest
      rw [canonicalBranches,hfirst,hrest]

end

theorem dropIgnored_withName (own : Membership) (name : String) :
    dropIgnored (withName (canonicalOwn own) name)=withName (canonicalOwn own) name :=
  congrArg (withName · name) (dropIgnored_canonicalOwn own)

theorem limits_withName {own : Membership} {name : String} (h : Limits (dropIgnored own)) :
    Limits (withName (canonicalOwn own) name) :=
  ⟨h.canonicalOwn.groups,h.canonicalOwn.languages,h.canonicalOwn.compatibilities,
    h.canonicalOwn.known,h.canonicalOwn.values⟩

theorem FixedLanguages.canonical {own : Membership} (h : FixedLanguages env own) (name : String) :
    FixedLanguages env (withName (canonicalOwn own) name) :=
  fun language hlanguage => h language (mem_sortedSet.mp hlanguage)

theorem limits_renames {branches branches' : List Query} {k : ℕ → ℕ}
    (hl : ∀ own ∈ membersOf branches, Limits (dropIgnored own))
    (h : RenamesAll env k (canonicalBranches branches) branches') :
    ∀ own ∈ membersOf branches', Limits own ∧ Limits (dropIgnored own) := by
  intro own hown
  obtain ⟨c,hc,name,rfl⟩ := (membersOf_renames _ h).2 own hown
  rw [membersOf_canonical] at hc
  obtain ⟨o,ho,rfl⟩ := List.mem_map.mp hc
  rw [dropIgnored_withName]
  exact ⟨limits_withName (hl o ho),limits_withName (hl o ho)⟩

theorem fixed_renames {branches branches' : List Query} {k : ℕ → ℕ}
    (hl : ∀ own ∈ membersOf branches, FixedLanguages env own)
    (h : RenamesAll env k (canonicalBranches branches) branches') :
    ∀ own ∈ membersOf branches', FixedLanguages env own := by
  intro own hown
  obtain ⟨c,hc,name,rfl⟩ := (membersOf_renames _ h).2 own hown
  rw [membersOf_canonical] at hc
  obtain ⟨o,ho,rfl⟩ := List.mem_map.mp hc
  exact (hl o ho).canonical name

/-- A node with canonical languages normalizes exactly when it is within its limits and its
name normalizes to a short one. -/
theorem normalizeOwn_ok {own own' : Membership} (hl : FixedLanguages env own) :
    normalizeOwn env own=.ok own' ↔ Limits own ∧ ∃ name, renamed env 1 own.name=.ok name ∧
      own'=withName (normalOwn own) name := by
  have hlanguages : own.languages.mapM env.canonicalLanguage=.ok own.languages := by
    have hm := mapM_ok hl
    rwa [List.map_id'] at hm
  unfold normalizeOwn
  constructor
  · intro h
    obtain ⟨name,hname,h⟩ := exceptBind_ok.mp h
    by_cases hlim : 200<name.length ∨ 50<groups own ∨ 100<own.languages.length ∨
        3<own.compatibilities.length
    · rw [if_pos hlim] at h
      cases h
    rw [if_neg hlim,bind_of_ok hlanguages] at h
    by_cases hknown : (own.compatibilities.any (· ∉ compatibilityNames))=true
    · rw [if_pos hknown] at h
      cases h
    rw [if_neg hknown] at h
    obtain ⟨choices,hc,h⟩ := exceptBind_ok.mp h
    have hvalues : ∀ f ∈ own.choiceFilters, f.valueIds.length≤100 := by
      intro f hfm
      obtain ⟨f',hf'⟩ := mapM_element hc f hfm
      exact (normalizeChoice_ok.mp hf').1
    have hchoices := mapM_ok (g := normalChoice)
      fun f hfm => normalizeChoice_ok.mpr ⟨hvalues f hfm,rfl⟩
    rw [hchoices] at hc
    obtain rfl := Except.ok.inj hc
    obtain rfl := Except.ok.inj h
    have hadmitted : ∀ c ∈ own.compatibilities, c ∈ compatibilityNames := by
      intro c hcm
      by_contra hn
      exact hknown (List.any_eq_true.mpr ⟨c,hcm,decide_eq_true hn⟩)
    have hrenamed : renamed env 1 own.name=.ok name :=
      renamed_succ.mpr ⟨name,hname,by omega,rfl⟩
    refine ⟨⟨by omega,by omega,by omega,hadmitted,hvalues⟩,name,hrenamed,?_⟩
    rw [withName,normalOwn,dedup_sort,dedup_sort]
  · rintro ⟨hlimits,name,hrenamed,rfl⟩
    obtain ⟨y,hname,hshort,hy⟩ := renamed_succ.mp hrenamed
    obtain rfl := Except.ok.inj hy
    have hlim : ¬(200<y.length ∨ 50<groups own ∨ 100<own.languages.length ∨
        3<own.compatibilities.length) := by
      have hgroups := hlimits.groups
      have hcount := hlimits.languages
      have hcompatibilities := hlimits.compatibilities
      omega
    have hknown : ¬(own.compatibilities.any (· ∉ compatibilityNames))=true := by
      intro h
      obtain ⟨c,hcm,hc⟩ := List.any_eq_true.mp h
      exact of_decide_eq_true hc (hlimits.known c hcm)
    have hchoices := mapM_ok (g := normalChoice)
      fun f hfm => normalizeChoice_ok.mpr ⟨hlimits.values f hfm,rfl⟩
    rw [bind_of_ok hname,if_neg hlim,bind_of_ok hlanguages,if_neg hknown,bind_of_ok hchoices,
      withName,normalOwn,dedup_sort,dedup_sort]

/-- How often the whole canonical pass normalizes the name of a node at a depth. -/
def passes : ℕ → ℕ
  | 0 => 1
  | d+1 => d+2+passes d

/-- Every name is normalized. -/
theorem passes_pos (d : ℕ) : 0<passes d := by
  cases d with
  | zero => exact Nat.one_pos
  | succ d =>
    rw [passes]
    omega

theorem memberPasses_ok {own : Membership} (hl : FixedLanguages env own) (d : ℕ) :
    ∀ {own' : Membership}, memberPasses env d own=.ok own' ↔ Limits (dropIgnored own) ∧
      ∃ name, renamed env (d+1) own.name=.ok name ∧ own'=withName (canonicalOwn own) name := by
  induction d with
  | zero =>
    intro own'
    rw [memberPasses,exceptMap_ok,←sortFilters_normalOwn]
    simp only [fun own'' => @normalizeOwn_ok env (dropIgnored own) own'' hl]
    constructor
    · rintro ⟨o,⟨hlimits,name,hname,rfl⟩,rfl⟩
      exact ⟨hlimits,name,hname,rfl⟩
    · rintro ⟨hlimits,name,hname,rfl⟩
      exact ⟨_,⟨hlimits,name,hname,rfl⟩,rfl⟩
  | succ d ih =>
    intro own'
    have hstep : ∀ name own', Limits (dropIgnored own) →
        (normalizeOwn env (withName (canonicalOwn own) name)=.ok own' ↔
          ∃ z, renamed env 1 name=.ok z ∧ own'=withName (canonicalOwn own) z) := by
      intro name own' hlimits
      have hnormal : normalOwn (withName (canonicalOwn own) name)=
          withName (canonicalOwn own) name :=
        congrArg (withName · name) (normalOwn_canonicalOwn own)
      rw [normalizeOwn_ok (hl.canonical name),hnormal]
      exact and_iff_right (limits_withName hlimits)
    rw [memberPasses,exceptBind_ok]
    simp only [ih,renamed_add (d+1) 1]
    grind

/-- A node is canonical after its steps of the whole pass but for its name. -/
theorem savedPasses_ok {d : ℕ} : ∀ {own own' : Membership}, FixedLanguages env own →
    (savedPasses env d own=.ok own' ↔ Limits (dropIgnored own) ∧
      ∃ name, renamed env (passes d) own.name=.ok name ∧
        own'=withName (canonicalOwn own) name) := by
  induction d with
  | zero =>
    intro own own' hl
    rw [savedPasses,memberPasses_ok hl,passes]
  | succ d ih =>
    intro own own' hl
    have hstep : ∀ name own', Limits (dropIgnored own) →
        (savedPasses env d (withName (canonicalOwn own) name)=.ok own' ↔
          ∃ z, renamed env (passes d) name=.ok z ∧ own'=withName (canonicalOwn own) z) := by
      intro name own' hlimits
      have hcanonical : canonicalOwn (withName (canonicalOwn own) name)=
          withName (canonicalOwn own) name := congrArg (withName · name) (canonicalOwn_idem own)
      rw [ih (hl.canonical name),hcanonical,dropIgnored_withName]
      exact and_iff_right (limits_withName hlimits)
    rw [savedPasses,exceptBind_ok,passes]
    simp only [memberPasses_ok hl,renamed_add (d+2) (passes d)]
    grind

mutual

/-- Steps that make every node canonical but for its name make the tree so. -/
theorem eachNode_renames : ∀ (q : Query) {f : ℕ → Membership → Except CodecError Membership}
    {k : ℕ → ℕ} {q' : Query}, (∀ d, ∀ own ∈ members q, ∀ own', f d own=.ok own' ↔
      Limits (dropIgnored own) ∧ ∃ name, renamed env (k d) own.name=.ok name ∧
        own'=withName (canonicalOwn own) name) → (eachNode f q=.ok q' ↔
      (∀ own ∈ members q, Limits (dropIgnored own)) ∧ Renames env k (canonical q) q')
  | .node own anyOf,f,k,q',hf => by
    simp only [members,List.forall_mem_cons] at hf
    have hbranches := @eachBranch_renames anyOf (fun d => f (d+1)) (fun d => k (d+1))
    rw [eachNode_ok,members,List.forall_mem_cons,canonical]
    simp only [(hf 0).1,hbranches fun d => (hf (d+1)).2]
    constructor
    · rintro ⟨own',anyOf',⟨hlimits,name,hname,rfl⟩,⟨hall,hb⟩,rfl⟩
      exact ⟨⟨hlimits,hall⟩,.node hname hb⟩
    · rintro ⟨⟨hlimits,hall⟩,h⟩
      cases h with
      | node hname hb => exact ⟨_,_,⟨hlimits,_,hname,rfl⟩,⟨hall,hb⟩,rfl⟩

theorem eachBranch_renames : ∀ (branches : List Query)
    {f : ℕ → Membership → Except CodecError Membership} {k : ℕ → ℕ} {branches' : List Query},
    (∀ d, ∀ own ∈ membersOf branches, ∀ own', f d own=.ok own' ↔ Limits (dropIgnored own) ∧
      ∃ name, renamed env (k d) own.name=.ok name ∧ own'=withName (canonicalOwn own) name) →
    (eachBranch f branches=.ok branches' ↔ (∀ own ∈ membersOf branches, Limits (dropIgnored own)) ∧
      RenamesAll env k (canonicalBranches branches) branches')
  | [],f,k,branches',_ => by
    rw [eachBranch_nil,canonicalBranches]
    constructor
    · rintro rfl
      exact ⟨fun _ hm => absurd hm List.not_mem_nil,.nil⟩
    · rintro ⟨-,h⟩
      cases h
      rfl
  | branch::branches,f,k,branches',hf => by
    simp only [membersOf,List.forall_mem_append] at hf
    rw [eachBranch_cons,membersOf,List.forall_mem_append,canonicalBranches]
    simp only [eachNode_renames branch fun d => (hf d).1,
      eachBranch_renames branches fun d => (hf d).2]
    constructor
    · rintro ⟨b,bs,⟨hlimits,hb⟩,⟨hall,hbs⟩,rfl⟩
      exact ⟨⟨hlimits,hall⟩,.cons hb hbs⟩
    · rintro ⟨⟨hlimits,hall⟩,h⟩
      cases h with
      | cons hb hbs => exact ⟨_,_,⟨hlimits,hb⟩,⟨hall,hbs⟩,rfl⟩

end

/-- The whole canonical pass succeeds exactly when the query has at most fifty nodes, every
node without its ignored filters is within its limits and the names normalize to short
ones. It returns the canonical tree with the names at each depth normalized as often as
the depth demands. -/
theorem canonicalSaved_passes (q : Query) (hf : ∀ own ∈ members q, FixedLanguages env own)
    (q' : Query) : canonicalSaved env q=.ok q' ↔
      nodes q ≤ maxNodes ∧ (∀ own ∈ members q, Limits (dropIgnored own)) ∧
        Renames env passes (canonical q) q' := by
  have hnodes : eachNode (savedPasses env) q=.ok q' ↔
      (∀ own ∈ members q, Limits (dropIgnored own)) ∧ Renames env passes (canonical q) q' :=
    eachNode_renames q fun d own hm own' => savedPasses_ok (hf own hm)
  rw [canonicalSaved_nodewise,hnodes]

mutual

/-- Normalized names are renamed to themselves when they are short. -/
theorem renames_fixed : ∀ (q : Query) {k : ℕ → ℕ}, (∀ d, 0<k d) →
    (∀ own ∈ members q, env.normalize own.name=.ok own.name) → ∀ q',
      Renames env k q q' ↔ (∀ own ∈ members q, own.name.length≤200) ∧ q'=q
  | .node own anyOf,k,hk,hf,q' => by
    rw [members,List.forall_mem_cons] at hf
    have hbranches := renamesAll_fixed anyOf (fun d => hk (d+1)) hf.2
    have hown := @renamed_fixed env own.name
    rw [members,List.forall_mem_cons]
    constructor
    · intro h
      cases h with
      | node hname hall =>
        obtain ⟨hshort,rfl⟩ := (hown hf.1 (hk 0)).mp hname
        obtain ⟨hshort',rfl⟩ := (hbranches _).mp hall
        exact ⟨⟨hshort,hshort'⟩,rfl⟩
    · rintro ⟨⟨hshort,hshort'⟩,rfl⟩
      have hname := (hown hf.1 (hk 0)).mpr ⟨hshort,rfl⟩
      exact .node hname ((hbranches _).mpr ⟨hshort',rfl⟩)

/-- Branches with normalized names are renamed to themselves when the names are short. -/
theorem renamesAll_fixed : ∀ (branches : List Query) {k : ℕ → ℕ}, (∀ d, 0<k d) →
    (∀ own ∈ membersOf branches, env.normalize own.name=.ok own.name) → ∀ branches',
      RenamesAll env k branches branches' ↔
        (∀ own ∈ membersOf branches, own.name.length≤200) ∧ branches'=branches
  | [],k,hk,_,branches' => by
    constructor
    · intro h
      cases h
      exact ⟨fun own hown => absurd hown List.not_mem_nil,rfl⟩
    · rintro ⟨-,rfl⟩
      exact .nil
  | branch::branches,k,hk,hf,branches' => by
    rw [membersOf,List.forall_mem_append] at hf
    have hfirst := renames_fixed branch hk hf.1
    have hrest := renamesAll_fixed branches hk hf.2
    rw [membersOf,List.forall_mem_append]
    constructor
    · intro h
      cases h with
      | cons hrename hall =>
        obtain ⟨hshort,rfl⟩ := (hfirst _).mp hrename
        obtain ⟨hshort',rfl⟩ := (hrest _).mp hall
        exact ⟨⟨hshort,hshort'⟩,rfl⟩
    · rintro ⟨⟨hshort,hshort'⟩,rfl⟩
      exact .cons ((hfirst _).mpr ⟨hshort,rfl⟩) ((hrest _).mpr ⟨hshort',rfl⟩)

end

/-- On normalized texts the whole canonical pass succeeds exactly when the query has at most
fifty nodes and every node without its ignored filters is within its limits; it then
returns the canonical tree. -/
theorem canonicalSaved_ok (q : Query) (hf : ∀ own ∈ members q, Fixed env own) (q' : Query) :
    canonicalSaved env q=.ok q' ↔
      nodes q ≤ maxNodes ∧ (∀ own ∈ members q, Within (dropIgnored own)) ∧ q'=canonical q := by
  have hnames : ∀ own ∈ members (canonical q), env.normalize own.name=.ok own.name := by
    intro own hm
    rw [members_canonical] at hm
    obtain ⟨own',hm',rfl⟩ := List.mem_map.mp hm
    exact (hf own' hm').1
  have hlengths : (∀ own ∈ members (canonical q), own.name.length≤200) ↔
      ∀ own ∈ members q, own.name.length≤200 := by
    rw [members_canonical]
    exact List.forall_mem_map
  rw [canonicalSaved_passes q (fun own hm => (hf own hm).2),
    renames_fixed _ passes_pos hnames,hlengths]
  simp only [within_iff]
  constructor
  · rintro ⟨hmax,hlimits,hshort,rfl⟩
    exact ⟨hmax,fun own hm => ⟨hshort own hm,hlimits own hm⟩,rfl⟩
  · rintro ⟨hmax,hw,rfl⟩
    exact ⟨hmax,fun own hm => (hw own hm).2,fun own hm => (hw own hm).1,rfl⟩

theorem canonicalSaved_fixed {q q' : Query} (hf : ∀ own ∈ members q, Fixed env own)
    (h : canonicalSaved env q=.ok q') : canonicalSaved env q'=.ok q' := by
  obtain ⟨hmax,hw,rfl⟩ := (canonicalSaved_ok q hf q').mp h
  have hfixed : ∀ own ∈ members (canonical q), Fixed env own := by
    intro own hm
    rw [members_canonical] at hm
    obtain ⟨own',hm',rfl⟩ := List.mem_map.mp hm
    exact (hf own' hm').canonicalOwn
  have hwithin : ∀ own ∈ members (canonical q), Within (dropIgnored own) := by
    intro own hm
    rw [members_canonical] at hm
    obtain ⟨own',hm',rfl⟩ := List.mem_map.mp hm
    rw [dropIgnored_canonicalOwn]
    exact (hw own' hm').canonicalOwn
  have hn : nodes (canonical q)=nodes q := by
    rw [←length_members,members_canonical,List.length_map,length_members]
  exact (canonicalSaved_ok _ hfixed _).mpr ⟨by omega,hwithin,(canonical_idem q).symm⟩

end Trees

end Librairii.NormalizationPasses
