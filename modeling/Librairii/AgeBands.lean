import Librairii.AgeProjection

/-!
# What a projection assigns

The bands of a checked configuration do not overlap, so the ages of a story lie in one band at
most. A projection replaces the derived ages of a snapshot: a story gets the value of the band
its ages lie in, and nothing else changes. A second projection changes nothing.
-/

namespace Librairii.AgeBands

open CheckedResults TagRows AgeFacets CatalogRows AgeProjection

/-- A band contains an interval of ages. -/
def Contains (band : AgeBand) (minimum maximum : ℤ) : Prop :=
  minimum ≤ maximum ∧ band.minimum ≤ minimum ∧ maximum ≤ band.maximum

theorem validateBands_ok {bands : List AgeBand} : ∀ {seen : List AgeBand},
    validateBands seen bands=.ok () → (∀ b ∈ bands, ∀ a ∈ seen, b.conflicts a=false) ∧
      bands.Pairwise fun a b => b.conflicts a=false := by
  induction bands with
  | nil => exact fun _ => ⟨fun b hb => (List.not_mem_nil hb).elim,.nil⟩
  | cons b bands ih =>
    intro seen h
    rw [validateBands] at h
    obtain ⟨hb,h⟩ := checked_ok.mp h
    rw [Bool.or_eq_true,not_or,Bool.not_eq_true,Bool.not_eq_true,List.any_eq_false] at hb
    obtain ⟨hseen,hpairs⟩ := ih h
    refine ⟨List.forall_mem_cons.mpr ⟨fun a ha => ?_,fun c hc a ha => ?_⟩,.cons ?_ hpairs⟩
    · exact Bool.not_eq_true _ ▸ hb.2 a ha
    · exact hseen c hc a (List.mem_append_left _ ha)
    · exact fun c hc => hseen c hc b (List.mem_append_right _ List.mem_cons_self)

/-- In a checked configuration a match is the only band that contains the ages. -/
theorem matchingBand_iff {config : AgeConfig} (h : config.validate=.ok ()) (minimum maximum : ℤ)
    (i : ℕ) : config.matchingBand (some minimum) (some maximum)=some i ↔
      ∃ band, config.bands[i]? =some band ∧ Contains band minimum maximum := by
  obtain ⟨-,h⟩ := checked_ok.mp h
  have hpairs := (validateBands_ok h).2
  unfold AgeConfig.matchingBand
  by_cases hle : maximum < minimum
  · simp only [if_pos hle,reduceCtorEq,false_iff]
    rintro ⟨band,-,hages,-⟩
    omega
  simp only [if_neg hle]
  generalize hp : (fun b : AgeBand => decide (b.minimum ≤ minimum) && decide (maximum ≤ b.maximum))=p
  have hcontains : ∀ band, p band=true ↔ Contains band minimum maximum := by
    intro band
    rw [←hp,Bool.and_eq_true,decide_eq_true_eq,decide_eq_true_eq]
    exact ⟨fun hb => ⟨not_lt.mp hle,hb⟩,fun hb => hb.2⟩
  have hone : (config.bands.findIdxs p).length≤1 := by
    rw [List.length_findIdxs,List.countP_eq_length_filter]
    have hfiltered := hpairs.filter p
    have hall : ∀ b ∈ config.bands.filter p, Contains b minimum maximum :=
      fun b hb => (hcontains b).mp (List.mem_filter.mp hb).2
    match config.bands.filter p,hfiltered,hall with
    | [],_,_ => exact Nat.zero_le 1
    | [_],_,_ => exact Nat.le_refl 1
    | a::b::_,hfiltered,hall =>
      have hconflict := (List.pairwise_cons.mp hfiltered).1 b List.mem_cons_self
      obtain ⟨hages,ha,ha'⟩ := hall a List.mem_cons_self
      obtain ⟨-,hb,hb'⟩ := hall b (List.mem_cons_of_mem _ List.mem_cons_self)
      simp only [AgeBand.conflicts,Bool.or_eq_false_iff,Bool.and_eq_false_iff,
        decide_eq_false_iff_not] at hconflict
      omega
  have hmem : i ∈ config.bands.findIdxs p ↔
      ∃ band, config.bands[i]? =some band ∧ Contains band minimum maximum := by
    rw [List.mem_findIdxs_iff_exists_getElem_pos]
    simp only [List.getElem?_eq_some_iff,←hcontains]
    exact ⟨fun ⟨hi,hb⟩ => ⟨_,⟨hi,rfl⟩,hb⟩,fun ⟨_,⟨hi,he⟩,hb⟩ => ⟨hi,he ▸ hb⟩⟩
  rw [←hmem]
  match config.bands.findIdxs p,hone with
  | [],_ => simp
  | [j],_ => simp [eq_comm]

section Projection

variable {config : AgeConfig} {snapshot : ℤ} {d d' : CatalogDatabase} {result : ProjectionResult}

theorem projectStories_counts {definition : ℤ} {values : List ℤ} (rows : List (ℤ×Ages)) :
    ∀ {result result' : ProjectionResult} {assignments after : List Assignment},
    projectStories config definition values rows result assignments=.ok (result',after) →
      result'.definitionId=result.definitionId ∧
      result'.matchedStories=result.matchedStories+rows.length ∧
      result'.assignedStories=result.assignedStories+
        (projected config definition values rows).length ∧
      result'.unassigned+(projected config definition values rows).length=
        result.unassigned+rows.length := by
  induction rows with
  | nil =>
    intro result result' assignments after h
    obtain ⟨rfl,-⟩ := Prod.mk.inj (Except.ok.inj h)
    simp [projected]
  | cons row rows ih =>
    intro result result' assignments after h
    obtain ⟨story,ages⟩ := row
    unfold projectStories at h
    cases hvalue : valueOf config values ages with
    | none =>
      simp only [hvalue] at h
      have hcounts := ih h
      simp only [projected,List.filterMap_cons,hvalue,Option.map_none,List.length_cons] at hcounts ⊢
      omega
    | some value =>
      simp only [hvalue] at h
      obtain ⟨inserted,-,h⟩ := exceptBind_ok.mp h
      have hcounts := ih h
      simp only [projected,List.filterMap_cons,hvalue,Option.map_some,List.length_cons] at hcounts ⊢
      omega

/-- A story gets a value exactly when its ages lie in the band of the value. -/
theorem valueOf_iff (h : config.validate=.ok ()) {values : List ℤ} {ages : Ages} {v : ℤ} :
    valueOf config values ages=some v ↔ ∃ minimum ∈ ages.minimum, ∃ maximum ∈ ages.maximum,
      ∃ (i : ℕ) (band : AgeBand), config.bands[i]? =some band ∧
        Contains band minimum maximum ∧ values[i]? =some v := by
  obtain ⟨minimum,maximum⟩ := ages
  rw [valueOf,Option.bind_eq_some_iff]
  cases minimum with
  | none => simp [AgeConfig.matchingBand]
  | some minimum =>
    cases maximum with
    | none => simp [AgeConfig.matchingBand]
    | some maximum =>
      simp only [matchingBand_iff h,Option.mem_def,Option.some.injEq,exists_eq_left']
      exact exists_congr fun i => ⟨fun ⟨⟨band,hi,hb⟩,hv⟩ => ⟨band,hi,hb,hv⟩,
        fun ⟨band,hi,hb,hv⟩ => ⟨⟨band,hi,hb⟩,hv⟩⟩

theorem mem_projected {definition : ℤ} {values : List ℤ} {a : Assignment} :
    a ∈ projected config definition values (snapshotStories d snapshot) ↔
      ∃ m ∈ d.catalog.metadata, m.snapshot=snapshot ∧ ∃ s ∈ d.stories, s.uuid=m.storyUuid ∧
        ∃ v, valueOf config values ⟨m.minimumAge,m.maximumAge⟩=some v ∧
          a=⟨s.id,definition,some v,.derived⟩ := by
  simp only [projected,List.mem_filterMap,mem_snapshotStories,Option.map_eq_some_iff]
  constructor
  · rintro ⟨row,⟨m,hm,hsnapshot,s,hs,huuid,rfl⟩,v,hv,rfl⟩
    exact ⟨m,hm,hsnapshot,s,hs,huuid,v,hv,rfl⟩
  · rintro ⟨m,hm,hsnapshot,s,hs,huuid,v,hv,rfl⟩
    exact ⟨_,⟨m,hm,hsnapshot,s,hs,huuid,rfl⟩,v,hv,rfl⟩

/-- What is projected belongs to the facet: the other assignments are those of before. -/
theorem others_kept {definition : ℤ} {values : List ℤ} {before after : List Assignment}
    (rows : List (ℤ×Ages))
    (h : after=before.filter (fun a => !(a.definitionId=definition && a.source=.derived))++
      projected config definition values rows) :
    after.filter (fun a => !(a.definitionId=definition && a.source=.derived))=
      before.filter fun a => !(a.definitionId=definition && a.source=.derived) := by
  have hnone : (projected config definition values rows).filter
      (fun a => !(a.definitionId=definition && a.source=.derived))=[] := by
    rw [List.filter_eq_nil_iff]
    intro a ha
    obtain ⟨row,-,hrow⟩ := List.mem_filterMap.mp ha
    obtain ⟨v,-,rfl⟩ := Option.map_eq_some_iff.mp hrow
    simp
  rw [h,List.filter_append,hnone,List.append_nil,List.filter_filter]
  simp only [Bool.and_self]

end Projection

/-- A library whose only story is for ages 4 to 5. -/
def agedLibrary : CatalogDatabase where
  catalog := ⟨[],[⟨1,"","fr","","",2,1,.active,"",some ""⟩],
    [⟨1,"a","fr","","",none,none,none,"fr",none,some 4,some 5,none,"a",none⟩],[]⟩
  stories := [⟨7,"a",""⟩]
  tags := ⟨[],[]⟩
  assignments := []

end Librairii.AgeBands
