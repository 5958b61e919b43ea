import Librairii.PassSchedules
import Librairii.SavedQueryCodec

/-!
# The references of a saved query

Reference inspection reads the same payload as decoding, but it collects the filters of
every node without the canonical passes. It succeeds exactly when the payload is
structurally valid. Where decoding succeeds, the collected filters are those of the
decoded query, in another order and with their values unsorted.
-/

namespace Librairii.QueryReferences

open CheckedResults SavedQuery CanonicalQuery SavedQueryCodec PassSchedules NodeChanges
open WireParser hiding members

/-- The filters of all nodes of a saved query. -/
structure References where
  booleanFilters : List BooleanFilter := []
  choiceFilters : List ChoiceFilter := []
  deriving DecidableEq

mutual

/-- Add the filters of a query, node by node, without ignored and retired ones. -/
def collect (version legacyId : I64) : Query → References → References
  | .node own anyOf,refs =>
    let refs : References :=
      ⟨refs.booleanFilters++own.booleanFilters.filter fun f =>
        f.state≠"ignored" && !(version.val<4 && 0<legacyId.val && f.definitionId=legacyId),
      refs.choiceFilters++own.choiceFilters⟩
    collectBranches version legacyId anyOf refs

/-- Add the filters of the branches one after the other. -/
def collectBranches (version legacyId : I64) : List Query → References → References
  | [],refs => refs
  | branch::branches,refs =>
    collectBranches version legacyId branches (collect version legacyId branch refs)

end

def decodeReferences (env : CodecEnv) (version : I64) (bytes : List UInt8) (legacyId : I64) :
    Except CodecError References := do
  let q ← decodePayload env version bytes
  return collect version legacyId q {}

def booleans (nodes : List Membership) : List BooleanFilter :=
  nodes.flatMap fun own => own.booleanFilters

def choices (nodes : List Membership) : List ChoiceFilter :=
  nodes.flatMap fun own => own.choiceFilters

/-- A choice filter as its definition and the set of its values. -/
def reference (f : ChoiceFilter) : I64×Finset I64 := (f.definitionId,f.valueIds.toFinset)

def decided (f : BooleanFilter) : Bool := f.state≠"ignored"

/-- The fields of a node are valid. -/
structure WellFormed (own : Membership) (current : Bool) : Prop where
  /-- The retired fields have admitted values, and are unused in the current version. -/
  retired : retiredFields own current=true
  /-- A Boolean filter names a positive definition and has an admitted state. -/
  booleans : ∀ f ∈ own.booleanFilters,
    0<f.definitionId.val ∧ f.state ∈ ["ignored","true","false"]
  /-- A choice filter names a positive definition and at least one value, all positive. -/
  choices : ∀ f ∈ own.choiceFilters,
    0<f.definitionId.val ∧ f.valueIds≠[] ∧ ∀ v ∈ f.valueIds, 0<v.val
  /-- The filters that decide are on different definitions. -/
  distinct : ((own.booleanFilters.filter decided).map (·.definitionId)++
    own.choiceFilters.map (·.definitionId)).Nodup

/-- A payload is an object of the right size that reads as a query of at most 50 nodes with
valid fields. -/
structure StructurallyValid (env : CodecEnv) (version : I64) (bytes : List UInt8) : Prop where
  supported : 1≤version.val ∧ version.val≤5
  bounded : 2≤bytes.length ∧ bytes.length ≤ maxBytes
  read : ∃ fields q, parse env.toWireEnv bytes=.ok (.object fields) ∧
    query (.object fields) (version.val=1)=.ok q ∧ nodes q ≤ maxNodes ∧
      ∀ own ∈ members q, WellFormed own (version.val=5)

/-- Boolean filters pass exactly when they are valid and decide on different new
definitions. -/
theorem booleanReferences_ok (filters : List BooleanFilter) : ∀ {ids ids' : List I64},
    booleanReferences filters ids=.ok ids' ↔
      (∀ f ∈ filters, 0<f.definitionId.val ∧ f.state ∈ ["ignored","true","false"]) ∧
      ((filters.filter decided).map (·.definitionId)).Nodup ∧
      (∀ f ∈ filters.filter decided, f.definitionId ∉ ids) ∧
      ids'=((filters.filter decided).map (·.definitionId)).reverse++ids := by
  induction filters with
  | nil =>
    intro ids ids'
    simp [booleanReferences,eq_comm]
  | cons f filters ih =>
    intro ids ids'
    unfold booleanReferences
    by_cases hinvalid : f.definitionId.val≤0 ∨ f.state ∉ ["ignored","true","false"]
    · rw [if_pos hinvalid]
      constructor
      · intro h
        cases h
      · rintro ⟨hall,-⟩
        obtain ⟨hpositive,hstate⟩ := hall f List.mem_cons_self
        rcases hinvalid with hzero | hother
        · omega
        · exact absurd hstate hother
    · rw [if_neg hinvalid]
      rw [not_or,not_not,not_le] at hinvalid
      by_cases hdecided : f.state≠"ignored"
      · have hfilter : (f::filters).filter decided=f::filters.filter decided :=
          List.filter_cons_of_pos (by simpa [decided] using hdecided)
        rw [if_pos hdecided,hfilter]
        by_cases hseen : f.definitionId ∈ ids
        · rw [if_pos hseen]
          constructor
          · intro h
            cases h
          · rintro ⟨-,-,hnew,-⟩
            exact absurd hseen (hnew f List.mem_cons_self)
        · rw [if_neg hseen,ih]
          rw [List.forall_mem_cons,List.forall_mem_cons,List.map_cons,List.nodup_cons,
            List.reverse_cons,List.append_assoc,List.singleton_append]
          constructor
          · rintro ⟨hall,hnodup,hnew,rfl⟩
            refine ⟨⟨hinvalid,hall⟩,⟨?_,hnodup⟩,⟨hseen,?_⟩,rfl⟩
            · intro hmem
              obtain ⟨g,hg,hsame⟩ := List.mem_map.mp hmem
              exact hnew g hg (by simp [hsame])
            · exact fun g hg hmem => hnew g hg (List.mem_cons_of_mem _ hmem)
          · rintro ⟨⟨-,hall⟩,⟨hown,hnodup⟩,⟨-,hnew⟩,rfl⟩
            refine ⟨hall,hnodup,?_,rfl⟩
            intro g hg hmem
            rcases List.mem_cons.mp hmem with hsame | hmem
            · exact hown (List.mem_map.mpr ⟨g,hg,hsame⟩)
            · exact hnew g hg hmem
      · have hfilter : (f::filters).filter decided=filters.filter decided :=
          List.filter_cons_of_neg (by simpa [decided] using hdecided)
        rw [if_neg hdecided,hfilter,ih,List.forall_mem_cons]
        simp only [hinvalid,true_and]

/-- Choice filters pass exactly when they are valid and on different new definitions. -/
theorem choiceReferences_ok (filters : List ChoiceFilter) : ∀ {ids : List I64},
    (∃ ids', choiceReferences filters ids=.ok ids') ↔
      (∀ f ∈ filters, 0<f.definitionId.val ∧ f.valueIds≠[] ∧ ∀ v ∈ f.valueIds, 0<v.val) ∧
      (filters.map (·.definitionId)).Nodup ∧ ∀ f ∈ filters, f.definitionId ∉ ids := by
  induction filters with
  | nil =>
    intro ids
    simp [choiceReferences]
  | cons f filters ih =>
    intro ids
    unfold choiceReferences
    by_cases hinvalid : f.definitionId.val≤0 ∨ f.valueIds=[] ∨
        (f.valueIds.any fun v => v.val≤0) ∨ f.definitionId ∈ ids
    · rw [if_pos hinvalid]
      constructor
      · rintro ⟨ids',h⟩
        cases h
      · rintro ⟨hall,-,hnew⟩
        obtain ⟨hpositive,hvalues,hall⟩ := hall f List.mem_cons_self
        rcases hinvalid with hzero | hempty | hany | hseen
        · omega
        · exact absurd hempty hvalues
        · obtain ⟨v,hv,hzero⟩ := List.any_eq_true.mp hany
          have hv := hall v hv
          simp only [decide_eq_true_eq] at hzero
          omega
        · exact absurd hseen (hnew f List.mem_cons_self)
    · rw [if_neg hinvalid,ih]
      simp only [not_or,not_le,List.any_eq_true,decide_eq_true_eq,not_exists,not_and]
        at hinvalid
      rw [List.forall_mem_cons,List.forall_mem_cons,List.map_cons,List.nodup_cons]
      constructor
      · rintro ⟨hall,hnodup,hnew⟩
        refine ⟨⟨⟨hinvalid.1,hinvalid.2.1,hinvalid.2.2.1⟩,hall⟩,⟨?_,hnodup⟩,
          ⟨hinvalid.2.2.2,?_⟩⟩
        · intro hmem
          obtain ⟨g,hg,hsame⟩ := List.mem_map.mp hmem
          exact hnew g hg (by simp [hsame])
        · exact fun g hg hmem => hnew g hg (List.mem_cons_of_mem _ hmem)
      · rintro ⟨⟨-,hall⟩,⟨hown,hnodup⟩,⟨-,hnew⟩⟩
        refine ⟨hall,hnodup,?_⟩
        intro g hg hmem
        rcases List.mem_cons.mp hmem with hsame | hmem
        · exact hown (List.mem_map.mpr ⟨g,hg,hsame⟩)
        · exact hnew g hg hmem

theorem own_references_ok {own : Membership} {current : Bool} :
    (retiredFields own current=true ∧ ∃ ids ids',
      booleanReferences own.booleanFilters []=.ok ids ∧
        choiceReferences own.choiceFilters ids=.ok ids') ↔ WellFormed own current := by
  constructor
  · rintro ⟨hretired,ids,ids',hb,hc⟩
    obtain ⟨hbooleans,hnodup,-,rfl⟩ := (booleanReferences_ok _).mp hb
    obtain ⟨hchoices,hnodup',hnew⟩ := (choiceReferences_ok _).mp ⟨ids',hc⟩
    refine ⟨hretired,hbooleans,hchoices,List.nodup_append.mpr ⟨hnodup,hnodup',?_⟩⟩
    intro id hid id' hid' hsame
    obtain ⟨f,hf,rfl⟩ := List.mem_map.mp hid'
    apply hnew f hf
    rw [List.append_nil,List.mem_reverse,← hsame]
    exact hid
  · rintro ⟨hretired,hbooleans,hchoices,hdistinct⟩
    obtain ⟨hnodup,hnodup',hnew⟩ := List.nodup_append.mp hdistinct
    have hb := (@booleanReferences_ok own.booleanFilters [] _).mpr
      ⟨hbooleans,hnodup,fun f _ => List.not_mem_nil,rfl⟩
    have hfresh : ∀ f ∈ own.choiceFilters, f.definitionId ∉
        ((own.booleanFilters.filter decided).map (·.definitionId)).reverse++[] := by
      intro f hf hmem
      rw [List.append_nil,List.mem_reverse] at hmem
      exact hnew _ hmem _ (List.mem_map_of_mem hf) rfl
    obtain ⟨ids',hc⟩ := (choiceReferences_ok own.choiceFilters).mpr
      ⟨hchoices,hnodup',hfresh⟩
    exact ⟨hretired,_,ids',hb,hc⟩

mutual

/-- The references of a query pass exactly when the budget covers its nodes and the fields
of each are valid. -/
theorem validateReferences_ok : ∀ (q : Query) (remaining left : ℕ) (current : Bool),
    validateReferences q remaining current=.ok left ↔
      remaining=nodes q+left ∧ ∀ own ∈ members q, WellFormed own current
  | .node own anyOf,remaining,left,current => by
    have hbranches := validateBranches_ok anyOf
    rw [validateReferences,nodes,members,List.forall_mem_cons,← own_references_ok]
    constructor
    · intro h
      obtain ⟨r,hr,h⟩ := exceptBind_ok.mp h
      have hr := budget_ok.mp hr
      cases hretired : retiredFields own current with
      | false =>
        rw [if_pos hretired] at h
        cases h
      | true =>
        rw [if_neg (by simp [hretired])] at h
        obtain ⟨ids,hb,h⟩ := exceptBind_ok.mp h
        obtain ⟨ids',hc,h⟩ := exceptBind_ok.mp h
        obtain ⟨hcount,hall⟩ := (hbranches _ _ _).mp h
        exact ⟨by omega,⟨rfl,ids,ids',hb,hc⟩,hall⟩
    · rintro ⟨hcount,⟨hretired,ids,ids',hb,hc⟩,hall⟩
      have hr : budget remaining=.ok (nodesOf anyOf+left) := budget_ok.mpr (by omega)
      rw [bind_of_ok hr,if_neg (by simp [hretired]),bind_of_ok hb,bind_of_ok hc]
      exact (hbranches _ _ _).mpr ⟨rfl,hall⟩

/-- The references of the branches pass exactly when the budget covers their nodes and the
fields of each are valid. -/
theorem validateBranches_ok : ∀ (branches : List Query) (remaining left : ℕ) (current : Bool),
    validateBranches branches remaining current=.ok left ↔
      remaining=nodesOf branches+left ∧ ∀ own ∈ membersOf branches, WellFormed own current
  | [],remaining,left,current => by
    simp [validateBranches,nodesOf,membersOf]
  | branch::branches,remaining,left,current => by
    have hfirst := validateReferences_ok branch
    have hrest := validateBranches_ok branches
    rw [validateBranches,nodesOf,membersOf,List.forall_mem_append]
    constructor
    · intro h
      obtain ⟨r,hr,h⟩ := exceptBind_ok.mp h
      obtain ⟨hcount,hall⟩ := (hfirst _ _ _).mp hr
      obtain ⟨hcount',hall'⟩ := (hrest _ _ _).mp h
      exact ⟨by omega,hall,hall'⟩
    · rintro ⟨hcount,hall,hall'⟩
      have hr : validateReferences branch remaining current=.ok (nodesOf branches+left) :=
        (hfirst _ _ _).mpr ⟨by omega,hall⟩
      rw [bind_of_ok hr]
      exact (hrest _ _ _).mpr ⟨rfl,hall'⟩

end

theorem decodePayload_ok {env : CodecEnv} {version : I64} {bytes : List UInt8} :
    (∃ q, decodePayload env version bytes=.ok q) ↔ StructurallyValid env version bytes := by
  unfold decodePayload
  constructor
  · rintro ⟨q,h⟩
    by_cases hversion : ¬(1≤version.val ∧ version.val≤5)
    · rw [if_pos hversion] at h
      cases h
    rw [if_neg hversion] at h
    by_cases hlength : ¬(2≤bytes.length ∧ bytes.length ≤ maxBytes)
    · rw [if_pos hlength] at h
      cases h
    rw [if_neg hlength] at h
    obtain ⟨wire,hparse,h⟩ := exceptBind_ok.mp h
    cases wire with
    | object fields =>
      obtain ⟨q',hread,h⟩ := exceptBind_ok.mp h
      obtain ⟨left,hvalid,h⟩ := exceptBind_ok.mp h
      obtain ⟨hcount,hall⟩ := (validateReferences_ok _ _ _ _).mp hvalid
      exact ⟨not_not.mp hversion,not_not.mp hlength,fields,q',hparse,hread,by omega,hall⟩
    | _ => cases h
  · rintro ⟨hversion,hlength,fields,q,hparse,hread,hcount,hall⟩
    have hvalid : validateReferences q maxNodes (version.val=5)=.ok (maxNodes-nodes q) :=
      (validateReferences_ok _ _ _ _).mpr ⟨by omega,hall⟩
    refine ⟨q,?_⟩
    rw [if_neg (not_not.mpr hversion),if_neg (not_not.mpr hlength),bind_of_ok hparse]
    dsimp only
    rw [bind_of_ok hread,bind_of_ok hvalid]

mutual

theorem collect_eq (version legacyId : I64) : ∀ (q : Query) (refs : References),
    collect version legacyId q refs=
      ⟨refs.booleanFilters++(booleans (members q)).filter (fun f =>
        f.state≠"ignored" && !(version.val<4 && 0<legacyId.val && f.definitionId=legacyId)),
      refs.choiceFilters++choices (members q)⟩
  | .node own anyOf,refs => by
    have hbranches := collectBranches_eq version legacyId anyOf
    rw [collect,hbranches]
    simp only [members,booleans,choices,List.flatMap_cons,List.filter_append,List.append_assoc]

theorem collectBranches_eq (version legacyId : I64) :
    ∀ (branches : List Query) (refs : References), collectBranches version legacyId branches refs=
      ⟨refs.booleanFilters++(booleans (membersOf branches)).filter (fun f =>
        f.state≠"ignored" && !(version.val<4 && 0<legacyId.val && f.definitionId=legacyId)),
      refs.choiceFilters++choices (membersOf branches)⟩
  | [],refs => by
    simp [collectBranches,membersOf,booleans,choices]
  | branch::branches,refs => by
    have hfirst := collect_eq version legacyId branch
    have hrest := collectBranches_eq version legacyId branches
    rw [collectBranches,hrest,hfirst]
    simp only [membersOf,booleans,choices,List.flatMap_append,List.filter_append,
      List.append_assoc]

end

theorem booleans_retire (version legacyId : I64) (q : Query) :
    booleans (members (retire version legacyId q))=(booleans (members q)).filter fun f =>
      !(version.val<4 && 0<legacyId.val && f.definitionId=legacyId) := by
  have hown : ∀ own : Membership, (retireOwn version legacyId own).booleanFilters=
      own.booleanFilters.filter fun f =>
        !(version.val<4 && 0<legacyId.val && f.definitionId=legacyId) := by
    intro own
    unfold retireOwn
    by_cases hold : version.val<4 ∧ 0<legacyId.val
    · have h5 : version.val<5 := by omega
      rw [if_pos hold,if_pos h5]
      simp [hold.1,hold.2]
    · have hnone : (own.booleanFilters.filter fun f =>
          !(version.val<4 && 0<legacyId.val && f.definitionId=legacyId))=
            own.booleanFilters := by
        rw [List.filter_eq_self]
        grind
      rw [if_neg hold,hnone]
      dsimp only
      split <;> rfl
  rw [members_retire,booleans,List.flatMap_map]
  simp only [hown,booleans,List.filter_flatMap]

/-- Retirement keeps the choice filters of every node. -/
theorem choices_retire (version legacyId : I64) (q : Query) :
    choices (members (retire version legacyId q))=choices (members q) := by
  have hown : ∀ own : Membership,
      (retireOwn version legacyId own).choiceFilters=own.choiceFilters := by
    intro own
    unfold retireOwn
    split <;> split <;> rfl
  rw [members_retire,choices,List.flatMap_map]
  simp only [hown,choices]

/-- A pass keeps the filters of nodes: the deciding Boolean ones, and each choice up to the
order and repetition of its values. -/
structure KeepsReferences (before after : List Membership) : Prop where
  booleans : (booleans after).Perm ((booleans before).filter decided)
  choices : ((choices after).map reference).Perm ((choices before).map reference)

theorem KeepsReferences.trans {a b c : List Membership} (h : KeepsReferences a b)
    (h' : KeepsReferences b c) : KeepsReferences a c := by
  refine ⟨h'.booleans.trans ?_,h'.choices.trans h.choices⟩
  have hfiltered := h.booleans.filter decided
  have hsame : ((QueryReferences.booleans a).filter decided).filter decided=
      (QueryReferences.booleans a).filter decided := by
    simp only [List.filter_filter,Bool.and_self]
  rwa [hsame] at hfiltered

/-- Passes on parts are one on the whole. -/
theorem KeepsReferences.append {a a' b b' : List Membership} (h : KeepsReferences a a')
    (h' : KeepsReferences b b') : KeepsReferences (a++b) (a'++b') := by
  constructor
  · simp only [QueryReferences.booleans,List.flatMap_append,List.filter_append]
    exact h.booleans.append h'.booleans
  · simp only [QueryReferences.choices,List.flatMap_append,List.map_append]
    exact h.choices.append h'.choices

variable {env : NormalEnv}

theorem reference_normalizeChoice {f g : ChoiceFilter} (h : normalizeChoice f=.ok g) :
    reference g=reference f := by
  obtain ⟨-,rfl⟩ := normalizeChoice_ok.mp h
  have hvalues : (retainFirst [] f.valueIds).toFinset=f.valueIds.toFinset := by
    ext v
    rw [List.mem_toFinset,List.mem_toFinset]
    exact (mem_retainFirst [] f.valueIds v).trans (and_iff_left List.not_mem_nil)
  simp only [reference,normalChoice,hvalues]

theorem normalizeChoices_references {filters filters' : List ChoiceFilter}
    (h : filters.mapM normalizeChoice=.ok filters') :
    filters'.map reference=filters.map reference := by
  have hpairs := mapM_pairs h
  clear h
  induction hpairs with
  | nil => rfl
  | cons hhead _ ih => rw [List.map_cons,List.map_cons,reference_normalizeChoice hhead,ih]

theorem normalizeOwn_references {own own' : Membership} (h : normalizeOwn env own=.ok own') :
    own'.booleanFilters=own.booleanFilters ∧
      own'.choiceFilters.map reference=own.choiceFilters.map reference := by
  obtain ⟨name,-,h⟩ := exceptBind_ok.mp h
  obtain ⟨-,h⟩ := checked_ok.mp h
  obtain ⟨languages,-,h⟩ := exceptBind_ok.mp h
  obtain ⟨-,h⟩ := checked_ok.mp h
  obtain ⟨filters,hfilters,h⟩ := exceptBind_ok.mp h
  obtain rfl := Except.ok.inj h
  exact ⟨rfl,normalizeChoices_references hfilters⟩

theorem sortFilters_references (own : Membership) :
    (sortFilters own).booleanFilters.Perm own.booleanFilters ∧
      ((sortFilters own).choiceFilters.map reference).Perm
        (own.choiceFilters.map reference) := by
  have hreference : ∀ f : ChoiceFilter,
      reference { f with valueIds := f.valueIds.insertionSort (·≤·) }=reference f := by
    intro f
    have hvalues : (f.valueIds.insertionSort (·≤·)).toFinset=f.valueIds.toFinset := by
      ext v
      rw [List.mem_toFinset,List.mem_toFinset,List.mem_insertionSort]
    simp only [reference,hvalues]
  refine ⟨List.perm_insertionSort _ _,?_⟩
  have hsame : (sortFilters own).choiceFilters.map reference=
      (own.choiceFilters.insertionSort fun f g => f.definitionId≤g.definitionId).map
        reference := by
    rw [sortFilters,List.map_map]
    exact List.map_congr_left fun f _ => hreference f
  rw [hsame]
  exact (List.perm_insertionSort _ _).map reference

theorem memberPasses_references {d : ℕ} {own : Membership} : ∀ {own' : Membership},
    memberPasses env d own=.ok own' → KeepsReferences [own] [own'] := by
  induction d with
  | zero =>
    intro own' h
    obtain ⟨o,ho,rfl⟩ := exceptMap_ok.mp h
    obtain ⟨hbooleans,hchoices⟩ := normalizeOwn_references ho
    obtain ⟨hsort,hsort'⟩ := sortFilters_references o
    rw [hbooleans] at hsort
    rw [hchoices] at hsort'
    constructor
    · change (_++[]).Perm ((_++[]).filter decided)
      rw [List.append_nil,List.append_nil]
      exact hsort
    · change ((_++[]).map reference).Perm ((_++[]).map reference)
      rw [List.append_nil,List.append_nil]
      exact hsort'
  | succ d ih =>
    intro own' h
    obtain ⟨middle,hm,h⟩ := exceptBind_ok.mp h
    obtain ⟨hbooleans,hchoices⟩ := normalizeOwn_references h
    obtain ⟨hfirst,hsecond⟩ := ih hm
    constructor
    · simpa [booleans,hbooleans] using hfirst
    · simpa [choices,hchoices] using hsecond

theorem savedPasses_references {d : ℕ} : ∀ {own own' : Membership},
    savedPasses env d own=.ok own' → KeepsReferences [own] [own'] := by
  induction d with
  | zero => exact memberPasses_references
  | succ d ih =>
    intro own own' h
    obtain ⟨middle,hm,h⟩ := exceptBind_ok.mp h
    exact (memberPasses_references hm).trans (ih h)

mutual

theorem eachNode_references : ∀ (q : Query) {f : ℕ → Membership → Except CodecError Membership}
    {q' : Query}, (∀ d own own', f d own=.ok own' → KeepsReferences [own] [own']) →
      eachNode f q=.ok q' → KeepsReferences (members q) (members q')
  | .node own anyOf,f,q',hf,h => by
    obtain ⟨own',anyOf',ho,hb,rfl⟩ := eachNode_ok.mp h
    exact (hf 0 own own' ho).append (eachBranch_references anyOf (fun d => hf (d+1)) hb)

theorem eachBranch_references : ∀ (branches : List Query)
    {f : ℕ → Membership → Except CodecError Membership} {branches' : List Query},
    (∀ d own own', f d own=.ok own' → KeepsReferences [own] [own']) →
      eachBranch f branches=.ok branches' →
      KeepsReferences (membersOf branches) (membersOf branches')
  | [],f,branches',_,h => by
    rw [eachBranch_nil.mp h]
    exact ⟨.refl _,.refl _⟩
  | branch::branches,f,branches',hf,h => by
    obtain ⟨b,bs,hb,hbs,rfl⟩ := eachBranch_cons.mp h
    exact (eachNode_references branch hf hb).append (eachBranch_references branches hf hbs)

end

theorem canonicalSaved_references (q : Query) {q' : Query} (h : canonicalSaved env q=.ok q') :
    KeepsReferences (members q) (members q') :=
  eachNode_references q (fun _ _ _ => savedPasses_references) (canonicalSaved_nodewise q |>.mp h).2

theorem decodeReferences_of_decode {env : CodecEnv} {version legacyId : I64}
    {bytes : List UInt8} {q : Query} (h : decode env version bytes legacyId=.ok q) :
    ∃ refs, decodeReferences env version bytes legacyId=.ok refs ∧
      refs.booleanFilters.Perm (booleans (members q)) ∧
      (refs.choiceFilters.map reference).Perm ((choices (members q)).map reference) ∧
      ∀ f ∈ refs.booleanFilters, decided f=true := by
  obtain ⟨raw,hraw,hcanonical⟩ := exceptBind_ok.mp h
  obtain ⟨hbooleans,hchoices⟩ := canonicalSaved_references _ hcanonical
  refine ⟨collect version legacyId raw {},bind_of_ok hraw,?_,?_,?_⟩
  · rw [collect_eq]
    refine List.Perm.symm (hbooleans.trans ?_)
    rw [booleans_retire,List.filter_filter,List.nil_append]
    exact .refl _
  · rw [collect_eq,List.nil_append]
    rw [choices_retire] at hchoices
    exact hchoices.symm
  · intro f hf
    rw [collect_eq,List.nil_append] at hf
    have hkept := (List.mem_filter.mp hf).2
    rw [Bool.and_eq_true] at hkept
    exact hkept.1

/-- Reference inspection of what decodes collects the filters of the decoded query: the
Boolean ones as they are, and the choices up to the order and repetition of their values.
It fails on every payload that is not structurally valid. -/
theorem decodeReferences_agrees (env : CodecEnv) (version : I64) (bytes : List UInt8)
    (legacyId : I64) :
    (∀ q, decode env version bytes legacyId=.ok q →
      ∃ refs, decodeReferences env version bytes legacyId=.ok refs ∧
        refs.booleanFilters.Perm (booleans (members q)) ∧
        (refs.choiceFilters.map reference).Perm ((choices (members q)).map reference)) ∧
    (¬StructurallyValid env version bytes →
      ∃ e, decodeReferences env version bytes legacyId=.error e) := by
  constructor
  · intro q h
    obtain ⟨refs,hrefs,hbooleans,hchoices,-⟩ := decodeReferences_of_decode h
    exact ⟨refs,hrefs,hbooleans,hchoices⟩
  · intro hinvalid
    cases hraw : decodePayload env version bytes with
    | error e => exact ⟨e,by rw [decodeReferences,hraw]; rfl⟩
    | ok raw => exact absurd (decodePayload_ok.mp ⟨raw,hraw⟩) hinvalid

end Librairii.QueryReferences
