import Librairii.CollectionRows
import Librairii.SavedQueryRoundTrip
import Librairii.StorageTransactions

/-!
# Deletion of tags

A deletion is planned in one snapshot and executed in a later transaction, which plans it
again and refuses when anything it shows has changed. It marks every Collection that
refers to the target and deletes the target with what depends on it. What stays marked as
valid referred to something else, so it still opens.
-/

namespace Librairii.TagDeletion

open CheckedResults FrozenText StorageTransactions RowTables TagRows SavedQuery CanonicalQuery
  NormalizationPasses SavedQueryCodec SavedQueryRoundTrip QueryReferences CollectionRows JsonText
open WireParser hiding members

/-- What a deletion removes. -/
inductive DeleteTarget where
  | definition (id : ℤ)
  | value (id : ℤ)
  deriving DecidableEq

/-- A Collection as a plan remembers it. -/
structure Reference where
  id : ℤ
  version : I64
  payload : List UInt8
  validity : Validity
  revision : ℤ
  deriving DecidableEq

/-- What a confirmation shows, with the Collections it refers to. -/
structure DeletionPlan where
  target : DeleteTarget
  definition : Definition
  value : Option Value
  valueCount : ℕ
  assignmentCount : ℕ
  affectedCollectionIds : List ℤ
  references : List Reference
  deriving DecidableEq

/-- The references name the target. -/
def refersTo (q : References) : DeleteTarget → Bool
  | .definition id =>
    q.booleanFilters.any (fun f => f.definitionId.val=id && f.state≠"ignored") ||
      q.choiceFilters.any fun f => f.definitionId.val=id
  | .value id => q.choiceFilters.any fun f => f.valueIds.any fun v => v.val=id

def Collection.reference (c : Collection) : Reference :=
  ⟨c.id,c.queryVersion,c.queryPayload,c.validity,c.revision⟩

/-- The Collections that refer to the target, among the given ones. -/
def referencesIn (env : CodecEnv) (legacyId : I64) (target : DeleteTarget) :
    List Collection → Except StorageError (List Reference)
  | [] => .ok []
  | c::rows =>
    match decodeReferences env c.queryVersion c.queryPayload legacyId with
    | .ok q => do
      let out ← referencesIn env legacyId target rows
      return if refersTo q target then Collection.reference c::out else out
    | .error .frozenData => .error .compatibilityInvariant
    | .error _ => if c.validity=.needsAttention then referencesIn env legacyId target rows
      else .error (.tag .savedQueryInvalid)

/-- The Collections that refer to the target, by id. -/
def references (env : CodecEnv) (t : CollectionTables) (target : DeleteTarget) :
    Except StorageError (List Reference) :=
  referencesIn env t.legacyId target (t.collections.insertionSort fun a b => a.id≤b.id)

def user (d : Definition) : Except StorageError Unit :=
  if d.source≠.user || d.protected_ then .error (.tag .protectedDefinition) else .ok ()

/-- A definition has values and belongs to the user. -/
def choice (d : Definition) : Except StorageError Unit :=
  if d.kind≠.choice then .error (.tag .valuesNotAllowed) else user d

def value (t : TagTables) (id : ℤ) : Except StorageError Value :=
  match lookup (·.id) id t.values with
  | some v => .ok v
  | none => .error (.tag .valueNotFound)

def planDeletion (env : CodecEnv) (t : CollectionTables) :
    DeleteTarget → Except StorageError DeletionPlan
  | .definition id => do
    let d ← definition t.tags id
    user d
    let values := t.tags.values.countP fun v => v.definitionId=id
    let assignments := t.assignments.countP fun a => a.definitionId=id
    let references ← references env t (.definition id)
    return ⟨.definition id,d,none,values,assignments,references.map (·.id),references⟩
  | .value id => do
    let v ← value t.tags id
    let d ← definition t.tags v.definitionId
    choice d
    let assignments := t.assignments.countP fun a => a.valueId=some id
    let references ← references env t (.value id)
    return ⟨.value id,d,some v,1,assignments,references.map (·.id),references⟩

/-- Mark a valid Collection; the trigger counts the revision. -/
def markAttention (id : ℤ) (rows : List Collection) : List Collection :=
  update (fun c => c.id=id && c.validity=.valid)
    (fun c => { c with validity := .needsAttention, revision := c.revision+1 }) rows

def cascade (t : CollectionTables) : DeleteTarget → CollectionTables
  | .definition id => { t with
    tags := ⟨t.tags.definitions.filter fun d => d.id≠id,
      t.tags.values.filter fun v => v.definitionId≠id⟩
    assignments := t.assignments.filter fun a => a.definitionId≠id }
  | .value id => { t with
    tags := ⟨t.tags.definitions,t.tags.values.filter fun v => v.id≠id⟩
    assignments := t.assignments.filter fun a =>
      !t.tags.values.any fun v => v.id=id && a.valueId=some v.id && a.definitionId=v.definitionId }

/-- Execute a plan that is still current. -/
def delete (env : CodecEnv) (plan : DeletionPlan) : Work CollectionTables StorageError Unit :=
  fun t => do
    let current ← planDeletion env t plan.target
    if current≠plan then .error (.tag .deletePlanStale)
    else
      let collections := plan.affectedCollectionIds.foldl (fun rows id => markAttention id rows)
        t.collections
      .ok ((),cascade { t with collections := collections } plan.target)

/-- Marked Collections are stored ones with the same query, and those still valid are the
unlisted ones. -/
theorem mem_markAll (ids : List ℤ) : ∀ {rows : List Collection} {c : Collection},
    c ∈ ids.foldl (fun rows id => markAttention id rows) rows → c.validity=.valid →
      c ∈ rows ∧ c.id ∉ ids := by
  induction ids with
  | nil => exact fun hc _ => ⟨hc,List.not_mem_nil⟩
  | cons id ids ih =>
    intro rows c hc hvalid
    obtain ⟨hmem,hrest⟩ := ih hc hvalid
    obtain ⟨hmem,hunmarked⟩ | ⟨old,-,-,rfl⟩ := mem_update.mp hmem
    · refine ⟨hmem,?_⟩
      rw [List.mem_cons,not_or]
      refine ⟨?_,hrest⟩
      intro hid
      simp [hid,hvalid] at hunmarked
    · cases hvalid

/-- A Collection that a scan leaves out decodes its references and they do not name the
target. -/
theorem referencesIn_ok {env : CodecEnv} {legacyId : I64} {target : DeleteTarget}
    (rows : List Collection) : ∀ {out : List Reference},
    referencesIn env legacyId target rows=.ok out → ∀ c ∈ rows, ∀ q,
      decodeReferences env c.queryVersion c.queryPayload legacyId=.ok q →
        refersTo q target=true → c.id ∈ out.map (·.id) := by
  induction rows with
  | nil => exact fun _ c hc => absurd hc List.not_mem_nil
  | cons c rows ih =>
    intro out h c' hc' q hq hrefers
    rw [referencesIn] at h
    rcases List.mem_cons.mp hc' with rfl | hc'
    · rw [hq] at h
      obtain ⟨rest,-,h⟩ := exceptBind_ok.mp h
      rw [if_pos hrefers] at h
      rw [← Except.ok.inj h]
      exact List.mem_cons_self
    · split at h
      · obtain ⟨rest,hrest,h⟩ := exceptBind_ok.mp h
        have hmem := ih hrest c' hc' q hq hrefers
        rw [← Except.ok.inj h]
        split
        · exact List.mem_cons_of_mem _ hmem
        · exact hmem
      · cases h
      · split at h
        · exact ih h c' hc' q hq hrefers
        · cases h

theorem planDeletion_ok {env : CodecEnv} {t : CollectionTables} {target : DeleteTarget}
    {plan : DeletionPlan} (h : planDeletion env t target=.ok plan) :
    ∀ c ∈ t.collections, ∀ q,
      decodeReferences env c.queryVersion c.queryPayload t.legacyId=.ok q →
        refersTo q target=true → c.id ∈ plan.affectedCollectionIds := by
  intro c hc q hq hrefers
  have hsorted : c ∈ t.collections.insertionSort fun a b => a.id≤b.id :=
    (List.mem_insertionSort _).mpr hc
  cases target with
  | definition id =>
    obtain ⟨d,-,h⟩ := exceptBind_ok.mp h
    obtain ⟨u,-,h⟩ := exceptBind_ok.mp h
    obtain ⟨found,hfound,h⟩ := exceptBind_ok.mp h
    rw [← Except.ok.inj h]
    exact referencesIn_ok _ hfound c hsorted q hq hrefers
  | value id =>
    obtain ⟨v,-,h⟩ := exceptBind_ok.mp h
    obtain ⟨d,-,h⟩ := exceptBind_ok.mp h
    obtain ⟨u,-,h⟩ := exceptBind_ok.mp h
    obtain ⟨found,hfound,h⟩ := exceptBind_ok.mp h
    rw [← Except.ok.inj h]
    exact referencesIn_ok _ hfound c hsorted q hq hrefers

/-- The filters of a query name neither the definition nor a chosen value. -/
def Avoids (q : Query) : DeleteTarget → Prop
  | .definition id => (∀ f ∈ booleans (members q), f.definitionId.val≠id) ∧
      ∀ f ∈ choices (members q), f.definitionId.val≠id
  | .value id => ∀ f ∈ choices (members q), ∀ v ∈ f.valueIds, v.val≠id

theorem avoids_of_references {q : Query} {refs : References} {target : DeleteTarget}
    (hb : refs.booleanFilters.Perm (booleans (members q)))
    (hall : ∀ f ∈ refs.booleanFilters, decided f=true)
    (hc : (refs.choiceFilters.map QueryReferences.reference).Perm
      ((choices (members q)).map QueryReferences.reference))
    (hnone : refersTo refs target=false) : Avoids q target := by
  have hchoice : ∀ f ∈ choices (members q), ∃ g ∈ refs.choiceFilters,
      g.definitionId=f.definitionId ∧ ∀ v ∈ f.valueIds, v ∈ g.valueIds := by
    intro f hf
    have hmem := hc.mem_iff.mpr (List.mem_map_of_mem (f:=QueryReferences.reference) hf)
    obtain ⟨g,hg,hsame⟩ := List.mem_map.mp hmem
    obtain ⟨hdefinition,hvalues⟩ := Prod.mk.inj hsame
    refine ⟨g,hg,hdefinition,?_⟩
    intro v hv
    rw [← List.mem_toFinset,hvalues,List.mem_toFinset]
    exact hv
  cases target with
  | definition id =>
    simp only [refersTo,Bool.or_eq_false_iff,List.any_eq_false,Bool.and_eq_true,
      decide_eq_true_eq,not_and] at hnone
    constructor
    · intro f hf hid
      have hmem := hb.mem_iff.mpr hf
      have hdecided := hall f hmem
      simp only [decided,decide_eq_true_eq] at hdecided
      exact hnone.1 f hmem hid hdecided
    · intro f hf hid
      obtain ⟨g,hg,hdefinition,-⟩ := hchoice f hf
      exact hnone.2 g hg (by rw [hdefinition]; exact hid)
  | value id =>
    simp only [refersTo,List.any_eq_false,List.any_eq_true,decide_eq_true_eq,not_exists,
      not_and] at hnone
    intro f hf v hv hid
    obtain ⟨g,hg,-,hvalues⟩ := hchoice f hf
    exact hnone g hg v (hvalues v hv) hid

theorem available_cascade {t : CollectionTables} {target : DeleteTarget} {q : Query}
    (h : availableCriteria t.tags q=true) (havoids : Avoids q target) :
    availableCriteria (cascade t target).tags q=true := by
  rw [availableCriteria_members] at h ⊢
  intro own hown
  have hboolean : ∀ f ∈ own.booleanFilters, f ∈ booleans (members q) :=
    fun f hf => List.mem_flatMap.mpr ⟨own,hown,hf⟩
  have hchoice : ∀ f ∈ own.choiceFilters, f ∈ choices (members q) :=
    fun f hf => List.mem_flatMap.mpr ⟨own,hown,hf⟩
  have hnode := h own hown
  simp only [ownAvailable,Bool.and_eq_true,List.all_eq_true,decide_eq_true_eq] at hnode ⊢
  cases target with
  | definition id =>
    have hkind : ∀ {k : ℤ} {kind : Kind}, k≠id → definitionKind t.tags k kind=true →
        definitionKind (cascade t (.definition id)).tags k kind=true := by
      intro k kind hne hk
      simp only [definitionKind,decide_eq_true_eq,Option.map_eq_some_iff] at hk ⊢
      obtain ⟨d,hd,hdk⟩ := hk
      have hid := (lookup_mem hd).2
      exact ⟨d,lookup_filter hd (by simp [hid,hne]),hdk⟩
    have howner : ∀ {v k : ℤ}, k≠id → valueOwner t.tags v=some k →
        valueOwner (cascade t (.definition id)).tags v=some k := by
      intro v k hne hv
      simp only [valueOwner,Option.map_eq_some_iff] at hv ⊢
      obtain ⟨row,hrow,hown⟩ := hv
      exact ⟨row,lookup_filter hrow (by simp [hown,hne]),hown⟩
    refine ⟨fun f hf => hkind (havoids.1 f (hboolean f hf)) (hnode.1 f hf),?_⟩
    intro f hf
    have hne := havoids.2 f (hchoice f hf)
    obtain ⟨hk,hvalues⟩ := hnode.2 f hf
    exact ⟨hkind hne hk,fun v hv => howner hne (hvalues v hv)⟩
  | value id =>
    refine ⟨hnode.1,?_⟩
    intro f hf
    obtain ⟨hk,hvalues⟩ := hnode.2 f hf
    refine ⟨hk,?_⟩
    intro v hv
    have hvalue := hvalues v hv
    simp only [valueOwner,Option.map_eq_some_iff] at hvalue ⊢
    obtain ⟨row,hrow,hown⟩ := hvalue
    have hid := (lookup_mem hrow).2
    have hne := havoids f (hchoice f hf) v hv
    exact ⟨row,lookup_filter hrow (by simp [hid,hne]),hown⟩

/-- The target is stored. -/
def Present (t : TagTables) : DeleteTarget → Prop
  | .definition id => ∃ d ∈ t.definitions, d.id=id
  | .value id => ∃ v ∈ t.values, v.id=id

/-- The target is gone with its assignments, and the rest of the tags is kept. -/
def Removed (t t' : CollectionTables) : DeleteTarget → Prop
  | .definition id =>
    (∀ d, d ∈ t'.tags.definitions ↔ d ∈ t.tags.definitions ∧ d.id≠id) ∧
    (∀ v, v ∈ t'.tags.values ↔ v ∈ t.tags.values ∧ v.definitionId≠id) ∧
    ∀ a, a ∈ t'.assignments ↔ a ∈ t.assignments ∧ a.definitionId≠id
  | .value id =>
    t'.tags.definitions=t.tags.definitions ∧
    (∀ v, v ∈ t'.tags.values ↔ v ∈ t.tags.values ∧ v.id≠id) ∧
    ∀ a, a ∈ t'.assignments ↔ a ∈ t.assignments ∧
      ¬∃ v ∈ t.tags.values, v.id=id ∧ a.valueId=some id ∧ a.definitionId=v.definitionId

/-- What a deletion leaves: the target is gone, and every Collection that is marked valid was
so before with the same query, opens, and refers to what exists. -/
structure Deleted (env : CodecEnv) (t t' : CollectionTables) (target : DeleteTarget) :
    Prop where
  present : Present t.tags target
  removed : Removed t t' target
  valid : ∀ c ∈ t'.collections, c.validity=.valid → c ∈ t.collections
  opens : ValidOpen env t'
  refers : ∀ c ∈ t'.collections, c.validity=.valid → ∀ q,
    decode env c.queryVersion c.queryPayload t'.legacyId=.ok q → RefersToExisting t'.tags q

theorem removed_cascade (t : CollectionTables) (target : DeleteTarget) :
    Removed t (cascade t target) target := by
  cases target with
  | definition id =>
    refine ⟨?_,?_,?_⟩
    · simp [cascade]
    · simp [cascade]
    · simp [cascade]
  | value id =>
    refine ⟨rfl,?_,?_⟩
    · simp [cascade]
    · intro a
      simp only [cascade,List.mem_filter,Bool.not_eq_true',List.any_eq_false,Bool.and_eq_true,
        decide_eq_true_eq,not_and,not_exists]
      constructor
      · rintro ⟨ha,hnone⟩
        refine ⟨ha,?_⟩
        intro v hv hid hvalue
        exact hnone v hv ⟨hid,by rw [hid]; exact hvalue⟩
      · rintro ⟨ha,hnone⟩
        refine ⟨ha,?_⟩
        intro v hv hsame
        exact hnone v hv hsame.1 (by rw [hsame.2,hsame.1])

theorem planDeletion_target {env : CodecEnv} {t : CollectionTables} {target : DeleteTarget}
    {plan : DeletionPlan} (h : planDeletion env t target=.ok plan) :
    plan.target=target ∧ Present t.tags target := by
  cases target with
  | definition id =>
    obtain ⟨d,hd,h⟩ := exceptBind_ok.mp h
    obtain ⟨u,-,h⟩ := exceptBind_ok.mp h
    obtain ⟨found,-,h⟩ := exceptBind_ok.mp h
    rw [← Except.ok.inj h]
    refine ⟨rfl,?_⟩
    unfold TagRows.definition at hd
    split at hd
    · rename_i d' hfind
      obtain ⟨hm,hid⟩ := lookup_mem hfind
      exact ⟨d',hm,hid⟩
    · cases hd
  | value id =>
    obtain ⟨v,hv,h⟩ := exceptBind_ok.mp h
    obtain ⟨d,-,h⟩ := exceptBind_ok.mp h
    obtain ⟨u,-,h⟩ := exceptBind_ok.mp h
    obtain ⟨found,-,h⟩ := exceptBind_ok.mp h
    rw [← Except.ok.inj h]
    refine ⟨rfl,?_⟩
    unfold value at hv
    split at hv
    · rename_i v' hfind
      obtain ⟨hm,hid⟩ := lookup_mem hfind
      exact ⟨v',hm,hid⟩
    · cases hv

theorem delete_ok {env : CodecEnv} {plan : DeletionPlan} {t t' : CollectionTables}
    (ht : ValidOpen env t) (h : delete env plan t=.ok ((),t')) : Deleted env t t' plan.target := by
  obtain ⟨current,hcurrent,h⟩ := exceptBind_ok.mp h
  by_cases hstale : current≠plan
  · rw [if_pos hstale] at h
    cases h
  rw [if_neg hstale] at h
  rw [not_not.mp hstale] at hcurrent
  obtain ⟨-,rfl⟩ := Prod.mk.inj (Except.ok.inj h)
  have htags : ∀ collections, (cascade { t with collections := collections } plan.target).tags=
      (cascade t plan.target).tags := by
    intro collections
    cases plan.target with
    | definition id => rfl
    | value id => rfl
  have hrows : ∀ collections,
      (cascade { t with collections := collections } plan.target).collections=collections ∧
      (cascade { t with collections := collections } plan.target).legacyId=t.legacyId ∧
      (cascade { t with collections := collections } plan.target).assignments=
        (cascade t plan.target).assignments := by
    intro collections
    cases plan.target with
    | definition id => exact ⟨rfl,rfl,rfl⟩
    | value id => exact ⟨rfl,rfl,rfl⟩
  have hremoved := removed_cascade t plan.target
  have hvalid := fun c => @mem_markAll plan.affectedCollectionIds t.collections c
  generalize plan.affectedCollectionIds.foldl (fun rows id => markAttention id rows)
    t.collections=collections at hvalid ⊢
  obtain ⟨hcollections,hlegacy,hassignments⟩ := hrows collections
  have hopens : ValidOpen env (cascade { t with collections := collections } plan.target) := by
    intro c hc hmarked
    rw [hcollections] at hc
    obtain ⟨hmem,hunlisted⟩ := hvalid c hc hmarked
    obtain ⟨q,hq,havailable⟩ := ht c hmem hmarked
    obtain ⟨refs,hrefs,hb,hchoices,hall⟩ := decodeReferences_of_decode hq
    have hnone : refersTo refs plan.target=false := by
      rw [Bool.eq_false_iff]
      intro hrefers
      exact hunlisted (planDeletion_ok hcurrent c hmem refs hrefs hrefers)
    refine ⟨q,by rw [hlegacy]; exact hq,?_⟩
    rw [htags]
    exact available_cascade havailable (avoids_of_references hb hall hchoices hnone)
  refine ⟨(planDeletion_target hcurrent).2,?_,?_,hopens,?_⟩
  · cases htarget : plan.target with
    | definition id =>
      rw [htarget] at hremoved
      exact hremoved
    | value id =>
      rw [htarget] at hremoved
      exact hremoved
  · intro c hc hmarked
    rw [hcollections] at hc
    exact (hvalid c hc hmarked).1
  · intro c hc hmarked q hq
    obtain ⟨q',hq',havailable⟩ := hopens c hc hmarked
    rw [hq] at hq'
    rw [Except.ok.inj hq']
    exact refersToExisting_of_available havailable

/-- The query of the stories that have a tag. -/
def tagged (id : I64) : Query := .node { booleanFilters := [⟨id,"true"⟩] } []

def userTag (id position : ℤ) (key : String) : Definition :=
  ⟨id,key,key,key,"#FF705C",.boolean,.user,.default,position,false⟩

def taggedCollection (id : ℤ) (tag : I64) : Collection :=
  ⟨id,[0x61],[0x61],id,currentVersion,
    bytes (payloadEscapes (write serdeEscape (queryJson (tagged tag)))),.valid,1⟩

def twoTags : CollectionTables :=
  ⟨[taggedCollection 1 one,taggedCollection 2 two],none,
    ⟨[userTag 1 0 "a",userTag 2 1 "b"],[]⟩,[]⟩

theorem canonical_tagged (tag : I64) (htag : tag=one ∨ tag=two) :
    canonical (tagged tag)=tagged tag := by
  have hown : canonicalOwn { booleanFilters := [⟨tag,"true"⟩] }=
      { booleanFilters := [⟨tag,"true"⟩] } := by
    unfold canonicalOwn canonicalChoice
    simp only [←dedup_sort]
    rcases htag with rfl | rfl <;> decide
  rw [tagged,canonical,canonicalBranches,hown]

/-- Every text of the query is already normalized. -/
theorem fixed_tagged (tag : I64) : ∀ own ∈ members (tagged tag), Fixed plainEnv.toNormalEnv own :=
  fun _ _ => ⟨rfl,fun _ _ => rfl⟩

theorem canonicalSaved_tagged (tag : I64) (htag : tag=one ∨ tag=two) :
    canonicalSaved plainEnv.toNormalEnv (tagged tag)=.ok (tagged tag) := by
  have hwithin : ∀ own ∈ members (tagged tag), Within (dropIgnored own) := by
    intro own hown
    rw [tagged,members,membersOf,List.mem_singleton] at hown
    rw [hown]
    rcases htag with rfl | rfl
    · exact ⟨by decide,by decide,by decide,by decide,by decide,by decide⟩
    · exact ⟨by decide,by decide,by decide,by decide,by decide,by decide⟩
  have hnodes : nodes (tagged tag) ≤ maxNodes := by rcases htag with rfl | rfl <;> decide
  have hcanonical := canonical_tagged tag htag
  exact (canonicalSaved_ok (tagged tag) (fixed_tagged tag) _).mpr ⟨hnodes,hwithin,hcanonical.symm⟩

theorem validateReferences_tagged (tag : I64) (htag : tag=one ∨ tag=two) :
    validateReferences (tagged tag) maxNodes true=.ok 49 := by
  rcases htag with rfl | rfl <;> rfl

def taggedText (tag : I64) : String :=
  String.ofList (payloadEscapes (write serdeEscape (queryJson (tagged tag))))

theorem queryPayload_tagged (id : ℤ) (tag : I64) :
    (taggedCollection id tag).queryPayload=bytes (taggedText tag).toList := by
  rw [taggedText,String.toList_ofList]
  rfl

set_option maxRecDepth 20000 in
/-- The query is serialized to its text. -/
theorem payload_tagged (tag : I64) (htag : tag=one ∨ tag=two) :
    payload plainEnv (tagged tag)=.ok (taggedText tag) := by
  have htext : plainEnv.serialize (queryJson (tagged tag))=
      some (String.ofList (write serdeEscape (queryJson (tagged tag)))) := rfl
  have hshort : ¬maxBytes<(bytes (payloadEscapes (write serdeEscape
      (queryJson (tagged tag))))).length := by
    rcases htag with rfl | rfl <;> decide +kernel
  rw [payload,htext,taggedText]
  dsimp only
  rw [String.toList_ofList,String.toList_ofList,if_neg hshort]

theorem decode_tagged (tag : I64) (htag : tag=one ∨ tag=two) (legacyId : I64) :
    decode plainEnv currentVersion (taggedCollection 1 tag).queryPayload legacyId=
      .ok (tagged tag) := by
  have hnodes : nodes (tagged tag) ≤ maxNodes := by
    rcases htag with rfl | rfl <;> decide
  have hread := decodePayload_payload documented_plainEnv (payload_tagged tag htag) hnodes
    (validateReferences_tagged tag htag)
  unfold decode
  rw [queryPayload_tagged 1,bind_of_ok hread,retire_current]
  exact canonicalSaved_tagged tag htag

end Librairii.TagDeletion
