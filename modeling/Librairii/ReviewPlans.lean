import Librairii.CheckedResults
import Librairii.SortedMaps

/-!
# Plans of a shelf review

The store evaluates what an update, a change of sources or the deletion of a collection does to
the members of shelves. A plan lists candidates. Decisions are submitted for it in groups, and the
store checks each group against the candidates of its shelf.
-/

namespace Librairii.ReviewPlans

open CheckedResults SortedMaps

/-- What is decided about a candidate. -/
inductive Action where
  | add
  | exclude
  | keep
  | removeAndExclude
  /-- Decide later. -/
  | notNow
  deriving DecidableEq

/-- Refusals of a review. -/
inductive ShelfError where
  /-- A decision is not allowed. -/
  | invalidInput
  | staleReview
  deriving DecidableEq

/-- A story of the catalog. -/
structure Story where
  /-- The stored identity. -/
  uuid : String
  title : String
  deriving DecidableEq

/-- A candidate of a review. -/
structure Candidate where
  /-- The stored identity. -/
  uuid : String
  title : String
  story : Option Story
  /-- Why it is a candidate. -/
  reason : String
  deriving DecidableEq

/-- A warning of an evaluation. -/
structure Warning where
  /-- The member that it is about, if any. -/
  uuid : Option String
  code : String
  deriving DecidableEq

/-- A member of a shelf. -/
structure Member where
  /-- The stored identity. -/
  uuid : String
  /-- Whether it stays without a source. -/
  manuallyRetained : Bool
  cachedTitle : String

/-- The rows that an evaluation reads of a shelf. -/
structure ShelfRows where
  shelfId : ℤ
  members : List Member
  /-- A story is a member once. -/
  distinct : (members.map Member.uuid).Nodup
  /-- The identities that are excluded. -/
  exclusions : List String

/-- The stories of some identities, as the catalog lists them. -/
structure Stories where
  rows : List Story
  /-- An identity has one row. -/
  distinct : (rows.map Story.uuid).Nodup

/-- What the sources of a shelf evaluate to. -/
structure SourceEvaluation where
  /-- The warning of each source. -/
  sources : List (Option String)
  matching : List String
  /-- Whether a source could not be evaluated. -/
  incomplete : Bool

def warnings (e : SourceEvaluation) : List Warning :=
  e.sources.filterMap fun warning => warning.map fun code => ⟨none,code⟩

def ShelfRows.approved (rows : ShelfRows) (uuid : String) : Bool :=
  rows.members.any fun m => m.uuid=uuid

/-- Candidates of an update. -/
structure UpdatePreview where
  shelfId : ℤ
  /-- Stories to add. -/
  additions : List Candidate
  /-- Members to remove. -/
  removals : List Candidate
  warnings : List Warning
  /-- Whether a source could not be evaluated. -/
  incomplete : Bool
  /-- Whether there is nothing to decide. -/
  upToDate : Bool

def additionOf (rows : ShelfRows) (evaluated : SourceEvaluation) (story : Story) :
    Option Candidate :=
  if rows.approved story.uuid || rows.exclusions.contains story.uuid then none
  else if evaluated.matching.contains story.uuid then
    some ⟨story.uuid,story.title,some story,"source_match"⟩
  else none

/-- The warning of a member without a story. -/
def unavailableOf (stories : Stories) (m : Member) : Option Warning :=
  match stories.rows.find? fun s => s.uuid=m.uuid with
  | none => some ⟨some m.uuid,"story_unavailable"⟩
  | some _ => none

/-- A removal, when the member has a story, is not retained and no source matches it. -/
def removalOf (evaluated : SourceEvaluation) (stories : Stories) (m : Member) :
    Option Candidate :=
  match stories.rows.find? fun s => s.uuid=m.uuid with
  | none => none
  | some story =>
    if !evaluated.incomplete && !evaluated.sources.isEmpty && !m.manuallyRetained &&
        !evaluated.matching.contains m.uuid then
      some ⟨m.uuid,story.title,some story,"no_source_matches"⟩
    else none

/-- Evaluate an update. -/
def evaluation (rows : ShelfRows) (evaluated : SourceEvaluation) (stories : Stories) :
    UpdatePreview :=
  let additions := stories.rows.filterMap (additionOf rows evaluated)
  let removals := rows.members.filterMap (removalOf evaluated stories)
  ⟨rows.shelfId,additions,removals,
    warnings evaluated++rows.members.filterMap (unavailableOf stories),evaluated.incomplete,
    !evaluated.incomplete && additions.isEmpty && removals.isEmpty⟩

/-- Candidates of a change of sources. -/
structure SourceChangePreview where
  shelfId : ℤ
  /-- Members that lose their sources. -/
  affected : List Candidate
  warnings : List Warning
  /-- Whether a source could not be evaluated. -/
  incomplete : Bool

/-- A member that loses its sources. -/
def affectedOf (coverage : SourceEvaluation) (stories : Stories) (lastSource : Bool)
    (m : Member) : Option Candidate :=
  if m.manuallyRetained || coverage.matching.contains m.uuid then none
  else
    let story := stories.rows.find? fun s => s.uuid=m.uuid
    some ⟨m.uuid,(story.map Story.title).getD m.cachedTitle,story,
      if lastSource then "last_source_detached" else "source_coverage_lost"⟩

def evaluate (rows : ShelfRows) (detached : Bool) (desired : List ℤ)
    (after coverage : SourceEvaluation) (available stories : Stories) : SourceChangePreview :=
  let preview := evaluation rows after available
  ⟨rows.shelfId,
    if detached then rows.members.filterMap (affectedOf coverage stories desired.isEmpty) else [],
    preview.warnings,preview.incomplete⟩

/-- A plan that a review shows. -/
inductive Plan where
  /-- An update of a shelf. -/
  | updates (preview : UpdatePreview)
  | sources (preview : SourceChangePreview)
  | deleteCollection (shelves : List SourceChangePreview)

/-- The plans that the store evaluates. -/
inductive Evaluated : Plan → Prop where
  /-- Of an update. -/
  | updates (rows : ShelfRows) (evaluated : SourceEvaluation) (stories : Stories) :
    Evaluated (.updates (evaluation rows evaluated stories))
  | sources (rows : ShelfRows) (detached : Bool) (desired : List ℤ)
      (after coverage : SourceEvaluation) (available stories : Stories) :
    Evaluated (.sources (evaluate rows detached desired after coverage available stories))
  /-- Of a deletion. Every shelf is evaluated once. -/
  | deleteCollection (shelves : List SourceChangePreview)
      (distinct : (shelves.map SourceChangePreview.shelfId).Nodup)
      (evaluated : ∀ shelf ∈ shelves, ∃ rows detached desired after coverage available stories,
        shelf=evaluate rows detached desired after coverage available stories) :
    Evaluated (.deleteCollection shelves)

/-- A decision about a story reference. -/
structure Decision where
  /-- The stored identity. -/
  uuid : String
  action : Action
  deriving DecidableEq

def collect {κ ν : Type} [LinearOrder κ] (allowed : κ → ν → Bool) :
    SortedMap κ ν → List (κ×ν) → Except ShelfError (SortedMap κ ν)
  | result,[] => .ok result
  | result,(key,value)::rest =>
    if !allowed key value || (result.get key).isSome then .error .invalidInput
    else collect allowed (result.insert key value) rest

def entriesOf (decisions : List Decision) : List (String×Action) :=
  decisions.map fun d => (d.uuid,d.action)

def allowedUpdate (preview : UpdatePreview) (uuid : String) (action : Action) : Bool :=
  if preview.additions.any fun c => c.uuid=uuid then
    action=.add || action=.exclude || action=.notNow
  else if preview.removals.any fun c => c.uuid=uuid then
    action=.keep || action=.removeAndExclude || action=.notNow
  else false

/-- Check the decisions about an update. -/
def actions (preview : UpdatePreview) (decisions : List Decision) :
    Except ShelfError (SortedMap String Action) :=
  collect (allowedUpdate preview) .empty (entriesOf decisions)

/-- Candidates by their identity. -/
def known (candidates : List Candidate) : SortedMap String Candidate :=
  candidates.foldl (fun map c => map.insert c.uuid c) .empty

def allowedChange (preview : SourceChangePreview) (uuid : String) (action : Action) : Bool :=
  match (known preview.affected).get uuid with
  | none => false
  | some candidate => (action=.keep || action=.removeAndExclude) &&
    !(action=.removeAndExclude && (preview.incomplete || candidate.story.isNone))

/-- Check the decisions about a change of sources. -/
def validate (preview : SourceChangePreview) (keepAll : Bool) (decisions : List Decision) :
    Except ShelfError (SortedMap String Action) :=
  if keepAll then
    if !decisions.isEmpty then .error .invalidInput
    else .ok (preview.affected.foldl (fun map c => map.insert c.uuid .keep) .empty)
  else
    match collect (allowedChange preview) .empty (entriesOf decisions) with
    | .error e => .error e
    | .ok result =>
      if result.size≠(known preview.affected).size then .error .invalidInput else .ok result

def checkDeletion (shelves : List SourceChangePreview) (keepAll : Bool)
    (decisions : List (ℤ×List Decision)) : Except ShelfError Unit :=
  if keepAll && !decisions.isEmpty then .error .invalidInput
  else
    match collect (fun id _ => shelves.any fun s => s.shelfId=id) .empty decisions with
    | .error e => .error e
    | .ok groups => shelves.forM fun s =>
      match validate s keepAll ((groups.get s.shelfId).getD []) with
      | .error e => .error e
      | .ok _ => .ok ()

section Collecting

variable {κ ν : Type} [LinearOrder κ] {allowed : κ → ν → Bool}

theorem collect_ok_iff (entries : List (κ×ν)) {map : SortedMap κ ν} :
    (∃ result, collect allowed map entries=.ok result) ↔
      (∀ e ∈ entries, allowed e.1 e.2=true) ∧ (entries.map Prod.fst).Nodup ∧
        ∀ e ∈ entries, map.get e.1=none := by
  induction entries generalizing map with
  | nil => simp [collect]
  | cons e rest ih =>
    obtain ⟨key,value⟩ := e
    rw [collect]
    by_cases ha : allowed key value=true
    · by_cases hk : map.get key=none
      · have hif : (!allowed key value || (map.get key).isSome)=false := by simp [ha,hk]
        rw [hif]
        simp only [Bool.false_eq_true,if_false]
        rw [ih]
        have hnew : (∀ e ∈ rest, (map.insert key value).get e.1=none) ↔
            key ∉ rest.map Prod.fst ∧ ∀ e ∈ rest, map.get e.1=none := by
          simp only [SortedMap.get_insert]
          constructor
          · intro h
            constructor
            · intro hin
              obtain ⟨e,he,hkey⟩ := List.mem_map.mp hin
              have hnone := h e he
              rw [if_pos hkey] at hnone
              cases hnone
            · intro e he
              have hnone := h e he
              split at hnone
              · cases hnone
              · exact hnone
          · rintro ⟨hout,h⟩ e he
            rw [if_neg fun hkey => hout (List.mem_map.mpr ⟨e,he,hkey⟩)]
            exact h e he
        rw [hnew]
        simp only [List.forall_mem_cons,List.map_cons,List.nodup_cons,ha,hk,true_and]
        tauto
      · have hif : (!allowed key value || (map.get key).isSome)=true := by
          cases hg : map.get key with
          | none => exact absurd hg hk
          | some v => simp
        rw [hif]
        simp [hk]
    · have hif : (!allowed key value || (map.get key).isSome)=true := by simp [ha]
      rw [hif]
      simp [ha]

theorem collect_result (entries : List (κ×ν)) {map result : SortedMap κ ν}
    (h : collect allowed map entries=.ok result) : result.size=map.size+entries.length ∧
      ∀ key value, result.get key=some value ↔
        map.get key=some value ∨ (key,value) ∈ entries := by
  induction entries generalizing map with
  | nil =>
    rw [collect] at h
    cases h
    simp
  | cons e rest ih =>
    obtain ⟨k,v⟩ := e
    rw [collect] at h
    obtain ⟨hnew,h⟩ := checked_ok.mp h
    have hnone : map.get k=none := by
      cases hg : map.get k with
      | none => rfl
      | some v => simp [hg] at hnew
    obtain ⟨hsize,hget⟩ := ih h
    rw [SortedMap.size_insert,if_pos hnone] at hsize
    refine ⟨by rw [List.length_cons]; omega,fun key value => ?_⟩
    rw [hget,SortedMap.get_insert,List.mem_cons,Prod.mk.injEq]
    by_cases hk : key=k
    · rw [if_pos hk,hk,hnone]
      simp [eq_comm]
    · rw [if_neg hk]
      simp [hk]

end Collecting

theorem known_spec (candidates : List Candidate) (h : (candidates.map Candidate.uuid).Nodup) :
    (known candidates).size=candidates.length ∧
      ∀ uuid c, (known candidates).get uuid=some c ↔ c ∈ candidates ∧ c.uuid=uuid := by
  have hfold : ∀ (map : SortedMap String Candidate),
      (∀ c ∈ candidates, map.get c.uuid=none) →
      (candidates.foldl (fun map c => map.insert c.uuid c) map).size=map.size+candidates.length ∧
      ∀ uuid c, (candidates.foldl (fun map c => map.insert c.uuid c) map).get uuid=some c ↔
        map.get uuid=some c ∨ c ∈ candidates ∧ c.uuid=uuid := by
    induction candidates with
    | nil => simp
    | cons first rest ih =>
      intro map hnew
      rw [List.map_cons,List.nodup_cons] at h
      have hrest : ∀ c ∈ rest, (map.insert first.uuid first).get c.uuid=none := by
        intro c hc
        have hne : c.uuid≠first.uuid := fun he => h.1 (List.mem_map.mpr ⟨c,hc,he⟩)
        rw [SortedMap.get_insert,if_neg hne]
        exact hnew c (List.mem_cons_of_mem first hc)
      obtain ⟨hsize,hget⟩ := ih h.2 _ hrest
      have hfirst := hnew first List.mem_cons_self
      rw [SortedMap.size_insert,if_pos hfirst] at hsize
      refine ⟨by rw [List.foldl_cons,List.length_cons]; omega,fun uuid c => ?_⟩
      rw [List.foldl_cons,hget,SortedMap.get_insert,List.mem_cons]
      by_cases hu : uuid=first.uuid
      · subst hu
        rw [if_pos rfl,hfirst]
        constructor
        · rintro (he | he)
          · cases he
            exact Or.inr ⟨Or.inl rfl,rfl⟩
          · exact Or.inr ⟨Or.inr he.1,he.2⟩
        · rintro (he | ⟨he | he,hu⟩)
          · cases he
          · exact Or.inl (he ▸ rfl)
          · exact Or.inr ⟨he,hu⟩
      · rw [if_neg hu]
        constructor
        · rintro (he | he)
          · exact Or.inl he
          · exact Or.inr ⟨Or.inr he.1,he.2⟩
        · rintro (he | ⟨he | he,hc⟩)
          · exact Or.inl he
          · exact absurd (he ▸ hc.symm) hu
          · exact Or.inr ⟨he,hc⟩
  have hempty := hfold .empty fun c _ => SortedMap.get_empty c.uuid
  refine ⟨hempty.1.trans (Nat.zero_add _),fun uuid c => ?_⟩
  have hget := hempty.2 uuid c
  rw [SortedMap.get_empty] at hget
  simpa [known] using hget

/-- Selecting members keeps their order. -/
theorem filterMap_sublist {select : Member → Option Candidate}
    (hselect : ∀ m c, select m=some c → c.uuid=m.uuid) (members : List Member) :
    ((members.filterMap select).map Candidate.uuid).Sublist (members.map Member.uuid) := by
  induction members with
  | nil => exact List.Sublist.slnil
  | cons m members ih =>
    rw [List.filterMap_cons,List.map_cons]
    cases hs : select m with
    | none => exact ih.cons _
    | some c =>
      simp only [List.map_cons]
      rw [hselect m c hs]
      exact ih.cons_cons _

theorem affectedOf_uuid {coverage : SourceEvaluation} {stories : Stories} {last : Bool} (m : Member)
    (c : Candidate) (h : affectedOf coverage stories last m=some c) : c.uuid=m.uuid := by
  rw [affectedOf] at h
  split at h
  · cases h
  · cases h
    rfl

theorem evaluate_distinct (rows : ShelfRows) (detached : Bool) (desired : List ℤ)
    (after coverage : SourceEvaluation) (available stories : Stories) :
    ((evaluate rows detached desired after coverage available stories).affected.map
      Candidate.uuid).Nodup := by
  unfold evaluate
  cases detached with
  | false => exact List.nodup_nil
  | true => exact rows.distinct.sublist (filterMap_sublist affectedOf_uuid rows.members)

theorem evaluation_disjoint (rows : ShelfRows) (evaluated : SourceEvaluation)
    (stories : Stories) : ∀ a ∈ (evaluation rows evaluated stories).additions,
      ∀ r ∈ (evaluation rows evaluated stories).removals, a.uuid≠r.uuid := by
  intro a ha r hr he
  obtain ⟨story,_,hstory⟩ := List.mem_filterMap.mp ha
  obtain ⟨m,hm,hremoval⟩ := List.mem_filterMap.mp hr
  have hmember : r.uuid=m.uuid := by
    rw [removalOf] at hremoval
    split at hremoval
    · cases hremoval
    · split at hremoval
      · cases hremoval
        rfl
      · cases hremoval
  have happroved : rows.approved a.uuid=true := by
    rw [ShelfRows.approved,List.any_eq_true]
    exact ⟨m,hm,decide_eq_true (hmember.symm.trans he.symm)⟩
  rw [additionOf] at hstory
  split at hstory
  · cases hstory
  · rename_i hout
    split at hstory
    · cases hstory
      simp only [Bool.or_eq_true,not_or] at hout
      exact hout.1 happroved
    · cases hstory

/-- A decision about a change keeps a candidate, or removes one that is available when the
evaluation is complete. -/
theorem allowedChange_iff {preview : SourceChangePreview}
    (h : (preview.affected.map Candidate.uuid).Nodup) {uuid : String} {action : Action} :
    allowedChange preview uuid action=true ↔ ∃ c ∈ preview.affected, c.uuid=uuid ∧
      (action=.keep ∨ action=.removeAndExclude ∧ preview.incomplete=false ∧
        c.story.isSome=true) := by
  have hget := (known_spec preview.affected h).2 uuid
  rw [allowedChange]
  cases hk : (known preview.affected).get uuid with
  | none =>
    constructor
    · intro hf
      cases hf
    · rintro ⟨c,hc,hu,_⟩
      rw [(hget c).mpr ⟨hc,hu⟩] at hk
      cases hk
  | some candidate =>
    have hc := (hget candidate).mp hk
    have honly : ∀ c ∈ preview.affected, c.uuid=uuid → c=candidate := by
      intro c hin hu
      have hsome := (hget c).mpr ⟨hin,hu⟩
      rw [hk] at hsome
      exact (Option.some.inj hsome).symm
    have hstory : candidate.story.isNone=!candidate.story.isSome := by
      cases candidate.story <;> rfl
    constructor
    · intro ha
      refine ⟨candidate,hc.1,hc.2,?_⟩
      cases action <;> simp_all
    · rintro ⟨c,hin,hu,ha⟩
      rw [honly c hin hu] at ha
      cases action <;> simp_all

/-- Decisions about a change pass exactly when each is allowed and every candidate has one. -/
theorem validate_ok_iff {preview : SourceChangePreview}
    (h : (preview.affected.map Candidate.uuid).Nodup) (decisions : List Decision) :
    (∃ result, validate preview false decisions=.ok result) ↔
      (∀ d ∈ decisions, allowedChange preview d.uuid d.action=true) ∧
        (decisions.map Decision.uuid).Nodup ∧ decisions.length=preview.affected.length := by
  have hmap : (entriesOf decisions).map Prod.fst=decisions.map Decision.uuid := by
    rw [entriesOf,List.map_map]
    rfl
  have hall : (∀ e ∈ entriesOf decisions, allowedChange preview e.1 e.2=true) ↔
      ∀ d ∈ decisions, allowedChange preview d.uuid d.action=true := by
    simp [entriesOf]
  have hcollect : (∃ result, collect (allowedChange preview) .empty (entriesOf decisions)=
      .ok result) ↔ _ := collect_ok_iff (entriesOf decisions)
  rw [hall,hmap] at hcollect
  rw [validate]
  simp only [Bool.false_eq_true,if_false]
  cases hc : collect (allowedChange preview) .empty (entriesOf decisions) with
  | error e =>
    rw [hc] at hcollect
    constructor
    · rintro ⟨_,hk⟩
      cases hk
    · rintro ⟨ha,hn,_⟩
      obtain ⟨_,hk⟩ := hcollect.mpr ⟨ha,hn,fun e _ => SortedMap.get_empty e.1⟩
      cases hk
  | ok result =>
    have hok := hcollect.mp ⟨result,hc⟩
    have hsize := (collect_result _ hc).1
    have hlen : (entriesOf decisions).length=decisions.length := List.length_map _
    have hempty : (SortedMap.empty : SortedMap String Action).size=0 := rfl
    rw [hlen,hempty,Nat.zero_add] at hsize
    simp only
    rw [(known_spec preview.affected h).1,hsize]
    by_cases he : decisions.length=preview.affected.length
    · rw [if_neg (not_not.mpr he)]
      exact ⟨fun _ => ⟨hok.1,hok.2.1,he⟩,fun _ => ⟨result,rfl⟩⟩
    · rw [if_pos he]
      constructor
      · rintro ⟨_,hk⟩
        cases hk
      · rintro ⟨_,_,hk⟩
        exact absurd hk he

/-- Groups about a deletion pass exactly when they are about different shelves of it and the
group of each shelf passes, an absent one as no decisions. -/
theorem checkDeletion_ok_iff (shelves : List SourceChangePreview) (groups : List (ℤ×List Decision))
    {group : ℤ → Option (List Decision)} (hgroup : ∀ id ds, group id=some ds ↔ (id,ds) ∈ groups) :
    checkDeletion shelves false groups=.ok () ↔
      (∀ g ∈ groups, ∃ s ∈ shelves, s.shelfId=g.1) ∧ (groups.map Prod.fst).Nodup ∧
        ∀ s ∈ shelves, ∃ result, validate s false ((group s.shelfId).getD [])=.ok result := by
  have hcollect : (∃ result, collect (fun id (_ : List Decision) =>
      shelves.any fun s => s.shelfId=id) .empty groups=.ok result) ↔ _ := collect_ok_iff groups
  rw [checkDeletion]
  simp only [Bool.false_and,Bool.false_eq_true,if_false]
  cases hc : collect (fun id (_ : List Decision) => shelves.any fun s => s.shelfId=id) .empty
      groups with
  | error e =>
    rw [hc] at hcollect
    constructor
    · intro hk
      cases hk
    · rintro ⟨ha,hn,_⟩
      have hallowed : ∀ e ∈ groups, (shelves.any fun s => s.shelfId=e.1)=true := by
        intro e he
        simpa using ha e he
      obtain ⟨_,hk⟩ := hcollect.mpr ⟨hallowed,hn,fun e _ => SortedMap.get_empty e.1⟩
      cases hk
  | ok result =>
    obtain ⟨hallowed,hn,_⟩ := hcollect.mp ⟨result,hc⟩
    have hresult : ∀ id, result.get id=group id := by
      intro id
      apply Option.ext
      intro ds
      rw [(collect_result _ hc).2 id ds,hgroup,SortedMap.get_empty]
      simp
    simp only
    rw [forM_ok]
    constructor
    · intro h
      refine ⟨fun g hg => by simpa using hallowed g hg,hn,fun s hs => ?_⟩
      have hcheck := h s hs
      rw [hresult] at hcheck
      cases hv : validate s false ((group s.shelfId).getD []) with
      | error e => simp [hv] at hcheck
      | ok actions => exact ⟨actions,rfl⟩
    · rintro ⟨_,_,h⟩ s hs
      obtain ⟨actions,hv⟩ := h s hs
      rw [hresult,hv]

end Librairii.ReviewPlans
