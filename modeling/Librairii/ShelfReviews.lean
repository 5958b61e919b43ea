import Librairii.ReviewPlans

/-!
# Decisions of a shelf review

A review shows one section of one shelf of a plan, a page at a time, and keeps the decisions about
every shelf. The decisions that are recorded are those the store allows, and applying is offered
exactly when the store accepts the groups that are submitted.
-/

namespace Librairii.ShelfReviews

open CheckedResults SortedMaps ReviewPlans

/-- The sections of a review. -/
inductive Section where
  /-- Stories to add. -/
  | additions
  /-- Members to remove. -/
  | removals
  | warnings
  deriving DecidableEq

/-- What a review holds. -/
structure Review where
  ticket : ℕ
  plan : Plan
  decisions : SortedMap ℤ (SortedMap String Action)
  shelf : ℕ
  shown : Section
  page : ℕ

def Review.start (ticket : ℕ) (plan : Plan) (shown : Section) : Review :=
  ⟨ticket,plan,.empty,0,shown,0⟩

def rowsOf {α : Type} (values : List α) (page : ℕ) : List α :=
  (values.drop (min (page*25) values.length)).take 25

def pagesOf (count : ℕ) : ℕ := (count+24)/25

def decisionAction (choice : ℤ) (removal : Bool) : Except ShelfError Action :=
  if choice=0 then .ok .notNow
  else if choice=1 then .ok (if removal then .keep else .add)
  else if choice=2 then .ok (if removal then .removeAndExclude else .exclude)
  else .error .invalidInput

/-- The change of sources that is shown. -/
def Review.source (r : Review) : Option SourceChangePreview :=
  match r.plan with
  | .sources p => some p
  | .deleteCollection shelves => shelves[r.shelf]?
  | .updates _ => none

def Review.shelfId (r : Review) : Option ℤ :=
  match r.plan with
  | .updates p => some p.shelfId
  | _ => r.source.map SourceChangePreview.shelfId

def Review.candidates (r : Review) : List Candidate :=
  match r.plan,r.shown with
  | .updates p,.additions => rowsOf p.additions r.page
  | .updates p,.removals => rowsOf p.removals r.page
  | _,.removals =>
    match r.source with
    | some p => rowsOf p.affected r.page
    | none => []
  | _,_ => []

/-- The numbers of additions, removals and warnings. -/
def Review.totals (r : Review) : ℕ×ℕ×ℕ :=
  match r.plan with
  | .updates p => (p.additions.length,p.removals.length,p.warnings.length)
  | _ =>
    match r.source with
    | some p => (0,p.affected.length,p.warnings.length)
    | none => (0,0,0)

/-- The number of rows in the section that is shown. -/
def Review.count (r : Review) : ℕ :=
  match r.shown with
  | .additions => r.totals.1
  | .removals => r.totals.2.1
  | .warnings => r.totals.2.2

def Review.incomplete (r : Review) : Bool :=
  match r.plan with
  | .updates p => p.incomplete
  | _ =>
    match r.source with
    | some p => p.incomplete
    | none => false

/-- Record or withdraw a decision. -/
def Review.choose (r : Review) (uuid : String) (choice : ℤ) (available : Bool) :
    Except ShelfError Review :=
  let removal := r.shown=.removals
  match decisionAction choice removal with
  | .error e => .error e
  | .ok action =>
    if removal && action=.removeAndExclude && (r.incomplete || !available) then
      .error .invalidInput
    else
      match r.shelfId with
      | none => .error .invalidInput
      | some id =>
        let decisions := (r.decisions.get id).getD .empty
        let decisions := if action=.notNow then decisions.erase uuid
          else decisions.insert uuid action
        .ok {r with decisions := r.decisions.insert id decisions}

/-- What the review is asked to do. -/
inductive Request where
  | page (ticket : ℕ) (shown : Section) (page shelf : ℕ)
  /-- Decide about a candidate on the page. -/
  | choose (ticket : ℕ) (uuid : String) (choice : ℤ)
  /-- Decide about every candidate of the section. -/
  | bulk (ticket : ℕ) (choice : ℤ)
  | keepAll (ticket : ℕ)
  deriving DecidableEq

def Request.ticket : Request → ℕ
  | .page ticket _ _ _ => ticket
  | .choose ticket _ _ => ticket
  | .bulk ticket _ => ticket
  | .keepAll ticket => ticket

/-- Decide about candidates one after the other, up to a refusal. -/
def Review.chooseAll (r : Review) (choice : ℤ) :
    List (String×Bool) → Review×Except ShelfError Unit
  | [] => (r,.ok ())
  | (uuid,available)::rest =>
    match r.choose uuid choice available with
    | .error e => (r,.error e)
    | .ok r => r.chooseAll choice rest

/-- The candidates of every page of the section, and whether each is available. -/
def Review.targets (r : Review) : List (String×Bool) :=
  (List.range (pagesOf r.count)).flatMap fun page =>
    ({r with page := page} : Review).candidates.map fun c => (c.uuid,c.story.isSome)

section References

variable (parses : String → Bool)

/-- Accept a stored identity as a story reference. -/
def fromStored (stored : String) : Except ShelfError String :=
  if stored.utf8ByteSize≠36 then .error .invalidInput
  else if parses stored then .ok stored else .error .invalidInput

/-- One decision for every candidate of a change. -/
def bulkDecisions (p : SourceChangePreview) (action : Action) :
    Except ShelfError (List Decision) :=
  if !(action=.keep || action=.removeAndExclude) ||
      (action=.removeAndExclude && (p.incomplete || p.affected.any fun c => c.story.isNone)) then
    .error .invalidInput
  else p.affected.mapM fun c => (fromStored parses c.uuid).map fun uuid => ⟨uuid,action⟩

def keepGroups : Plan → Except ShelfError (List (ℤ×List Decision))
  | .sources p => (bulkDecisions parses p .keep).map fun ds => [(p.shelfId,ds)]
  | .deleteCollection shelves =>
    shelves.mapM fun p => (bulkDecisions parses p .keep).map fun ds => (p.shelfId,ds)
  | .updates _ => .error .invalidInput

def decisionsOf (ds : List Decision) : SortedMap String Action :=
  ds.foldl (fun map d => map.insert d.uuid d.action) .empty

def groupsOf (groups : List (ℤ×List Decision)) : SortedMap ℤ (SortedMap String Action) :=
  groups.foldl (fun map g => map.insert g.1 (decisionsOf g.2)) .empty

/-- Do what is asked. The review is returned as it is left behind, also by a refusal. -/
def Review.apply (r : Review) (request : Request) : Review×Except ShelfError Unit :=
  if r.ticket≠request.ticket then (r,.error .staleReview)
  else
    match request with
    | .page _ shown page shelf =>
      let shelf := match r.plan with
        | .deleteCollection shelves => min shelf (shelves.length-1)
        | _ => 0
      let r := {r with shelf := shelf,shown := shown}
      ({r with page := min page (max (pagesOf r.count) 1-1)},.ok ())
    | .choose _ uuid choice =>
      match r.candidates.find? fun c => c.uuid=uuid with
      | none => (r,.error .staleReview)
      | some c =>
        match r.choose c.uuid choice c.story.isSome with
        | .error e => (r,.error e)
        | .ok r => (r,.ok ())
    | .bulk _ choice =>
      if r.shown=.warnings then (r,.error .invalidInput)
      else
        match decisionAction choice (r.shown=.removals) with
        | .error e => (r,.error e)
        | .ok _ =>
          let targets := r.targets
          if choice=2 && r.shown=.removals && (r.incomplete || targets.any fun t => !t.2) then
            (r,.error .invalidInput)
          else r.chooseAll choice targets
    | .keepAll _ =>
      match keepGroups parses r.plan with
      | .error e => (r,.error e)
      | .ok groups =>
        ({r with decisions := groupsOf groups},.ok ())

/-- Do what is asked, one request after the other. -/
def Review.run (r : Review) (requests : List Request) : Review :=
  requests.foldl (fun r request => (r.apply parses request).1) r

/-- The decisions about a shelf, as they are submitted. -/
def choices (decisions : SortedMap String Action) : Except ShelfError (List Decision) :=
  decisions.entries.mapM fun d => (fromStored parses d.1).map fun uuid => ⟨uuid,d.2⟩

/-- The decisions about one shelf of the review, as they are submitted. -/
def Review.choicesOf (r : Review) (id : ℤ) : Except ShelfError (List Decision) :=
  match r.decisions.get id with
  | some decisions => choices parses decisions
  | none => .ok []

/-- What the store checks of the groups that are submitted. -/
def Review.submit (r : Review) : Except ShelfError Unit :=
  match r.plan with
  | .updates p =>
    match r.choicesOf parses p.shelfId with
    | .error e => .error e
    | .ok ds => (actions p ds).map fun _ => ()
  | .sources p =>
    match r.choicesOf parses p.shelfId with
    | .error e => .error e
    | .ok ds => (validate p false ds).map fun _ => ()
  | .deleteCollection shelves =>
    match r.decisions.entries.mapM fun g => (choices parses g.2).map fun ds => (g.1,ds) with
    | .error e => .error e
    | .ok groups => checkDeletion shelves false groups

end References

/-- The decisions that are needed. -/
def Review.required (r : Review) : ℕ :=
  match r.plan with
  | .sources p => p.affected.length
  | .deleteCollection shelves => (shelves.map fun p => p.affected.length).sum
  | .updates _ => 0

/-- The number of decisions. -/
def Review.decided (r : Review) : ℕ := (r.decisions.entries.map fun g => g.2.size).sum

/-- Whether applying is offered. -/
def Review.canApply (r : Review) : Bool := r.required=0 || r.decided=r.required

def Review.decision (r : Review) (id : ℤ) (uuid : String) : Option Action :=
  (r.decisions.get id).bind fun decisions => decisions.get uuid

/-- All candidates of the section of the shelf that is shown. -/
def Review.listed (r : Review) : List Candidate :=
  match r.plan,r.shown with
  | .updates p,.additions => p.additions
  | .updates p,.removals => p.removals
  | _,.removals =>
    match r.source with
    | some p => p.affected
    | none => []
  | _,_ => []

theorem pages_rows {α : Type} (values : List α) :
    (List.range (pagesOf values.length)).flatMap (rowsOf values)=values := by
  have htake : ∀ n, (List.range n).flatMap (rowsOf values)=values.take (n*25) := by
    intro n
    induction n with
    | zero => simp
    | succ n ih =>
      have hdrop : values.drop (min (n*25) values.length)=values.drop (n*25) := by
        by_cases h : n*25≤values.length
        · rw [Nat.min_eq_left h]
        · rw [Nat.min_eq_right (by omega),List.drop_length,List.drop_of_length_le (by omega)]
      rw [List.range_succ,List.flatMap_append,ih,List.flatMap_singleton,rowsOf,hdrop,
        Nat.succ_mul,List.take_add]
  rw [htake,List.take_of_length_le]
  rw [pagesOf]
  omega

theorem candidates_eq (r : Review) : r.candidates=rowsOf r.listed r.page := by
  have hnil : rowsOf ([] : List Candidate) r.page=[] := by simp [rowsOf]
  unfold Review.candidates Review.listed
  cases r.plan with
  | updates p => cases r.shown <;> simp [hnil]
  | sources p => cases r.shown <;> cases r.source <;> simp [hnil]
  | deleteCollection shelves => cases r.shown <;> cases r.source <;> simp [hnil]

/-- The rows of a section are its candidates. -/
theorem count_eq {r : Review} (h : r.shown≠.warnings) : r.count=r.listed.length := by
  unfold Review.count Review.totals Review.listed
  cases hs : r.shown with
  | warnings => exact absurd hs h
  | additions =>
    cases r.plan with
    | updates p => rfl
    | sources p => cases r.source <;> rfl
    | deleteCollection shelves => cases r.source <;> rfl
  | removals =>
    cases r.plan with
    | updates p => rfl
    | sources p => cases r.source <;> rfl
    | deleteCollection shelves => cases r.source <;> rfl

theorem targets_eq {r : Review} (h : r.shown≠.warnings) :
    r.targets=r.listed.map fun c => (c.uuid,c.story.isSome) := by
  have hpage : ∀ page, ({r with page := page} : Review).candidates=rowsOf r.listed page :=
    fun page => candidates_eq _
  unfold Review.targets
  simp only [hpage,count_eq h]
  rw [←List.map_flatMap,pages_rows]

theorem shelfId_of_listed {r : Review} {c : Candidate} (h : c ∈ r.listed) :
    ∃ id, r.shelfId=some id := by
  unfold Review.listed at h
  unfold Review.shelfId
  cases hp : r.plan with
  | updates p => exact ⟨p.shelfId,rfl⟩
  | sources p =>
    have hsource : r.source=some p := by simp [Review.source,hp]
    exact ⟨p.shelfId,by simp [hsource]⟩
  | deleteCollection shelves =>
    cases hsource : r.source with
    | some p => exact ⟨p.shelfId,rfl⟩
    | none =>
      rw [hp,hsource] at h
      cases hs : r.shown <;> simp [hs] at h

def Review.Shows (r r' : Review) : Prop := r'={r with decisions := r'.decisions}

theorem Review.Shows.same {r r' : Review} (h : r.Shows r') : r'.plan=r.plan ∧
    r'.ticket=r.ticket ∧ r'.shown=r.shown ∧ r'.listed=r.listed ∧ r'.shelfId=r.shelfId ∧
      r'.incomplete=r.incomplete := by
  rw [Review.Shows] at h
  rw [h]
  exact ⟨rfl,rfl,rfl,rfl,rfl,rfl⟩

theorem Review.Shows.trans {a b c : Review} (hab : a.Shows b) (hbc : b.Shows c) : a.Shows c := by
  rw [Review.Shows] at hab hbc ⊢
  rw [hbc,hab]

/-- Whether a choice removes what may not be removed. -/
def Review.forbids (r : Review) (action : Action) (available : Bool) : Bool :=
  r.shown=.removals && action=.removeAndExclude && (r.incomplete || !available)

/-- A choice that is not refused records its action about one story. -/
structure Chosen (r : Review) (uuid : String) (action : Action) (id : ℤ) (r' : Review) : Prop where
  shelf : r.shelfId=some id
  /-- Nothing else is changed. -/
  shows : r.Shows r'
  decision : ∀ other story, r'.decision other story=
    if other=id ∧ story=uuid then (if action=.notNow then none else some action)
    else r.decision other story
  groups : ∀ other, r'.decisions.get other≠none → other=id ∨ r.decisions.get other≠none

theorem choose_ok {r : Review} (uuid : String) {choice : ℤ} {available : Bool} {action : Action}
    {id : ℤ} (haction : decisionAction choice (r.shown=.removals)=.ok action)
    (hid : r.shelfId=some id) (hforbids : r.forbids action available=false) :
    ∃ r', r.choose uuid choice available=.ok r' ∧ Chosen r uuid action id r' := by
  rw [Review.forbids] at hforbids
  rw [Review.choose,haction]
  simp only [hforbids,Bool.false_eq_true,if_false,hid]
  refine ⟨_,rfl,hid,rfl,fun other story => ?_,fun other hother => ?_⟩
  · simp only [Review.decision,SortedMap.get_insert]
    by_cases ho : other=id
    · subst ho
      rw [if_pos rfl]
      cases hg : r.decisions.get other with
      | none =>
        by_cases ha : action=.notNow
        · by_cases hs : story=uuid
          · simp [ha,hs]
          · simp [ha,hs]
        · simp [ha]
      | some decisions =>
        by_cases ha : action=.notNow
        · by_cases hs : story=uuid
          · simp [ha,hs]
          · simp [ha,hs]
        · simp [ha]
    · simp [ho]
  · simp only [SortedMap.get_insert] at hother
    by_cases ho : other=id
    · exact Or.inl ho
    · rw [if_neg ho] at hother
      exact Or.inr hother

theorem choose_inv {r r' : Review} {uuid : String} {choice : ℤ} {available : Bool}
    (h : r.choose uuid choice available=.ok r') : ∃ action id,
      decisionAction choice (r.shown=.removals)=.ok action ∧ r.shelfId=some id ∧
        r.forbids action available=false ∧ Chosen r uuid action id r' := by
  have hchoose := h
  rw [Review.choose] at h
  cases haction : decisionAction choice (r.shown=.removals) with
  | error e => simp [haction] at h
  | ok action =>
    simp only [haction] at h
    obtain ⟨hf,h⟩ := checked_ok.mp h
    have hforbids : r.forbids action available=false := by
      rw [Review.forbids]
      exact Bool.eq_false_iff.mpr hf
    cases hid : r.shelfId with
    | none => simp [hid] at h
    | some id =>
      obtain ⟨r'',hr,hc⟩ := choose_ok uuid haction hid hforbids
      rw [hchoose] at hr
      cases hr
      exact ⟨action,id,rfl,rfl,hforbids,hc⟩

/-- Choices about candidates of the section are all recorded, when none is forbidden. -/
theorem chooseAll_ok (targets : List (String×Bool)) {choice : ℤ} {action : Action} {id : ℤ} :
    ∀ {r : Review}, decisionAction choice (r.shown=.removals)=.ok action → r.shelfId=some id →
      (∀ t ∈ targets, r.forbids action t.2=false) →
      ∃ r', r.chooseAll choice targets=(r',.ok ()) ∧ r.Shows r' ∧
        (∀ other story, r'.decision other story=
          if other=id ∧ story ∈ targets.map Prod.fst then
            (if action=.notNow then none else some action)
          else r.decision other story) ∧
        ∀ other, r'.decisions.get other≠none → other=id ∨ r.decisions.get other≠none := by
  induction targets with
  | nil =>
    intro r _ _ _
    refine ⟨r,rfl,rfl,fun other story => ?_,fun other h => Or.inr h⟩
    rw [List.map_nil,if_neg fun h => List.not_mem_nil h.2]
  | cons t rest ih =>
    intro r haction hid hforbids
    obtain ⟨uuid,available⟩ := t
    have hfirst := hforbids _ List.mem_cons_self
    obtain ⟨r₁,hr₁,hc⟩ := choose_ok uuid haction hid hfirst
    obtain ⟨_,_,hshown,_,hshelf,hincomplete⟩ := hc.shows.same
    have haction₁ : decisionAction choice (r₁.shown=.removals)=.ok action := by
      simpa only [hshown] using haction
    have hforbids₁ : ∀ t ∈ rest, r₁.forbids action t.2=false := by
      intro t ht
      have hf := hforbids t (List.mem_cons_of_mem _ ht)
      simpa only [Review.forbids,hshown,hincomplete] using hf
    obtain ⟨r',hr',hshows,hdecision,hgroups⟩ := ih haction₁ (hshelf.trans hid) hforbids₁
    refine ⟨r',?_,hc.shows.trans hshows,fun other story => ?_,fun other h => ?_⟩
    · rw [Review.chooseAll,hr₁]
      exact hr'
    · rw [hdecision,hc.decision]
      simp only [List.map_cons,List.mem_cons]
      by_cases ho : other=id
      · by_cases hs : story=uuid
        · simp [ho,hs]
        · simp [ho,hs]
      · simp [ho]
    · cases hgroups other h with
      | inl ho => exact Or.inl ho
      | inr h => exact hc.groups other h

/-- A choice about a section is refused and changes nothing, or is recorded for all its
candidates. -/
theorem bulk_cases (parses : String → Bool) (r : Review) (ticket : ℕ) (choice : ℤ) :
    (∃ e, r.apply parses (.bulk ticket choice)=(r,.error e)) ∨
      ∃ r' action, r.apply parses (.bulk ticket choice)=(r',.ok ()) ∧
        decisionAction choice (r.shown=.removals)=.ok action ∧ r.Shows r' ∧
        (∀ c ∈ r.listed, r.forbids action c.story.isSome=false) ∧
        (∀ id uuid, r'.decision id uuid=
          if r.shelfId=some id ∧ uuid ∈ r.listed.map Candidate.uuid then
            (if action=.notNow then none else some action)
          else r.decision id uuid) ∧
        ∀ id, r'.decisions.get id≠none → r.shelfId=some id ∨ r.decisions.get id≠none := by
  rw [Review.apply]
  by_cases ht : r.ticket≠(Request.bulk ticket choice).ticket
  · rw [if_pos ht]
    exact Or.inl ⟨_,rfl⟩
  · rw [if_neg ht]
    simp only
    by_cases hw : r.shown=.warnings
    · rw [if_pos hw]
      exact Or.inl ⟨_,rfl⟩
    · rw [if_neg hw]
      cases haction : decisionAction choice (r.shown=.removals) with
      | error e => exact Or.inl ⟨e,rfl⟩
      | ok action =>
        simp only
        split
        · exact Or.inl ⟨_,rfl⟩
        · rename_i hcheck
          right
          have htwo : r.shown=.removals → action=.removeAndExclude → choice=2 := by
            intro hs ha
            rw [hs,ha] at haction
            by_contra hne
            simp only [decisionAction,hne,if_false] at haction
            split at haction
            · cases haction
            · split at haction
              · simp at haction
              · cases haction
          have hforbids : ∀ t ∈ r.targets, r.forbids action t.2=false := by
            intro t hin
            rw [Bool.eq_false_iff]
            intro hf
            simp only [Review.forbids,Bool.and_eq_true,decide_eq_true_eq] at hf
            apply hcheck
            have hbad : (r.incomplete || r.targets.any fun t => !t.2)=true := by
              cases hi : r.incomplete with
              | true => rfl
              | false =>
                rw [Bool.false_or,List.any_eq_true]
                refine ⟨t,hin,?_⟩
                simpa [hi] using hf.2
            simp [htwo hf.1.1 hf.1.2,hf.1.1,hbad]
          have hlisted : ∀ c ∈ r.listed, r.forbids action c.story.isSome=false := by
            intro c hc
            refine hforbids (c.uuid,c.story.isSome) ?_
            rw [targets_eq hw]
            exact List.mem_map.mpr ⟨c,hc,rfl⟩
          cases hl : r.listed with
          | nil =>
            have hnil : r.targets=[] := by rw [targets_eq hw,hl,List.map_nil]
            rw [hnil]
            refine ⟨r,action,rfl,rfl,rfl,by simp,fun id uuid => ?_,fun id h => Or.inr h⟩
            simp
          | cons first rest =>
            rw [hl] at hlisted
            have hfirst : first ∈ r.listed := by
              rw [hl]
              exact List.mem_cons_self
            obtain ⟨id,hid⟩ := shelfId_of_listed hfirst
            obtain ⟨r',hr',hshows,hdecision,hgroups⟩ := chooseAll_ok r.targets haction hid hforbids
            refine ⟨r',action,hr',rfl,hshows,hlisted,fun other uuid => ?_,fun other h => ?_⟩
            · have hmap : r.targets.map Prod.fst=r.listed.map Candidate.uuid := by
                rw [targets_eq hw,List.map_map]
                rfl
              rw [hdecision,hmap,hl,hid]
              simp only [Option.some.injEq,eq_comm]
            · rw [hid]
              cases hgroups other h with
              | inl ho => exact Or.inl (by rw [ho])
              | inr h => exact Or.inr h

theorem apply_refused (parses : String → Bool) (r : Review) (request : Request) {e : ShelfError}
    (h : (r.apply parses request).2=.error e) : (r.apply parses request).1=r := by
  cases request with
  | bulk ticket choice =>
    cases bulk_cases parses r ticket choice with
    | inl hr =>
      obtain ⟨e,hr⟩ := hr
      rw [hr]
    | inr hr =>
      obtain ⟨r',action,hr,_⟩ := hr
      rw [hr] at h
      cases h
  | page ticket shown page shelf =>
    rw [Review.apply] at h ⊢
    split at h
    · rename_i ht
      rw [if_pos ht]
    · cases h
  | choose ticket uuid choice =>
    rw [Review.apply] at h ⊢
    split at h
    · rename_i ht
      rw [if_pos ht]
    · rename_i ht
      rw [if_neg ht]
      split at h
      · rfl
      · split at h
        · rfl
        · cases h
  | keepAll ticket =>
    rw [Review.apply] at h ⊢
    split at h
    · rename_i ht
      rw [if_pos ht]
    · rename_i ht
      rw [if_neg ht]
      split at h
      · rfl
      · cases h

theorem page_keeps (parses : String → Bool) (r : Review) (ticket : ℕ) (shown : Section)
    (page shelf : ℕ) : (r.apply parses (.page ticket shown page shelf)).1.decisions=r.decisions ∧
      (r.apply parses (.page ticket shown page shelf)).1.plan=r.plan := by
  rw [Review.apply]
  split
  · exact ⟨rfl,rfl⟩
  · exact ⟨rfl,rfl⟩

/-- What may be decided about a member that loses its sources. -/
def KeptOrRemoved (incomplete : Bool) (c : Candidate) (action : Action) : Prop :=
  action=.keep ∨ action=.removeAndExclude ∧ incomplete=false ∧ c.story.isSome=true

/-- What a plan allows to be decided about a story on a shelf. -/
def Allowed (plan : Plan) (id : ℤ) (uuid : String) (action : Action) : Prop :=
  match plan with
  | .updates p => p.shelfId=id ∧
    ((∃ c ∈ p.additions, c.uuid=uuid ∧ (action=.add ∨ action=.exclude)) ∨
      ∃ c ∈ p.removals, c.uuid=uuid ∧ KeptOrRemoved p.incomplete c action)
  | .sources p => p.shelfId=id ∧
    ∃ c ∈ p.affected, c.uuid=uuid ∧ KeptOrRemoved p.incomplete c action
  | .deleteCollection shelves => ∃ p ∈ shelves, p.shelfId=id ∧
    ∃ c ∈ p.affected, c.uuid=uuid ∧ KeptOrRemoved p.incomplete c action

def shelfIds : Plan → List ℤ
  | .updates p => [p.shelfId]
  | .sources p => [p.shelfId]
  | .deleteCollection shelves => shelves.map SourceChangePreview.shelfId

/-- The decisions of a review are allowed, and its groups are about shelves of the plan. -/
structure Recorded (r : Review) : Prop where
  allowed : ∀ id uuid action, r.decision id uuid=some action → Allowed r.plan id uuid action
  groups : ∀ id, r.decisions.get id≠none → id ∈ shelfIds r.plan

theorem shelfId_mem {r : Review} {id : ℤ} (h : r.shelfId=some id) : id ∈ shelfIds r.plan := by
  unfold Review.shelfId at h
  cases hp : r.plan with
  | updates p => simp_all [shelfIds]
  | sources p => simp_all [shelfIds,Review.source]
  | deleteCollection shelves =>
    simp only [hp,Review.source,Option.map_eq_some_iff] at h
    obtain ⟨p,hin,hid⟩ := h
    exact List.mem_map.mpr ⟨p,List.mem_of_getElem? hin,hid⟩

theorem decisionAction_cases {choice : ℤ} {removal : Bool} {action : Action}
    (h : decisionAction choice removal=.ok action) (hnow : action≠.notNow) :
    if removal then action=.keep ∨ action=.removeAndExclude
      else action=.add ∨ action=.exclude := by
  rw [decisionAction] at h
  split at h
  · cases h
    exact absurd rfl hnow
  · split at h
    · cases removal with
      | false =>
        cases h
        exact Or.inl rfl
      | true =>
        cases h
        exact Or.inl rfl
    · split at h
      · cases removal with
        | false =>
          cases h
          exact Or.inr rfl
        | true =>
          cases h
          exact Or.inr rfl
      · cases h

theorem listed_allowed {r : Review} {c : Candidate} {choice : ℤ} {action : Action} {id : ℤ}
    (hc : c ∈ r.listed) (haction : decisionAction choice (r.shown=.removals)=.ok action)
    (hid : r.shelfId=some id) (hforbids : r.forbids action c.story.isSome=false)
    (hnow : action≠.notNow) : Allowed r.plan id c.uuid action := by
  have hcases := decisionAction_cases haction hnow
  have hremoval : r.shown=.removals → KeptOrRemoved r.incomplete c action := by
    intro hs
    rw [hs] at hcases
    cases hcases with
    | inl hk => exact Or.inl hk
    | inr hk =>
      rw [Review.forbids,hs,hk] at hforbids
      simp only [decide_true,Bool.true_and,Bool.or_eq_false_iff,Bool.not_eq_false'] at hforbids
      exact Or.inr ⟨hk,hforbids.1,hforbids.2⟩
  have hsource : ∀ p, r.source=some p → r.shown=.removals → (∀ q, r.plan≠.updates q) →
      c ∈ p.affected → r.shelfId=some p.shelfId ∧ KeptOrRemoved p.incomplete c action := by
    intro p hp hs hplan hin
    have hkept := hremoval hs
    unfold Review.incomplete at hkept
    unfold Review.shelfId
    cases hplan' : r.plan with
    | updates q => exact absurd hplan' (hplan q)
    | sources q => exact ⟨by simp [hp],by simpa [hplan',hp] using hkept⟩
    | deleteCollection shelves => exact ⟨by simp [hp],by simpa [hplan',hp] using hkept⟩
  unfold Review.listed at hc
  cases hplan : r.plan with
  | updates p =>
    have hshelf : p.shelfId=id := by
      unfold Review.shelfId at hid
      simpa [hplan] using hid
    cases hs : r.shown with
    | additions =>
      rw [hs] at hcases
      simp only [hplan,hs] at hc
      exact ⟨hshelf,Or.inl ⟨c,hc,rfl,hcases⟩⟩
    | removals =>
      simp only [hplan,hs] at hc
      have hkept := hremoval hs
      unfold Review.incomplete at hkept
      simp only [hplan] at hkept
      exact ⟨hshelf,Or.inr ⟨c,hc,rfl,hkept⟩⟩
    | warnings => simp [hplan,hs] at hc
  | sources p =>
    cases hs : r.shown with
    | additions => simp [hplan,hs] at hc
    | warnings => simp [hplan,hs] at hc
    | removals =>
      have hp : r.source=some p := by simp [Review.source,hplan]
      simp only [hplan,hs,hp] at hc
      obtain ⟨hshelf,hkept⟩ := hsource p hp hs (by simp [hplan]) hc
      rw [hid,Option.some.injEq] at hshelf
      exact ⟨hshelf.symm,c,hc,rfl,hkept⟩
  | deleteCollection shelves =>
    cases hs : r.shown with
    | additions => simp [hplan,hs] at hc
    | warnings => simp [hplan,hs] at hc
    | removals =>
      cases hp : r.source with
      | none => simp [hplan,hs,hp] at hc
      | some p =>
        simp only [hplan,hs,hp] at hc
        obtain ⟨hshelf,hkept⟩ := hsource p hp hs (by simp [hplan]) hc
        rw [hid,Option.some.injEq] at hshelf
        have hin : p ∈ shelves := by
          simp only [Review.source,hplan] at hp
          exact List.mem_of_getElem? hp
        exact ⟨p,hin,hshelf.symm,c,hc,rfl,hkept⟩

theorem fromStored_ok {parses : String → Bool} {stored uuid : String}
    (h : fromStored parses stored=.ok uuid) : uuid=stored := by
  rw [fromStored] at h
  obtain ⟨-,h⟩ := checked_ok.mp h
  split at h
  · cases h
    rfl
  · cases h

theorem bulkDecisions_mem {parses : String → Bool} {p : SourceChangePreview} {action : Action}
    {ds : List Decision} (h : bulkDecisions parses p action=.ok ds) :
    ∀ d ∈ ds, d.action=action ∧ ∃ c ∈ p.affected, c.uuid=d.uuid := by
  rw [bulkDecisions] at h
  obtain ⟨-,h⟩ := checked_ok.mp h
  intro d hd
  obtain ⟨c,hc,hd⟩ := mapM_origin h d hd
  obtain ⟨uuid,hu,he⟩ := exceptMap_ok.mp hd
  rw [←he]
  exact ⟨rfl,c,hc,(fromStored_ok hu).symm⟩

theorem keepGroups_mem {parses : String → Bool} {plan : Plan} {groups : List (ℤ×List Decision)}
    (h : keepGroups parses plan=.ok groups) : ∀ g ∈ groups, g.1 ∈ shelfIds plan ∧
      ∀ d ∈ g.2, Allowed plan g.1 d.uuid d.action := by
  cases plan with
  | updates p => cases h
  | sources p =>
    obtain ⟨ds,hds,he⟩ := exceptMap_ok.mp h
    rw [←he]
    intro g hg
    rw [List.mem_singleton.mp hg]
    refine ⟨List.mem_singleton_self _,fun d hd => ?_⟩
    obtain ⟨hkeep,c,hc,hu⟩ := bulkDecisions_mem hds d hd
    exact ⟨rfl,c,hc,hu,Or.inl hkeep⟩
  | deleteCollection shelves =>
    intro g hg
    obtain ⟨p,hp,hgroup⟩ := mapM_origin h g hg
    obtain ⟨ds,hds,he⟩ := exceptMap_ok.mp hgroup
    rw [←he]
    refine ⟨List.mem_map.mpr ⟨p,hp,rfl⟩,fun d hd => ?_⟩
    obtain ⟨hkeep,c,hc,hu⟩ := bulkDecisions_mem hds d hd
    exact ⟨p,hp,rfl,c,hc,hu,Or.inl hkeep⟩

theorem bulk_recorded {parses : String → Bool} {r r' : Review} {ticket : ℕ} {choice : ℤ}
    (h : Recorded r) (happly : r.apply parses (.bulk ticket choice)=(r',.ok ())) :
    Recorded r' ∧ r'.plan=r.plan := by
  cases bulk_cases parses r ticket choice with
  | inl hr =>
    obtain ⟨e,hr⟩ := hr
    rw [happly] at hr
    cases hr
  | inr hr =>
    obtain ⟨r'',action,hr,haction,hshows,hforbids,hdecision,hgroups⟩ := hr
    rw [happly] at hr
    cases hr
    have hplan := hshows.same.1
    refine ⟨⟨fun id uuid other hother => ?_,fun id hgroup => ?_⟩,hplan⟩
    · rw [hplan]
      rw [hdecision] at hother
      split at hother
      · rename_i hin
        split at hother
        · cases hother
        · rename_i hnow
          cases hother
          obtain ⟨c,hc,hu⟩ := List.mem_map.mp hin.2
          rw [←hu]
          exact listed_allowed hc haction hin.1 (hforbids c hc) hnow
      · exact h.allowed id uuid other hother
    · rw [hplan]
      cases hgroups id hgroup with
      | inl hid => exact shelfId_mem hid
      | inr hgroup => exact h.groups id hgroup

theorem choose_recorded {r r' : Review} {c : Candidate} {choice : ℤ} (h : Recorded r)
    (hlisted : c ∈ r.listed) (hchoose : r.choose c.uuid choice c.story.isSome=.ok r') :
    Recorded r' ∧ r'.plan=r.plan := by
  obtain ⟨action,id,haction,hid,hforbids,hc⟩ := choose_inv hchoose
  have hplan := hc.shows.same.1
  refine ⟨⟨fun other story action' hother => ?_,fun other hgroup => ?_⟩,hplan⟩
  · rw [hplan]
    rw [hc.decision] at hother
    split at hother
    · rename_i hin
      split at hother
      · cases hother
      · rename_i hnow
        cases hother
        rw [hin.1,hin.2]
        exact listed_allowed hlisted haction hid hforbids hnow
    · exact h.allowed other story action' hother
  · rw [hplan]
    cases hc.groups other hgroup with
    | inl ho =>
      rw [ho]
      exact shelfId_mem hid
    | inr hgroup => exact h.groups other hgroup

theorem keepAll_recorded {parses : String → Bool} {r : Review} {groups : List (ℤ×List Decision)}
    (hkeep : keepGroups parses r.plan=.ok groups) :
    Recorded {r with decisions := groupsOf groups} := by
  have hgroup : ∀ id decisions, (groupsOf groups).get id=some decisions →
      ∃ g ∈ groups, g.1=id ∧ decisionsOf g.2=decisions := by
    intro id decisions hd
    cases SortedMap.get_foldl_insert groups hd with
    | inl he =>
      rw [SortedMap.get_empty] at he
      cases he
    | inr hg => exact hg
  refine ⟨fun id uuid action hdecision => ?_,fun id hsome => ?_⟩
  · obtain ⟨decisions,hd,hu⟩ := Option.bind_eq_some_iff.mp hdecision
    obtain ⟨g,hg,hid,hds⟩ := hgroup id decisions hd
    rw [←hds] at hu
    cases SortedMap.get_foldl_insert g.2 hu with
    | inl he =>
      rw [SortedMap.get_empty] at he
      cases he
    | inr hin =>
      obtain ⟨d,hd,huuid,haction⟩ := hin
      rw [←hid,←huuid,←haction]
      exact (keepGroups_mem hkeep g hg).2 d hd
  · obtain ⟨decisions,hd⟩ := Option.ne_none_iff_exists'.mp hsome
    obtain ⟨g,hg,hid,_⟩ := hgroup id decisions hd
    rw [←hid]
    exact (keepGroups_mem hkeep g hg).1

theorem apply_recorded (parses : String → Bool) {r : Review} (h : Recorded r)
    (request : Request) : Recorded (r.apply parses request).1 ∧
      (r.apply parses request).1.plan=r.plan := by
  cases hresult : (r.apply parses request).2 with
  | error e =>
    rw [apply_refused parses r request hresult]
    exact ⟨h,rfl⟩
  | ok u =>
    cases request with
    | page ticket shown page shelf =>
      obtain ⟨hd,hp⟩ := page_keeps parses r ticket shown page shelf
      refine ⟨⟨fun id uuid action hdecision => ?_,fun id hgroup => ?_⟩,hp⟩
      · rw [hp]
        rw [Review.decision,hd] at hdecision
        exact h.allowed id uuid action hdecision
      · rw [hp]
        rw [hd] at hgroup
        exact h.groups id hgroup
    | bulk ticket choice => exact bulk_recorded h (Prod.ext rfl hresult)
    | choose ticket uuid choice =>
      rw [Review.apply] at hresult ⊢
      split at hresult
      · cases hresult
      · rename_i ht
        rw [if_neg ht]
        split at hresult
        · cases hresult
        · rename_i c hfind
          have hlisted : c ∈ r.listed := by
            have hin := List.mem_of_find?_eq_some hfind
            rw [candidates_eq,rowsOf] at hin
            exact List.mem_of_mem_drop (List.mem_of_mem_take hin)
          split at hresult
          · cases hresult
          · rename_i r' hchoose
            simp only
            exact choose_recorded h hlisted hchoose
    | keepAll ticket =>
      rw [Review.apply] at hresult ⊢
      split at hresult
      · cases hresult
      · rename_i ht
        rw [if_neg ht]
        split at hresult
        · cases hresult
        · rename_i groups hkeep
          simp only
          exact ⟨keepAll_recorded hkeep,trivial⟩

theorem run_recorded (parses : String → Bool) (requests : List Request) {r : Review}
    (h : Recorded r) : Recorded (r.run parses requests) ∧
      (r.run parses requests).plan=r.plan := by
  induction requests generalizing r with
  | nil => exact ⟨h,rfl⟩
  | cons request rest ih =>
    obtain ⟨hstep,hplan⟩ := apply_recorded parses h request
    obtain ⟨hrun,hrest⟩ := ih hstep
    exact ⟨hrun,hrest.trans hplan⟩

theorem start_recorded (ticket : ℕ) (plan : Plan) (shown : Section) :
    Recorded (Review.start ticket plan shown) :=
  ⟨fun _ _ _ h => (nomatch h),fun _ h => absurd rfl h⟩

def candidatesOf : Plan → List Candidate
  | .updates p => p.additions++p.removals
  | .sources p => p.affected
  | .deleteCollection shelves => shelves.flatMap SourceChangePreview.affected

theorem Allowed.candidate {plan : Plan} {id : ℤ} {uuid : String} {action : Action}
    (h : Allowed plan id uuid action) : ∃ c ∈ candidatesOf plan, c.uuid=uuid := by
  cases plan with
  | updates p =>
    obtain ⟨_,⟨c,hc,hu,_⟩ | ⟨c,hc,hu,_⟩⟩ := h
    · exact ⟨c,List.mem_append_left _ hc,hu⟩
    · exact ⟨c,List.mem_append_right _ hc,hu⟩
  | sources p =>
    obtain ⟨_,c,hc,hu,_⟩ := h
    exact ⟨c,hc,hu⟩
  | deleteCollection shelves =>
    obtain ⟨p,hp,_,c,hc,hu,_⟩ := h
    exact ⟨c,List.mem_flatMap.mpr ⟨p,hp,hc⟩,hu⟩

/-- The decisions about a shelf, as the store gets them. -/
def submitted (decisions : SortedMap String Action) : List Decision :=
  decisions.entries.map fun d => ⟨d.1,d.2⟩

theorem submitted_nodup (decisions : SortedMap String Action) :
    ((submitted decisions).map Decision.uuid).Nodup := by
  rw [submitted,List.map_map]
  exact decisions.nodup_keys

theorem mem_submitted {decisions : SortedMap String Action} {d : Decision} :
    d ∈ submitted decisions ↔ decisions.get d.uuid=some d.action := by
  rw [SortedMap.get_eq_some,submitted,List.mem_map]
  constructor
  · rintro ⟨e,he,rfl⟩
    exact he
  · intro h
    exact ⟨_,h,rfl⟩

section Submitting

variable {parses : String → Bool} {r : Review} (h : Recorded r)
  (haccepted : ∀ c ∈ candidatesOf r.plan, fromStored parses c.uuid=.ok c.uuid)

include h haccepted

/-- The decisions about a shelf are all accepted as references. -/
theorem choices_ok {id : ℤ} {decisions : SortedMap String Action}
    (hd : r.decisions.get id=some decisions) :
    choices parses decisions=.ok (submitted decisions) := by
  refine mapM_ok fun d hin => ?_
  have hdecision : r.decision id d.1=some d.2 := by
    rw [Review.decision,hd]
    exact SortedMap.get_eq_some.mpr hin
  obtain ⟨c,hc,hu⟩ := (h.allowed id d.1 d.2 hdecision).candidate
  have hok := haccepted c hc
  rw [hu] at hok
  rw [hok]
  rfl

/-- The decisions about one shelf are submitted as they are recorded. -/
theorem choicesOf_ok (id : ℤ) :
    r.choicesOf parses id=.ok (((r.decisions.get id).map submitted).getD []) := by
  rw [Review.choicesOf]
  cases hd : r.decisions.get id with
  | none => rfl
  | some decisions => exact choices_ok h haccepted hd

end Submitting

/-- The store accepts what is recorded about an update. -/
theorem actions_ok {r : Review} {p : UpdatePreview} (h : Recorded r) (hplan : r.plan=.updates p)
    (hdisjoint : ∀ a ∈ p.additions, ∀ c ∈ p.removals, a.uuid≠c.uuid) :
    ∃ result, actions p (((r.decisions.get p.shelfId).map submitted).getD [])=.ok result := by
  cases hd : r.decisions.get p.shelfId with
  | none => exact ⟨.empty,rfl⟩
  | some decisions =>
    have hallowed : ∀ d ∈ submitted decisions, allowedUpdate p d.uuid d.action=true := by
      intro d hin
      have hdecision : r.decision p.shelfId d.uuid=some d.action := by
        rw [Review.decision,hd]
        exact mem_submitted.mp hin
      have ha := h.allowed _ _ _ hdecision
      rw [hplan] at ha
      obtain ⟨_,⟨c,hc,hu,haction⟩ | ⟨c,hc,hu,haction⟩⟩ := ha
      · have hany : (p.additions.any fun c => c.uuid=d.uuid)=true :=
          List.any_eq_true.mpr ⟨c,hc,decide_eq_true hu⟩
        rw [allowedUpdate,if_pos hany]
        cases haction with
        | inl he => simp [he]
        | inr he => simp [he]
      · have hnone : ¬(p.additions.any fun c => c.uuid=d.uuid)=true := by
          rw [List.any_eq_true]
          rintro ⟨a,hin,he⟩
          exact hdisjoint a hin c hc ((of_decide_eq_true he).trans hu.symm)
        have hany : (p.removals.any fun c => c.uuid=d.uuid)=true :=
          List.any_eq_true.mpr ⟨c,hc,decide_eq_true hu⟩
        rw [allowedUpdate,if_neg hnone,if_pos hany]
        cases haction with
        | inl he => simp [he]
        | inr he => simp [he.1]
    have hentries : entriesOf (submitted decisions)=decisions.entries := by
      rw [entriesOf,submitted,List.map_map]
      exact List.map_id _
    refine (collect_ok_iff _).mpr ⟨?_,?_,fun e _ => SortedMap.get_empty e.1⟩
    · intro e he
      obtain ⟨d,hin,hed⟩ := List.mem_map.mp he
      rw [←hed]
      exact hallowed d hin
    · simp only [Option.map_some,Option.getD_some]
      rw [hentries]
      exact decisions.nodup_keys

/-- The number of decisions about a shelf. -/
def Review.decidedOf (r : Review) (id : ℤ) : ℕ :=
  ((r.decisions.get id).map SortedMap.size).getD 0

/-- The decisions about a change of sources are about its candidates. They are accepted exactly
when there are as many. -/
theorem change_ok_iff {r : Review} {p : SourceChangePreview}
    (hdistinct : (p.affected.map Candidate.uuid).Nodup)
    (hallowed : ∀ uuid action, r.decision p.shelfId uuid=some action →
      ∃ c ∈ p.affected, c.uuid=uuid ∧ KeptOrRemoved p.incomplete c action) :
    r.decidedOf p.shelfId≤p.affected.length ∧
      ((∃ result, validate p false (((r.decisions.get p.shelfId).map submitted).getD [])=
        .ok result) ↔ r.decidedOf p.shelfId=p.affected.length) := by
  rw [validate_ok_iff hdistinct,Review.decidedOf]
  cases hd : r.decisions.get p.shelfId with
  | none => simp
  | some decisions =>
    have hcandidate : ∀ d ∈ submitted decisions, ∃ c ∈ p.affected, c.uuid=d.uuid ∧
        KeptOrRemoved p.incomplete c d.action := by
      intro d hin
      apply hallowed
      rw [Review.decision,hd]
      exact mem_submitted.mp hin
    have hlength : (submitted decisions).length=decisions.size := List.length_map _
    have hle : decisions.size≤p.affected.length := by
      have hsubset : (submitted decisions).map Decision.uuid ⊆ p.affected.map Candidate.uuid := by
        intro uuid hin
        obtain ⟨d,hd,hu⟩ := List.mem_map.mp hin
        obtain ⟨c,hc,hcu,_⟩ := hcandidate d hd
        exact List.mem_map.mpr ⟨c,hc,hcu.trans hu⟩
      have hsub := (List.subperm_of_subset (submitted_nodup decisions) hsubset).length_le
      rw [List.length_map,List.length_map,hlength] at hsub
      exact hsub
    refine ⟨hle,?_⟩
    simp only [Option.map_some,Option.getD_some]
    rw [hlength]
    constructor
    · intro hk
      exact hk.2.2
    · intro hk
      refine ⟨fun d hin => ?_,submitted_nodup decisions,hk⟩
      exact (allowedChange_iff hdistinct).mpr (hcandidate d hin)

theorem sum_eq_iff {α : Type} {f g : α → ℕ} (values : List α) (h : ∀ a ∈ values, f a≤g a) :
    (values.map f).sum≤(values.map g).sum ∧
      ((values.map f).sum=(values.map g).sum ↔ ∀ a ∈ values, f a=g a) := by
  induction values with
  | nil => simp
  | cons a values ih =>
    have hfirst := h a List.mem_cons_self
    obtain ⟨hle,hiff⟩ := ih fun b hb => h b (List.mem_cons_of_mem a hb)
    simp only [List.map_cons,List.sum_cons,List.forall_mem_cons]
    rw [←hiff]
    omega

/-- The number of decisions is that about the shelves of the plan. -/
theorem decided_eq {r : Review} (h : Recorded r) (hdistinct : (shelfIds r.plan).Nodup) :
    r.decided=((shelfIds r.plan).map r.decidedOf).sum := by
  have hkeys : r.decided=((r.decisions.entries.map Prod.fst).map r.decidedOf).sum := by
    rw [Review.decided,List.map_map]
    congr 1
    refine List.map_congr_left fun e he => ?_
    have hget : r.decisions.get e.1=some e.2 := SortedMap.get_eq_some.mpr he
    simp [Review.decidedOf,hget]
  rw [hkeys,←List.sum_toFinset _ r.decisions.nodup_keys,←List.sum_toFinset _ hdistinct]
  refine Finset.sum_subset (fun id hid => ?_) fun id _ hout => ?_
  · rw [List.mem_toFinset] at hid ⊢
    obtain ⟨e,he,hkey⟩ := List.mem_map.mp hid
    apply h.groups
    rw [←hkey,SortedMap.get_eq_some.mpr he]
    exact Option.some_ne_none _
  · have hnone : r.decisions.get id=none := by
      rw [SortedMap.get_eq_none]
      intro decisions hin
      exact hout (List.mem_toFinset.mpr (List.mem_map.mpr ⟨_,hin,rfl⟩))
    simp [Review.decidedOf,hnone]

/-- Applying is offered exactly when nothing more is to be decided. -/
theorem canApply_iff {r : Review} (hle : r.decided≤r.required) :
    r.canApply=true ↔ r.decided=r.required := by
  rw [Review.canApply]
  simp only [Bool.or_eq_true,decide_eq_true_eq]
  omega

/-- A check that is mapped passes when the check does. -/
theorem map_unit_iff {α : Type} {x : Except ShelfError α} :
    x.map (fun _ => ())=.ok () ↔ ∃ a, x=.ok a := by
  rw [exceptMap_ok]
  simp

/-- Applying is offered exactly when the store accepts the groups that are submitted. -/
theorem submit_iff {parses : String → Bool} {r : Review} (h : Recorded r) (hplan : Evaluated r.plan)
    (haccepted : ∀ c ∈ candidatesOf r.plan, fromStored parses c.uuid=.ok c.uuid) :
    r.canApply=true ↔ r.submit parses=.ok () := by
  have hchoices := choicesOf_ok h haccepted
  have hgroup : ∀ {id decisions}, r.decisions.get id=some decisions →
      choices parses decisions=.ok (submitted decisions) := fun hd => choices_ok h haccepted hd
  have hallowed := h.allowed
  have hdecided := decided_eq h
  have hgroups := h.groups
  have hupdate := fun p => actions_ok (p:=p) h
  rw [Review.submit]
  generalize hr : r.plan=plan at hplan hallowed hdecided hgroups hupdate ⊢
  cases hplan with
  | updates rows evaluated stories =>
    obtain ⟨result,hresult⟩ := hupdate _ rfl (evaluation_disjoint rows evaluated stories)
    have hrequired : r.required=0 := by simp [Review.required,hr]
    simp only [hchoices,hresult]
    simp [Review.canApply,hrequired,Except.map]
  | sources rows detached desired after coverage available stories =>
    have hdistinct := evaluate_distinct rows detached desired after coverage available stories
    generalize evaluate rows detached desired after coverage available stories=p at *
    obtain ⟨hle,hiff⟩ := change_ok_iff (r:=r) hdistinct fun uuid action hd =>
      (hallowed _ uuid action hd).2
    have hsum : r.decided=r.decidedOf p.shelfId := by
      rw [hdecided (List.nodup_singleton _)]
      simp [shelfIds]
    have hrequired : r.required=p.affected.length := by simp [Review.required,hr]
    rw [canApply_iff (by rw [hsum,hrequired]; exact hle),hsum,hrequired,←hiff]
    simp only [hchoices,map_unit_iff]
  | deleteCollection shelves distinct evaluated =>
    have hshelf : ∀ p ∈ shelves, r.decidedOf p.shelfId≤p.affected.length ∧
        ((∃ result, validate p false (((r.decisions.get p.shelfId).map submitted).getD [])=
          .ok result) ↔ r.decidedOf p.shelfId=p.affected.length) := by
      intro p hp
      obtain ⟨rows,detached,desired,after,coverage,available,stories,hp'⟩ := evaluated p hp
      have hdistinct : (p.affected.map Candidate.uuid).Nodup := by
        rw [hp']
        exact evaluate_distinct rows detached desired after coverage available stories
      refine change_ok_iff hdistinct fun uuid action hd => ?_
      obtain ⟨q,hq,hid,hc⟩ := hallowed _ uuid action hd
      rw [List.inj_on_of_nodup_map distinct hq hp hid] at hc
      exact hc
    obtain ⟨hle,hiff⟩ := sum_eq_iff shelves fun p hp => (hshelf p hp).1
    have hsum : r.decided=(shelves.map fun p => r.decidedOf p.shelfId).sum := by
      rw [hdecided distinct,shelfIds,List.map_map]
      rfl
    have hrequired : r.required=(shelves.map fun p => p.affected.length).sum := by
      simp [Review.required,hr]
    have hsubmitted : (r.decisions.entries.mapM fun g =>
        (choices parses g.2).map fun ds => (g.1,ds))=
          .ok (r.decisions.entries.map fun g => (g.1,submitted g.2)) := by
      refine mapM_ok fun g hg => ?_
      rw [hgroup (SortedMap.get_eq_some.mpr hg)]
      rfl
    have hlookup : ∀ id ds, (r.decisions.get id).map submitted=some ds ↔
        (id,ds) ∈ r.decisions.entries.map fun g => (g.1,submitted g.2) := by
      intro id ds
      rw [Option.map_eq_some_iff,List.mem_map]
      constructor
      · rintro ⟨decisions,hd,he⟩
        exact ⟨(id,decisions),SortedMap.get_eq_some.mp hd,by rw [he]⟩
      · rintro ⟨e,he,hpair⟩
        cases hpair
        exact ⟨e.2,SortedMap.get_eq_some.mpr he,rfl⟩
    rw [canApply_iff (by rw [hsum,hrequired]; exact hle),hsum,hrequired,hiff]
    simp only [hsubmitted]
    rw [checkDeletion_ok_iff shelves _ hlookup]
    constructor
    · intro heq
      refine ⟨fun g hg => ?_,?_,fun p hp => (hshelf p hp).2.mpr (heq p hp)⟩
      · obtain ⟨e,he,hpair⟩ := List.mem_map.mp hg
        have hin : g.1 ∈ shelves.map SourceChangePreview.shelfId := by
          apply hgroups
          rw [←hpair]
          simp only
          rw [SortedMap.get_eq_some.mpr he]
          exact Option.some_ne_none _
        exact List.mem_map.mp hin
      · rw [List.map_map]
        exact r.decisions.nodup_keys
    · rintro ⟨_,_,hpass⟩ p hp
      exact (hshelf p hp).2.mp (hpass p hp)

/-- A plan that detaches the last source of a shelf with one story. -/
def samplePlan : Plan :=
  .sources (evaluate ⟨1,[⟨"10000000-0000-4000-8000-00000000000a",false,"Tale"⟩],by simp,[]⟩ true []
    ⟨[],[],false⟩ ⟨[],[],false⟩ ⟨[],List.nodup_nil⟩ ⟨[],List.nodup_nil⟩)

end Librairii.ShelfReviews
