import Librairii.ExportPreparation

/-!
# Outputs and retention of prepared exports

The items of a preview are decided one after the other against the names that were taken before
them and the names of the destination, so ready items never collide. The registry drops its
oldest plans until a new one fits. An id that left the registry never comes back.
-/

namespace Librairii.PreparedPlans

open CheckedResults OperationRows OperationCreation FrozenText JsonText DisplayNames SimpleLower
  StoryPages
open ExportScopes hiding Library
open ExportPlans hiding Plan
open ExportPreparation hiding step run

section Items

def Kept (item : PreviewItem) : Prop := ∀ issue, item.disposition≠.skipped issue

/-- The lower-cased display name of an item. -/
def keyOf (item : PreviewItem) : String := String.ofList (item.outputName.toList.map lower)

/-- An earlier item that is not skipped has the name of an item. -/
def Taken (before : List PreviewItem) (item : PreviewItem) : Prop :=
  ∃ earlier ∈ before, Kept earlier ∧ keyOf earlier=keyOf item

variable (view : FileView)

/-- An item that is not skipped is in conflict when its name is taken by an earlier item or in the
destination, and ready otherwise. -/
def Decided (before : List PreviewItem) (s : ExportStory) (item : PreviewItem) : Prop :=
  Kept item →
    item.disposition=.conflicted ∧ (Taken before item ∨ view.holds (originalName s)=some true) ∨
    item.disposition=.ready ∧ ¬Taken before item ∧ view.holds (originalName s)=some false

/-- The items of stories, each decided after the ones before it. -/
inductive Judged : List PreviewItem → List ExportStory → List PreviewItem → Prop
  | nil (before : List PreviewItem) : Judged before [] []
  | cons {before : List PreviewItem} {s : ExportStory} {item : PreviewItem}
      {stories : List ExportStory} {items : List PreviewItem}
      (hitem : item=previewItem s item.disposition) (hdecided : Decided view before s item)
      (hrest : Judged (before++[item]) stories items) :
      Judged before (s::stories) (item::items)

variable {view}

def Names (items : List PreviewItem) (names : List String) : Prop :=
  ∀ key, key ∈ names ↔ ∃ item ∈ items, Kept item ∧ keyOf item=key

variable {items : List PreviewItem}

theorem Names.skipped {names : List String} (h : Names items names) {item : PreviewItem}
    (hitem : ¬Kept item) : Names (items++[item]) names := by
  intro key
  rw [h key]
  constructor
  · rintro ⟨other,hother,hkept⟩
    exact ⟨other,List.mem_append_left _ hother,hkept⟩
  · rintro ⟨other,hother,hkept⟩
    cases List.mem_append.mp hother with
    | inl hold => exact ⟨other,hold,hkept⟩
    | inr hlast => exact absurd (List.mem_singleton.mp hlast ▸ hkept.1) hitem

/-- An item that is not skipped takes its name. -/
theorem Names.taken {items : List PreviewItem} {names names' : List String}
    (h : Names items names) {item : PreviewItem} (hitem : Kept item)
    (hnames : ∀ key, key ∈ names' ↔ key=keyOf item ∨ key ∈ names) :
    Names (items++[item]) names' := by
  intro key
  rw [hnames,h key]
  constructor
  · rintro (rfl | ⟨other,hother,hkept⟩)
    · exact ⟨item,List.mem_append_right _ (List.mem_singleton_self _),hitem,rfl⟩
    · exact ⟨other,List.mem_append_left _ hother,hkept⟩
  · rintro ⟨other,hother,hkept,hkey⟩
    cases List.mem_append.mp hother with
    | inl hold => exact .inr ⟨other,hold,hkept,hkey⟩
    | inr hlast => exact .inl (hkey.symm.trans (congrArg keyOf (List.mem_singleton.mp hlast)))

variable {before : List PreviewItem} {s : ExportStory}

theorem disposition_decided {names names' : List String} {found : Disposition}
    (hnames : Names before names) (h : disposition view names s=.ok (found,names')) :
    Decided view before s (previewItem s found) ∧
      Names (before++[previewItem s found]) names' := by
  obtain ⟨issue,-,h⟩ := exceptBind_ok.mp h
  cases issue with
  | some issue =>
    cases h
    have hskipped : ¬Kept (previewItem s (.skipped issue)) := fun hkept => hkept issue rfl
    exact ⟨fun hkept => absurd hkept hskipped,hnames.skipped hskipped⟩
  | none =>
    dsimp only at h
    rw [lowercaseKey_eq] at h
    obtain ⟨key,hkey,h⟩ := exceptBind_ok.mp h
    cases hkey
    have htaken : ∀ found, String.ofList ((outputName s).toList.map lower) ∈ names ↔
        Taken before (previewItem s found) := fun found => hnames _
    have hkept : Kept (previewItem s .conflicted) ∧ Kept (previewItem s .ready) :=
      ⟨fun issue => Disposition.noConfusion,fun issue => Disposition.noConfusion⟩
    by_cases hmem : String.ofList ((outputName s).toList.map lower) ∈ names
    · rw [if_pos hmem] at h
      cases h
      refine ⟨fun _ => .inl ⟨rfl,.inl ((htaken _).mp hmem)⟩,hnames.taken hkept.1 fun key => ?_⟩
      constructor
      · exact .inr
      · rintro (rfl | hold)
        · exact hmem
        · exact hold
    · rw [if_neg hmem] at h
      cases hholds : view.holds (originalName s) with
      | none =>
        rw [hholds] at h
        cases h
      | some held =>
        rw [hholds] at h
        cases held with
        | true =>
          cases h
          exact ⟨fun _ => .inl ⟨rfl,.inr hholds⟩,hnames.taken hkept.1 fun key => List.mem_cons⟩
        | false =>
          cases h
          refine ⟨fun _ => .inr ⟨rfl,fun ht => hmem ((htaken _).mpr ht),hholds⟩,?_⟩
          exact hnames.taken hkept.2 fun key => List.mem_cons

theorem gather_decided {g g' : Gathered} (hnames : Names g.items g.names)
    (h : gather view g s=.ok g') : ∃ item, g'.items=g.items++[item] ∧
      item=previewItem s item.disposition ∧ Decided view g.items s item ∧
        Names g'.items g'.names := by
  obtain ⟨⟨found,names⟩,hfound,h⟩ := exceptBind_ok.mp h
  obtain ⟨hdecided,htaken⟩ := disposition_decided hnames hfound
  dsimp only at h
  by_cases hready : found=.ready
  · rw [if_pos hready] at h
    obtain ⟨hlarge,h⟩ := checked_ok.mp h
    cases h
    exact ⟨previewItem s found,rfl,rfl,hdecided,htaken⟩
  · rw [if_neg hready] at h
    cases h
    exact ⟨previewItem s found,rfl,rfl,hdecided,htaken⟩

theorem gatherAll_judged (stories : List ExportStory) {g g' : Gathered}
    (hnames : Names g.items g.names) (h : stories.foldlM (gather view) g=.ok g') :
    ∃ items, g'.items=g.items++items ∧ Judged view g.items stories items := by
  induction stories generalizing g with
  | nil =>
    cases h
    exact ⟨[],(List.append_nil _).symm,.nil _⟩
  | cons s stories ih =>
    rw [List.foldlM_cons] at h
    obtain ⟨next,hnext,h⟩ := exceptBind_ok.mp h
    obtain ⟨item,hitems,hitem,hdecided,htaken⟩ := gather_decided hnames hnext
    obtain ⟨items,hall,hjudged⟩ := ih htaken h
    rw [hitems] at hall hjudged
    refine ⟨item::items,?_,.cons hitem hdecided hjudged⟩
    rw [hall,List.append_assoc,List.singleton_append]

variable {stories : List ExportStory}

theorem Judged.aligned (h : Judged view before stories items) :
    List.Forall₂ (fun s item => item=previewItem s item.disposition) stories items := by
  induction h with
  | nil => exact .nil
  | cons hitem hdecided hrest ih => exact .cons hitem ih

theorem Judged.decided (h : Judged view before stories items) {i : ℕ} {item : PreviewItem}
    (hs : stories[i]?=some s) (hi : items[i]?=some item) :
    Decided view (before++items.take i) s item := by
  induction h generalizing i with
  | nil => exact absurd hs (by simp)
  | cons hitem hdecided hrest ih =>
    cases i with
    | zero =>
      cases hs
      cases hi
      rwa [List.take_zero,List.append_nil]
    | succ i =>
      have hlater := ih (i:=i) hs hi
      rwa [List.append_assoc,List.singleton_append,←List.take_succ_cons] at hlater

theorem Judged.distinct (h : Judged view before stories items) :
    (∀ item ∈ readyItems items, ¬Taken before item) ∧ ((readyItems items).map keyOf).Nodup := by
  induction h with
  | nil => exact ⟨fun item hitem => absurd hitem List.not_mem_nil,List.nodup_nil⟩
  | @cons before s item stories items hitem hdecided hrest ih =>
    have hbefore : ∀ other ∈ readyItems items, ¬Taken before other := by
      intro other hother htaken
      obtain ⟨earlier,hearlier,hkept⟩ := htaken
      exact ih.1 other hother ⟨earlier,List.mem_append_left _ hearlier,hkept⟩
    by_cases hready : item.disposition=.ready
    · have hkept : Kept item := by
        intro issue he
        rw [hready] at he
        cases he
      rw [readyItems_cons_ready items hready,List.forall_mem_cons,List.map_cons,List.nodup_cons]
      refine ⟨⟨?_,hbefore⟩,fun hmem => ?_,ih.2⟩
      · cases hdecided hkept with
        | inl hconflict => exact absurd (hready.symm.trans hconflict.1) (by decide)
        | inr hfree => exact hfree.2.1
      · obtain ⟨other,hother,hkey⟩ := List.mem_map.mp hmem
        refine ih.1 other hother ⟨item,?_,hkept,hkey.symm⟩
        exact List.mem_append_right _ (List.mem_singleton_self _)
    · rw [readyItems_cons_other items hready]
      exact ⟨hbefore,ih.2⟩

variable (view)

/-- What holds of the preview of a resolved scope. -/
structure Outputs (scope : Resolved) (preview : Preview) : Prop where
  aligned : List.Forall₂ (fun s item => item=previewItem s item.disposition)
    scope.stories preview.items
  /-- Ready items have different lower-cased names. -/
  distinct : ((readyItems preview.items).map keyOf).Nodup
  /-- The name of a ready item is not in the destination. -/
  absent : ∀ (i : ℕ) (s : ExportStory) (item : PreviewItem), scope.stories[i]?=some s →
    preview.items[i]?=some item → item.disposition=.ready → view.holds (originalName s)=some false
  /-- An item that is neither skipped nor ready is in conflict with an earlier item that is not
  skipped, or with the destination. -/
  conflicted : ∀ (i : ℕ) (s : ExportStory) (item : PreviewItem), scope.stories[i]?=some s →
    preview.items[i]?=some item → Kept item → item.disposition≠.ready →
      item.disposition=.conflicted ∧
      (Taken (preview.items.take i) item ∨ view.holds (originalName s)=some true)
  ready : preview.ready=(readyItems preview.items).length
  bytes : preview.bytes=readyBytes preview.items

variable {view}

theorem previewOf_outputs {destination : Destination} {scope : Resolved} {preview : Preview}
    (h : previewOf view destination scope=.ok preview) : Outputs view scope preview := by
  obtain ⟨hall,hbytes,-,hready⟩ := previewOf_ok h
  obtain ⟨g,hg,h⟩ := exceptBind_ok.mp h
  have hempty : Names [] [] := fun key =>
    ⟨fun hk => absurd hk List.not_mem_nil,fun ⟨item,hitem,_⟩ => absurd hitem List.not_mem_nil⟩
  obtain ⟨items,hitems,hjudged⟩ := gatherAll_judged scope.stories hempty hg
  cases h
  dsimp only at hall hbytes hready
  rw [List.nil_append] at hitems
  rw [hitems] at hbytes hready
  constructor
  case aligned => exact hitems ▸ hjudged.aligned
  case distinct => exact hitems ▸ hjudged.distinct.2
  case absent =>
    intro i s item hs hi hitem
    dsimp only at hi
    rw [hitems] at hi
    have hkept : Kept item := by
      intro issue he
      rw [hitem] at he
      cases he
    cases hjudged.decided hs hi hkept with
    | inl hconflict => exact absurd (hitem.symm.trans hconflict.1) (by decide)
    | inr hfree => exact hfree.2.2
  case conflicted =>
    intro i s item hs hi hkept hother
    dsimp only at hi ⊢
    rw [hitems] at hi ⊢
    cases hjudged.decided hs hi hkept with
    | inl hconflict => exact hconflict
    | inr hfree => exact absurd hfree.1 hother
  case ready => exact hready.trans (congrArg (fun items => (readyItems items).length) hitems.symm)
  case bytes => exact hbytes.trans (congrArg readyBytes hitems.symm)

end Items

variable {plans : List Prepared} {r : Registry}

section Eviction

/-- Whether the registry has no room for one more plan of this size. -/
def Crowded (bytes : ℕ) (plans : List Prepared) : Prop :=
  maxPrepared≤plans.length ∨ maxPreparedBytes<(plans.map (·.bytes)).sum+bytes

/-- The loop that drops the oldest plan while there is no room, and the number of its steps. -/
inductive Drops (bytes : ℕ) : List Prepared → List Prepared → ℕ → Prop
  | done {plans : List Prepared} (hroom : ¬Crowded bytes plans) : Drops bytes plans plans 0
  | drop {plans left : List Prepared} {n : ℕ} (hcrowded : Crowded bytes plans)
      (hrest : Drops bytes plans.tail left n) : Drops bytes plans left (n+1)

variable {bytes : ℕ}

theorem not_crowded_nil (h : bytes ≤ maxPreparedBytes) : ¬Crowded bytes [] := by
  intro hcrowded
  cases hcrowded with
  | inl hcount => exact absurd hcount (by decide)
  | inr hbytes =>
    rw [List.map_nil,List.sum_nil,Nat.zero_add] at hbytes
    omega

theorem drops_evict (h : bytes ≤ maxPreparedBytes) (plans : List Prepared) :
    ∃ n, evict bytes plans=plans.drop n ∧ Drops bytes plans (evict bytes plans) n := by
  induction plans with
  | nil => exact ⟨0,rfl,.done (not_crowded_nil h)⟩
  | cons plan plans ih =>
    rw [evict]
    by_cases hcrowded : Crowded bytes (plan::plans)
    · obtain ⟨n,hn,hdrops⟩ := ih
      have hevict : (if maxPrepared≤(plan::plans).length ∨
          maxPreparedBytes<((plan::plans).map (·.bytes)).sum+bytes then evict bytes plans
          else plan::plans)=evict bytes plans := if_pos hcrowded
      rw [hevict]
      exact ⟨n+1,hn,.drop hcrowded hdrops⟩
    · have hevict : (if maxPrepared≤(plan::plans).length ∨
          maxPreparedBytes<((plan::plans).map (·.bytes)).sum+bytes then evict bytes plans
          else plan::plans)=plan::plans := if_neg hcrowded
      rw [hevict]
      exact ⟨0,rfl,.done hcrowded⟩

theorem Drops.room {n : ℕ} {left : List Prepared} (h : Drops bytes plans left n) :
    ¬Crowded bytes left := by
  induction h with
  | done hroom => exact hroom
  | drop hcrowded hrest ih => exact ih

theorem retainedBytes_bounded {alloc : Allocation} {scope : Resolved} {destination : Destination}
    {preview : Preview} (h : retainedBytes alloc scope destination preview=some bytes) :
    bytes ≤ maxPreparedBytes := by
  have hsome : retainedSizes alloc scope destination preview≠[] := by
    unfold retainedSizes
    exact List.append_ne_nil_of_right_ne_nil _ (List.cons_ne_nil _ _)
  unfold retainedBytes at h
  rw [addAll_eq _ (.inr hsome)] at h
  split at h
  · rename_i hfits
    cases h
    exact hfits
  · cases h

/-- What holds of the registry in every run. -/
structure Bounded (r : Registry) : Prop where
  /-- At most eight plans are registered. -/
  count : r.prepared.length ≤ maxPrepared
  /-- Their bytes are within the budget. -/
  bytes : (r.prepared.map (·.bytes)).sum ≤ maxPreparedBytes
  /-- The plans are in the order of their ids. -/
  ordered : r.prepared.Pairwise fun a b => a.id<b.id
  /-- Ids are older than the next one. -/
  fresh : ∀ p ∈ r.prepared, p.id<r.next

theorem Bounded.sublist (h : Bounded r) {retained next : ℕ} (hsub : plans.Sublist r.prepared)
    (hnext : r.next≤next) : Bounded ⟨plans,retained,next⟩ where
  count := hsub.length_le.trans h.count
  bytes := ((hsub.map _).sum_le_sum (fun _ _ => Nat.zero_le _)).trans h.bytes
  ordered := h.ordered.sublist hsub
  fresh p hp := (h.fresh p (hsub.subset hp)).trans_le hnext

/-- What a preparation does to the registry. -/
structure Registered (r : Registry) (scope : Resolved) (destination : Destination)
    (preview : Preview) (r' : Registry) : Prop where
  /-- The plan is behind those that the loop leaves of the older ones. -/
  plans : ∃ plan n, plan.id=r.next ∧ plan.scope=scope ∧ plan.destination=destination ∧
    plan.preview=preview ∧ preview.preparation=some r.next ∧ plan.bytes ≤ maxPreparedBytes ∧
      r'.prepared=r.prepared.drop n++[plan] ∧
        Drops plan.bytes r.prepared (r.prepared.drop n) n
  /-- The id is spent. -/
  next : r'.next=r.next+1

/-- Registering a preview keeps the registry, or spends an id, or drops the oldest plans for it. -/
theorem register_cases (alloc : Allocation) (r : Registry) (scope : Resolved)
    (destination : Destination) (preview : Preview) :
    (register alloc r scope destination preview=(.ok preview,r) ∧ preview.canExport=false) ∨
    ((register alloc r scope destination preview).2=⟨r.prepared,r.retained,r.next+1⟩ ∧
      ∃ e, (register alloc r scope destination preview).1=.error e) ∨
    ∃ r', register alloc r scope destination preview=
        (.ok { preview with preparation := some r.next },r') ∧ preview.canExport=true ∧
      Registered r scope destination { preview with preparation := some r.next } r' := by
  unfold register
  by_cases hexport : preview.canExport=false
  · rw [if_pos hexport]
    exact .inl ⟨rfl,hexport⟩
  · rw [if_neg hexport]
    dsimp only
    cases hbytes : retainedBytes alloc scope destination
        { preview with preparation := some r.next } with
    | none => exact .inr (.inl ⟨rfl,_,rfl⟩)
    | some bytes =>
      have hfits := retainedBytes_bounded hbytes
      obtain ⟨n,hn,hdrops⟩ := drops_evict hfits r.prepared
      rw [hn] at hdrops
      refine .inr (.inr ⟨_,rfl,Bool.eq_true_of_not_eq_false hexport,⟨?_,rfl⟩⟩)
      exact ⟨⟨r.next,scope,destination,_,bytes⟩,n,rfl,rfl,rfl,rfl,rfl,hfits,by rw [hn],hdrops⟩

theorem Registered.bounded {r r' : Registry} {scope : Resolved} {destination : Destination}
    {preview : Preview} (h : Registered r scope destination preview r') (hr : Bounded r) :
    Bounded r' := by
  obtain ⟨plan,n,hid,-,-,-,-,-,hplans,hdrops⟩ := h.plans
  have hroom := hdrops.room
  rw [Crowded,not_or,not_le,not_lt] at hroom
  have hsub : (r.prepared.drop n).Sublist r.prepared := List.drop_sublist n _
  constructor
  case count =>
    rw [hplans,List.length_append,List.length_singleton]
    exact hroom.1
  case bytes =>
    rw [hplans,List.map_append,List.sum_append,List.map_singleton,List.sum_singleton]
    exact hroom.2
  case ordered =>
    rw [hplans,List.pairwise_append]
    refine ⟨hr.ordered.sublist hsub,List.pairwise_singleton _ _,fun a ha b hb => ?_⟩
    rw [List.mem_singleton.mp hb,hid]
    exact hr.fresh a (hsub.subset ha)
  case fresh =>
    rw [hplans,h.next,List.forall_mem_append,List.forall_mem_singleton]
    exact ⟨fun p hp => (hr.fresh p (hsub.subset hp)).trans (Nat.lt_succ_self _),
      hid ▸ Nat.lt_succ_self _⟩

end Eviction

section Calls

/-- A call on the registry, in whatever library and file system. -/
inductive Request where
  | prepare (view : FileView) (library : ExportScopes.Library) (locale : String) (scope : Scope)
  | take (id : ℕ) (library : ExportScopes.Library) (intents : List ℤ) (revalidated : Bool)
  | discard (id : ℕ)
  | invalidate

variable (env : ScopeEnv)

/-- The registry after a call. -/
def serve (r : Registry) : Request → Registry
  | .prepare view library locale scope => (prepare env view library locale scope r).2
  | .take id library intents revalidated => (takePrepared r id library intents revalidated).2
  | .discard id => discard r id
  | .invalidate => invalidate r

/-- The registry after calls. -/
def serveAll (r : Registry) (requests : List Request) : Registry := requests.foldl (serve env) r

variable {env}

/-- A preparation keeps the registry, counts an output that stays owned, spends an id, or registers
a plan with the preview that it returns. -/
theorem prepare_registers (view : FileView) (l : ExportScopes.Library) (locale : String)
    (scope : Scope) (r : Registry) :
    ((prepare env view l locale scope r).2.prepared=r.prepared ∧
      r.next≤(prepare env view l locale scope r).2.next) ∨
    ∃ resolved destination preview r', prepare env view l locale scope r=(.ok preview,r') ∧
      Registered r resolved destination preview r' := by
  unfold prepare
  cases hr : resolveScope env view l locale scope r with
  | error e => exact .inl ⟨rfl,le_rfl⟩
  | ok found =>
    obtain ⟨resolved,destination⟩ := found
    dsimp only
    cases hprobe : view.probe with
    | failed => exact .inl ⟨rfl,le_rfl⟩
    | retained => exact .inl ⟨rfl,le_rfl⟩
    | removed =>
      dsimp only
      cases hpreview : previewOf view destination resolved with
      | error e => exact .inl ⟨rfl,le_rfl⟩
      | ok preview =>
        dsimp only
        rcases register_cases env.alloc r resolved destination preview with hkept | hspent | hadded
        · rw [hkept.1]
          exact .inl ⟨rfl,le_rfl⟩
        · rw [hspent.1]
          exact .inl ⟨rfl,Nat.le_succ _⟩
        · obtain ⟨r',hadded,-,hregistered⟩ := hadded
          exact .inr ⟨resolved,destination,_,r',hadded,hregistered⟩

/-- The preview that a preparation returns has distinct outputs for the resolved scope, and a plan
is registered for it when it can be exported. -/
theorem prepare_outputs {view : FileView} {l : ExportScopes.Library} {locale : String}
    {scope : Scope} {r r' : Registry} {preview : Preview}
    (h : prepare env view l locale scope r=(.ok preview,r')) :
    ∃ resolved, resolve env l locale scope=.ok resolved ∧ Outputs view resolved preview ∧
      (preview.canExport=false ∧ r'=r ∨ preview.canExport=true ∧
        ∃ destination, Registered r resolved destination preview r') := by
  unfold prepare at h
  cases hr : resolveScope env view l locale scope r with
  | error e =>
    rw [hr] at h
    cases h
  | ok found =>
    obtain ⟨resolved,destination⟩ := found
    rw [hr] at h
    dsimp only at h
    cases hprobe : view.probe with
    | failed =>
      rw [hprobe] at h
      cases h
    | retained =>
      rw [hprobe] at h
      cases h
    | removed =>
      rw [hprobe] at h
      dsimp only at h
      cases hpreview : previewOf view destination resolved with
      | error e =>
        rw [hpreview] at h
        cases h
      | ok first =>
        rw [hpreview] at h
        dsimp only at h
        have houtputs := previewOf_outputs hpreview
        obtain ⟨resolved',hresolved,hrest⟩ := exceptBind_ok.mp hr
        have hsame : resolved'=resolved := by
          cases hd : view.destination with
          | none =>
            rw [hd] at hrest
            cases hrest
          | some selected =>
            rw [hd] at hrest
            dsimp only at hrest
            split_ifs at hrest
            cases hrest
            rfl
        refine ⟨resolved,hsame ▸ mapError_ok.mp hresolved,?_⟩
        rcases register_cases env.alloc r resolved destination first with hkept | hspent | hadded
        · rw [hkept.1] at h
          cases h
          exact ⟨houtputs,.inl ⟨hkept.2,rfl⟩⟩
        · obtain ⟨e,he⟩ := hspent.2
          rw [h] at he
          cases he
        · obtain ⟨r',hadded,hexport,hregistered⟩ := hadded
          rw [hadded] at h
          cases h
          refine ⟨?_,.inr ⟨hexport,destination,hregistered⟩⟩
          exact ⟨houtputs.aligned,houtputs.distinct,houtputs.absent,houtputs.conflicted,
            houtputs.ready,houtputs.bytes⟩

/-- Taking a plan leaves some of the others. -/
theorem takePrepared_sublist (r : Registry) (id : ℕ) (l : ExportScopes.Library)
    (intents : List ℤ) (revalidated : Bool) :
    (takePrepared r id l intents revalidated).2.prepared.Sublist r.prepared ∧
      (takePrepared r id l intents revalidated).2.next=r.next := by
  unfold takePrepared
  by_cases hcustody : r.retained≠0
  · rw [if_pos hcustody]
    exact ⟨List.Sublist.refl _,rfl⟩
  · rw [if_neg hcustody]
    cases hf : r.prepared.find? (·.id=id) with
    | none => exact ⟨List.Sublist.refl _,rfl⟩
    | some plan =>
      dsimp only
      split_ifs
      all_goals exact ⟨List.eraseP_sublist,rfl⟩

theorem serve_bounded (h : Bounded r) (request : Request) : Bounded (serve env r request) := by
  cases request with
  | prepare view l locale scope =>
    change Bounded (prepare env view l locale scope r).2
    rcases prepare_registers view l locale scope r with hkept | hadded
    · exact h.sublist (hkept.1 ▸ List.Sublist.refl _) hkept.2
    · obtain ⟨resolved,destination,preview,r',hr',hregistered⟩ := hadded
      rw [hr']
      exact hregistered.bounded h
  | take id l intents revalidated =>
    obtain ⟨hsub,hnext⟩ := takePrepared_sublist r id l intents revalidated
    exact h.sublist hsub hnext.ge
  | discard id => exact h.sublist List.filter_sublist le_rfl
  | invalidate => exact h.sublist (List.nil_sublist _) le_rfl

theorem serveAll_bounded (requests : List Request) {r : Registry} (h : Bounded r) :
    Bounded (serveAll env r requests) := by
  induction requests generalizing r with
  | nil => exact h
  | cons request requests ih => exact ih (serve_bounded h request)

/-- An id was given, and no plan has it. -/
def Gone (id : ℕ) (r : Registry) : Prop := id<r.next ∧ ∀ p ∈ r.prepared, p.id≠id

theorem Gone.sublist {id : ℕ} (h : Gone id r) {retained next : ℕ} (hsub : plans.Sublist r.prepared)
    (hnext : r.next≤next) : Gone id ⟨plans,retained,next⟩ :=
  ⟨h.1.trans_le hnext,fun p hp => h.2 p (hsub.subset hp)⟩

theorem serve_gone {id : ℕ} (h : Gone id r) (request : Request) :
    Gone id (serve env r request) := by
  cases request with
  | prepare view l locale scope =>
    change Gone id (prepare env view l locale scope r).2
    rcases prepare_registers view l locale scope r with hkept | hadded
    · exact h.sublist (hkept.1 ▸ List.Sublist.refl _) hkept.2
    · obtain ⟨resolved,destination,preview,r',hr',hregistered⟩ := hadded
      obtain ⟨plan,n,hid,-,-,-,-,-,hplans,-⟩ := hregistered.plans
      have hold := h.1
      have hnext := hregistered.next
      rw [hr']
      dsimp only
      refine ⟨by omega,fun p hp => ?_⟩
      rw [hplans] at hp
      cases List.mem_append.mp hp with
      | inl hold => exact h.2 p ((List.drop_sublist n _).subset hold)
      | inr hlast =>
        rw [List.mem_singleton.mp hlast,hid]
        omega
  | take taken l intents revalidated =>
    obtain ⟨hsub,hnext⟩ := takePrepared_sublist r taken l intents revalidated
    exact h.sublist hsub hnext.ge
  | discard discarded => exact h.sublist List.filter_sublist le_rfl
  | invalidate => exact h.sublist (List.nil_sublist _) le_rfl

theorem serveAll_gone {id : ℕ} (requests : List Request) {r : Registry} (h : Gone id r) :
    Gone id (serveAll env r requests) := by
  induction requests generalizing r with
  | nil => exact h
  | cons request requests ih => exact ih (serve_gone h request)

theorem gone_refused {id : ℕ} {r : Registry} (h : Gone id r) (l : ExportScopes.Library)
    (intents : List ℤ) (revalidated : Bool) :
    ∃ e, takePrepared r id l intents revalidated=(.error e,r) := by
  have hnone : r.prepared.find? (·.id=id)=none :=
    List.find?_eq_none.mpr fun p hp he => h.2 p hp (of_decide_eq_true he)
  unfold takePrepared
  by_cases hcustody : r.retained≠0
  · rw [if_pos hcustody]
    exact ⟨_,rfl⟩
  · rw [if_neg hcustody,hnone]
    exact ⟨_,rfl⟩

/-- A plan that is taken is gone, also when it turns out stale. -/
theorem take_gone {id : ℕ} {r : Registry} (h : Bounded r) (l : ExportScopes.Library)
    (intents : List ℤ) (revalidated : Bool)
    (hchanged : (takePrepared r id l intents revalidated).2≠r) :
    Gone id (takePrepared r id l intents revalidated).2 := by
  have hids : (r.prepared.map (·.id)).Nodup := by
    rw [List.Nodup,List.pairwise_map]
    exact h.ordered.imp fun hlt => ne_of_lt hlt
  unfold takePrepared at hchanged ⊢
  by_cases hcustody : r.retained≠0
  · rw [if_pos hcustody] at hchanged
    exact absurd rfl hchanged
  · rw [if_neg hcustody] at hchanged ⊢
    cases hf : r.prepared.find? (·.id=id) with
    | none =>
      rw [hf] at hchanged
      exact absurd rfl hchanged
    | some plan =>
      have hplan := List.mem_of_find?_eq_some hf
      have hid : plan.id=id := by simpa using List.find?_some hf
      have hgone : Gone id { r with prepared := r.prepared.eraseP (·.id=id) } := by
        refine ⟨hid ▸ h.fresh plan hplan,fun p hp he => ?_⟩
        obtain ⟨first,before,after,-,hfirst,hplans,herased⟩ :=
          List.exists_of_eraseP (p:=fun p : Prepared => p.id=id) hplan (decide_eq_true hid)
        change p ∈ r.prepared.eraseP _ at hp
        rw [herased] at hp
        rw [hplans,List.map_append,List.map_cons,List.nodup_middle,List.nodup_cons,
          ←List.map_append,of_decide_eq_true hfirst,←he] at hids
        exact hids.1 (List.mem_map_of_mem hp)
      dsimp only
      split_ifs
      all_goals exact hgone

theorem serve_adds (r : Registry) (request : Request) : r.next≤(serve env r request).next ∧
    ∀ p ∈ (serve env r request).prepared, p ∈ r.prepared ∨ p.id=r.next := by
  cases request with
  | prepare view l locale scope =>
    change r.next≤(prepare env view l locale scope r).2.next ∧
      ∀ p ∈ (prepare env view l locale scope r).2.prepared,_
    rcases prepare_registers view l locale scope r with hkept | hadded
    · exact ⟨hkept.2,fun p hp => .inl (hkept.1 ▸ hp)⟩
    · obtain ⟨resolved,destination,preview,r',hr',hregistered⟩ := hadded
      obtain ⟨plan,n,hid,-,-,-,-,-,hplans,-⟩ := hregistered.plans
      rw [hr']
      refine ⟨hregistered.next ▸ Nat.le_succ _,fun p hp => ?_⟩
      rw [hplans] at hp
      cases List.mem_append.mp hp with
      | inl hold => exact .inl ((List.drop_sublist n _).subset hold)
      | inr hlast => exact .inr (List.mem_singleton.mp hlast ▸ hid)
  | take id l intents revalidated =>
    obtain ⟨hsub,hnext⟩ := takePrepared_sublist r id l intents revalidated
    exact ⟨hnext.ge,fun p hp => .inl (hsub.subset hp)⟩
  | discard id => exact ⟨le_rfl,fun p hp => .inl (List.mem_of_mem_filter hp)⟩
  | invalidate => exact ⟨le_rfl,fun p hp => absurd hp List.not_mem_nil⟩

theorem left_gone {r : Registry} (h : Bounded r) (request : Request) {plan : Prepared}
    (hplan : plan ∈ r.prepared) (hleft : plan ∉ (serve env r request).prepared) :
    Gone plan.id (serve env r request) := by
  have hids : (r.prepared.map (·.id)).Nodup := by
    rw [List.Nodup,List.pairwise_map]
    exact h.ordered.imp fun hlt => ne_of_lt hlt
  obtain ⟨hnext,hadds⟩ := @serve_adds env r request
  have hfresh := h.fresh plan hplan
  refine ⟨hfresh.trans_le hnext,fun p hp he => ?_⟩
  cases hadds p hp with
  | inl hold => exact hleft (List.inj_on_of_nodup_map hids hold hplan he ▸ hp)
  | inr hnew => omega

/-- What holds of the registry after whatever calls: it is bounded, a preparation returns distinct
outputs and drops only the oldest plans, and ids that leave it are never taken again. -/
structure Retained (env : ScopeEnv) (r : Registry) : Prop where
  /-- The plans are few and small. -/
  bounded : Bounded r
  /-- A preview has distinct outputs. When it can be exported the loop that makes room ends, and
  leaves the youngest plans before the new one. -/
  prepared : ∀ view l locale scope preview r', prepare env view l locale scope r=(.ok preview,r') →
    ∃ resolved, resolve env l locale scope=.ok resolved ∧ Outputs view resolved preview ∧
      (preview.canExport=false ∧ r'=r ∨ preview.canExport=true ∧
        ∃ destination, Registered r resolved destination preview r')
  /-- A plan that is taken is gone, also when it turns out stale. -/
  taken : ∀ id l intents revalidated, (takePrepared r id l intents revalidated).2≠r →
    Gone id (takePrepared r id l intents revalidated).2
  /-- A plan that leaves the registry is gone. -/
  left : ∀ request, ∀ plan ∈ r.prepared, plan ∉ (serve env r request).prepared →
    Gone plan.id (serve env r request)
  gone : ∀ id, Gone id r → ∀ requests l intents revalidated,
    ∃ e, takePrepared (serveAll env r requests) id l intents revalidated=
      (.error e,serveAll env r requests)

end Calls

end Librairii.PreparedPlans
