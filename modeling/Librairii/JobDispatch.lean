import Librairii.JobScheduler
import Librairii.RunConditions

/-!
# Exact dispatch of items

In every state of every session the items in flight are distinct and exactly those that are
queued or held by a worker, queue and flight are bounded, and a session is closed by its drain
only when nothing is queued, in flight or ready to finish.
-/

namespace Librairii.JobDispatch

open RowTables OperationRows OperationReporting JobScheduler
open OperationStore (WorkItem createJob requestCancel startItem)
open ExportStarts (Start)

def itemIds (works : List WorkItem) : List ℤ := works.map (·.item.identity.id)

/-- What is in flight is exactly what is queued or held. -/
structure Exact (r : Runtime) (s : System) : Prop where
  /-- Every configured worker has its place. -/
  threads : s.workers.length=r.config.workers
  /-- No item is twice in flight. -/
  distinct : (s.state.inflight.map (·.item)).Nodup
  /-- The items in flight are those in the queue and those the workers hold. -/
  owned : (s.state.inflight.map (·.item)).Perm (itemIds (s.state.queue++s.held))
  /-- The items the workers hold are counted. -/
  running : s.state.running=s.held.length
  /-- The queue is bounded. -/
  queued : s.state.queue.length≤r.config.queueCapacity

/-- What the coordinator knows where it stands. -/
def Place (r : Runtime) (s : System) : Prop :=
  match s.coordinator with
  | .finding _ excluded => excluded.length ≤ maxExclusions
  | .fetching _ _ excluded => excluded.length ≤ maxExclusions ∧
      s.state.queue.length<r.config.queueCapacity ∧
      ∀ entry ∈ s.state.inflight, entry.item ∈ excluded
  | .observing _ work | .queueing work _ =>
      s.state.queue.length<r.config.queueCapacity ∧
      ∀ entry ∈ s.state.inflight, entry.item≠work.item.identity.id
  | .verifying => s.state.inflight=[]
  | .cleaning | .closing => s.state.inflight=[] ∧ finishable s.rows []=[]
  | _ => True

variable {r : Runtime} {s : System}

/-- At most every worker holds an item. -/
theorem Exact.held_le (h : Exact r s) : s.held.length≤r.config.workers := by
  rw [←h.threads]
  exact List.length_filterMap_le _ _

/-- Three items for each worker bound what is in flight. -/
theorem Exact.inflight_le (h : Exact r s) : s.state.inflight.length≤3*r.config.workers := by
  have hlength := h.owned.length_eq
  simp only [itemIds,List.length_map,List.length_append] at hlength
  have hqueue := h.queued
  have hheld := h.held_le
  unfold Configuration.queueCapacity at hqueue
  omega

theorem Exact.excluded_le (h : Exact r s) : s.state.inflight.length ≤ maxExclusions := by
  have hle := h.inflight_le
  have hworkers := r.config.bounded.2
  unfold maxExclusions
  omega

/-- Nothing is queued or held when nothing is in flight. -/
theorem Exact.empty (h : Exact r s) (hnone : s.state.inflight=[]) :
    s.state.queue=[] ∧ s.held=[] := by
  have howned := h.owned
  rw [hnone,List.map_nil] at howned
  have hids := List.nil_perm.mp howned
  rw [itemIds,List.map_eq_nil_iff,List.append_eq_nil_iff] at hids
  exact hids

variable {s' : System}

/-- A step that changes neither flight, queue nor holders keeps them exact. -/
theorem Exact.same (h : Exact r s) (hworkers : s'.workers.length=s.workers.length)
    (hheld : s'.held=s.held)
    (hinflight : s'.state.inflight.map (·.item)=s.state.inflight.map (·.item))
    (hqueue : s'.state.queue=s.state.queue) (hrunning : s'.state.running=s.state.running) :
    Exact r s' := by
  constructor
  · rw [hworkers]
    exact h.threads
  · rw [hinflight]
    exact h.distinct
  · rw [hinflight,hqueue,hheld]
    exact h.owned
  · rw [hrunning,hheld]
    exact h.running
  · rw [hqueue]
    exact h.queued

theorem cancelTokens_items (selected : InFlight → Bool) (state : State) :
    (cancelTokens selected state).inflight.map (·.item)=state.inflight.map (·.item) := by
  rw [cancelTokens,List.map_map]
  rfl

variable {state : State}

theorem cancelTokens_entry {selected : InFlight → Bool} {entry : InFlight}
    (h : entry ∈ (cancelTokens selected state).inflight) :
    ∃ old ∈ state.inflight, entry.item=old.item := by
  obtain ⟨old,hold,rfl⟩ := List.mem_map.mp h
  exact ⟨old,hold,rfl⟩

theorem cancelTokens_empty {selected : InFlight → Bool} (h : state.inflight=[]) :
    (cancelTokens selected state).inflight=[] := by
  rw [cancelTokens,h]
  rfl

/-- What the coordinator knows stays true while flight and queue only shrink and the rows
either stay or do not matter. -/
theorem Place.shrink (h : Place r s) (hplace : s'.coordinator=s.coordinator)
    (hqueue : s'.state.queue.length ≤ s.state.queue.length)
    (hinflight : ∀ entry ∈ s'.state.inflight, ∃ old ∈ s.state.inflight, entry.item=old.item)
    (hrows : s.state.inflight=[] → s'.rows=s.rows) : Place r s' := by
  have hnone : s.state.inflight=[] → s'.state.inflight=[] := by
    intro hempty
    rw [List.eq_nil_iff_forall_not_mem]
    intro entry hentry
    obtain ⟨old,hold,-⟩ := hinflight entry hentry
    rw [hempty] at hold
    cases hold
  unfold Place at h ⊢
  rw [hplace]
  cases hc : s.coordinator with
  | finding stopping excluded =>
    rw [hc] at h
    exact h
  | fetching stopping noFinished excluded =>
    rw [hc] at h
    refine ⟨h.1,hqueue.trans_lt h.2.1,?_⟩
    intro entry hentry
    obtain ⟨old,hold,hitem⟩ := hinflight entry hentry
    rw [hitem]
    exact h.2.2 old hold
  | observing stopping work =>
    rw [hc] at h
    refine ⟨hqueue.trans_lt h.1,?_⟩
    intro entry hentry
    obtain ⟨old,hold,hitem⟩ := hinflight entry hentry
    rw [hitem]
    exact h.2 old hold
  | queueing work answer =>
    rw [hc] at h
    refine ⟨hqueue.trans_lt h.1,?_⟩
    intro entry hentry
    obtain ⟨old,hold,hitem⟩ := hinflight entry hentry
    rw [hitem]
    exact h.2 old hold
  | verifying =>
    rw [hc] at h
    exact hnone h
  | cleaning =>
    rw [hc] at h
    refine ⟨hnone h.1,?_⟩
    rw [hrows h.1]
    exact h.2
  | closing =>
    rw [hc] at h
    refine ⟨hnone h.1,?_⟩
    rw [hrows h.1]
    exact h.2
  | _ => exact trivial

/-- An iteration of a report changes tokens and rows only. -/
theorem persist_frame (a : Answer) (report : Report) (phase : Phase) (s : System) :
    (persist r a report phase s).2.coordinator=s.coordinator ∧
    (persist r a report phase s).2.workers=s.workers ∧
    (persist r a report phase s).2.metadataOwner=s.metadataOwner ∧
    ((persist r a report phase s).2.state=s.state ∨ ∃ selected,
      (persist r a report phase s).2.state=cancelTokens selected s.state) := by
  refine ⟨rfl,rfl,rfl,?_⟩
  unfold persist
  dsimp only
  split
  · exact .inr ⟨_,rfl⟩
  · exact .inl rfl

theorem Exact.cancelTokens (h : Exact r s) (selected : InFlight → Bool) :
    Exact r {s with state := cancelTokens selected s.state} :=
  h.same rfl rfl (cancelTokens_items selected s.state) rfl rfl

/-- An iteration of a report keeps what is in flight, queued and held. -/
theorem Exact.persist (h : Exact r s) (a : Answer) (report : Report) (phase : Phase) :
    Exact r (persist r a report phase s).2 := by
  obtain ⟨-,hworkers,-,hstate⟩ := persist_frame (r:=r) a report phase s
  have hheld : (JobScheduler.persist r a report phase s).2.held=s.held := by
    rw [System.held,hworkers,System.held]
  rcases hstate with he | ⟨selected,he⟩
  · refine h.same (congrArg List.length hworkers) hheld ?_ ?_ ?_
    · rw [he]
    · rw [he]
    · rw [he]
  · refine h.same (congrArg List.length hworkers) hheld ?_ ?_ ?_
    · rw [he]
      exact cancelTokens_items selected s.state
    · rw [he]
      rfl
    · rw [he]
      rfl

variable {work : WorkItem}

theorem Exact.queueing (h : Exact r s) {cancelled : Bool}
    (hqueue : s.state.queue.length<r.config.queueCapacity)
    (hfresh : ∀ entry ∈ s.state.inflight, entry.item≠work.item.identity.id)
    (coordinator : Coordinator) :
    Exact r {s with
      state := {s.state with
        inflight := s.state.inflight++
          [⟨work.item.identity.id,work.operation.identity.id,cancelled⟩]
        queue := s.state.queue++[work]}
      coordinator := coordinator} := by
  constructor
  · exact h.threads
  · rw [List.map_append,List.nodup_append]
    refine ⟨h.distinct,List.nodup_singleton _,?_⟩
    intro item hitem other hother heq
    obtain ⟨entry,hentry,rfl⟩ := List.mem_map.mp hitem
    rw [List.map_singleton,List.mem_singleton] at hother
    exact hfresh entry hentry (heq.trans hother)
  · have howned := h.owned
    simp only [itemIds,List.map_append,List.map_cons,List.map_nil] at howned ⊢
    rw [List.append_assoc]
    refine (howned.append_right _).trans ?_
    rw [List.append_assoc]
    exact List.Perm.append_left _ List.perm_append_comm
  · exact h.running
  · dsimp only
    rw [List.length_append,List.length_singleton]
    omega

theorem Exact.coordinatorStep (h : Exact r s) (hplace : Place r s) (a : Answer) :
    Exact r (coordinatorStep r a s) := by
  have hkeep : ∀ {s' : System}, s'.workers=s.workers →
      s'.state.inflight=s.state.inflight → s'.state.queue=s.state.queue →
      s'.state.running=s.state.running → Exact r s' := by
    intro s' hworkers hinflight hqueue hrunning
    refine h.same (congrArg List.length hworkers) ?_ (by rw [hinflight]) hqueue hrunning
    rw [System.held,hworkers,System.held]
  unfold JobScheduler.coordinatorStep
  cases hc : s.coordinator with
  | startup =>
    dsimp only
    split <;> exact hkeep rfl rfl rfl rfl
  | top => exact hkeep rfl rfl rfl rfl
  | intake =>
    dsimp only
    split <;> exact hkeep rfl rfl rfl rfl
  | taken start id stopping =>
    dsimp only
    split <;> exact hkeep rfl rfl rfl rfl
  | admitting start at_ unknown id stopping =>
    dsimp only
    split
    · split <;> exact hkeep rfl rfl rfl rfl
    · exact hkeep rfl rfl rfl rfl
  | acknowledging start accepted id stopping => exact hkeep rfl rfl rfl rfl
  | cancelling id stopping =>
    cases id with
    | none => exact hkeep rfl rfl rfl rfl
    | some id => exact hkeep rfl rfl rfl rfl
  | cancellingAll => exact hkeep rfl rfl rfl rfl
  | saving stopping =>
    dsimp only
    split <;> exact hkeep rfl rfl rfl rfl
  | checking stopping =>
    exact (h.cancelTokens _).same rfl rfl rfl rfl rfl
  | excluding stopping => exact hkeep rfl rfl rfl rfl
  | finding stopping excluded => exact hkeep rfl rfl rfl rfl
  | reporting report phase =>
    exact (h.persist a report phase).same rfl rfl rfl rfl rfl
  | counting stopping noFinished => exact hkeep rfl rfl rfl rfl
  | fetching stopping noFinished excluded =>
    dsimp only
    split <;> exact hkeep rfl rfl rfl rfl
  | observing stopping work =>
    dsimp only
    split <;> exact hkeep rfl rfl rfl rfl
  | queueing work answer =>
    rw [Place,hc] at hplace
    dsimp only
    split
    · exact hkeep rfl rfl rfl rfl
    · exact h.queueing hplace.1 hplace.2 .top
  | draining stopping noFinished empty => exact hkeep rfl rfl rfl rfl
  | verifying => exact hkeep rfl rfl rfl rfl
  | cleaning =>
    dsimp only
    split
    · exact hkeep rfl rfl rfl rfl
    · exact hkeep rfl rfl rfl rfl
    · exact h
  | closing => exact hkeep rfl rfl rfl rfl
  | returned => exact h

theorem firstBy_mem {α : Type} {before : α → α → Bool} {rows : List α} {row : α}
    (h : firstBy before rows=some row) : row ∈ rows := by
  induction rows generalizing row with
  | nil => cases h
  | cons first rows ih =>
    rw [firstBy] at h
    cases hr : firstBy before rows with
    | none =>
      rw [hr] at h
      cases h
      exact List.mem_cons_self
    | some other =>
      rw [hr] at h
      have hother := ih hr
      cases h
      split
      · exact List.mem_cons_self
      · exact List.mem_cons_of_mem _ hother

/-- A query without a result has no rows. -/
theorem firstBy_none {α : Type} {before : α → α → Bool} {rows : List α}
    (h : firstBy before rows=none) : rows=[] := by
  cases rows with
  | nil => rfl
  | cons first rows =>
    rw [firstBy] at h
    split at h <;> cases h

variable {excluded : List ℤ} {d : Database}

theorem pendingItems_found {operation : OperationHeader} {item : OperationItem}
    (h : (operation,item) ∈ pendingItems d excluded) :
    item ∈ d.items ∧ lookup (·.identity.id) item.operationId d.operations=some operation ∧
      isTerminal operation.state=false ∧ item.state=.pending ∧
      item.identity.id ∉ excluded := by
  obtain ⟨row,hrow,h⟩ := List.mem_filterMap.mp h
  obtain ⟨parent,hparent,h⟩ := Option.bind_eq_some_iff.mp h
  split at h
  · next hc =>
    cases h
    simp only [Bool.and_eq_true,Bool.not_eq_true',decide_eq_true_eq,
      List.contains_eq_mem,decide_eq_false_iff_not] at hc
    exact ⟨hrow,hparent,hc.1.1,hc.1.2,hc.2⟩
  · cases h

variable {lost : Bool}

theorem nextPending_found (h : nextPending r lost excluded d=.known (some work)) :
    ∃ operation item, (operation,item) ∈ pendingItems d excluded ∧
      work.operation=operation.immutableScope ∧
      itemOf d operation.identity.id item.identity.id=some work.item := by
  unfold nextPending at h
  split at h
  · cases h
  split at h
  · cases h
  split at h
  · cases h
  next operation item hfirst =>
  refine ⟨operation,item,firstBy_mem hfirst,?_⟩
  split at h
  · next v hv =>
    split at h
    · next found hfound =>
      cases h
      obtain ⟨hop,hitem,-⟩ := view_some hv
      obtain ⟨-,hparent,-⟩ := pendingItems_found (firstBy_mem hfirst)
      have hmem := lookup_mem hparent
      rw [hmem.2] at hop
      rw [hparent] at hop
      cases hop
      exact ⟨rfl,hitem.symm.trans hfound⟩
    · cases h
  · cases h

theorem nextPending_fresh (h : nextPending r lost excluded d=.known (some work)) :
    work.item.identity.id ∉ excluded := by
  obtain ⟨operation,item,hmem,-,hitem⟩ := nextPending_found h
  have hid : work.item.identity.id=item.identity.id := (lookup_mem hitem).2
  rw [hid]
  exact (pendingItems_found hmem).2.2.2.2

theorem readyToFinish_none {excluded : List String} (h : readyToFinish lost excluded d=.known none)
    :
    finishable d excluded=[] := by
  unfold readyToFinish at h
  split at h
  · cases h
  split at h
  · cases h
  split at h
  · next hfirst => exact firstBy_none hfirst
  · split at h <;> cases h

theorem Place.coordinatorStep (h : Exact r s) (hplace : Place r s) (a : Answer) :
    Place r (coordinatorStep r a s) := by
  unfold JobScheduler.coordinatorStep
  cases hc : s.coordinator with
  | startup =>
    dsimp only
    split
    · exact trivial
    all_goals
      try rw [Place,hc]
      exact trivial
  | top =>
    dsimp only
    split <;> exact trivial
  | intake =>
    dsimp only
    split <;> exact trivial
  | taken start id stopping =>
    dsimp only
    split <;> exact trivial
  | admitting start at_ unknown id stopping =>
    dsimp only
    split
    · split
      · exact trivial
      · exact trivial
      · rw [Place,hc]
        exact trivial
    · cases (createJob r.session a.call start.input at_ s.rows).1 <;> exact trivial
  | acknowledging start accepted id stopping => exact trivial
  | cancelling id stopping =>
    cases id with
    | none =>
      dsimp only [afterCancel]
      split <;> exact trivial
    | some id =>
      dsimp only [afterCancel]
      cases (requestCancel a.call id s.rows).1 <;> cases stopping <;> exact trivial
  | cancellingAll =>
    dsimp only
    split <;> exact trivial
  | saving stopping =>
    dsimp only
    split <;> exact trivial
  | checking stopping => exact trivial
  | excluding stopping =>
    change (s.state.inflight.map (·.operation)).length ≤ maxExclusions
    rw [List.length_map]
    exact h.excluded_le
  | finding stopping excluded =>
    dsimp only
    split <;> exact trivial
  | reporting report phase =>
    dsimp only
    split <;> exact trivial
  | counting stopping noFinished =>
    dsimp only
    split
    · next hlt =>
      refine ⟨?_,hlt,?_⟩
      · rw [List.length_map]
        exact h.excluded_le
      · intro entry hentry
        exact List.mem_map_of_mem hentry
    · exact trivial
  | fetching stopping noFinished excluded =>
    rw [Place,hc] at hplace
    dsimp only
    split
    · next work hnext =>
      refine ⟨hplace.2.1,?_⟩
      intro entry hentry heq
      exact nextPending_fresh hnext (heq ▸ hplace.2.2 entry hentry)
    · exact trivial
    · exact trivial
  | observing stopping work =>
    rw [Place,hc] at hplace
    dsimp only
    split
    · exact hplace
    · exact trivial
  | queueing work answer =>
    dsimp only
    split <;> exact trivial
  | draining stopping noFinished empty =>
    dsimp only
    split
    · next hd =>
      simp only [Bool.and_eq_true,List.isEmpty_iff] at hd
      exact hd.1.2
    · exact trivial
  | verifying =>
    rw [Place,hc] at hplace
    dsimp only
    split
    · next hready => exact ⟨hplace,readyToFinish_none hready⟩
    · exact trivial
  | cleaning =>
    have hcleaning := hplace
    rw [Place,hc] at hcleaning
    dsimp only
    split
    · exact hcleaning
    · exact hcleaning
    · exact hplace
  | closing => exact trivial
  | returned =>
    rw [Place,hc]
    exact trivial

variable {index : ℕ} {worker : Worker}

theorem held_setWorker (hworker : s.workers[index]?=some worker) :
    ∃ others, s.held.Perm (worker.held.toList++others) ∧
      ∀ next, (s.setWorker index next).held.Perm (next.held.toList++others) := by
  have hfilter : ∀ (w : Worker) (ws : List Worker),
      (w::ws).filterMap Worker.held=w.held.toList++ws.filterMap Worker.held := by
    intro w ws
    rw [List.filterMap_cons]
    cases w.held <;> rfl
  obtain ⟨hlt,hget⟩ := List.getElem?_eq_some_iff.mp hworker
  refine ⟨(s.workers.eraseIdx index).filterMap Worker.held,?_,?_⟩
  · rw [←hfilter,System.held,←hget]
    exact (List.getElem_cons_eraseIdx_perm hlt).symm.filterMap _
  · intro next
    rw [←hfilter]
    exact (List.set_perm_cons_eraseIdx hlt next).filterMap _

theorem Exact.setWorker (h : Exact r s) (hworker : s.workers[index]?=some worker) (next : Worker)
    (hheld : next.held=worker.held) (hworkers : s'.workers=s.workers.set index next)
    (hinflight : s'.state.inflight.map (·.item)=s.state.inflight.map (·.item))
    (hqueue : s'.state.queue=s.state.queue) (hrunning : s'.state.running=s.state.running) :
    Exact r s' := by
  obtain ⟨others,hbefore,hafter⟩ := held_setWorker hworker
  have hsame : s'.held.Perm s.held := by
    have hset : s'.held=(s.setWorker index next).held := by
      rw [System.held,hworkers]
      rfl
    rw [hset]
    refine (hafter next).trans ?_
    rw [hheld]
    exact hbefore.symm
  constructor
  · rw [hworkers,List.length_set]
    exact h.threads
  · rw [hinflight]
    exact h.distinct
  · rw [hinflight,hqueue]
    exact h.owned.trans ((hsame.symm.append_left _).map _)
  · rw [hrunning,hsame.length_eq]
    exact h.running
  · rw [hqueue]
    exact h.queued

theorem Exact.takeItem (h : Exact r s) (hworker : s.workers[index]?=some .idle) (a : Answer) :
    Exact r (takeItem a s index) := by
  unfold JobScheduler.takeItem
  split
  · exact h.setWorker hworker (.returned none) rfl rfl rfl rfl rfl
  split
  · exact h
  next work queue hqueue =>
  dsimp only
  split
  · obtain ⟨others,hbefore,hafter⟩ := held_setWorker hworker
    have hheld := (hafter (.starting work a.now false)).trans (hbefore.symm.cons work)
    constructor
    · change (s.workers.set index (.starting work a.now false)).length=r.config.workers
      rw [List.length_set]
      exact h.threads
    · rw [cancelTokens_items]
      exact h.distinct
    · rw [cancelTokens_items]
      refine h.owned.trans (List.Perm.map _ ?_)
      rw [hqueue]
      exact (List.perm_middle.symm).trans (hheld.symm.append_left queue)
    · change s.state.running+1=_
      rw [h.running]
      exact hheld.length_eq.symm
    · have hle := h.queued
      rw [hqueue,List.length_cons] at hle
      change queue.length≤_
      omega
  · next hnone =>
    have hmem : work.item.identity.id ∈ s.state.inflight.map (·.item) := by
      rw [h.owned.mem_iff,hqueue]
      exact List.mem_cons_self
    obtain ⟨entry,hentry,hitem⟩ := List.mem_map.mp hmem
    exact absurd (List.any_eq_true.mpr ⟨entry,hentry,decide_eq_true hitem⟩) hnone

/-- A released item leaves the flight with its holder. -/
theorem Exact.release (h : Exact r s) (hworker : s.workers[index]?=some (.releasing work)) :
    1 ≤ s.state.running ∧ Exact r ((release s work).setWorker index .idle) := by
  obtain ⟨others,hbefore,hafter⟩ := held_setWorker hworker
  have hidle : ((JobScheduler.release s work).setWorker index .idle).held.Perm others :=
    hafter .idle
  have hlength : s.state.running=others.length+1 := by
    rw [h.running,hbefore.length_eq]
    rfl
  have howned : (s.state.inflight.map (·.item)).Perm
      (work.item.identity.id::itemIds (s.state.queue++others)) :=
    h.owned.trans (((hbefore.append_left _).trans List.perm_middle).map _)
  have hnot : work.item.identity.id ∉ itemIds (s.state.queue++others) :=
    (List.nodup_cons.mp (howned.nodup_iff.mp h.distinct)).1
  have hfilter : (s.state.inflight.filter fun entry => entry.item≠work.item.identity.id).map
      (·.item)=(s.state.inflight.map (·.item)).filter fun id => id≠work.item.identity.id := by
    rw [List.filter_map]
    rfl
  refine ⟨by omega,?_⟩
  constructor
  · change (s.workers.set index .idle).length=r.config.workers
    rw [List.length_set]
    exact h.threads
  · change ((s.state.inflight.filter fun entry => entry.item≠work.item.identity.id).map
      (·.item)).Nodup
    rw [hfilter]
    exact h.distinct.filter _
  · change ((s.state.inflight.filter fun entry => entry.item≠work.item.identity.id).map
      (·.item)).Perm _
    rw [hfilter]
    refine (howned.filter _).trans ?_
    rw [List.filter_cons_of_neg (by simp),List.filter_eq_self.mpr]
    · exact (hidle.symm.append_left _).map _
    · intro id hid
      refine decide_eq_true ?_
      intro heq
      exact hnot (heq ▸ hid)
  · change s.state.running-1=_
    rw [hidle.length_eq]
    omega
  · exact h.queued

theorem Exact.workerStep (h : Exact r s) (hworker : s.workers[index]?=some worker) (a : Answer) :
    Exact r (workerStep r a s index worker) := by
  unfold JobScheduler.workerStep
  cases worker with
  | idle => exact h.takeItem hworker a
  | starting work at_ unknown =>
    dsimp only
    split
    · split
      · exact h.setWorker hworker (.started work) rfl rfl rfl rfl rfl
      · exact h.setWorker hworker (.starting work at_ false) rfl rfl rfl rfl rfl
      · exact h.setWorker hworker (.releasing work) rfl rfl rfl rfl rfl
      · exact h
    · refine h.setWorker hworker _ ?_ rfl rfl rfl rfl
      cases (startItem r.session a.call work at_ s.rows).1 <;> rfl
  | started work =>
    dsimp only
    split
    · split
      · exact h.setWorker hworker (.compensating work (executionOf a s work).report)
          rfl rfl rfl rfl rfl
      · exact h.setWorker hworker (.returned (some work)) rfl rfl rfl rfl rfl
    · exact h.setWorker hworker (beginReport r a work _ _) rfl rfl rfl rfl rfl
  | compensating work report =>
    dsimp only
    split
    · exact h.setWorker hworker (beginReport r a work report true) rfl rfl rfl rfl rfl
    · exact h
  | reporting work report phase resources =>
    obtain ⟨-,hworkers,-,-⟩ := persist_frame (r:=r) a report phase s
    have hpersisted := h.persist a report phase
    refine hpersisted.setWorker ((congrArg (·[index]?) hworkers).trans hworker) _ ?_ rfl rfl
      rfl rfl
    split <;> rfl
  | settling work resources =>
    dsimp only
    split
    · exact h
    · exact h.setWorker hworker (.releasing work) rfl rfl rfl rfl rfl
  | releasing work => exact (h.release hworker).2
  | returned kept => exact h

theorem workerStep_frame (a : Answer) (s : System) (index : ℕ) (worker : Worker) :
    (workerStep r a s index worker).coordinator=s.coordinator ∧
    (workerStep r a s index worker).state.queue.length ≤ s.state.queue.length ∧
    (∀ entry ∈ (workerStep r a s index worker).state.inflight,
      ∃ old ∈ s.state.inflight, entry.item=old.item) ∧
    (worker.held=none → (workerStep r a s index worker).rows=s.rows) := by
  have hsame : ∀ {next : List InFlight}, next=s.state.inflight →
      ∀ entry ∈ next, ∃ old ∈ s.state.inflight, entry.item=old.item := by
    intro next hnext entry hentry
    exact ⟨entry,hnext ▸ hentry,rfl⟩
  unfold workerStep
  cases worker with
  | idle =>
    dsimp only
    unfold takeItem
    split
    · exact ⟨rfl,le_refl _,hsame rfl,fun _ => rfl⟩
    split
    · exact ⟨rfl,le_refl _,hsame rfl,fun _ => rfl⟩
    next work queue hqueue =>
    have hle : queue.length ≤ s.state.queue.length := by
      rw [hqueue,List.length_cons]
      omega
    dsimp only
    split
    · refine ⟨rfl,hle,?_,fun _ => rfl⟩
      intro entry hentry
      have hold := cancelTokens_entry hentry
      exact hold
    · exact ⟨rfl,hle,hsame rfl,fun _ => rfl⟩
  | starting work at_ unknown =>
    dsimp only
    split
    · split <;> exact ⟨rfl,le_refl _,hsame rfl,fun _ => rfl⟩
    · exact ⟨rfl,le_refl _,hsame rfl,fun hn => nomatch hn⟩
  | started work =>
    dsimp only
    split
    · split <;> exact ⟨rfl,le_refl _,hsame rfl,fun _ => rfl⟩
    · exact ⟨rfl,le_refl _,hsame rfl,fun _ => rfl⟩
  | compensating work report =>
    dsimp only
    split <;> exact ⟨rfl,le_refl _,hsame rfl,fun _ => rfl⟩
  | reporting work report phase resources =>
    obtain ⟨-,-,-,hstate⟩ := persist_frame (r:=r) a report phase s
    rcases hstate with he | ⟨selected,he⟩
    · refine ⟨rfl,le_of_eq (congrArg (·.queue.length) he),?_,fun hn => nomatch hn⟩
      exact hsame (congrArg (·.inflight) he)
    · refine ⟨rfl,le_of_eq (congrArg (·.queue.length) he),?_,fun hn => nomatch hn⟩
      intro entry hentry
      exact cancelTokens_entry ((congrArg (entry ∈ ·.inflight) he).mp hentry)
  | settling work resources =>
    dsimp only
    split <;> exact ⟨rfl,le_refl _,hsame rfl,fun _ => rfl⟩
  | releasing work =>
    refine ⟨rfl,le_refl _,?_,fun hn => nomatch hn⟩
    intro entry hentry
    exact ⟨entry,(List.mem_filter.mp hentry).1,rfl⟩
  | returned kept => exact ⟨rfl,le_refl _,hsame rfl,fun _ => rfl⟩

theorem Place.workerStep (h : Exact r s) (hplace : Place r s)
    (hworker : s.workers[index]?=some worker) (a : Answer) :
    Place r (workerStep r a s index worker) := by
  obtain ⟨hcoordinator,hqueue,hinflight,hrows⟩ := workerStep_frame (r:=r) a s index worker
  refine hplace.shrink hcoordinator hqueue hinflight ?_
  intro hnone
  apply hrows
  cases hheld : worker.held with
  | none => rfl
  | some work =>
    have hmem : work ∈ s.held :=
      List.mem_filterMap.mpr ⟨worker,List.mem_of_getElem? hworker,hheld⟩
    rw [(h.empty hnone).2] at hmem
    cases hmem

theorem accepted_frame {command : Except Refusal State}
    (hcommand : ∀ state, command=.ok state → state.queue=s.state.queue ∧
      state.running=s.state.running ∧
      (state.inflight=s.state.inflight ∨
        ∃ selected, state.inflight=(cancelTokens selected s.state).inflight)) (h : Exact r s)
    (hplace : Place r s) : Exact r (accepted s command) ∧ Place r (accepted s command) := by
  cases hc : command with
  | error refusal => exact ⟨h,hplace⟩
  | ok state =>
    obtain ⟨hqueue,hrunning,hinflight⟩ := hcommand state hc
    have hitems : state.inflight.map (·.item)=s.state.inflight.map (·.item) := by
      rcases hinflight with he | ⟨selected,he⟩
      · rw [he]
      · rw [he]
        exact cancelTokens_items selected s.state
    refine ⟨h.same rfl rfl hitems hqueue hrunning,
      hplace.shrink rfl (le_of_eq (congrArg List.length hqueue)) ?_ fun _ => rfl⟩
    intro entry hentry
    have hmem : entry.item ∈ state.inflight.map (·.item) := List.mem_map_of_mem hentry
    rw [hitems] at hmem
    obtain ⟨old,hold,heq⟩ := List.mem_map.mp hmem
    exact ⟨old,hold,heq.symm⟩

theorem tryStart_ok {contended : Bool} {start : Start} {state' : State}
    (h : tryStart contended start state=.ok state') :
    state'={state with ingress := some start} ∧ state.ready=true ∧ state.admitting=false ∧
      state.ingress=none ∧ state.admission=none ∧ state.stopping=false ∧ state.done=false := by
  unfold tryStart at h
  split_ifs at h with h1 h2 h3
  simp only [Bool.or_eq_true,not_or,Bool.not_eq_true,Option.isSome_eq_false_iff,
    Option.isNone_iff_eq_none,Bool.not_eq_false'] at h2 h3
  cases h
  exact ⟨rfl,h3.1.1.1,h3.1.1.2,h3.1.2,h3.2,h2.1,h2.2⟩

/-- What an accepted cancellation changes. -/
theorem cancel_ok {contended : Bool} {id : String} {state' : State}
    (h : cancel contended id state=.ok state') :
    state'={cancelTokens (fun entry => entry.operation=id) state with cancel := some id} := by
  unfold cancel at h
  split_ifs at h
  cases h
  rfl

theorem step_dispatched (r : Runtime) (s : System) (event : Event)
    (h : Exact r s ∧ Place r s) : Exact r (step r s event) ∧ Place r (step r s event) := by
  cases event with
  | tryStart contended start =>
    refine accepted_frame ?_ h.1 h.2
    intro state hok
    obtain ⟨rfl,-⟩ := tryStart_ok hok
    exact ⟨rfl,rfl,.inl rfl⟩
  | takeAdmission =>
    have hframe := @accepted_frame r s (.ok (takeAdmission s.state).2)
    refine hframe ?_ h.1 h.2
    intro state hok
    cases hok
    exact ⟨rfl,rfl,.inl rfl⟩
  | cancel contended id =>
    refine accepted_frame ?_ h.1 h.2
    intro state hok
    rw [cancel_ok hok]
    exact ⟨rfl,rfl,.inr ⟨_,rfl⟩⟩
  | shutdown =>
    have hframe := @accepted_frame r s (.ok (shutdown s.state))
    refine hframe ?_ h.1 h.2
    intro state hok
    cases hok
    exact ⟨rfl,rfl,.inr ⟨_,rfl⟩⟩
  | coordinator a => exact ⟨h.1.coordinatorStep h.2 a,h.2.coordinatorStep h.1 a⟩
  | worker index a =>
    cases hworker : s.workers[index]? with
    | none =>
      simp only [step,hworker]
      exact h
    | some worker =>
      simp only [step,hworker]
      exact ⟨h.1.workerStep hworker a,Place.workerStep h.1 h.2 hworker a⟩

theorem new_dispatched (r : Runtime) (rows : Database) :
    Exact r (System.new r rows) ∧ Place r (System.new r rows) := by
  have hheld : (System.new r rows).held=[] := by
    rw [System.held,List.filterMap_eq_nil_iff]
    intro worker hmem
    rw [List.eq_of_mem_replicate hmem]
    rfl
  refine ⟨?_,trivial⟩
  constructor
  · exact List.length_replicate
  · exact List.nodup_nil
  · rw [hheld]
    exact List.Perm.nil
  · rw [hheld]
    rfl
  · exact Nat.zero_le _

theorem run_dispatched (r : Runtime) (rows : Database) (events : List Event) :
    Exact r (run r (System.new r rows) events) ∧ Place r (run r (System.new r rows) events) :=
  RunConditions.foldl_invariant (step_dispatched r) events _ (new_dispatched r rows)

theorem nextPending_answered (h : excluded.length ≤ maxExclusions) :
    nextPending r lost excluded d≠.rejected := by
  unfold nextPending
  rw [if_neg (Nat.not_lt.mpr h)]
  intro hrejected
  split at hrejected
  · cases hrejected
  split at hrejected
  · cases hrejected
  split at hrejected
  · split at hrejected <;> cases hrejected
  · cases hrejected

theorem readyToFinish_answered {excluded : List String} (h : excluded.length ≤ maxExclusions) :
    readyToFinish lost excluded d≠.rejected := by
  unfold readyToFinish
  rw [if_neg (Nat.not_lt.mpr h)]
  intro hrejected
  split at hrejected
  · cases hrejected
  split at hrejected
  · cases hrejected
  · split at hrejected <;> cases hrejected

/-- What dispatching items exactly means of a state. -/
structure Dispatch (r : Runtime) (s : System) : Prop where
  distinct : (s.state.inflight.map (·.item)).Nodup
  /-- They are exactly the items in the queue together with those the workers hold. -/
  owned : (s.state.inflight.map (·.item)).Perm (itemIds (s.state.queue++s.held))
  running : s.state.running=s.held.length
  released : ∀ (index : ℕ) work, s.workers[index]?=some (.releasing work) → 1 ≤ s.state.running
  queue : s.state.queue.length≤2*r.config.workers
  /-- Three times the workers bound the flight. -/
  inflight : s.state.inflight.length≤3*r.config.workers ∧ 3*r.config.workers ≤ maxExclusions
  /-- No search for a pending item is rejected for its exclusions. -/
  fetching : ∀ stopping noFinished excluded lost,
    s.coordinator=.fetching stopping noFinished excluded →
      nextPending r lost excluded s.rows≠.rejected
  /-- No search for an operation to finish is rejected for its exclusions. -/
  finding : ∀ stopping excluded lost, s.coordinator=.finding stopping excluded →
    readyToFinish lost excluded s.rows≠.rejected
  held : (itemIds s.held).Nodup
  /-- When a drained session is closed nothing is queued, in flight or ready to finish. -/
  drained : s.coordinator=.closing →
    s.state.queue=[] ∧ s.state.inflight=[] ∧ finishable s.rows []=[]

theorem dispatch_exact (r : Runtime) (rows : Database) (events : List Event) :
    Dispatch r (run r (System.new r rows) events) := by
  obtain ⟨h,hplace⟩ := run_dispatched r rows events
  generalize run r (System.new r rows) events=s at h hplace
  have hqueue := h.queued
  have hworkers := r.config.bounded.2
  constructor
  · exact h.distinct
  · exact h.owned
  · exact h.running
  · intro index work hworker
    exact (h.release hworker).1
  · unfold Configuration.queueCapacity at hqueue
    omega
  · refine ⟨h.inflight_le,?_⟩
    unfold maxExclusions
    omega
  · intro stopping noFinished excluded lost hc
    rw [Place,hc] at hplace
    exact nextPending_answered hplace.1
  · intro stopping excluded lost hc
    rw [Place,hc] at hplace
    exact readyToFinish_answered hplace
  · have howned : (itemIds (s.state.queue++s.held)).Nodup := h.owned.nodup_iff.mp h.distinct
    rw [itemIds,List.map_append] at howned
    exact (List.nodup_append.mp howned).2.1
  · intro hc
    rw [Place,hc] at hplace
    exact ⟨(h.empty hplace.1).1,hplace.1,hplace.2⟩

end Librairii.JobDispatch
