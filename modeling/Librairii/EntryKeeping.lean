import Librairii.JobEntries
import Librairii.RunConditions

/-!
# Entries are kept as long as they are needed

An entry whose operation is neither undecided nor stored is left over. An export has its entry
removed with the receipt of its rejection; no step removes the one of a rejected import. As
long as no import is rejected after its start was taken in, nothing is left over, and both
tables are empty once everything is decided and terminal.
-/

namespace Librairii.EntryKeeping

open RowTables OperationRows OperationPolicy OperationCreation OperationStore OperationAccounting
  JobDispatch JobRows JobIntake JobExecutors JobEntries RunConditions JsonText
open JobScheduler hiding Event step run workerStep
open ExportStarts (Start StartEnv operationInput maxCommandBytes plainStart)
open ExportPreparation (Registry Prepared maxPrepared maxPreparedBytes)
open OperationReporting (exampleSession exampleSchema)

variable {env : ImportEnv} {r : Runtime} {w : World}

/-- An operation is undecided or stored. -/
def Pending (s : System) (id : String) : Prop :=
  (∃ start, Undecided s start ∧ start.input.id=id) ∨
    ∃ row, lookup (·.identity.id) id s.rows.operations=some row

/-- No entry is left over. -/
structure Settling (w : World) : Prop where
  batches : ∀ entry ∈ w.batches, Pending w.scheduler entry.1
  /-- The receipt of a rejected export removes its plan. -/
  plans : ∀ entry ∈ w.plans, Pending w.scheduler entry.1 ∨
    w.scheduler.state.admission=some ⟨entry.1,false⟩

def notRejected (w : World) : Event env → Prop
  | .coordinator _ => ∀ start id stopping,
      w.scheduler.coordinator=.acknowledging start false id stopping → start.input.kind≠.import
  | _ => True

theorem Pending.later {s s' : System} {id : String} (h : Pending s id)
    (hundecided : ∀ start, Undecided s start → Undecided s' start)
    (hrows : Later s.rows s'.rows) : Pending s' id := by
  rcases h with ⟨start,hu,hid⟩ | ⟨row,hrow⟩
  · exact .inl ⟨start,hundecided start hu,hid⟩
  · obtain ⟨row',hrow',-⟩ := hrows.operations _ row hrow
    exact .inr ⟨row',hrow'⟩

/-- A step that keeps the entries and what is undecided leaves nothing over. -/
theorem Settling.frame (h : Settling w) {w' : World}
    (hbatches : ∀ entry ∈ w'.batches, ∃ other ∈ w.batches, other.1=entry.1)
    (hplans : ∀ entry ∈ w'.plans, entry ∈ w.plans)
    (hundecided : ∀ start, Undecided w.scheduler start → Undecided w'.scheduler start)
    (hadmission : w'.scheduler.state.admission=w.scheduler.state.admission)
    (hrows : Later w.scheduler.rows w'.scheduler.rows) : Settling w' := by
  constructor
  · intro entry hentry
    obtain ⟨other,hother,hid⟩ := hbatches entry hentry
    exact hid ▸ (h.batches other hother).later hundecided hrows
  · intro entry hentry
    rcases h.plans entry (hplans entry hentry) with hp | hr
    · exact .inl (hp.later hundecided hrows)
    · exact .inr (hadmission.trans hr)

/-- A start that is taken in is the only undecided one. -/
theorem Settling.take (h : Settling w) (hi : Intake w.offered w.scheduler) {contended : Bool}
    {start : Start} {state : State} (hok : tryStart contended start w.scheduler.state=.ok state)
    {w' : World} (hscheduler : w'.scheduler={w.scheduler with state := state})
    (hbatches : ∀ entry ∈ w'.batches, entry ∈ w.batches ∨ entry.1=start.input.id)
    (hplans : ∀ entry ∈ w'.plans, entry ∈ w.plans ∨ entry.1=start.input.id) : Settling w' := by
  obtain ⟨rfl,-,hadmitting,hingress,hadmission,-⟩ := tryStart_ok hok
  have hnone : ∀ other, ¬Undecided w.scheduler other := by
    rintro other (hin | hde)
    · rw [hingress] at hin
      cases hin
    · have hsingle := (hi.single (by rw [hde]; exact fun he => nomatch he)).1
      rw [hadmitting] at hsingle
      cases hsingle
  have hold : ∀ {id : String}, Pending w.scheduler id → Pending w'.scheduler id := by
    intro id hp
    exact hp.later (fun other hu => absurd hu (hnone other)) (by
      rw [hscheduler]
      exact changes_later (@RowChanges.RowsChange.refl (fun _ => True) none w.scheduler.rows))
  have hnew : Pending w'.scheduler start.input.id := by
    rw [hscheduler]
    exact .inl ⟨start,.inl rfl,rfl⟩
  constructor
  · intro entry hentry
    rcases hbatches entry hentry with hin | hid
    · exact hold (h.batches entry hin)
    · rw [hid]
      exact hnew
  · intro entry hentry
    left
    rcases hplans entry hentry with hin | hid
    · rcases h.plans entry hin with hp | hr
      · exact hold hp
      · rw [hadmission] at hr
        cases hr
    · rw [hid]
      exact hnew

theorem Settling.coordinatorStep (h : Settling w) (hs : Sound env r w) (a : Answer)
    (hrejected : notRejected w (.coordinator a : Event env)) :
    Settling {w with scheduler := coordinatorStep r a w.scheduler} := by
  have hlater := step_later r w.scheduler (.coordinator a)
  have hpending : ∀ {id : String}, Pending w.scheduler id →
      Pending (JobScheduler.coordinatorStep r a w.scheduler) id ∨
      ∃ start stop stopping, Undecided w.scheduler start ∧ start.input.id=id ∧
        w.scheduler.coordinator=.acknowledging start false stop stopping ∧
        (JobScheduler.coordinatorStep r a w.scheduler).state.admission=some ⟨id,false⟩ := by
    rintro id (⟨start,hu,hid⟩ | ⟨row,hrow⟩)
    · rcases coordinatorStep_decided (r:=r) hs.intake a hu with
        hagain | hstored | ⟨stop,stopping,hc,hadmission⟩
      · exact .inl (.inl ⟨start,hagain,hid⟩)
      · rw [hid] at hstored
        exact .inl (.inr hstored)
      · rw [hid] at hadmission
        exact .inr ⟨start,stop,stopping,hu,hid,hc,hadmission⟩
    · obtain ⟨row',hrow',-⟩ := hlater.operations _ row hrow
      exact .inl (.inr ⟨row',hrow'⟩)
  constructor
  · intro entry hentry
    rcases hpending (h.batches entry hentry) with hp | ⟨start,stop,stopping,hu,hid,hc,-⟩
    · exact hp
    · obtain ⟨p,hp,hkey,-⟩ := hs.tables.batches entry hentry
      obtain ⟨hoffered,hsliced⟩ := hs.tables.picked p hp
      have hsame : p.start=start := List.inj_on_of_nodup_map hs.intake.keys hoffered
        (hs.intake.undecided start hu) (hkey.trans hid.symm)
      exact absurd (hsame ▸ hsliced.kind) (hrejected start stop stopping hc)
  · intro entry hentry
    rcases h.plans entry hentry with hp | hr
    · rcases hpending hp with hp | ⟨start,stop,stopping,-,-,-,hadmission⟩
      · exact .inl hp
      · exact .inr hadmission
    · right
      rcases coordinatorStep_intake (r:=r) a w.scheduler with
        ⟨-,-,hadmission⟩ | ⟨-,-,-,-,-,hadmission⟩ | ⟨start,accepted,stop,stopping,hc,-⟩
      · exact hadmission.trans hr
      · exact hadmission.trans hr
      · have hsingle := (hs.intake.single (by rw [hc]; exact fun he => nomatch he)).2.2
        rw [hr] at hsingle
        cases hsingle

theorem source_keys {batches batches' : List (String×Batch)} {work : WorkItem} {index : ℕ}
    {path : OperationPath} (h : JobExecutors.source batches work=some (index,path,batches')) :
    ∀ entry ∈ batches', ∃ other ∈ batches, other.1=entry.1 := by
  unfold JobExecutors.source at h
  simp only [Option.bind_eq_bind,Option.bind_eq_some_iff] at h
  obtain ⟨token,-,i,-,found,-,item,-,h⟩ := h
  split at h
  · cases h
  · simp only [Option.bind_eq_some_iff] at h
    obtain ⟨slot,-,taken,-,h⟩ := h
    cases h
    intro entry hentry
    obtain ⟨other,hother,rfl⟩ := List.mem_map.mp hentry
    refine ⟨other,hother,?_⟩
    split
    · next hid => exact hid
    · rfl

theorem workerStep_entries (w : World) (index : ℕ) (a : Answer) :
    (∀ entry ∈ (JobExecutors.workerStep r w index a).batches,
      ∃ other ∈ w.batches, other.1=entry.1) ∧
    (JobExecutors.workerStep r w index a).plans=w.plans := by
  have hsame : ∀ entry ∈ w.batches, ∃ other ∈ w.batches, other.1=entry.1 :=
    fun entry hentry => ⟨entry,hentry,rfl⟩
  have hexecute : ∀ work : WorkItem, (∀ entry ∈ (execute w work).1.batches,
      ∃ other ∈ w.batches, other.1=entry.1) ∧ (execute w work).1.plans=w.plans := by
    intro work
    unfold execute
    cases work.operation.kind with
    | metadataSync => exact ⟨hsame,rfl⟩
    | «import» =>
      dsimp only
      split
      · next hsource => exact ⟨source_keys hsource,rfl⟩
      · exact ⟨hsame,rfl⟩
    | «export» =>
      dsimp only
      split <;> exact ⟨hsame,rfl⟩
  unfold JobExecutors.workerStep
  cases w.scheduler.workers[index]? with
  | none => exact ⟨hsame,rfl⟩
  | some worker =>
    cases worker with
    | started work =>
      dsimp only
      split
      · exact ⟨hsame,rfl⟩
      · exact hexecute work
    | _ => exact ⟨hsame,rfl⟩

theorem step_settling (h : Settling w) (hs : Sound env r w) (event : Event env)
    (hrejected : notRejected w event) : Settling (step r w event) := by
  have hsame : Later w.scheduler.rows w.scheduler.rows :=
    changes_later (@RowChanges.RowsChange.refl (fun _ => True) none w.scheduler.rows)
  have hkept : ∀ entry ∈ w.batches, ∃ other ∈ w.batches, other.1=entry.1 :=
    fun entry hentry => ⟨entry,hentry,rfl⟩
  cases event with
  | pruneImports unread =>
    exact h.frame (fun entry hentry => ⟨entry,(List.mem_filter.mp hentry).1,rfl⟩)
      (fun _ he => he) (fun _ hu => hu) rfl hsame
  | pruneExports unread =>
    exact h.frame hkept (fun _ he => (List.mem_filter.mp he).1) (fun _ hu => hu) rfl hsame
  | offerImport contended prepared =>
    change Settling (offerImport contended prepared.toPreparation w).1
    rcases offerImport_cases contended prepared.toPreparation w with he | ⟨state,he,hok,-⟩
    · rw [he]
      exact h
    · rw [he]
      refine h.take hs.intake hok rfl ?_ fun _ hentry => .inl hentry
      intro entry hentry
      rcases List.mem_append.mp hentry with hold | hlast
      · exact .inl hold
      · rw [List.mem_singleton.mp hlast]
        exact .inr rfl
  | offerExport contended preparation id library intents revalidated =>
    change Settling (offerExport env.toStartEnv contended preparation id library intents
      revalidated w).1
    rcases @offerExport_cases env contended preparation id library intents revalidated w with
      ⟨exports,error,he⟩ | ⟨exports,plan,start,state,he,hok,hinput,-⟩
    · rw [he]
      exact h.frame hkept (fun _ hentry => hentry) (fun _ hu => hu) rfl hsame
    · rw [he]
      have hid := (operationInput_kind hinput).2
      refine h.take hs.intake hok rfl (fun _ hentry => .inl hentry) ?_
      intro entry hentry
      rcases List.mem_append.mp hentry with hold | hlast
      · exact .inl hold
      · rw [List.mem_singleton.mp hlast]
        exact .inr hid.symm
  | offerMetadata contended start =>
    change Settling (offerMetadata contended start w)
    unfold offerMetadata
    split
    · split
      · next state hok =>
        exact h.take hs.intake hok rfl (fun _ hentry => .inl hentry) fun _ hentry => .inl hentry
      · exact h
    · exact h
  | prepare call => exact h.frame hkept (fun _ hentry => hentry) (fun _ hu => hu) rfl hsame
  | observeJobs =>
    change Settling (JobExecutors.observeJobs w)
    have hpending : ∀ {id : String}, Pending w.scheduler id →
        Pending {w.scheduler with state := (takeAdmission w.scheduler.state).2} id :=
      fun hp => hp.later (fun _ hu => hu) hsame
    unfold JobExecutors.observeJobs
    dsimp only
    split
    · next admission hadmission =>
      change w.scheduler.state.admission=some admission at hadmission
      split
      · next haccepted =>
        refine ⟨fun entry hentry => hpending (h.batches entry hentry),?_⟩
        intro entry hentry
        rcases h.plans entry hentry with hp | hr
        · exact .inl (hpending hp)
        · rw [hadmission] at hr
          cases hr
          cases haccepted
      · refine ⟨fun entry hentry => hpending (h.batches entry hentry),?_⟩
        intro entry hentry
        obtain ⟨hentry,hother⟩ := List.mem_filter.mp hentry
        rcases h.plans entry hentry with hp | hr
        · exact .inl (hpending hp)
        · rw [hadmission] at hr
          cases hr
          exact absurd rfl (of_decide_eq_true hother)
    · next hadmission =>
      change w.scheduler.state.admission=none at hadmission
      refine ⟨fun entry hentry => hpending (h.batches entry hentry),?_⟩
      intro entry hentry
      rcases h.plans entry hentry with hp | hr
      · exact .inl (hpending hp)
      · rw [hadmission] at hr
        cases hr
  | cancel contended id =>
    change Settling {w with scheduler := JobScheduler.step r w.scheduler (.cancel contended id)}
    simp only [JobScheduler.step]
    cases hcancel : JobScheduler.cancel contended id w.scheduler.state with
    | error refusal => exact h
    | ok state =>
      rw [cancel_ok hcancel]
      exact h.frame hkept (fun _ hentry => hentry) (fun _ hu => hu) rfl hsame
  | shutdown => exact h.frame hkept (fun _ hentry => hentry) (fun _ hu => hu) rfl hsame
  | coordinator a => exact h.coordinatorStep hs a hrejected
  | worker index a =>
    obtain ⟨b,hscheduler,-⟩ := workerStep_scheduler (r:=r) w index a
    have hlater := step_later r w.scheduler (.worker index b)
    change Settling (JobExecutors.workerStep r w index a)
    rw [←hscheduler] at hlater
    have hframe : (JobExecutors.workerStep r w index a).scheduler.state.ingress=
        w.scheduler.state.ingress ∧
        (JobExecutors.workerStep r w index a).scheduler.state.admission=
          w.scheduler.state.admission ∧
        (JobExecutors.workerStep r w index a).scheduler.coordinator=w.scheduler.coordinator := by
      rw [hscheduler]
      cases hworker : w.scheduler.workers[index]? with
      | none =>
        simp only [JobScheduler.step,hworker,and_self]
      | some worker =>
        simp only [JobScheduler.step,hworker]
        obtain ⟨-,hingress,hadmission,-⟩ := workerStep_intake (r:=r) b w.scheduler index worker
        exact ⟨hingress,hadmission,(workerStep_frame (r:=r) b w.scheduler index worker).1⟩
    obtain ⟨hbatches,hplans⟩ := workerStep_entries (r:=r) w index a
    refine h.frame hbatches (fun entry hentry => hplans ▸ hentry) ?_ hframe.2.1 hlater
    rintro start (hin | hde)
    · exact .inl (hframe.1.trans hin)
    · exact .inr (hframe.2.2 ▸ hde)

/-- What keeping entries as long as they are needed means of a state. -/
structure Kept (env : ImportEnv) (w : World) : Prop where
  present : ∀ start ∈ w.offered, Needed w.scheduler start → Entry env w start
  keeping : ∀ entry ∈ w.batches, ∃ p ∈ w.picked, p.start.input.id=entry.1 ∧
    Keeping w.handed p entry.2
  /-- Only items of terminal operations lacked their entries. -/
  supplied : ∀ work ∈ w.lacking, terminal w.scheduler.rows work.operation.identity.id=true
  once : (w.handed.map fun h => (h.operation,h.index)).Nodup
  slots : ∀ h ∈ w.handed, ∃ p ∈ w.picked, p.start.input.id=h.operation ∧
    p.paths[h.index]?=some h.path ∧
    ∃ row, (itemsOf w.scheduler.rows h.operation)[h.index]?=some row ∧ row.identity.id=h.item
  /-- A refused import is returned as it was prepared, and nothing else changes. -/
  refusedImport : ∀ contended (prepared : PreparedImport env) error back,
    (offerImport contended prepared.toPreparation w).2=some (error,back) →
      back=prepared.toPreparation ∧ (offerImport contended prepared.toPreparation w).1=w
  /-- The plan of an export that the ingress refuses can be claimed again, and nothing else
  changes. -/
  refusedExport : ∀ contended preparation id library intents revalidated,
    (offerExport env.toStartEnv contended preparation id library intents revalidated w).2=
      .error .queueFull →
      ∃ plan exports, w.exports.prepared.find? (fun p => p.id=preparation)=some plan ∧
        exports.prepared.find? (fun p => p.id=preparation)=some plan ∧
        (offerExport env.toStartEnv contended preparation id library intents revalidated w).1=
          {w with exports := exports}
  /-- Once everything is decided and terminal, the next offer of either kind finds room. -/
  room : (∀ start, ¬Undecided w.scheduler start) → w.scheduler.state.admission=none →
    (∀ row ∈ w.scheduler.rows.operations, isTerminal row.state=true) →
    (∀ prepared : PreparedImport env,
      importRoom (step r w (.pruneImports fun _ => false : Event env)) prepared.toPreparation=
        true) ∧
    ∀ plan ∈ w.exports.prepared, ∀ id,
      exportRoom (step r w (.pruneExports fun _ => false : Event env)) plan id=true

theorem hasRoom_empty {α : Type} {limit budget bytes : ℕ} {bytesOf : α → ℕ} {id : String}
    (hlimit : 0<limit) (hbytes : bytes≤budget) : hasRoom limit budget bytesOf [] id bytes=true := by
  have hsum : 0+bytes≤budget := by omega
  unfold hasRoom
  simp [hlimit,hbytes]

theorem prune_terminal {α : Type} {rows : Database} {entries : List (String×α)}
    (hentries : ∀ entry ∈ entries,
      ∃ row, lookup (·.identity.id) entry.1 rows.operations=some row)
    (hterminal : ∀ row ∈ rows.operations, isTerminal row.state=true) :
    prune (fun _ => false) rows entries=[] := by
  unfold prune
  rw [List.filter_eq_nil_iff]
  intro entry hentry
  obtain ⟨row,hrow⟩ := hentries entry hentry
  unfold terminal
  rw [hrow,Option.any_some,hterminal row (lookup_mem hrow).1]
  exact Bool.false_ne_true

/-- What is sound and settling keeps entries as long as they are needed. -/
theorem kept_of (h : Sound env r w) (hs : Settling w) (hd : Distinct w.exports) :
    Kept (r:=r) env w := by
  refine ⟨h.tables.present,h.tables.batches,h.tables.lacking,h.tables.once,h.tables.handed,?_,?_,?_⟩
  · intro contended prepared error back hback
    rcases offerImport_cases contended prepared.toPreparation w with he | ⟨state,he,-⟩
    · rw [he] at hback ⊢
      cases hback
      exact ⟨rfl,rfl⟩
    · rw [he] at hback
      cases hback
  · intro contended preparation id library intents revalidated hfull
    exact (offerExport_registry hd contended preparation id library intents revalidated).2 hfull
  · intro hdecided hadmission hterminal
    have hstored : ∀ {id : String}, Pending w.scheduler id →
        ∃ row, lookup (·.identity.id) id w.scheduler.rows.operations=some row := by
      rintro id (⟨start,hu,-⟩ | hrow)
      · exact absurd hu (hdecided start)
      · exact hrow
    constructor
    · intro prepared
      have hempty : prune (fun _ => false) w.scheduler.rows w.batches=[] :=
        prune_terminal (fun entry hentry => hstored (hs.batches entry hentry)) hterminal
      change hasRoom maxBatches maxCommandBytes Batch.bytes
        (prune (fun _ => false) w.scheduler.rows w.batches) prepared.start.input.id prepared.bytes=
          true
      rw [hempty]
      exact hasRoom_empty (by decide) (preparation_sliced prepared.prepared).bytes
    · intro plan hplan id
      have hempty : prune (fun _ => false) w.scheduler.rows w.plans=[] := by
        refine prune_terminal (fun entry hentry => ?_) hterminal
        rcases hs.plans entry hentry with hp | hr
        · exact hstored hp
        · rw [hadmission] at hr
          cases hr
      change hasRoom maxPrepared maxPreparedBytes Prepared.bytes
        (prune (fun _ => false) w.scheduler.rows w.plans) id plan.bytes=true
      rw [hempty]
      exact hasRoom_empty (by decide) (hd.bytes plan hplan)

theorem step_distinct (h : Distinct w.exports) (event : Event env) :
    Distinct (step r w event).exports := by
  cases event with
  | offerImport contended prepared =>
    change Distinct (offerImport contended prepared.toPreparation w).1.exports
    rcases offerImport_cases contended prepared.toPreparation w with he | ⟨state,he,-⟩
    · rw [he]
      exact h
    · rw [he]
      exact h
  | offerExport contended preparation id library intents revalidated =>
    exact (offerExport_registry h contended preparation id library intents revalidated).1
  | offerMetadata contended start =>
    change Distinct (offerMetadata contended start w).exports
    unfold offerMetadata
    split
    · split <;> exact h
    · exact h
  | prepare call => exact call_distinct h call
  | observeJobs =>
    change Distinct (JobExecutors.observeJobs w).exports
    unfold JobExecutors.observeJobs
    dsimp only
    split
    · split <;> exact h
    · exact h
  | worker index a =>
    change Distinct (JobExecutors.workerStep r w index a).exports
    have hexecute : ∀ work : WorkItem, (execute w work).1.exports=w.exports := by
      intro work
      unfold execute
      cases work.operation.kind with
      | metadataSync => rfl
      | «import» =>
        dsimp only
        split <;> rfl
      | «export» =>
        dsimp only
        split <;> rfl
    unfold JobExecutors.workerStep
    cases w.scheduler.workers[index]? with
    | none => exact h
    | some worker =>
      cases worker with
      | started work =>
        dsimp only
        split
        · exact h
        · exact (hexecute work).symm ▸ h
      | _ => exact h
  | _ => exact h

/-- A session begins with empty tables. -/
theorem new_sound (env : ImportEnv) {r : Runtime} {rows : Database} (h : Accounted rows) :
    Sound env r (World.new r rows) ∧ Settling (World.new r rows) ∧
      Distinct (World.new r rows).exports := by
  obtain ⟨hexact,hplace,htracked⟩ := new_session r h
  refine ⟨⟨hexact,hplace,htracked,new_intake r rows,?_⟩,⟨?_,?_⟩,⟨?_,?_,?_⟩⟩
  · exact ⟨List.nodup_nil,List.nodup_nil,(fun _ hp => nomatch hp),List.nodup_nil,
      (fun _ hs => nomatch hs),(fun _ he => nomatch he),(fun _ he => nomatch he),
      (fun _ hs => nomatch hs),(fun _ hh => nomatch hh),List.nodup_nil,(fun _ hh => nomatch hh),
      (fun _ hh => nomatch hh),(fun _ hw => nomatch hw)⟩
  · exact fun _ he => nomatch he
  · exact fun _ he => nomatch he
  · exact List.nodup_nil
  · exact fun _ hp => nomatch hp
  · exact fun _ hp => nomatch hp

/-- A step takes in a start under a fresh id only, and rejects no import. -/
def admitted (w : World) (event : Event env) : Prop := freshIds w event ∧ notRejected w event

/-- Every step under the conditions keeps what keeps the entries. -/
theorem run_kept (events : List (Event env)) : ∀ {w : World}, Sound env r w → Settling w →
    Distinct w.exports → Along (step r) admitted w events →
    Sound env r (run r w events) ∧ Settling (run r w events) ∧
      Distinct (run r w events).exports := by
  induction events with
  | nil => exact fun h hs hd _ => ⟨h,hs,hd⟩
  | cons event events ih =>
    intro w h hs hd halong
    obtain ⟨⟨hfresh,hrejected⟩,hrest⟩ := halong
    exact ih (step_sound h event hfresh) (step_settling hs h event hrejected)
      (step_distinct hd event) hrest

/-- In every session in which no import is rejected after its start was taken in, picked files
and export plans are kept exactly as long as they are needed. -/
theorem entries_kept (r : Runtime) (env : ImportEnv) (earlier : List OperationStore.Event)
    (events : List (Event env)) (h : Along (step r) admitted
      (World.new r (OperationStore.run r.session earlier emptyTables)) events) :
    Kept (r:=r) env (run r (World.new r (OperationStore.run r.session earlier emptyTables))
      events) := by
  obtain ⟨hsound,hsettling,hdistinct⟩ :=
    new_sound env (r:=r) (accounted_run r.session earlier accounted_emptyTables)
  obtain ⟨h1,h2,h3⟩ := run_kept events hsound hsettling hdistinct h
  exact kept_of h1 h2 h3

section Example

/-- Files of three bytes with ASCII names. -/
def plainImport : ImportEnv where
  toStartEnv := plainStart
  toStringLossy name := String.ofList (name.map fun b => Char.ofNat b.toNat)
  opened _ := some 3
  pathSize := 24

def pickedFile : OperationPath := ⟨ascii "/tmp/story.zip".toList⟩

def pickedId (n : ℕ) : String :=
  String.ofList ("00000000-0000-4000-8000-00000000000".toList++decimalNat n)

def oneWorker : Runtime := ⟨⟨1,by decide⟩,exampleSession,1⟩

def storeCall (refused : Option StorageError) : StoreCall :=
  ⟨exampleSchema,refused,.quiet,none,none⟩

/-- A store that refuses every write since a commit was uncertain, and answers every read. -/
def fenced : Answer where
  call := storeCall (some .runtimeFenced)
  lost _ := false
  now := "2026-01-01"
  around := ⟨storeCall none,none,none⟩
  cleanup := .ok ()
  clock := .ok "2026-01-01"
  rounds := [⟨storeCall none,none⟩]
  progress := none
  execution := missingSource
  settled := true
  cleaned := .known ()

/-- What a preparation is made of stays its own. -/
theorem new_parts {env : ImportEnv} {id : String} {paths : List OperationPath} {p : Preparation}
    (h : Preparation.new env id paths=.ok p) : p.start.input.id=id ∧ p.paths=paths := by
  unfold Preparation.new at h
  obtain ⟨-,h⟩ := CheckedResults.checked_ok.mp h
  split at h
  · cases h
  split at h
  · cases h
  next start hstart =>
  split at h
  · cases h
  split at h
  · cases h
  cases h
  unfold Start.new at hstart
  split at hstart
  · cases hstart
    exact ⟨rfl,rfl⟩
  · cases hstart

def picks (n : ℕ) : Bool := match Preparation.new plainImport (pickedId n) [pickedFile] with
  | .ok p => p.bytes≤4096
  | .error _ => false

theorem picks_nine : ∀ n < 9, picks n=true := by decide +kernel

def pickedImport (n : Fin 9) : PreparedImport plainImport :=
  match h : Preparation.new plainImport (pickedId n) [pickedFile] with
  | .ok p => ⟨p,by rw [(new_parts h).1,(new_parts h).2]; exact h⟩
  | .error _ => absurd (picks_nine n n.isLt) (by rw [picks,h]; exact Bool.false_ne_true)

theorem pickedImport_parts (n : Fin 9) : (pickedImport n).start.input.id=pickedId n ∧
    (pickedImport n).bytes≤4096 := by
  have hn := picks_nine n n.isLt
  unfold pickedImport
  split
  · next p h =>
    rw [picks,h] at hn
    exact ⟨(new_parts h).1,of_decide_eq_true hn⟩
  · next h =>
    rw [picks,h] at hn
    cases hn

def atRest : System where
  state := ⟨none,false,none,[],[],0,false,false,false,true,none⟩
  metadataOwner := false
  coordinator := .top
  workers := [.idle]
  rows := emptyTables

def fencedSteps (count : ℕ) (s : System) : System :=
  (List.replicate count fenced).foldl (fun s a => coordinatorStep oneWorker a s) s

theorem createJob_fenced (input : NewOperation) (at_ : String) (d : Database) :
    createJob oneWorker.session fenced.call input at_ d=(.rejected,d) := by
  unfold createJob
  split <;> rfl

theorem fencedSteps_succ (count : ℕ) (s : System) :
    fencedSteps (count+1) s=fencedSteps count (coordinatorStep oneWorker fenced s) := rfl

def restAt (state : State) (coordinator : Coordinator) : System :=
  {atRest with state := state,coordinator := coordinator}

theorem fencedSteps_rejected (start : Start) :
    fencedSteps 13 (restAt {atRest.state with ingress := some start} .top)=
      restAt {atRest.state with admission := some ⟨start.input.id,false⟩} .top := by
  have htaken : coordinatorStep oneWorker fenced
      (restAt {atRest.state with admitting := true} (.taken start none false))=
      restAt {atRest.state with admitting := true}
        (.admitting start fenced.now false none false) := by
    simp only [coordinatorStep,restAt,atRest,Bool.false_eq_true,and_false,if_false]
  have hrejected : coordinatorStep oneWorker fenced (restAt {atRest.state with admitting := true}
      (.admitting start fenced.now false none false))=
      restAt {atRest.state with admitting := true} (.acknowledging start false none false) := by
    simp only [coordinatorStep,restAt,atRest,Bool.false_eq_true,if_false,createJob_fenced]
  rw [fencedSteps_succ,fencedSteps_succ]
  change fencedSteps 11 (restAt {atRest.state with admitting := true} (.taken start none false))=_
  rw [fencedSteps_succ,htaken,fencedSteps_succ,hrejected]
  rfl

theorem startup_atRest :
    coordinatorStep oneWorker fenced (System.new oneWorker emptyTables)=atRest := rfl

theorem run_fenced (count : ℕ) (w : World) :
    run oneWorker w (List.replicate count (.coordinator fenced : Event plainImport))=
      {w with scheduler := fencedSteps count w.scheduler} := by
  induction count generalizing w with
  | zero => rfl
  | succ count ih =>
    change run oneWorker {w with scheduler := coordinatorStep oneWorker fenced w.scheduler}
      (List.replicate count (.coordinator fenced))=_
    rw [ih,fencedSteps_succ]

/-- An import is offered, rejected by the fenced store and acknowledged. -/
def rejection (n : Fin 9) : List (Event plainImport) :=
  .offerImport false (pickedImport n)::(List.replicate 13 (.coordinator fenced)++[.observeJobs])

theorem rejection_run {w : World} (n : Fin 9) (hs : w.scheduler=restAt atRest.state .top)
    (hplans : w.plans=[]) (hroom : importRoom w (pickedImport n).toPreparation=true) :
    run oneWorker w (rejection n)={w with
      batches := w.batches++[(pickedId n,(pickedImport n).batch)]
      offered := (pickedImport n).start::w.offered
      picked := (pickedImport n).toPreparation::w.picked} := by
  have htry : tryStart false (pickedImport n).start w.scheduler.state=
      .ok {atRest.state with ingress := some (pickedImport n).start} := by
    rw [hs]
    rfl
  have hoffer : step oneWorker w (.offerImport false (pickedImport n) : Event plainImport)={w with
      scheduler := restAt {atRest.state with ingress := some (pickedImport n).start} .top
      batches := w.batches++[(pickedId n,(pickedImport n).batch)]
      offered := (pickedImport n).start::w.offered
      picked := (pickedImport n).toPreparation::w.picked} := by
    change (offerImport false (pickedImport n).toPreparation w).1=_
    unfold offerImport
    rw [if_pos hroom]
    simp only [htry,(pickedImport_parts n).1]
    rw [hs]
    rfl
  unfold rejection JobExecutors.run
  rw [List.foldl_cons,hoffer,List.foldl_append]
  change run oneWorker (run oneWorker _ _) _=_
  rw [run_fenced,fencedSteps_rejected,(pickedImport_parts n).1]
  cases w
  cases hs
  cases hplans
  rfl

/-- Imports that are rejected one after the other. -/
def rejections : ℕ → List (Event plainImport)
  | 0 => [.coordinator fenced]
  | count+1 => rejections count++rejection (Fin.ofNat 9 count)

/-- What rejected imports leave. -/
structure Filled (count : ℕ) (w : World) : Prop where
  rest : w.scheduler=restAt atRest.state .top
  plans : w.plans=[]
  keys : w.batches.map (·.1)=(List.range count).map pickedId
  bytes : ∀ entry ∈ w.batches, entry.2.bytes≤4096
  offered : ∀ start ∈ w.offered, ∃ n < count, start.input.id=pickedId n

theorem pickedId_distinct : ∀ m < 9, ∀ n < m, pickedId n≠pickedId m := by decide +kernel

/-- Every rejected import leaves one more batch. -/
theorem rejections_filled : ∀ count ≤ 8,
    Along (step oneWorker) freshIds (World.new oneWorker emptyTables) (rejections count) ∧
    Filled count (run oneWorker (World.new oneWorker emptyTables) (rejections count)) := by
  intro count
  induction count with
  | zero =>
    intro _
    refine ⟨⟨trivial,trivial⟩,?_⟩
    have hrest : (run oneWorker (World.new oneWorker emptyTables) (rejections 0)).scheduler=
        restAt atRest.state .top := startup_atRest
    exact ⟨hrest,rfl,rfl,(fun _ he => nomatch he),(fun _ hs => nomatch hs)⟩
  | succ count ih =>
    intro hcount
    obtain ⟨halong,hfilled⟩ := ih (by omega)
    have hn : (Fin.ofNat 9 count).val=count := Nat.mod_eq_of_lt (by omega)
    generalize hw : run oneWorker (World.new oneWorker emptyTables) (rejections count)=w at hfilled
    have hdistinct := pickedId_distinct count (by omega)
    have hparts := pickedImport_parts (Fin.ofNat 9 count)
    rw [hn] at hparts
    have hlength : w.batches.length=count := by
      rw [←List.length_map (f:=Prod.fst),hfilled.keys,List.length_map,List.length_range]
    have hroom : importRoom w (pickedImport (Fin.ofNat 9 count)).toPreparation=true := by
      have hsum : (w.batches.map fun entry => entry.2.bytes).sum≤count*4096 := by
        rw [←hlength,←List.length_map (f:=fun entry : String×Batch => entry.2.bytes)]
        refine List.sum_le_card_nsmul _ _ ?_
        intro n hmem
        obtain ⟨entry,hentry,rfl⟩ := List.mem_map.mp hmem
        exact hfilled.bytes entry hentry
      unfold importRoom hasRoom
      rw [Bool.and_eq_true,Bool.and_eq_true]
      refine ⟨⟨decide_eq_true ?_,decide_eq_true ?_⟩,?_⟩
      · rw [hlength]
        unfold maxBatches
        omega
      · have hb := hparts.2
        unfold maxCommandBytes
        omega
      · rw [Bool.not_eq_true',List.any_eq_false]
        intro entry hentry he
        have hkey : entry.1 ∈ (List.range count).map pickedId :=
          hfilled.keys ▸ List.mem_map_of_mem hentry
        obtain ⟨m,hm,hid⟩ := List.mem_map.mp hkey
        exact hdistinct m (List.mem_range.mp hm)
          (hid.trans ((of_decide_eq_true he).trans hparts.1))
    have hfresh : Fresh w.offered w.scheduler (pickedImport
      (Fin.ofNat 9 count)).start.input.id := by
      refine ⟨?_,?_⟩
      · intro start hstart he
        obtain ⟨m,hm,hid⟩ := hfilled.offered start hstart
        exact hdistinct m hm (hid.symm.trans (he.trans hparts.1))
      · rw [hfilled.rest]
        exact fun _ hrow => nomatch hrow
    have hrun : run oneWorker (World.new oneWorker emptyTables) (rejections (count+1))=
        run oneWorker w (rejection (Fin.ofNat 9 count)) := by
      rw [←hw]
      exact List.foldl_append
    rw [hrun,rejection_run _ hfilled.rest hfilled.plans hroom,hn]
    refine ⟨?_,hfilled.rest,hfilled.plans,?_,?_,?_⟩
    · refine along_append.mpr ⟨halong,?_⟩
      change Along (step oneWorker) freshIds (run oneWorker _ _) _
      rw [hw]
      refine ⟨hfresh,along_of_forall ?_ _⟩
      intro event hevent w'
      rcases List.mem_append.mp hevent with hc | ho
      · rw [List.eq_of_mem_replicate hc]
        exact trivial
      · rw [List.mem_singleton.mp ho]
        exact trivial
    · change List.map _ (w.batches++_)=_
      rw [List.map_append,hfilled.keys,List.range_succ,List.map_append]
      rfl
    · intro entry hentry
      rcases List.mem_append.mp hentry with hold | hlast
      · exact hfilled.bytes entry hold
      · rw [List.mem_singleton.mp hlast]
        exact hparts.2
    · intro start hstart
      rcases List.mem_cons.mp hstart with rfl | hold
      · exact ⟨count,by omega,hparts.1⟩
      · obtain ⟨m,hm,hid⟩ := hfilled.offered start hold
        exact ⟨m,by omega,hid⟩

/-- After eight rejected imports nothing waits and nothing is stored, and the next import finds no
room. -/
theorem rejected_imports_fill :
    Along (step oneWorker) freshIds (World.new oneWorker emptyTables) (rejections 8) ∧
    let w := run oneWorker (World.new oneWorker emptyTables) (rejections 8)
    (∀ start, ¬Undecided w.scheduler start) ∧ w.scheduler.state.admission=none ∧
    (∀ row ∈ w.scheduler.rows.operations, isTerminal row.state=true) ∧
    importRoom (step oneWorker w (.pruneImports fun _ => false : Event plainImport))
      (pickedImport 8).toPreparation=false := by
  obtain ⟨halong,hfilled⟩ := rejections_filled 8 (by decide)
  refine ⟨halong,?_⟩
  generalize run oneWorker (World.new oneWorker emptyTables) (rejections 8)=w at hfilled
  have hrest := hfilled.rest
  refine ⟨?_,?_,?_,?_⟩
  · rw [hrest]
    rintro start (hin | hde)
    · cases hin
    · cases hde
  · rw [hrest]
    rfl
  · rw [hrest]
    exact fun _ hrow => nomatch hrow
  · have hprune : prune (fun _ => false) w.scheduler.rows w.batches=w.batches := by
      rw [hrest,prune,List.filter_eq_self]
      exact fun _ _ => rfl
    have hlength : w.batches.length=8 := by
      rw [←List.length_map (f:=Prod.fst),hfilled.keys]
      rfl
    change hasRoom maxBatches maxCommandBytes Batch.bytes
      (prune (fun _ => false) w.scheduler.rows w.batches) _ _=false
    rw [hprune,hasRoom,hlength]
    rfl

theorem entries_kept_offered : Along (step oneWorker) admitted (World.new oneWorker emptyTables)
      [.coordinator fenced,.offerImport false (pickedImport 0)] ∧
    Kept (r:=oneWorker) plainImport (run oneWorker (World.new oneWorker emptyTables)
      [.coordinator fenced,.offerImport false (pickedImport 0)]) := by
  have halong : Along (step oneWorker) admitted (World.new oneWorker emptyTables)
      [.coordinator fenced,.offerImport false (pickedImport 0)] := by
    refine ⟨⟨trivial,fun _ _ _ he => nomatch he⟩,⟨⟨?_,?_⟩,trivial⟩,trivial⟩
    · exact fun _ hs => nomatch hs
    · change ∀ row ∈ (coordinatorStep oneWorker fenced
        (System.new oneWorker emptyTables)).rows.operations,_
      rw [startup_atRest]
      exact fun _ hrow => nomatch hrow
  exact ⟨halong,entries_kept oneWorker plainImport [] _ halong⟩

end Example
end Librairii.EntryKeeping
