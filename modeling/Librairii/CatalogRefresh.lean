import Librairii.AgeProjection
import Librairii.RunConditions
import Librairii.StorageTransactions

/-!
# The catalog refresh state machine

A refresh begins one synchronization, stages its snapshot, and activates it or fails.
Every call is one transaction that may be refused, may fail, or may lose its
acknowledgement. Only a committed activation changes what is active.
-/

namespace Librairii.CatalogRefresh

open CheckedResults StorageTransactions RowTables RunConditions TagRows AgeFacets CatalogRows
  AgeProjection

/-- The report of an activation. -/
structure RefreshReport where
  sync : String
  snapshot : ℤ
  matchedStories : ℕ
  activatedAt : String
  deriving DecidableEq

def stagedSnapshot (c : Catalog) (id : ℤ) : Option Snapshot :=
  c.snapshots.find? fun s =>
    s.id=id && s.status=.staged && c.syncs.any fun y => y.id=s.sync && y.running

def activateSnapshot (id : ℤ) (locale activatedAt : String) (c : Catalog) :
    Except StorageError Catalog :=
  let snapshots := update (fun s => s.locale=locale && s.active)
    (fun s => { s with status := .superseded }) c.snapshots
  let selected := fun s : Snapshot => s.id=id && s.status=.staged
  let activated := update selected
    (fun s => { s with status := .active, activatedAt := some activatedAt }) snapshots
  if affected selected snapshots≠1 then .error (.metadata .invalidTransition)
  else .ok { c with snapshots := activated }

/-- Activate a staged snapshot: project its ages, replace the active snapshot of its locale
and end its synchronization. -/
def activateCatalog (id : ℤ) (activatedAt : String) (d : CatalogDatabase) :
    Except StorageError (RefreshReport×CatalogDatabase) :=
  match stagedSnapshot d.catalog id with
  | none => .error .noRows
  | some staged => do
    let (projection,d) ← projectAgeSnapshot id AgeConfig.default d
    let catalog ← activateSnapshot id staged.locale activatedAt d.catalog
    let catalog ← finishSync staged.sync (fun y => { y with
      status := .succeeded
      errorCode := none
      errorMessage := none
      finishedAt := some activatedAt }) catalog
    return (⟨staged.sync,id,projection.matchedStories,activatedAt⟩,
      { d with catalog := catalog })

/-- The transactions of refreshes; times are canonical texts. -/
inductive Action where
  | begin (id locale startedAt : String)
  | stage (id : String) (catalog : NormalizedCatalog) (path fetchedAt : String)
  | activate (id : ℤ) (activatedAt : String)
  | fail (id : String) (snapshot : Option ℤ) (code : RefreshCode) (finishedAt : String)
  | reject (id : ℤ)
  | recover (now : String)

/-- What a transaction answers. -/
inductive Answer where
  | unit
  | snapshot (id : ℤ)
  | report (report : RefreshReport)

def onCatalog (f : Catalog → Except StorageError Catalog) (d : CatalogDatabase) :
    Except StorageError (Answer×CatalogDatabase) :=
  (f d.catalog).map fun c => (.unit,{ d with catalog := c })

variable {d' d : CatalogDatabase} {answer : Answer}

theorem onCatalog_ok {f : Catalog → Except StorageError Catalog} (h : onCatalog f d=.ok
    (answer,d')) :
    ∃ c, f d.catalog=.ok c ∧ d'={ d with catalog := c } := by
  obtain ⟨c,hc,he⟩ := exceptMap_ok.mp h
  exact ⟨c,hc,(Prod.mk.inj he).2.symm⟩

def stageCatalog (env : CatalogEnv) (id : String) (catalog : NormalizedCatalog)
    (path fetchedAt : String) (d : CatalogDatabase) :
    Except StorageError (ℤ×CatalogDatabase) :=
  (stageRows env id catalog path fetchedAt d.catalog).map fun (snapshot,c) =>
    (snapshot,{ d with catalog := c })

def body (env : CatalogEnv) : Action → Work CatalogDatabase StorageError Answer
  | .begin id locale startedAt => onCatalog (beginCatalogSync id locale startedAt)
  | .stage id catalog path fetchedAt => fun d =>
    (stageCatalog env id catalog path fetchedAt d).map fun (snapshot,d) =>
      (.snapshot snapshot,d)
  | .activate id activatedAt => fun d =>
    (activateCatalog id activatedAt d).map fun (report,d) => (.report report,d)
  | .fail id snapshot code finishedAt =>
    onCatalog (finishCatalogFailure id snapshot code finishedAt)
  | .reject id => onCatalog (rejectCatalog id)
  | .recover now => onCatalog fun c => .ok (recoverCatalogRefreshes now c)

def transact (env : CatalogEnv) (d : CatalogDatabase) (fault : Fault StorageError)
    (action : Action) : CatalogDatabase := (runTransaction fault (body env action) d).2

/-- What happens to the library: a call of a refresh, or other writers that change stories,
tags and assignments. -/
inductive Event where
  | call (fault : Fault StorageError) (action : Action)
  | library (stories : List Story) (tags : TagTables) (assignments : List Assignment)

/-- The database after an event. -/
def step (env : CatalogEnv) (d : CatalogDatabase) : Event → CatalogDatabase
  | .call fault action => transact env d fault action
  | .library stories tags assignments => ⟨d.catalog,stories,tags,assignments⟩

/-- The database after events. -/
def run (env : CatalogEnv) (d : CatalogDatabase) (events : List Event) : CatalogDatabase :=
  events.foldl (step env) d

/-- A library before its first refresh. -/
def unsynced (stories : List Story) (tags : TagTables) (assignments : List Assignment) :
    CatalogDatabase := ⟨⟨[],[],[],[]⟩,stories,tags,assignments⟩

def activeIn (c : Catalog) (locale : String) : List Snapshot :=
  c.snapshots.filter fun s => s.locale=locale && s.active

def metadataOf (c : Catalog) (snapshot : ℤ) : List Metadata :=
  c.metadata.filter fun m => m.snapshot=snapshot

/-- The active snapshots and their metadata are kept. -/
structure Retained (c c' : Catalog) : Prop where
  active : c'.snapshots.filter Snapshot.active=c.snapshots.filter Snapshot.active
  metadata : ∀ s ∈ c.snapshots, s.active=true → metadataOf c' s.id=metadataOf c s.id

/-- What every reachable catalog keeps. -/
structure Invariant (c : Catalog) : Prop where
  /-- At most one synchronization runs. -/
  running : c.syncs.countP Sync.running≤1
  active : ∀ locale, (activeIn c locale).length≤1

variable {α : Type} {rows : List α} {p q : α → Bool} {f : α → α}

theorem filter_update_outside (h : ∀ row ∈ rows, p row=true → q row=false ∧ q (f row)=false) :
    (update p f rows).filter q=rows.filter q := by
  induction rows with
  | nil => rfl
  | cons row rows ih =>
    have hrest := ih fun r hr => h r (List.mem_cons_of_mem _ hr)
    rw [update] at hrest
    rw [update,List.map_cons,List.filter_cons,List.filter_cons,hrest]
    cases hp : p row with
    | true =>
      obtain ⟨hq,hq'⟩ := h row List.mem_cons_self hp
      simp [hq,hq']
    | false => simp

variable {c c' : Catalog} {id : String}

/-- A begun synchronization is the only running one. -/
theorem beginCatalogSync_ok {locale startedAt : String}
    (h : beginCatalogSync id locale startedAt c=.ok c') :
    c.syncs.countP Sync.running=0 ∧
      c'={ c with syncs := c.syncs++[⟨id,locale,.running,none,none,startedAt,none⟩] } := by
  unfold beginCatalogSync at h
  by_cases hbusy : c.syncs.any Sync.running=true
  · rw [if_pos hbusy] at h
    cases h
  rw [if_neg hbusy] at h
  by_cases htaken : (lookup (·.id) id c.syncs).isSome=true
  · rw [if_pos htaken] at h
    cases h
  rw [if_neg htaken] at h
  refine ⟨?_,(Except.ok.inj h).symm⟩
  rw [List.countP_eq_zero]
  intro s hs hrun
  exact hbusy (List.any_eq_true.mpr ⟨s,hs,hrun⟩)

variable {env : CatalogEnv} {snapshot : ℤ}

theorem stageRecords_ok {locale : String} (records : List CatalogRecord) : ∀ {c c' : Catalog},
    stageRecords env snapshot locale records c=.ok c' →
      ∃ rows, c'={ c with metadata := c.metadata++rows } ∧ ∀ m ∈ rows, m.snapshot=snapshot := by
  induction records with
  | nil =>
    intro c c' h
    obtain rfl := Except.ok.inj h
    exact ⟨[],by simp,by simp⟩
  | cons r records ih =>
    intro c c' h
    obtain ⟨title,-,h⟩ := exceptBind_ok.mp h
    obtain ⟨s,hinsert,h⟩ := exceptBind_ok.mp h
    obtain ⟨rows,rfl,hrows⟩ := ih h
    unfold insertMetadata at hinsert
    split at hinsert
    · obtain rfl := Except.ok.inj hinsert
      refine ⟨metadataRow snapshot locale title r::rows,by simp,?_⟩
      intro m hm
      rcases List.mem_cons.mp hm with rfl | hm
      · rfl
      · exact hrows m hm
    · cases hinsert

theorem stageRows_ok {path fetchedAt : String} {catalog : NormalizedCatalog}
    (h : stageRows env id catalog path fetchedAt c=.ok (snapshot,c')) :
    snapshot=nextRowId (c.snapshots.map (·.id)) ∧
      (∃ sync ∈ c.syncs, sync.id=id ∧ sync.running=true) ∧
      ∃ row rows artworks, row.id=snapshot ∧ row.sync=id ∧ row.status=.staged ∧
        (∀ m ∈ rows, m.snapshot=snapshot) ∧
        c'={ c with
          snapshots := c.snapshots++[row]
          metadata := c.metadata++rows
          artworks := artworks } := by
  unfold stageRows at h
  split at h
  · cases h
  rename_i hrunning
  obtain ⟨-,h⟩ := checked_ok.mp h
  obtain ⟨artworks,-,h⟩ := exceptBind_ok.mp h
  obtain ⟨s,hrecords,h⟩ := exceptBind_ok.mp h
  obtain ⟨rfl,rfl⟩ := Prod.mk.inj (Except.ok.inj h)
  obtain ⟨rows,rfl,hrows⟩ := stageRecords_ok _ hrecords
  have hsync : ∃ sync ∈ c.syncs, sync.id=id ∧ sync.running=true := by
    simp only [Bool.not_eq_true',Bool.not_eq_false,List.any_eq_true,Bool.and_eq_true,
      decide_eq_true_eq] at hrunning
    obtain ⟨sync,hmem,⟨hid,-⟩,hrun⟩ := hrunning
    exact ⟨sync,hmem,hid,hrun⟩
  exact ⟨rfl,hsync,_,rows,artworks,rfl,rfl,rfl,hrows,rfl⟩

theorem rejectStaged_ok (h : rejectStaged id snapshot c=.ok c') :
    ∃ p, (∀ s, p s=true → s.status=.staged) ∧ c'={ c with
      snapshots := update p (fun s => { s with status := .rejected }) c.snapshots } := by
  unfold rejectStaged at h
  dsimp only at h
  obtain ⟨-,h⟩ := checked_ok.mp h
  refine ⟨_,?_,(Except.ok.inj h).symm⟩
  intro s hs
  simp only [Bool.and_eq_true,decide_eq_true_eq] at hs
  exact hs.2

theorem finishSync_ok {f : Sync → Sync} (h : finishSync id f c=.ok c') :
    c'={ c with syncs := update (fun s => s.id=id && s.running) f c.syncs } := by
  unfold finishSync at h
  dsimp only at h
  obtain ⟨-,h⟩ := checked_ok.mp h
  exact (Except.ok.inj h).symm

theorem countP_update_le (h : ∀ row ∈ rows, p row=true → q (f row)=true → q row=true) :
    (update p f rows).countP q≤rows.countP q := by
  rw [update,List.countP_map]
  apply List.countP_mono_left
  intro row hm hq
  dsimp only [Function.comp_apply] at hq
  split at hq
  · next hp => exact h row hm hp hq
  · exact hq

theorem filter_update_exact (hp : ∀ row ∈ rows, p row=true → q (f row)=true)
    (hn : ∀ row ∈ rows, p row=false → q row=false) :
    (update p f rows).filter q=(rows.filter p).map f := by
  induction rows with
  | nil => rfl
  | cons row rows ih =>
    have hrest := ih (fun r hr => hp r (List.mem_cons_of_mem _ hr))
      fun r hr => hn r (List.mem_cons_of_mem _ hr)
    rw [update] at hrest
    rw [update,List.map_cons,List.filter_cons,List.filter_cons,hrest]
    cases h : p row with
    | true => simp [hp row List.mem_cons_self h]
    | false => simp [hn row List.mem_cons_self h]

/-- The only selected row is the whole selection. -/
theorem filter_of_affected_one {row : α} (h : affected p rows=1) (hm : row ∈ rows)
    (hp : p row=true) :
    rows.filter p=[row] := by
  rw [affected,List.countP_eq_length_filter] at h
  obtain ⟨only,honly⟩ := List.length_eq_one_iff.mp h
  have hrow : row ∈ rows.filter p := List.mem_filter.mpr ⟨hm,hp⟩
  rw [honly,List.mem_singleton] at hrow
  rw [honly,hrow]

theorem Retained.of_eq (hs : c'.snapshots=c.snapshots) (hm : c'.metadata=c.metadata) :
    Retained c c' :=
  ⟨by rw [hs],fun s _ _ => by rw [metadataOf,metadataOf,hm]⟩

theorem Retained.of_rejected {p : Snapshot → Bool} (hp : ∀ s, p s=true → s.status=.staged)
    (hs : c'.snapshots=update p (fun s => { s with status := .rejected }) c.snapshots)
    (hm : c'.metadata=c.metadata) : Retained c c' := by
  constructor
  · rw [hs]
    apply filter_update_outside
    intro s _ hsel
    simp [Snapshot.active,hp s hsel]
  · intro s _ _
    rw [metadataOf,metadataOf,hm]

theorem Retained.trans {a b : Catalog} (h : Retained a b) (h' : Retained b c) : Retained a c := by
  constructor
  · rw [h'.active,h.active]
  · intro s hs hactive
    have hb : s ∈ b.snapshots := by
      have hf : s ∈ b.snapshots.filter Snapshot.active := by
        rw [h.active]
        exact List.mem_filter.mpr ⟨hs,hactive⟩
      exact (List.mem_filter.mp hf).1
    rw [h'.metadata s hb hactive,h.metadata s hs hactive]

theorem Retained.activeIn (h : Retained c c') (locale : String) :
    activeIn c' locale=activeIn c locale := by
  have hsplit : ∀ c : Catalog, CatalogRefresh.activeIn c locale=
      (c.snapshots.filter Snapshot.active).filter fun s => s.locale=locale := by
    intro c
    rw [List.filter_filter]
    rfl
  rw [hsplit,hsplit,h.active]

theorem finishCatalogFailure_ok {snapshot : Option ℤ} {code : RefreshCode} {finishedAt : String}
    (h : finishCatalogFailure id snapshot code finishedAt c=.ok c') :
    (∃ p, (∀ s, p s=true → s.status=.staged) ∧
      c'.snapshots=update p (fun s => { s with status := .rejected }) c.snapshots) ∧
    c'.metadata=c.metadata ∧
    ∃ f : Sync → Sync, (∀ s, (f s).running=false) ∧
      c'.syncs=update (fun s => s.id=id && s.running) f c.syncs := by
  obtain ⟨b,hreject,h⟩ := exceptBind_ok.mp h
  have hfinish := finishSync_ok h
  have hended : ∀ s : Sync, Sync.running { s with
      status := if code=.cancelled then .cancelled else .failed
      errorCode := some code.asStr
      errorMessage := some (failureMessage code)
      finishedAt := some finishedAt }=false := by
    intro s
    by_cases hc : code=.cancelled
    · simp [Sync.running,hc]
    · simp [Sync.running,hc]
  cases snapshot with
  | none =>
    obtain rfl := Except.ok.inj hreject
    rw [hfinish]
    exact ⟨⟨fun _ => false,by simp,update_none _ c.snapshots⟩,rfl,_,hended,rfl⟩
  | some snapshot =>
    obtain ⟨p,hp,rfl⟩ := rejectStaged_ok hreject
    rw [hfinish]
    exact ⟨⟨p,hp,rfl⟩,rfl,_,hended,rfl⟩

theorem projectAgeSnapshot_frame {config : AgeConfig} {result : ProjectionResult}
    (h : projectAgeSnapshot snapshot config d=.ok (result,d')) :
    d'.catalog=d.catalog ∧ d'.stories=d.stories := by
  unfold projectAgeSnapshot at h
  obtain ⟨-,h⟩ := checked_ok.mp h
  obtain ⟨-,h⟩ := checked_ok.mp h
  obtain ⟨⟨⟨definition,values⟩,tags⟩,-,h⟩ := exceptBind_ok.mp h
  obtain ⟨⟨counts,assignments⟩,-,h⟩ := exceptBind_ok.mp h
  obtain ⟨rfl,rfl⟩ := Prod.mk.inj (Except.ok.inj h)
  exact ⟨rfl,rfl⟩

variable {activatedAt : String}

/-- What a committed activation found and wrote. -/
theorem activateCatalog_ok {id : ℤ} {report : RefreshReport}
    (h : activateCatalog id activatedAt d=.ok (report,d')) :
    ∃ staged result projected, stagedSnapshot d.catalog id=some staged ∧
      projectAgeSnapshot id AgeConfig.default d=.ok (result,projected) ∧
      d'={ projected with catalog := d'.catalog } ∧
      d'.catalog.metadata=d.catalog.metadata ∧
      (∃ middle, activateSnapshot id staged.locale activatedAt d.catalog=.ok middle ∧
        d'.catalog.snapshots=middle.snapshots) ∧
      ∃ f : Sync → Sync, (∀ s, (f s).running=false) ∧
        d'.catalog.syncs=update (fun s => s.id=staged.sync && s.running) f d.catalog.syncs := by
  unfold activateCatalog at h
  cases hstaged : stagedSnapshot d.catalog id with
  | none => simp [hstaged] at h
  | some staged =>
    simp only [hstaged] at h
    obtain ⟨⟨result,projected⟩,hproject,h⟩ := exceptBind_ok.mp h
    obtain ⟨middle,hactivate,h⟩ := exceptBind_ok.mp h
    obtain ⟨last,hfinish,h⟩ := exceptBind_ok.mp h
    obtain ⟨rfl,rfl⟩ := Prod.mk.inj (Except.ok.inj h)
    have hcatalog := (projectAgeSnapshot_frame hproject).1
    have hlast := finishSync_ok hfinish
    dsimp only at hactivate
    rw [hcatalog] at hactivate
    have hmiddle : middle.metadata=d.catalog.metadata ∧ middle.syncs=d.catalog.syncs := by
      unfold activateSnapshot at hactivate
      dsimp only at hactivate
      obtain ⟨-,hactivate⟩ := checked_ok.mp hactivate
      obtain rfl := Except.ok.inj hactivate
      exact ⟨rfl,rfl⟩
    rw [hlast]
    refine ⟨staged,result,projected,rfl,hproject,rfl,hmiddle.1,⟨middle,hactivate,rfl⟩,_,?_,
      by rw [hmiddle.2]⟩
    intro s
    rfl

theorem activateSnapshot_ok {id : ℤ} {staged : Snapshot} (hm : staged ∈ c.snapshots)
    (hid : staged.id=id) (hstatus : staged.status=.staged)
    (h : activateSnapshot id staged.locale activatedAt c=.ok c') :
    activeIn c' staged.locale=
        [{ staged with status := .active, activatedAt := some activatedAt }] ∧
      ∀ locale, locale≠staged.locale → activeIn c' locale=activeIn c locale := by
  unfold activateSnapshot at h
  dsimp only at h
  split at h
  · cases h
  rename_i hone
  have hone : affected (fun s : Snapshot => s.id=id && s.status=.staged)
      (update (fun s => s.locale=staged.locale && s.active)
        (fun s => { s with status := .superseded }) c.snapshots)=1 := by
    simpa using hone
  obtain rfl := Except.ok.inj h
  have hinactive : staged.active=false := by simp [Snapshot.active,hstatus]
  have hkept : staged ∈ update (fun s => s.locale=staged.locale && s.active)
      (fun s => { s with status := .superseded }) c.snapshots :=
    mem_update.mpr (.inl ⟨hm,by simp [hinactive]⟩)
  have honly := filter_of_affected_one hone hkept (by simp [hid,hstatus])
  have hselected : ∀ s ∈ update (fun s => s.locale=staged.locale && s.active)
      (fun s => { s with status := .superseded }) c.snapshots,
      (s.id=id && s.status=.staged)=true → s=staged := by
    intro s hs hsel
    have hmem := List.mem_filter (p:=fun s : Snapshot => s.id=id && s.status=.staged)|>.mpr
      ⟨hs,hsel⟩
    rw [honly] at hmem
    exact List.mem_singleton.mp hmem
  constructor
  · rw [activeIn]
    dsimp only
    rw [filter_update_exact,honly]
    · rfl
    · intro s hs hsel
      rw [hselected s hs hsel]
      simp [Snapshot.active]
    · intro s hs _
      obtain ⟨-,houtside⟩ | ⟨old,-,-,rfl⟩ := mem_update.mp hs
      · exact houtside
      · simp [Snapshot.active]
  · intro locale hother
    rw [activeIn]
    dsimp only
    rw [filter_update_outside,filter_update_outside]
    · rfl
    · intro s _ hsel
      simp only [Bool.and_eq_true,decide_eq_true_eq] at hsel
      simp [hsel.1,Ne.symm hother]
    · intro s hs hsel
      rw [hselected s hs hsel]
      simp [hinactive,Ne.symm hother]

theorem stagedSnapshot_some {id : ℤ} {staged : Snapshot} (h : stagedSnapshot c id=some staged) :
    staged ∈ c.snapshots ∧ staged.id=id ∧ staged.status=.staged ∧
      ∃ sync ∈ c.syncs, sync.id=staged.sync ∧ sync.running=true := by
  have hp := List.find?_some h
  simp only [Bool.and_eq_true,decide_eq_true_eq,List.any_eq_true] at hp
  obtain ⟨⟨hid,hstatus⟩,sync,hsync,hown,hrun⟩ := hp
  exact ⟨List.mem_of_find?_eq_some h,hid,hstatus,sync,hsync,hown,hrun⟩

/-- Rows are only ever added, to the staged snapshot of the running synchronization. -/
def StagedOnly (c c' : Catalog) : Prop :=
  ∃ rows, c'.metadata=c.metadata++rows ∧ ∀ m ∈ rows, ∃ snapshot ∈ c'.snapshots,
    snapshot.id=m.snapshot ∧ snapshot.status=.staged ∧
      ∃ sync ∈ c'.syncs, sync.id=snapshot.sync ∧ sync.running=true

/-- Unchanged metadata adds no row. -/
theorem StagedOnly.of_eq (h : c'.metadata=c.metadata) : StagedOnly c c' :=
  ⟨[],by simp [h],by simp⟩

/-- The refresh keeps the active data and every tag. -/
structure Untouched (d d' : CatalogDatabase) : Prop where
  catalog : Retained d.catalog d'.catalog
  tags : d'.tags=d.tags
  assignments : d'.assignments=d.assignments

/-- An activation replaces the active snapshot of exactly its locale. -/
def Replaces (id : ℤ) (activatedAt : String) (c c' : Catalog) : Prop :=
  ∃ staged ∈ c.snapshots, staged.id=id ∧ staged.status=.staged ∧
    (∃ sync ∈ c.syncs, sync.id=staged.sync ∧ sync.running=true) ∧
    activeIn c' staged.locale=
      [{ staged with status := .active, activatedAt := some activatedAt }] ∧
    (∀ locale, locale≠staged.locale → activeIn c' locale=activeIn c locale) ∧
    c'.metadata=c.metadata

def Action.activates : Action → Bool
  | .activate _ _ => true
  | _ => false

variable {action : Action}

theorem body_staged (h : body env action d=.ok (answer,d')) : StagedOnly d.catalog d'.catalog := by
  cases action with
  | begin id locale startedAt =>
    obtain ⟨c,hc,rfl⟩ := onCatalog_ok h
    obtain ⟨-,rfl⟩ := beginCatalogSync_ok hc
    exact .of_eq rfl
  | stage id catalog path fetchedAt =>
    obtain ⟨⟨snapshot,e⟩,hstage,he⟩ := exceptMap_ok.mp h
    obtain ⟨rfl,rfl⟩ := Prod.mk.inj he
    obtain ⟨⟨snapshot,c⟩,hc,he⟩ := exceptMap_ok.mp hstage
    obtain ⟨rfl,rfl⟩ := Prod.mk.inj he
    obtain ⟨-,⟨sync,hsync,hid,hrun⟩,row,rows,artworks,hrow,hown,hstaged,hrows,rfl⟩ :=
      stageRows_ok hc
    refine ⟨rows,rfl,?_⟩
    intro m hm
    refine ⟨row,by simp,by rw [hrow,hrows m hm],hstaged,sync,hsync,by rw [hid,hown],hrun⟩
  | activate id activatedAt =>
    obtain ⟨⟨report,e⟩,hc,he⟩ := exceptMap_ok.mp h
    obtain ⟨rfl,rfl⟩ := Prod.mk.inj he
    obtain ⟨_,_,_,-,-,-,hmetadata,-⟩ := activateCatalog_ok hc
    exact .of_eq hmetadata
  | fail id snapshot code finishedAt =>
    obtain ⟨c,hc,rfl⟩ := onCatalog_ok h
    exact .of_eq (finishCatalogFailure_ok hc).2.1
  | reject id =>
    obtain ⟨c,hc,rfl⟩ := onCatalog_ok h
    unfold rejectCatalog at hc
    dsimp only at hc
    obtain ⟨-,hc⟩ := checked_ok.mp hc
    obtain rfl := Except.ok.inj hc
    exact .of_eq rfl
  | recover now =>
    obtain ⟨c,hc,rfl⟩ := onCatalog_ok (f:=fun c => .ok (recoverCatalogRefreshes now c)) h
    obtain rfl := Except.ok.inj hc
    exact .of_eq rfl

/-- Staging keeps the active data and every tag. -/
theorem stageCatalog_untouched {path fetchedAt : String} {catalog : NormalizedCatalog}
    (h : stageCatalog env id catalog path fetchedAt d=.ok (snapshot,d')) : Untouched d d' := by
  obtain ⟨⟨new,c⟩,hc,he⟩ := exceptMap_ok.mp h
  obtain ⟨rfl,rfl⟩ := Prod.mk.inj he
  obtain ⟨hnew,-,row,rows,artworks,hrow,hown,hstaged,hrows,rfl⟩ := stageRows_ok hc
  refine ⟨⟨?_,?_⟩,rfl,rfl⟩
  · simp [Snapshot.active,hstaged]
  · intro s hs _
    have hbelow : s.id<new := by
      rw [hnew]
      exact lt_nextRowId (List.mem_map_of_mem hs)
    have hnone : rows.filter (fun m => m.snapshot=s.id)=[] := by
      rw [List.filter_eq_nil_iff]
      intro m hm
      have := hrows m hm
      simp only [decide_eq_true_eq]
      omega
    rw [metadataOf,metadataOf,List.filter_append,hnone,List.append_nil]

/-- Every committed call but an activation keeps the active data and every tag. -/
theorem body_untouched (h : body env action d=.ok (answer,d')) (hother : action.activates=false) :
    Untouched d d' := by
  cases action with
  | begin id locale startedAt =>
    obtain ⟨c,hc,rfl⟩ := onCatalog_ok h
    obtain ⟨-,rfl⟩ := beginCatalogSync_ok hc
    exact ⟨.of_eq rfl rfl,rfl,rfl⟩
  | stage id catalog path fetchedAt =>
    obtain ⟨⟨snapshot,e⟩,hstage,he⟩ := exceptMap_ok.mp h
    obtain ⟨rfl,rfl⟩ := Prod.mk.inj he
    exact stageCatalog_untouched hstage
  | activate id activatedAt => cases hother
  | fail id snapshot code finishedAt =>
    obtain ⟨c,hc,rfl⟩ := onCatalog_ok h
    obtain ⟨⟨p,hp,hsnapshots⟩,hmetadata,-⟩ := finishCatalogFailure_ok hc
    exact ⟨.of_rejected hp hsnapshots hmetadata,rfl,rfl⟩
  | reject id =>
    obtain ⟨c,hc,rfl⟩ := onCatalog_ok h
    unfold rejectCatalog at hc
    dsimp only at hc
    obtain ⟨-,hc⟩ := checked_ok.mp hc
    obtain rfl := Except.ok.inj hc
    refine ⟨.of_rejected ?_ rfl rfl,rfl,rfl⟩
    intro s hs
    simp only [Bool.and_eq_true,decide_eq_true_eq] at hs
    exact hs.2
  | recover now =>
    obtain ⟨c,hc,rfl⟩ := onCatalog_ok (f:=fun c => .ok (recoverCatalogRefreshes now c)) h
    obtain rfl := Except.ok.inj hc
    refine ⟨.of_rejected ?_ rfl rfl,rfl,rfl⟩
    intro s hs
    simp only [Bool.and_eq_true,decide_eq_true_eq] at hs
    exact hs.1

theorem body_replaces {id : ℤ} (h : body env (.activate id activatedAt) d=.ok (answer,d')) :
    Replaces id activatedAt d.catalog d'.catalog := by
  obtain ⟨⟨report,e⟩,hc,he⟩ := exceptMap_ok.mp h
  obtain ⟨rfl,rfl⟩ := Prod.mk.inj he
  obtain ⟨staged,_,_,hfound,-,-,hmetadata,⟨middle,hactivate,hsnapshots⟩,-⟩ :=
    activateCatalog_ok hc
  obtain ⟨hm,hid,hstatus,hsync⟩ := stagedSnapshot_some hfound
  obtain ⟨hown,hothers⟩ := activateSnapshot_ok hm hid hstatus hactivate
  have hsame : ∀ locale, activeIn e.catalog locale=activeIn middle locale := by
    intro locale
    rw [activeIn,activeIn,hsnapshots]
  exact ⟨staged,hm,hid,hstatus,hsync,by rw [hsame,hown],
    fun locale hne => by rw [hsame,hothers locale hne],hmetadata⟩

theorem Invariant.of_retained (h : Invariant c) (hr : Retained c c')
    (hs : c'.syncs.countP Sync.running≤1) : Invariant c' :=
  ⟨hs,fun locale => by rw [hr.activeIn]; exact h.active locale⟩

theorem body_running (h : body env action d=.ok (answer,d'))
    (hd : d.catalog.syncs.countP Sync.running≤1) : d'.catalog.syncs.countP Sync.running≤1 := by
  cases action with
  | begin id locale startedAt =>
    obtain ⟨c,hc,rfl⟩ := onCatalog_ok h
    obtain ⟨hnone,rfl⟩ := beginCatalogSync_ok hc
    simp [List.countP_append,hnone,Sync.running]
  | stage id catalog path fetchedAt =>
    obtain ⟨⟨snapshot,e⟩,hstage,he⟩ := exceptMap_ok.mp h
    obtain ⟨rfl,rfl⟩ := Prod.mk.inj he
    obtain ⟨⟨snapshot,c⟩,hc,he⟩ := exceptMap_ok.mp hstage
    obtain ⟨rfl,rfl⟩ := Prod.mk.inj he
    obtain ⟨-,-,_,_,_,-,-,-,-,rfl⟩ := stageRows_ok hc
    exact hd
  | activate id activatedAt =>
    obtain ⟨⟨report,e⟩,hc,he⟩ := exceptMap_ok.mp h
    obtain ⟨rfl,rfl⟩ := Prod.mk.inj he
    obtain ⟨_,_,_,-,-,-,-,-,f,hf,hsyncs⟩ := activateCatalog_ok hc
    rw [hsyncs]
    exact (countP_update_le fun s _ _ hrun => by simp [hf s] at hrun).trans hd
  | fail id snapshot code finishedAt =>
    obtain ⟨c,hc,rfl⟩ := onCatalog_ok h
    obtain ⟨-,-,f,hf,hsyncs⟩ := finishCatalogFailure_ok hc
    dsimp only
    rw [hsyncs]
    exact (countP_update_le fun s _ _ hrun => by simp [hf s] at hrun).trans hd
  | reject id =>
    obtain ⟨c,hc,rfl⟩ := onCatalog_ok h
    unfold rejectCatalog at hc
    dsimp only at hc
    obtain ⟨-,hc⟩ := checked_ok.mp hc
    obtain rfl := Except.ok.inj hc
    exact hd
  | recover now =>
    obtain ⟨c,hc,rfl⟩ := onCatalog_ok (f:=fun c => .ok (recoverCatalogRefreshes now c)) h
    obtain rfl := Except.ok.inj hc
    exact (countP_update_le fun s _ _ hrun => by simp [Sync.running] at hrun).trans hd

theorem body_invariant (h : body env action d=.ok (answer,d')) (hd : Invariant d.catalog) :
    Invariant d'.catalog := by
  have hrunning := body_running h hd.running
  cases hkind : action.activates with
  | false => exact hd.of_retained (body_untouched h hkind).catalog hrunning
  | true =>
    cases action with
    | activate id activatedAt =>
      obtain ⟨staged,-,-,-,-,hown,hothers,-⟩ := body_replaces h
      refine ⟨hrunning,?_⟩
      intro locale
      by_cases hl : locale=staged.locale
      · rw [hl,hown,List.length_singleton]
      · rw [hothers locale hl]
        exact hd.active locale
    | _ => cases hkind

/-- A call leaves the database or commits its body. -/
theorem transact_cases (env : CatalogEnv) (d : CatalogDatabase) (fault : Fault StorageError)
    (action : Action) : transact env d fault action=d ∨
      ∃ answer, body env action d=.ok (answer,transact env d fault action) := by
  obtain ⟨answer,written,hwork,hrun⟩ | ⟨e,hrun⟩ | ⟨e,hrun⟩ | ⟨e,answer,written,hwork,hrun⟩ :=
    runTransaction_cases fault (body env action) d
  · exact .inr ⟨answer,by rw [transact,hrun]; exact hwork⟩
  · exact .inl (by rw [transact,hrun])
  · exact .inl (by rw [transact,hrun])
  · exact .inr ⟨answer,by rw [transact,hrun]; exact hwork⟩

theorem Untouched.refl (d : CatalogDatabase) : Untouched d d := ⟨.of_eq rfl rfl,rfl,rfl⟩

theorem step_invariant (env : CatalogEnv) (d : CatalogDatabase) (event : Event)
    (hd : Invariant d.catalog) : Invariant (step env d event).catalog := by
  cases event with
  | library stories tags assignments => exact hd
  | call fault action =>
    obtain hsame | ⟨answer,hbody⟩ := transact_cases env d fault action
    · rwa [step,hsame]
    · exact body_invariant hbody hd

theorem run_invariant (env : CatalogEnv) (stories : List Story) (tags : TagTables)
    (assignments : List Assignment) (events : List Event) :
    Invariant (run env (unsynced stories tags assignments) events).catalog := by
  have hfresh : Invariant (unsynced stories tags assignments).catalog :=
    ⟨Nat.zero_le 1,fun locale => Nat.zero_le 1⟩
  exact foldl_invariant (step_invariant env) events _ hfresh

/-- How a repository call failed. -/
inductive RepositoryFailure where
  | proven
  | uncertain
  deriving DecidableEq

/-- What the outcome of a transaction tells the session. -/
def acknowledge {α : Type} : TransactionOutcome StorageError α → Except RepositoryFailure α
  | .committed value => .ok value
  | .provenNotCommitted _ => .error .proven
  | .commitUncertain _ => .error .uncertain

def call {α : Type} (fault : Fault StorageError) (work : Work CatalogDatabase StorageError α)
    (d : CatalogDatabase) : Except RepositoryFailure α×CatalogDatabase :=
  (acknowledge (runTransaction fault work d).1,(runTransaction fault work d).2)

def failure (e : RepositoryFailure) (otherwise : RefreshCode) : RefreshCode :=
  match e with
  | .proven => otherwise
  | .uncertain => .outcomeUncertain

/-- A begun refresh. -/
structure RefreshSession where
  id : String
  locale : String
  startedAt : String

/-- What surrounds the end of a refresh: the normalization, the answers of the cancellation
test, the file of the raw response, and what happens to each call. -/
structure Surroundings where
  normalize : List UInt8 → String → Option NormalizedCatalog
  cancelled : ℕ → Bool
  path : String
  staging : Fault StorageError
  activation : Fault StorageError
  settling : Fault StorageError

def RefreshSession.failed (session : RefreshSession) (surroundings : Surroundings)
    (snapshot : Option ℤ) (code : RefreshCode) (finishedAt : String) (d : CatalogDatabase) :
    Except RefreshCode RefreshReport×CatalogDatabase :=
  match call surroundings.settling
    (onCatalog (finishCatalogFailure session.id snapshot code finishedAt)) d with
  | (.ok _,d) => (.error code,d)
  | (.error e,d) => (.error (failure e .persistenceFailed),d)

def RefreshSession.finish (env : CatalogEnv) (session : RefreshSession)
    (surroundings : Surroundings) (payload : Option (List UInt8)) (finishedAt : Option String)
    (d : CatalogDatabase) : Except RefreshCode RefreshReport×CatalogDatabase :=
  match finishedAt with
  | none => session.failed surroundings none .persistenceFailed session.startedAt d
  | some finishedAt => match payload with
    | none => session.failed surroundings none
        (if surroundings.cancelled 0 then .cancelled else .fetchFailed) finishedAt d
    | some raw =>
      if surroundings.cancelled 0 then
        session.failed surroundings none .cancelled finishedAt d
      else match surroundings.normalize raw session.locale with
      | none => session.failed surroundings none .invalidCatalog finishedAt d
      | some catalog =>
        if surroundings.cancelled 1 then
          session.failed surroundings none .cancelled finishedAt d
        else match call surroundings.staging
          (stageCatalog env session.id catalog surroundings.path finishedAt) d with
        | (.error .uncertain,d) => (.error .outcomeUncertain,d)
        | (.error .proven,d) => session.failed surroundings none
            (if surroundings.cancelled 2 then .cancelled else .stageFailed) finishedAt d
        | (.ok snapshot,d) =>
          if surroundings.cancelled 2 then
            session.failed surroundings (some snapshot) .cancelled finishedAt d
          else match call surroundings.activation (activateCatalog snapshot finishedAt) d with
          | (.ok report,d) => (.ok report,d)
          | (.error .uncertain,d) => (.error .outcomeUncertain,d)
          | (.error .proven,d) =>
            session.failed surroundings (some snapshot) .persistenceFailed finishedAt d

theorem Untouched.trans (a b c : CatalogDatabase) (h : Untouched a b) (h' : Untouched b c) :
    Untouched a c :=
  ⟨h.catalog.trans h'.catalog,h'.tags.trans h.tags,h'.assignments.trans h.assignments⟩

/-- Recording a failure keeps the active data and every tag. -/
theorem failed_untouched (session : RefreshSession) (surroundings : Surroundings)
    (snapshot : Option ℤ) (code : RefreshCode) (finishedAt : String) (d : CatalogDatabase) :
    Untouched d (session.failed surroundings snapshot code finishedAt d).2 := by
  have hkeeps : Keeps Untouched
      (onCatalog (finishCatalogFailure session.id snapshot code finishedAt)) := by
    intro d answer d' h
    obtain ⟨c,hc,rfl⟩ := onCatalog_ok h
    obtain ⟨⟨p,hp,hsnapshots⟩,hmetadata,-⟩ := finishCatalogFailure_ok hc
    exact ⟨.of_rejected hp hsnapshots hmetadata,rfl,rfl⟩
  have hrun := hkeeps.runTransaction Untouched.refl surroundings.settling d
  unfold RefreshSession.failed call
  cases acknowledge (runTransaction surroundings.settling
    (onCatalog (finishCatalogFailure session.id snapshot code finishedAt)) d).1 with
  | ok answer => exact hrun
  | error e => exact hrun

theorem call_proven {fault : Fault StorageError} {work : Work CatalogDatabase StorageError α}
    (h : call fault work d=(.error .proven,d')) : d'=d := by
  obtain ⟨hanswer,hstore⟩ := Prod.mk.inj h
  cases hrun : runTransaction fault work d with
  | mk outcome after =>
    rw [hrun] at hanswer hstore
    cases outcome with
    | committed value => cases hanswer
    | commitUncertain e => cases hanswer
    | provenNotCommitted e =>
      have hsame := runTransaction_provenNotCommitted hrun
      exact hstore.symm.trans hsame

/-- A refresh that ends with any other code than an uncertain outcome keeps the active data
and every tag. -/
theorem finish_untouched {session : RefreshSession} {surroundings : Surroundings}
    {payload : Option (List UInt8)} {finishedAt : Option String} {code : RefreshCode}
    (h : session.finish env surroundings payload finishedAt d=(.error code,d'))
    (hcode : code≠.outcomeUncertain) : Untouched d d' := by
  have hfailed : ∀ {snapshot code' finishedAt e},
      session.failed surroundings snapshot code' finishedAt e=(.error code,d') →
        Untouched e d' := by
    intro snapshot code' finishedAt e hf
    have huntouched := failed_untouched session surroundings snapshot code' finishedAt e
    rwa [hf] at huntouched
  unfold RefreshSession.finish at h
  cases finishedAt with
  | none => exact hfailed h
  | some finishedAt => cases payload with
    | none => exact hfailed h
    | some raw =>
      dsimp only at h
      by_cases hc : surroundings.cancelled 0=true
      · rw [if_pos hc] at h
        exact hfailed h
      rw [if_neg hc] at h
      cases hn : surroundings.normalize raw session.locale with
      | none =>
        rw [hn] at h
        exact hfailed h
      | some catalog =>
        simp only [hn] at h
        by_cases hc : surroundings.cancelled 1=true
        · rw [if_pos hc] at h
          exact hfailed h
        rw [if_neg hc] at h
        have hkeeps : Keeps Untouched
            (stageCatalog env session.id catalog surroundings.path finishedAt) :=
          fun d answer d' => stageCatalog_untouched
        have hstaged := hkeeps.runTransaction Untouched.refl surroundings.staging d
        rcases hs : call surroundings.staging
          (stageCatalog env session.id catalog surroundings.path finishedAt) d with ⟨answer,e⟩
        have he : Untouched d e := by
          rwa [(Prod.mk.inj hs).2] at hstaged
        rw [hs] at h
        cases answer with
        | error failure =>
          cases failure with
          | uncertain => exact absurd (Except.error.inj (Prod.mk.inj h).1).symm hcode
          | proven => exact .trans d e d' he (hfailed h)
        | ok snapshot =>
          dsimp only at h
          by_cases hc : surroundings.cancelled 2=true
          · rw [if_pos hc] at h
            exact .trans d e d' he (hfailed h)
          rw [if_neg hc] at h
          rcases ha : call surroundings.activation (activateCatalog snapshot finishedAt) e with
            ⟨answer,e'⟩
          rw [ha] at h
          cases answer with
          | ok report => cases (Prod.mk.inj h).1
          | error failure =>
            cases failure with
            | uncertain => exact absurd (Except.error.inj (Prod.mk.inj h).1).symm hcode
            | proven =>
              obtain rfl := call_proven ha
              exact .trans d e' d' he (hfailed h)

/-- What a library guarantees about its refreshes. -/
structure Guarantees (env : CatalogEnv) (d : CatalogDatabase) : Prop where
  /-- At most one synchronization runs. -/
  running : d.catalog.syncs.countP Sync.running≤1
  active : ∀ locale, (activeIn d.catalog locale).length≤1
  /-- A call stages rows only into the snapshot of the running synchronization. -/
  staged : ∀ fault action, StagedOnly d.catalog (transact env d fault action).catalog
  /-- A call that is no activation keeps the active snapshots, their metadata and all tags. -/
  untouched : ∀ fault action, Action.activates action=false →
    Untouched d (transact env d fault action)
  /-- A refresh that ends in a known failure keeps them as well. -/
  failed : ∀ session surroundings payload finishedAt code d',
    RefreshSession.finish env session surroundings payload finishedAt d=(.error code,d') →
      code≠.outcomeUncertain → Untouched d d'
  /-- An activation changes nothing or replaces the active snapshot of exactly its locale. -/
  replaced : ∀ fault id activatedAt, transact env d fault (.activate id activatedAt)=d ∨
    Replaces id activatedAt d.catalog (transact env d fault (.activate id activatedAt)).catalog

end Librairii.CatalogRefresh
