import Librairii.OperationRows
import Librairii.RunConditions

/-!
# Effects that the operations controller observes

The controller polls the store for the cards of operations, their reports and the catalog. The
session has to follow an import whose count has grown and a catalog that has changed. Each poll
compares with what an earlier one stored, and can fail between its reads.
-/

namespace Librairii.OperationEffects

open OperationRows hiding StorageError
open RunConditions (Along)

/-- Why a call of the store or of the runtime fails. -/
inductive StorageError where
  | runtimeFenced
  | custodyRecoveryRequired
  | profileRestartRequired
  | snapshotChanged
  | queueFull
  | invalidNavigation
  | compatibilityInvariant
  | resourceLimit
  | other (code : ℕ)
  deriving DecidableEq

/-- Failures behind which the library has to recover. -/
def StorageError.recovery : StorageError → Bool
  | .runtimeFenced | .custodyRecoveryRequired | .profileRestartRequired => true
  | _ => false

/-- A message of the screen. -/
inductive Message where
  | error (error : StorageError)
  | admissionFailed
  deriving DecidableEq

/-- The card of an operation. -/
structure OperationCard where
  id : String
  kind : OperationKind
  state : OperationState
  createdAt : String
  succeeded : ℕ
  /-- The items that run. -/
  running : List ℤ

def OperationCard.imports (card : OperationCard) : Bool :=
  match card.kind with
  | .import => true
  | _ => false

/-- A page of the report of an operation. -/
structure OperationItems where
  card : OperationCard
  page : ℕ
  pages : ℕ

/-- A page of the history. -/
structure OperationHistory where
  cards : List OperationCard
  nextBefore : Option String

/-- The state of the catalog. -/
structure CatalogStatus where
  activatedAt : Option String

/-- The status of the runtime of jobs. -/
structure RuntimeStatus where
  queued : ℕ
  running : ℕ
  stopping : Bool
  failed : Bool
  starting : Bool
  drained : Bool
  deriving DecidableEq

/-- Progress of an item. -/
structure ProgressUpdate where
  item : ℤ

/-- The receipt of an offered job. -/
structure Admission where
  id : String
  accepted : Bool

/-- What the runtime of jobs shows. -/
structure JobObservation where
  critical : Bool
  status : RuntimeStatus
  dirty : Bool
  progress : List ProgressUpdate
  admissions : List Admission

/-- The receipt of a metadata job whose input came back. -/
structure RefusedSync where
  id : String
  revision : ℕ
  generation : ℕ
  deriving DecidableEq

/-- The preferences of the interface. -/
structure InterfacePreferences where
  syncPanelHidden : Bool
  dismissedOperations : Finset String

/-- The history on the screen. -/
structure History (Local : Type) where
  cards : List OperationCard
  dates : List (Option Local)
  page : ℕ
  nextBefore : Option String
  error : Option StorageError

/-- What the screen shows. -/
structure Snapshot (Local Rev : Type) where
  dismissedOperations : Finset String
  history : History Local
  noticeError : Option StorageError
  critical : Bool
  catalogRevision : Option Rev
  syncHidden : Bool
  syncPreparing : Bool
  syncRefused : Option RefusedSync
  preferenceError : Bool
  catalog : Option CatalogStatus
  lastSuccessLocal : Option Local
  recoveryRequired : Bool
  revision : ℕ
  observation : ℕ
  effectsRevision : ℕ
  cards : List OperationCard
  details : Option OperationItems
  preparing : Option String
  error : Option Message
  importRefused : Bool
  cancelRefused : Bool
  status : Option RuntimeStatus
  progress : List ProgressUpdate

/-- The controller of operations. -/
structure Controller (Local Rev : Type) where
  /-- The refused metadata job, with its input. -/
  refused : Option (RefusedSync×String)
  preferences : Option InterfacePreferences
  snapshot : Snapshot Local Rev
  recent : List String
  selected : Option (String×ℕ)
  /-- The counts of the imports that were read last. -/
  succeeded : List (String×ℕ)
  /-- A poll was completed. -/
  last : Bool
  dirty : Bool
  initialized : Bool
  historyBefore : String
  historyAttempt : Option (String×ℕ)

variable {Local Rev : Type}

def Controller.new : Controller Local Rev where
  refused := none
  preferences := none
  snapshot := ⟨∅,⟨[],[],0,none,none⟩,none,false,none,false,false,none,false,none,none,false,0,0,0,[],
    none,none,none,false,false,none,[]⟩
  recent := []
  selected := none
  succeeded := []
  last := false
  dirty := false
  initialized := false
  historyBefore := ""
  historyAttempt := none

def Controller.watch (c : Controller Local Rev) (id : String) (revision : ℕ) :
    Controller Local Rev :=
  {c with
    recent := (id::c.recent.filter (·≠id)).take 8
    snapshot := {c.snapshot with
      revision := revision
      importRefused := false
      cancelRefused := false
      preparing := some id
      details := none}
    selected := some (id,0)
    dirty := true}

/-- What the store and the runtime answer to a poll. -/
structure Observation (Rev : Type) where
  jobs : JobObservation
  /-- The last completed poll is less than a tenth of a second old. -/
  early : Bool
  cards : Except StorageError (List OperationCard)
  historyCards : Except StorageError (List OperationCard)
  items : Except StorageError OperationItems
  catalog : Except StorageError (CatalogStatus×Option Rev)

/-- What a call observes of the store. -/
inductive Event (Rev : Type) where
  | cards (cards : List OperationCard)
  | catalog (revision : Option Rev)
  /-- A poll whose reads all succeeded. -/
  | completed

/-- The result of a poll, the controller behind it, and what it observed. -/
structure Polled (Local Rev : Type) where
  result : Except StorageError (Bool×Bool)
  controller : Controller Local Rev
  events : List (Event Rev)

/-- A counter of 64 bits and its next value. -/
def checkedIncrement (n : ℕ) : Option ℕ := if n+1<2^64 then some (n+1) else none

def Controller.takeReceipt (c : Controller Local Rev) (receipt : Admission) :
    Controller Local Rev :=
  if c.snapshot.preparing=some receipt.id then
    {c with
      dirty := true
      snapshot := {c.snapshot with
        preparing := none
        syncPreparing := false
        error := if receipt.accepted then c.snapshot.error else some .admissionFailed}}
  else {c with dirty := true}

/-- Take the observation of the runtime. -/
def Controller.observeJobs (c : Controller Local Rev) (observed : JobObservation) :
    Controller Local Rev :=
  let c := {c with
    dirty := c.dirty || observed.dirty || !observed.progress.isEmpty ||
      c.snapshot.critical≠observed.critical || c.snapshot.status≠some observed.status
    snapshot := {c.snapshot with status := some observed.status, critical := observed.critical}}
  let c := observed.admissions.foldl Controller.takeReceipt c
  {c with snapshot := {c.snapshot with
    progress := observed.progress.foldl
      (fun progress update => progress.filter (·.item≠update.item)++[update]) c.snapshot.progress}}

def countOf (counts : List (String×ℕ)) (id : String) : ℕ :=
  ((counts.find? (·.1=id)).map Prod.snd).getD 0

/-- An import has more items that succeeded than were stored. -/
def raised (counts : List (String×ℕ)) (cards : List OperationCard) : Bool :=
  cards.any fun card => card.imports && countOf counts card.id<card.succeeded

def importCounts (cards : List OperationCard) : List (String×ℕ) :=
  cards.foldl (fun counts card =>
    if card.imports then (card.id,card.succeeded)::counts else counts) []

def Controller.takeCards (c : Controller Local Rev) (cards : List OperationCard) (observation : ℕ) :
    Controller Local Rev :=
  {c with
    snapshot := {c.snapshot with
      observation := observation
      progress := (c.snapshot.progress.filter fun p => cards.any fun card =>
        card.state=.running && card.running.contains p.item).take 8
      cards := cards}}

def Controller.takeHistory (c : Controller Local Rev) (current : List OperationCard) :
    Controller Local Rev :=
  {c with snapshot := {c.snapshot with history := {c.snapshot.history with
    cards := c.snapshot.history.cards.map fun saved =>
      if isTerminal saved.state then saved
      else (current.find? (·.id=saved.id)).getD saved}}}

def Controller.activeHistory (c : Controller Local Rev) : List String :=
  (c.snapshot.history.cards.filter fun card => !isTerminal card.state).map OperationCard.id

/-- An operation is on the screen. -/
def Controller.listed (c : Controller Local Rev) (id : String) : Bool :=
  c.snapshot.cards.any (·.id=id) || c.snapshot.history.cards.any (·.id=id)

def Controller.readHistory (c : Controller Local Rev) (o : Observation Rev) :
    Option StorageError×Controller Local Rev :=
  if c.activeHistory=[] then (none,c)
  else
    match o.historyCards with
    | .ok current => (none,c.takeHistory current)
    | .error error =>
      let c := {c with snapshot := {c.snapshot with history :=
        {c.snapshot.history with error := some error}}}
      (if error.recovery then some error else none,c)

def Controller.readItems (c : Controller Local Rev) (o : Observation Rev) :
    Option StorageError×Controller Local Rev :=
  match c.selected with
  | none => (none,c)
  | some (id,_) =>
    if c.listed id then
      match o.items with
      | .ok items => (none,{c with snapshot := {c.snapshot with details := some items}})
      | .error error => (some error,c)
    else if c.snapshot.preparing≠some id then
      (none,{c with selected := none, snapshot := {c.snapshot with details := none}})
    else (none,c)

variable [DecidableEq Rev] (localTime : String → Option Local)

def Controller.readCatalog (c : Controller Local Rev) (o : Observation Rev) (effects : Bool) :
    Except StorageError Bool×Controller Local Rev×List (Event Rev) :=
  match o.catalog with
  | .error error => (.error error,c,[])
  | .ok (catalog,revision) =>
    let effects := effects || (c.initialized && revision.isSome &&
      c.snapshot.catalogRevision≠revision)
    let c := {c with snapshot := {c.snapshot with
      catalogRevision := revision
      lastSuccessLocal := catalog.activatedAt.bind localTime
      catalog := some catalog}}
    match if effects then checkedIncrement c.snapshot.effectsRevision
      else some c.snapshot.effectsRevision with
    | none => (.error .runtimeFenced,c,[.catalog revision])
    | some effectsRevision =>
      (.ok effects,{c with
        snapshot := {c.snapshot with effectsRevision := effectsRevision}
        last := true
        dirty := false
        initialized := true},[.catalog revision,.completed])

/-- Read the history, the report and the catalog behind the cards. -/
def Controller.readRest (c : Controller Local Rev) (o : Observation Rev) (effects : Bool) :
    Except StorageError Bool×Controller Local Rev×List (Event Rev) :=
  match c.readHistory o with
  | (some error,c) => (.error error,c,[])
  | (none,c) =>
    match c.readItems o with
    | (some error,c) => (.error error,c,[])
    | (none,c) => c.readCatalog localTime o effects

/-- Read the cards and everything behind them. -/
def Controller.read (c : Controller Local Rev) (o : Observation Rev) :
    Except StorageError Bool×Controller Local Rev×List (Event Rev) :=
  match o.cards with
  | .error error => (.error error,c,[])
  | .ok cards =>
    let effects := c.initialized && raised c.succeeded cards
    let c := {c with succeeded := importCounts cards}
    match checkedIncrement c.snapshot.observation with
    | none => (.error .runtimeFenced,c,[.cards cards])
    | some observation =>
      let rest := (c.takeCards cards observation).readRest localTime o effects
      (rest.1,rest.2.1,.cards cards::rest.2.2)

/-- Observe the runtime, and the store where something may have changed. -/
def Controller.poll (c : Controller Local Rev) (force : Bool) (o : Observation Rev) :
    Polled Local Rev :=
  if o.jobs.status.failed then ⟨.error .runtimeFenced,c,[]⟩
  else
    let c := c.observeJobs o.jobs
    if !force && o.jobs.admissions.isEmpty && (!c.dirty || (c.last && o.early)) then
      ⟨.ok (false,false),c,[]⟩
    else
      let read := c.read localTime o
      ⟨read.1.map fun effects => (true,effects),read.2.1,read.2.2⟩

/-- What is asked of the history. -/
inductive HistoryAction where
  | open
  | older
  | refresh
  | retry

/-- What is asked of the controller. -/
inductive Action where
  | sync
  | retrySync (receipt : RefusedSync)
  | hideSync (hidden : Bool)
  | importPaths (paths : List ℕ)
  | cancel (id : String)
  | inspect (id : String) (page : ℕ)
  | dismiss (id : String)
  | history (action : HistoryAction)
  | refresh

/-- An identity that is not empty and not too long. -/
def boundedId (id : String) : Bool := id≠"" && id.utf8ByteSize≤256

def Action.bounded : Action → Bool
  | .importPaths paths => 1≤paths.length && paths.length≤1000 && paths.sum≤1024*1024
  | .cancel id | .dismiss id | .inspect id _ => boundedId id
  | .retrySync receipt => boundedId receipt.id
  | .refresh | .sync | .hideSync _ | .history _ => true

/-- What the runtime and the store answer to an action. -/
structure Answers (Rev : Type) where
  /-- The generation of the library is still current. -/
  accepts : Bool
  before : Observation Rev
  jobId : Except StorageError String
  /-- The input of a metadata job is accepted. -/
  startMade : Bool
  offerMetadata : Except StorageError Unit
  importMade : Bool
  offerImport : Bool
  cancelOperation : Except StorageError Unit
  saveInterface : Except StorageError Unit
  restartRequired : Bool
  operationHistory : Except StorageError OperationHistory
  /-- The poll behind the action. -/
  after : Observation Rev

/-- The result of an action before the poll behind it: whether that poll follows. -/
abbrev Acted (Local Rev : Type) := Except StorageError Bool×Controller Local Rev

/-- Take a job as the one that is being prepared. -/
def Controller.prepare (c : Controller Local Rev) (id : String) (recent : List String)
    (sync : Bool) : Controller Local Rev :=
  {c with
    recent := (id::recent).take 8
    snapshot := {c.snapshot with
      preparing := some id
      syncPreparing := c.snapshot.syncPreparing || sync
      details := none}
    selected := some (id,0)}

/-- The input of a metadata job: a new one, or the one that came back. -/
def Controller.metadataStart (c : Controller Local Rev) (generation : ℕ)
    (retry : Option RefusedSync) (a : Answers Rev) :
    Except StorageError String×Controller Local Rev :=
  match retry with
  | some receipt =>
    match c.refused with
    | some (saved,start) =>
      if receipt.generation=generation ∧ saved=receipt then (.ok start,{c with refused := none})
      else (.error .snapshotChanged,c)
    | none => (.error .snapshotChanged,c)
  | none =>
    match a.jobId with
    | .error error => (.error error,c)
    | .ok id => if a.startMade then (.ok id,c) else (.error .compatibilityInvariant,c)

/-- Offer a metadata job. -/
def Controller.sync (c : Controller Local Rev) (generation revision : ℕ)
    (retry : Option RefusedSync) (a : Answers Rev) : Acted Local Rev :=
  if c.snapshot.syncPreparing || c.snapshot.cards.any (fun card =>
      card.kind=.metadataSync && !isTerminal card.state) then (.error .queueFull,c)
  else
    match c.metadataStart generation retry a with
    | (.error error,c) => (.error error,c)
    | (.ok id,c) =>
      let c := {c with refused := none}
      match a.offerMetadata with
      | .error .queueFull =>
        (.error .queueFull,{c with refused := some (⟨id,revision,generation⟩,id)})
      | .error error => (.error error,c)
      | .ok _ => (.ok true,c.prepare id c.recent true)

def Controller.notSaved (c : Controller Local Rev) (a : Answers Rev) : Controller Local Rev :=
  {c with snapshot := {c.snapshot with
    preferenceError := true
    recoveryRequired := c.snapshot.recoveryRequired || a.restartRequired}}

def Controller.saved (c : Controller Local Rev) (preferences : InterfacePreferences) :
    Controller Local Rev :=
  {c with
    preferences := some preferences
    snapshot := {c.snapshot with preferenceError := false, noticeError := none}}

/-- Hide or show the panel of the metadata job. -/
def Controller.hideSync (c : Controller Local Rev) (hidden : Bool) (a : Answers Rev) :
    Acted Local Rev :=
  match c.preferences with
  | none => (.ok true,{c with snapshot := {c.snapshot with syncHidden := hidden}})
  | some preferences =>
    match a.saveInterface with
    | .error error => (.error error,c.notSaved a)
    | .ok _ =>
      let c := c.saved {preferences with
        syncPanelHidden := hidden
        dismissedOperations := c.snapshot.dismissedOperations}
      (.ok true,{c with snapshot := {c.snapshot with syncHidden := hidden}})

def Controller.importPaths (c : Controller Local Rev) (a : Answers Rev) : Acted Local Rev :=
  match a.jobId with
  | .error error => (.error error,c)
  | .ok id =>
    if !a.importMade then (.error .compatibilityInvariant,c)
    else if !a.offerImport then
      (.error .queueFull,{c with snapshot := {c.snapshot with importRefused := true}})
    else (.ok true,c.prepare id (c.recent.filter (·≠id)) false)

def Controller.cancel (c : Controller Local Rev) (id : String) (a : Answers Rev) :
    Acted Local Rev :=
  if !c.snapshot.cards.any (fun card => card.id=id && !isTerminal card.state) then
    (.error .snapshotChanged,c)
  else
    let c := {c with snapshot := {c.snapshot with
      cancelRefused := match a.cancelOperation with
        | .error .queueFull => true
        | _ => false}}
    (a.cancelOperation.map fun _ => true,c)

/-- Select the report of an operation. -/
def Controller.inspect (c : Controller Local Rev) (id : String) (page : ℕ) : Acted Local Rev :=
  if !c.listed id then (.error .snapshotChanged,c)
  else (.ok true,{c with selected := some (id,page)})

def Controller.dismiss (c : Controller Local Rev) (id : String) (a : Answers Rev) :
    Acted Local Rev :=
  if !c.snapshot.cards.any (fun card => card.id=id && isTerminal card.state) then
    (.error .snapshotChanged,c)
  else if 4096≤c.snapshot.dismissedOperations.card ∧ id ∉ c.snapshot.dismissedOperations then
    (.error .resourceLimit,c)
  else
    let c := {c with snapshot := {c.snapshot with
      dismissedOperations := insert id c.snapshot.dismissedOperations}}
    match c.preferences with
    | none => (.ok false,{c with snapshot := {c.snapshot with
        preferenceError := true
        noticeError := some .invalidNavigation}})
    | some preferences =>
      match a.saveInterface with
      | .error error => (.error error,c.notSaved a)
      | .ok _ => (.ok true,c.saved {preferences with
          dismissedOperations := c.snapshot.dismissedOperations})

/-- Where the history is read from, and the page it is. -/
def Controller.historyFrom (c : Controller Local Rev) :
    HistoryAction → Except StorageError (String×ℕ)
  | .open | .refresh => .ok ("",0)
  | .older =>
    match c.snapshot.history.nextBefore with
    | none => .error .snapshotChanged
    | some before =>
      if c.snapshot.history.page+1<2^64 then .ok (before,c.snapshot.history.page+1)
      else .error .resourceLimit
  | .retry => .ok (c.historyAttempt.getD (c.historyBefore,c.snapshot.history.page))

def Controller.history (c : Controller Local Rev) (action : HistoryAction) (a : Answers Rev) :
    Acted Local Rev :=
  match c.historyFrom action with
  | .error error => (.error error,c)
  | .ok (before,page) =>
    let c := {c with historyAttempt := some (before,page)}
    match a.operationHistory with
    | .error error => (.error error,{c with snapshot := {c.snapshot with
        history := {c.snapshot.history with error := some error}}})
    | .ok history => (.ok true,{c with
        snapshot := {c.snapshot with history := ⟨history.cards,
          history.cards.map fun card => localTime card.createdAt,page,history.nextBefore,none⟩}
        historyBefore := before
        historyAttempt := none})

/-- Do what is asked, between the two polls. -/
def Controller.act (c : Controller Local Rev) (generation revision : ℕ) (action : Action)
    (a : Answers Rev) : Acted Local Rev :=
  match action with
  | .sync => c.sync generation revision none a
  | .retrySync receipt => c.sync generation revision (some receipt) a
  | .hideSync hidden => c.hideSync hidden a
  | .importPaths _ => c.importPaths a
  | .cancel id => c.cancel id a
  | .inspect id page => c.inspect id page
  | .dismiss id => c.dismiss id a
  | .history action => c.history localTime action a
  | .refresh => (.ok true,c)

/-- A result, the controller behind it, the effects, and what was observed. -/
structure Handled (Local Rev : Type) where
  result : Except StorageError Unit
  controller : Controller Local Rev
  effects : Bool
  events : List (Event Rev)

def effectsOf : Except StorageError (Bool×Bool) → Bool
  | .ok (_,effects) => effects
  | .error _ => false

/-- Poll, do what is asked, and poll again. -/
def Controller.attempt (c : Controller Local Rev) (generation revision : ℕ) (action : Action)
    (a : Answers Rev) : Handled Local Rev :=
  if !a.accepts || !action.bounded then ⟨.error .snapshotChanged,c,false,[]⟩
  else
    let first := c.poll localTime true a.before
    match first.result with
    | .error error => ⟨.error error,first.controller,false,first.events⟩
    | .ok (_,effects) =>
      match first.controller.act localTime generation revision action a with
      | (.error error,c) => ⟨.error error,c,effects,first.events⟩
      | (.ok false,c) => ⟨.ok (),c,effects,first.events⟩
      | (.ok true,c) =>
        let second := {c with dirty := true}.poll localTime true a.after
        ⟨second.result.map fun _ => (),second.controller,effects || effectsOf second.result,
          first.events++second.events⟩

/-- Forget the messages of the action before; an inspection also forgets the report. -/
def Controller.begin (c : Controller Local Rev) (action : Action) (revision : ℕ) :
    Controller Local Rev :=
  let inspecting := match action with
    | .inspect _ _ => true
    | _ => false
  {c with
    selected := if inspecting then none else c.selected
    snapshot := {c.snapshot with
      revision := revision
      error := none
      importRefused := false
      cancelRefused := false
      details := if inspecting then none else c.snapshot.details}}

def Controller.handle (c : Controller Local Rev) (generation revision : ℕ) (action : Action)
    (a : Answers Rev) : Controller Local Rev×Bool×List (Event Rev) :=
  let dismissing := match action with
    | .dismiss _ => true
    | _ => false
  let handled := (c.begin action revision).attempt localTime generation revision action a
  let c := handled.controller
  let c := {c with snapshot := {c.snapshot with syncRefused := c.refused.map Prod.fst}}
  match handled.result with
  | .ok _ => (c,handled.effects,handled.events)
  | .error error => ({c with snapshot := {c.snapshot with
      noticeError := if dismissing then some error else c.snapshot.noticeError
      recoveryRequired := c.snapshot.recoveryRequired || error.recovery
      error := some (.error error)}},handled.effects,handled.events)

/-- Take the saved preferences of the interface; a profile that cannot be read fails. -/
def Controller.restorePreferences (c : Controller Local Rev)
    (loaded : Except StorageError (Option InterfacePreferences)) : Controller Local Rev :=
  match loaded with
  | .ok value =>
    let value := value.getD ⟨false,∅⟩
    {c with
      preferences := some value
      snapshot := {c.snapshot with
        syncHidden := value.syncPanelHidden
        dismissedOperations := value.dismissedOperations}}
  | .error .invalidNavigation =>
    {c with preferences := none, snapshot := {c.snapshot with preferenceError := true}}
  | .error _ => c

/-- What somebody who follows every observation knows. -/
structure Watcher (Rev : Type) where
  /-- The last observed count of an import. -/
  counts : String → ℕ
  /-- The last observed revision of the catalog. -/
  revision : Option Rev
  /-- A poll was completed. -/
  started : Bool
  /-- An observation since then has shown an effect that no call has returned. -/
  due : Bool

/-- Nothing was observed. -/
def Watcher.new : Watcher Rev := ⟨fun _ => 0,none,false,false⟩

/-- An import has more items that succeeded than were ever observed last. -/
def Watcher.grown (w : Watcher Rev) (cards : List OperationCard) : Bool :=
  cards.any fun card => card.imports && w.counts card.id<card.succeeded

/-- Follow one observation. -/
def Watcher.see (w : Watcher Rev) : Event Rev → Watcher Rev
  | .cards cards => {w with
      due := w.due || (w.started && w.grown cards)
      counts := cards.foldl (fun counts card =>
        if card.imports then Function.update counts card.id card.succeeded else counts)
        w.counts}
  | .catalog revision => {w with
      due := w.due || (w.started && revision.isSome && w.revision≠revision)
      revision := revision.or w.revision}
  | .completed => {w with started := true}

/-- A call has returned whether there are effects. -/
def Watcher.settle (w : Watcher Rev) (effects : Bool) : Watcher Rev :=
  {w with due := w.due && !effects}

/-- What the session calls. -/
inductive Call (Rev : Type) where
  | restore (loaded : Except StorageError (Option InterfacePreferences))
  | poll (force : Bool) (o : Observation Rev)
  | handle (generation revision : ℕ) (action : Action) (a : Answers Rev)
  | watch (id : String) (revision : ℕ)

/-- What a call leaves, returns and observes. -/
def call (c : Controller Local Rev) : Call Rev → Controller Local Rev×Bool×List (Event Rev)
  | .restore loaded => (c.restorePreferences loaded,false,[])
  | .poll force o =>
    let polled := c.poll localTime force o
    (polled.controller,effectsOf polled.result,polled.events)
  | .handle generation revision action a => c.handle localTime generation revision action a
  | .watch id revision => (c.watch id revision,false,[])

/-- A controller and somebody who follows what it observes. -/
abbrev State (Local Rev : Type) := Controller Local Rev×Watcher Rev

def callStep (s : State Local Rev) (c : Call Rev) : State Local Rev :=
  let called := call localTime s.1 c
  (called.1,(called.2.2.foldl Watcher.see s.2).settle called.2.1)

/-- A poll whose reads all succeeded is among the observations. -/
def observes (events : List (Event Rev)) : Bool :=
  events.any fun event => match event with
    | .completed => true
    | _ => false

/-- A call that observes the store with all reads succeeding returns the effects that are due. -/
def Delivered (s : State Local Rev) (c : Call Rev) : Prop :=
  let called := call localTime s.1 c
  observes called.2.2=true → (called.2.2.foldl Watcher.see s.2).due=true → called.2.1=true

def Controller.reads (c : Controller Local Rev) (force : Bool) (o : Observation Rev) : Bool :=
  !o.jobs.status.failed && (force || !o.jobs.admissions.isEmpty ||
    ((c.observeJobs o.jobs).dirty && !(c.last && o.early)))

/-- Everything that a poll reads behind the cards is answered, and its counters have room. -/
structure Answered (c : Controller Local Rev) (cards : List OperationCard) (o : Observation Rev) :
    Prop where
  observation : c.snapshot.observation+1<2^64
  history : c.activeHistory≠[] → ∀ error, o.historyCards=.error error → error.recovery=false
  items : ∀ id page, c.selected=some (id,page) →
    (cards.any (·.id=id) || c.snapshot.history.cards.any (·.id=id))=true →
    ∃ items, o.items=.ok items
  catalog : ∃ answer, o.catalog=.ok answer
  effects : c.snapshot.effectsRevision+1<2^64

/-- A poll whose cards show more succeeded items of an import goes on to read everything else, and
one that shows another catalog can count it. -/
def Controller.Safe (c : Controller Local Rev) (force : Bool) (o : Observation Rev) : Prop :=
  let seen := c.observeJobs o.jobs
  c.reads force o=true → ∀ cards, o.cards=.ok cards →
    ((seen.initialized && raised seen.succeeded cards)=true → Answered seen cards o) ∧
    ∀ catalog revision, o.catalog=.ok (catalog,some revision) → seen.initialized=true →
      seen.snapshot.catalogRevision≠some revision → seen.snapshot.effectsRevision+1<2^64

def SafeCall (s : State Local Rev) : Call Rev → Prop
  | .poll force o => s.1.Safe force o
  | .handle generation revision action a =>
    let c := s.1.begin action revision
    let first := c.poll localTime true a.before
    a.accepts=true → action.bounded=true → c.Safe true a.before ∧
      ∀ shown next, first.result=.ok shown →
        first.controller.act localTime generation revision action a=(.ok true,next) →
        {next with dirty := true}.Safe true a.after
  | _ => True

variable {c : Controller Local Rev} {w : Watcher Rev}

section Comparisons

omit [DecidableEq Rev]

/-- What the comparisons of a poll depend on is left alone. -/
structure Same (c c' : Controller Local Rev) : Prop where
  succeeded : c'.succeeded=c.succeeded
  revision : c'.snapshot.catalogRevision=c.snapshot.catalogRevision
  initialized : c'.initialized=c.initialized

theorem Same.refl (c : Controller Local Rev) : Same c c := ⟨rfl,rfl,rfl⟩

theorem Same.trans {a b : Controller Local Rev} (h : Same a b) (h' : Same b c) : Same a c :=
  ⟨h'.succeeded.trans h.succeeded,h'.revision.trans h.revision,
    h'.initialized.trans h.initialized⟩

theorem receipts_same (admissions : List Admission) : ∀ c : Controller Local Rev,
    Same c (admissions.foldl Controller.takeReceipt c) := by
  induction admissions with
  | nil => exact Same.refl
  | cons receipt admissions ih =>
    intro c
    have hone : Same c (c.takeReceipt receipt) := by
      unfold Controller.takeReceipt
      split <;> exact ⟨rfl,rfl,rfl⟩
    exact hone.trans (ih _)

/-- Observing the runtime leaves the comparisons alone. -/
theorem observeJobs_same (c : Controller Local Rev) (observed : JobObservation) :
    Same c (c.observeJobs observed) := by
  have hreceipts := receipts_same observed.admissions {c with
    dirty := c.dirty || observed.dirty || !observed.progress.isEmpty ||
      c.snapshot.critical≠observed.critical || c.snapshot.status≠some observed.status
    snapshot := {c.snapshot with status := some observed.status, critical := observed.critical}}
  exact ⟨hreceipts.succeeded,hreceipts.revision,hreceipts.initialized⟩

theorem readHistory_same (c : Controller Local Rev) (o : Observation Rev) :
    Same c (c.readHistory o).2 := by
  unfold Controller.readHistory
  split
  · exact Same.refl c
  split <;> exact ⟨rfl,rfl,rfl⟩

theorem readItems_same (c : Controller Local Rev) (o : Observation Rev) :
    Same c (c.readItems o).2 := by
  unfold Controller.readItems
  split
  · exact Same.refl c
  split
  · split <;> exact ⟨rfl,rfl,rfl⟩
  split <;> exact ⟨rfl,rfl,rfl⟩

theorem act_same (c : Controller Local Rev) (generation revision : ℕ) (action : Action)
    (a : Answers Rev) : Same c (c.act localTime generation revision action a).2 := by
  have hsync : ∀ retry, Same c (c.sync generation revision retry a).2 := by
    intro retry
    have hstart : Same c (c.metadataStart generation retry a).2 := by
      unfold Controller.metadataStart
      split
      · split
        · split <;> exact ⟨rfl,rfl,rfl⟩
        · exact Same.refl c
      · split
        · exact Same.refl c
        · split <;> exact Same.refl c
    unfold Controller.sync
    split
    · exact Same.refl c
    split
    · next hs =>
      rw [hs] at hstart
      exact hstart
    · next hs =>
      rw [hs] at hstart
      dsimp only
      split <;> exact ⟨hstart.succeeded,hstart.revision,hstart.initialized⟩
  cases action with
  | sync => exact hsync none
  | retrySync receipt => exact hsync (some receipt)
  | hideSync hidden =>
    simp only [Controller.act,Controller.hideSync]
    split
    · exact ⟨rfl,rfl,rfl⟩
    split <;> exact ⟨rfl,rfl,rfl⟩
  | importPaths paths =>
    simp only [Controller.act,Controller.importPaths]
    split
    · exact Same.refl c
    split
    · exact Same.refl c
    split <;> exact ⟨rfl,rfl,rfl⟩
  | cancel id =>
    simp only [Controller.act,Controller.cancel]
    split <;> exact ⟨rfl,rfl,rfl⟩
  | inspect id page =>
    simp only [Controller.act,Controller.inspect]
    split <;> exact ⟨rfl,rfl,rfl⟩
  | dismiss id =>
    simp only [Controller.act,Controller.dismiss]
    split
    · exact Same.refl c
    split
    · exact Same.refl c
    split
    · exact ⟨rfl,rfl,rfl⟩
    split <;> exact ⟨rfl,rfl,rfl⟩
  | history action =>
    simp only [Controller.act,Controller.history]
    split
    · exact Same.refl c
    split <;> exact ⟨rfl,rfl,rfl⟩
  | refresh => exact Same.refl c

def stored (counts : List (String×ℕ)) (id : String) : Option ℕ :=
  (counts.find? (·.1=id)).map Prod.snd

/-- The controller compares with what was observed last. -/
structure Agrees (c : Controller Local Rev) (w : Watcher Rev) : Prop where
  counts : ∀ id n, stored c.succeeded id=some n → w.counts id=n
  revision : ∀ revision, c.snapshot.catalogRevision=some revision → w.revision=some revision
  started : c.initialized=w.started

/-- What leaves the comparisons alone keeps the agreement. -/
theorem Agrees.same {c' : Controller Local Rev} (h : Agrees c w) (hs : Same c c') :
    Agrees c' w := by
  refine ⟨?_,?_,?_⟩
  · rw [hs.succeeded]
    exact h.counts
  · rw [hs.revision]
    exact h.revision
  · rw [hs.initialized]
    exact h.started

/-- What settles leaves the comparisons of the watcher alone. -/
theorem Agrees.settle (h : Agrees c w) (effects : Bool) :
    Agrees c (w.settle effects) := ⟨h.counts,h.revision,h.started⟩

/-- What has grown since it was observed last is above what is stored. -/
theorem Agrees.raised (h : Agrees c w) {cards : List OperationCard} (hgrown : w.grown cards=true) :
    raised c.succeeded cards=true := by
  obtain ⟨card,hcard,hone⟩ := List.any_eq_true.mp hgrown
  rw [Bool.and_eq_true,decide_eq_true_eq] at hone
  refine List.any_eq_true.mpr ⟨card,hcard,?_⟩
  rw [Bool.and_eq_true,decide_eq_true_eq]
  refine ⟨hone.1,?_⟩
  have hcount : countOf c.succeeded card.id=(stored c.succeeded card.id).getD 0 := rfl
  cases hstored : stored c.succeeded card.id with
  | none =>
    rw [hcount,hstored]
    exact Nat.zero_lt_of_lt hone.2
  | some n =>
    have hn := h.counts card.id n hstored
    rw [hcount,hstored]
    rw [hn] at hone
    exact hone.2

theorem counts_agree (cards : List OperationCard) : ∀ (counts : List (String×ℕ))
    (seen : String → ℕ), (∀ id n, stored counts id=some n → seen id=n) →
    ∀ id n, stored (cards.foldl (fun counts card =>
        if card.imports then (card.id,card.succeeded)::counts else counts) counts) id=some n →
      cards.foldl (fun seen card =>
        if card.imports then Function.update seen card.id card.succeeded else seen) seen id=n := by
  induction cards with
  | nil => exact fun counts seen h => h
  | cons card cards ih =>
    intro counts seen h
    rw [List.foldl_cons,List.foldl_cons]
    by_cases hkind : card.imports=true
    · rw [if_pos hkind,if_pos hkind]
      refine ih _ _ fun id n hn => ?_
      by_cases hid : card.id=id
      · have hlook : stored ((card.id,card.succeeded)::counts) id=some card.succeeded := by
          simp [stored,hid]
        rw [hlook] at hn
        rw [←hid,Function.update_self]
        exact Option.some.inj hn
      · have hlook : stored ((card.id,card.succeeded)::counts) id=stored counts id := by
          simp [stored,hid]
        rw [hlook] at hn
        rw [Function.update_of_ne fun he => hid he.symm]
        exact h id n hn
    · rw [if_neg hkind,if_neg hkind]
      exact ih _ _ h

end Comparisons

/-- What one part of a poll comes to: the agreement stays, and an effect that is due was due
before or is among the effects that a success returns. -/
structure Kept (before : Watcher Rev) (out : Except StorageError Bool×Controller Local Rev×
    List (Event Rev)) : Prop where
  agrees : Agrees out.2.1 (out.2.2.foldl Watcher.see before)
  due : (out.2.2.foldl Watcher.see before).due=true → before.due=true ∨ out.1=.ok true

/-- What the catalog shows as another revision differs from the one that is stored. -/
theorem Agrees.changed (h : Agrees c w) {revision : Option Rev}
    (hchanged : (w.started && revision.isSome && decide (w.revision≠revision))=true) :
    (c.initialized && revision.isSome && decide (c.snapshot.catalogRevision≠revision))=true := by
  rw [Bool.and_eq_true,Bool.and_eq_true,decide_eq_true_eq] at hchanged ⊢
  obtain ⟨⟨hstarted,hsome⟩,hne⟩ := hchanged
  refine ⟨⟨h.started.trans hstarted,hsome⟩,fun he => hne ?_⟩
  obtain ⟨r,hr⟩ := Option.isSome_iff_exists.mp hsome
  rw [hr] at he ⊢
  exact h.revision r he

variable {o : Observation Rev}

theorem readCatalog_kept {effects : Bool} (h : Agrees c w)
    (hroom : ∀ catalog revision, o.catalog=.ok (catalog,some revision) → c.initialized=true →
      c.snapshot.catalogRevision≠some revision → c.snapshot.effectsRevision+1<2^64) :
    Kept w (c.readCatalog localTime o effects) := by
  unfold Controller.readCatalog
  cases hcatalog : o.catalog with
  | error error => exact ⟨h,.inl⟩
  | ok answer =>
    obtain ⟨catalog,revision⟩ := answer
    dsimp only
    have hrevision : ∀ r, revision=some r → revision.or w.revision=some r := by
      rintro r rfl
      rfl
    have hdue : (w.see (.catalog revision)).due=true → w.due=true ∨
        (c.initialized && revision.isSome && decide (c.snapshot.catalogRevision≠revision))=true :=
      fun hdue => ((Bool.or_eq_true _ _).mp hdue).imp_right h.changed
    generalize hchange : (c.initialized && revision.isSome &&
      decide (c.snapshot.catalogRevision≠revision))=change at hdue
    cases hnext : (if (effects || change)=true then checkedIncrement c.snapshot.effectsRevision
        else some c.snapshot.effectsRevision) with
    | none =>
      refine ⟨⟨h.counts,hrevision,h.started⟩,fun hlater => ?_⟩
      rcases hdue hlater with hbefore | hnow
      · exact .inl hbefore
      · exfalso
        rw [hnow] at hchange hnext
        rw [Bool.and_eq_true,Bool.and_eq_true,decide_eq_true_eq] at hchange
        obtain ⟨r,rfl⟩ := Option.isSome_iff_exists.mp hchange.1.2
        have hfree := hroom catalog r hcatalog hchange.1.1 hchange.2
        rw [Bool.or_true,if_pos rfl,checkedIncrement,if_pos hfree] at hnext
        cases hnext
    | some next =>
      refine ⟨⟨h.counts,hrevision,rfl⟩,fun hlater => ?_⟩
      rcases hdue hlater with hbefore | hnow
      · exact .inl hbefore
      · right
        rw [hnow,Bool.or_true]

theorem readCatalog_returns (hcatalog : ∃ answer, o.catalog=.ok answer)
    (hroom : c.snapshot.effectsRevision+1<2^64) : (c.readCatalog localTime o true).1=.ok true := by
  obtain ⟨⟨catalog,revision⟩,hanswer⟩ := hcatalog
  unfold Controller.readCatalog
  rw [hanswer]
  dsimp only
  rw [Bool.true_or,if_pos rfl,checkedIncrement,if_pos hroom]

theorem readRest_kept {effects : Bool} (h : Agrees c w)
    (hroom : ∀ catalog revision, o.catalog=.ok (catalog,some revision) → c.initialized=true →
      c.snapshot.catalogRevision≠some revision → c.snapshot.effectsRevision+1<2^64) :
    Kept w (c.readRest localTime o effects) := by
  have hhistory := readHistory_same c o
  have hcount : (c.readHistory o).2.snapshot.effectsRevision=c.snapshot.effectsRevision := by
    unfold Controller.readHistory
    split
    · rfl
    split <;> rfl
  unfold Controller.readRest
  generalize c.readHistory o=first at hhistory hcount
  obtain ⟨stop,c1⟩ := first
  cases stop with
  | some error => exact ⟨h.same hhistory,.inl⟩
  | none =>
    have hitems := readItems_same c1 o
    have hcount' : (c1.readItems o).2.snapshot.effectsRevision=c1.snapshot.effectsRevision := by
      unfold Controller.readItems
      split
      · rfl
      split
      · split <;> rfl
      split <;> rfl
    dsimp only at hhistory hcount ⊢
    generalize c1.readItems o=second at hitems hcount'
    obtain ⟨stop,c2⟩ := second
    cases stop with
    | some error => exact ⟨(h.same hhistory).same hitems,.inl⟩
    | none =>
      dsimp only at hitems hcount' ⊢
      refine readCatalog_kept localTime ((h.same hhistory).same hitems) ?_
      intro catalog revision hcatalog hinit hne
      rw [hcount',hcount]
      refine hroom catalog revision hcatalog ?_ ?_
      · rw [←hhistory.initialized,←hitems.initialized]
        exact hinit
      · rw [←hhistory.revision,←hitems.revision]
        exact hne

omit [DecidableEq Rev] in
theorem takeHistory_listed (c : Controller Local Rev) (current : List OperationCard)
    (id : String) : (c.takeHistory current).listed id=c.listed id := by
  have hids : ∀ saved : OperationCard, ((current.find?
    (·.id=saved.id)).getD saved).id=saved.id := by
    intro saved
    cases hfind : current.find? (·.id=saved.id) with
    | none => rfl
    | some now =>
      have hnow := List.find?_some hfind
      exact of_decide_eq_true hnow
  unfold Controller.listed Controller.takeHistory
  dsimp only
  rw [List.any_map]
  congr 2
  funext saved
  change decide ((if isTerminal saved.state then saved
    else (current.find? (·.id=saved.id)).getD saved).id=id)=_
  split
  · rfl
  · rw [hids]

theorem readRest_returns
    (hhistory : c.activeHistory≠[] → ∀ error, o.historyCards=.error error → error.recovery=false)
    (hitems : ∀ id page, c.selected=some (id,page) → c.listed id=true → ∃ items, o.items=.ok items)
    (hcatalog : ∃ answer, o.catalog=.ok answer) (hroom : c.snapshot.effectsRevision+1<2^64) :
    (c.readRest localTime o true).1=.ok true := by
  have hfirst : ∃ c1, c.readHistory o=(none,c1) ∧ c1.selected=c.selected ∧
      (∀ id, c1.listed id=c.listed id) ∧
      c1.snapshot.effectsRevision=c.snapshot.effectsRevision := by
    unfold Controller.readHistory
    by_cases hactive : c.activeHistory=[]
    · rw [if_pos hactive]
      exact ⟨c,rfl,rfl,fun _ => rfl,rfl⟩
    · rw [if_neg hactive]
      cases hanswer : o.historyCards with
      | ok current => exact ⟨_,rfl,rfl,takeHistory_listed c current,rfl⟩
      | error error =>
        dsimp only
        rw [hhistory hactive error hanswer]
        exact ⟨_,rfl,rfl,fun _ => rfl,rfl⟩
  obtain ⟨c1,hread1,hselected,hlisted,hcount1⟩ := hfirst
  have hsecond : ∃ c2, c1.readItems o=(none,c2) ∧
      c2.snapshot.effectsRevision=c1.snapshot.effectsRevision := by
    unfold Controller.readItems
    cases hsel : c1.selected with
    | none => exact ⟨c1,rfl,rfl⟩
    | some pair =>
      obtain ⟨id,page⟩ := pair
      dsimp only
      by_cases hlist : c1.listed id=true
      · obtain ⟨items,hok⟩ := hitems id page (hselected ▸ hsel) (hlisted id ▸ hlist)
        rw [if_pos hlist,hok]
        exact ⟨_,rfl,rfl⟩
      · rw [if_neg hlist]
        split
        · exact ⟨_,rfl,rfl⟩
        · exact ⟨c1,rfl,rfl⟩
  obtain ⟨c2,hread2,hcount2⟩ := hsecond
  unfold Controller.readRest
  rw [hread1]
  dsimp only
  rw [hread2]
  dsimp only
  exact readCatalog_returns localTime hcatalog (by rw [hcount2,hcount1]; exact hroom)

theorem read_kept (h : Agrees c w) (hsafe : ∀ cards, o.cards=.ok cards →
      ((c.initialized && raised c.succeeded cards)=true → Answered c cards o) ∧
      ∀ catalog revision, o.catalog=.ok (catalog,some revision) → c.initialized=true →
        c.snapshot.catalogRevision≠some revision → c.snapshot.effectsRevision+1<2^64) :
    Kept w (c.read localTime o) := by
  unfold Controller.read
  cases hcards : o.cards with
  | error error => exact ⟨h,.inl⟩
  | ok cards =>
    obtain ⟨hanswered,hroom⟩ := hsafe cards hcards
    dsimp only
    have hcounts := counts_agree cards [] w.counts fun id n hn => by cases hn
    have hagrees : ∀ {c' : Controller Local Rev}, Same {c with succeeded := importCounts cards} c' →
        Agrees c' (w.see (.cards cards)) := by
      intro c' hsame
      refine Agrees.same ?_ hsame
      exact ⟨hcounts,h.revision,h.started⟩
    by_cases heffects : (c.initialized && raised c.succeeded cards)=true
    · have ha := hanswered heffects
      have hnext : checkedIncrement c.snapshot.observation=some (c.snapshot.observation+1) :=
        if_pos ha.observation
      rw [heffects,hnext]
      dsimp only
      have hrest : Kept (w.see (.cards cards)) (({c with
          succeeded := importCounts cards}.takeCards cards
            (c.snapshot.observation+1)).readRest localTime o true) :=
        readRest_kept localTime (hagrees ⟨rfl,rfl,rfl⟩) hroom
      refine ⟨hrest.agrees,fun _ => .inr ?_⟩
      exact readRest_returns localTime ha.history ha.items ha.catalog ha.effects
    · have hquiet : (w.see (.cards cards)).due=true → w.due=true := by
        intro hdue
        rcases (Bool.or_eq_true _ _).mp hdue with hbefore | hnow
        · exact hbefore
        · rw [Bool.and_eq_true] at hnow
          refine absurd ?_ heffects
          rw [Bool.and_eq_true]
          exact ⟨h.started.trans hnow.1,h.raised hnow.2⟩
      cases hnext : checkedIncrement c.snapshot.observation with
      | none => exact ⟨hagrees (Same.refl _),fun hdue => .inl (hquiet hdue)⟩
      | some observation =>
        dsimp only
        have hrest : Kept (w.see (.cards cards)) (({c with
            succeeded := importCounts cards}.takeCards cards observation).readRest localTime o
              (c.initialized && raised c.succeeded cards)) :=
          readRest_kept localTime (hagrees ⟨rfl,rfl,rfl⟩) hroom
        exact ⟨hrest.agrees,fun hdue => (hrest.due hdue).imp_left hquiet⟩

theorem poll_kept {force : Bool} (h : Agrees c w) (hsafe : c.Safe force o) :
    Agrees (c.poll localTime force o).controller
      ((c.poll localTime force o).events.foldl Watcher.see w) ∧
    (((c.poll localTime force o).events.foldl Watcher.see w).due=true →
      w.due=true ∨ effectsOf (c.poll localTime force o).result=true) := by
  unfold Controller.Safe Controller.reads at hsafe
  unfold Controller.poll
  by_cases hfailed : o.jobs.status.failed=true
  · rw [if_pos hfailed]
    exact ⟨h,.inl⟩
  rw [if_neg hfailed]
  have hsame := observeJobs_same c o.jobs
  have hlast : (c.observeJobs o.jobs).last=c.last := by
    have hreceipts : ∀ (admissions : List Admission) (c : Controller Local Rev),
        (admissions.foldl Controller.takeReceipt c).last=c.last := by
      intro admissions
      induction admissions with
      | nil => exact fun c => rfl
      | cons receipt admissions ih =>
        intro c
        rw [List.foldl_cons,ih]
        unfold Controller.takeReceipt
        split <;> rfl
    exact hreceipts _ _
  dsimp only
  rw [hlast]
  by_cases hskip : (!force && o.jobs.admissions.isEmpty &&
      (!(c.observeJobs o.jobs).dirty || (c.last && o.early)))=true
  · rw [if_pos hskip]
    exact ⟨h.same hsame,.inl⟩
  rw [if_neg hskip]
  have hreads : (!o.jobs.status.failed && (force || !o.jobs.admissions.isEmpty ||
      ((c.observeJobs o.jobs).dirty && !(c.last && o.early))))=true := by
    revert hskip hfailed
    cases o.jobs.status.failed <;> cases force <;> cases o.jobs.admissions.isEmpty <;>
      cases (c.observeJobs o.jobs).dirty <;> cases c.last <;> cases o.early <;> decide
  have hread := read_kept localTime (h.same hsame) (hsafe hreads)
  refine ⟨hread.agrees,fun hdue => (hread.due hdue).imp_right fun hok => ?_⟩
  dsimp only
  rw [hok]
  rfl

/-- An action between safe polls returns what is due where nothing was. -/
theorem attempt_kept {generation revision : ℕ} {action : Action} {a : Answers Rev} (h : Agrees c w)
    (hdue : w.due=false) (hsafe : a.accepts=true → action.bounded=true → c.Safe true a.before ∧
      ∀ shown next, (c.poll localTime true a.before).result=.ok shown →
        (c.poll localTime true a.before).controller.act localTime generation revision action a=
          (.ok true,next) → {next with dirty := true}.Safe true a.after) :
    Agrees (c.attempt localTime generation revision action a).controller
      ((c.attempt localTime generation revision action a).events.foldl Watcher.see w) ∧
    (((c.attempt localTime generation revision action a).events.foldl Watcher.see w).due=true →
      (c.attempt localTime generation revision action a).effects=true) := by
  have hnever : w.due=true → False := fun he => by
    rw [hdue] at he
    cases he
  unfold Controller.attempt
  by_cases hrefused : (!a.accepts || !action.bounded)=true
  · rw [if_pos hrefused]
    exact ⟨h,fun he => (hnever he).elim⟩
  rw [if_neg hrefused]
  have haccepted : a.accepts=true ∧ action.bounded=true := by
    revert hrefused
    cases a.accepts <;> cases action.bounded <;> decide
  obtain ⟨hfirst,hsecond⟩ := hsafe haccepted.1 haccepted.2
  obtain ⟨hagrees,hreturns⟩ := poll_kept localTime h hfirst
  dsimp only
  generalize c.poll localTime true a.before=first at hagrees hreturns hsecond
  cases hresult : first.result with
  | error error =>
    refine ⟨hagrees,fun he => ?_⟩
    rcases hreturns he with hbefore | hnow
    · exact (hnever hbefore).elim
    · rw [hresult] at hnow
      cases hnow
  | ok shown =>
    obtain ⟨changed,effects⟩ := shown
    have heffects : (first.events.foldl Watcher.see w).due=true → effects=true := by
      intro he
      rcases hreturns he with hbefore | hnow
      · exact (hnever hbefore).elim
      · rw [hresult] at hnow
        exact hnow
    have hact := act_same localTime first.controller generation revision action a
    dsimp only
    cases hacted : first.controller.act localTime generation revision action a with
    | mk outcome next =>
      rw [hacted] at hact
      cases outcome with
      | error error => exact ⟨hagrees.same hact,heffects⟩
      | ok again =>
        cases again with
        | false => exact ⟨hagrees.same hact,heffects⟩
        | true =>
          have hnext : Agrees {next with dirty := true} (first.events.foldl Watcher.see w) :=
            hagrees.same ⟨hact.succeeded,hact.revision,hact.initialized⟩
          obtain ⟨hagrees',hreturns'⟩ := poll_kept localTime hnext (hsecond _ next hresult hacted)
          dsimp only
          rw [List.foldl_append]
          refine ⟨hagrees',fun he => ?_⟩
          rw [Bool.or_eq_true]
          exact (hreturns' he).imp_left heffects

theorem call_kept {s : State Local Rev} {c : Call Rev} (h : Agrees s.1 s.2)
    (hdue : s.2.due=false) (hsafe : SafeCall localTime s c) :
    Agrees (callStep localTime s c).1 (callStep localTime s c).2 ∧
    (callStep localTime s c).2.due=false ∧
    (((call localTime s.1 c).2.2.foldl Watcher.see s.2).due=true →
      (call localTime s.1 c).2.1=true) := by
  have hall : Agrees (call localTime s.1 c).1 ((call localTime s.1 c).2.2.foldl Watcher.see s.2) ∧
      (((call localTime s.1 c).2.2.foldl Watcher.see s.2).due=true →
        (call localTime s.1 c).2.1=true) := by
    have hnever : s.2.due=true → ∀ {P : Prop}, P := fun he => by
      rw [hdue] at he
      cases he
    cases c with
    | restore loaded =>
      refine ⟨h.same ?_,fun he => hnever he⟩
      simp only [call,Controller.restorePreferences]
      split <;> exact ⟨rfl,rfl,rfl⟩
    | watch id revision => exact ⟨h.same ⟨rfl,rfl,rfl⟩,fun he => hnever he⟩
    | poll force o =>
      obtain ⟨hagrees,hreturns⟩ := poll_kept localTime h hsafe
      exact ⟨hagrees,fun he => (hreturns he).resolve_left fun hb => hnever hb⟩
    | handle generation revision action a =>
      have hbegin : Agrees (s.1.begin action revision) s.2 := h.same ⟨rfl,rfl,rfl⟩
      obtain ⟨hagrees,hreturns⟩ := attempt_kept localTime hbegin hdue hsafe
      simp only [call,Controller.handle]
      split
      · exact ⟨hagrees.same ⟨rfl,rfl,rfl⟩,hreturns⟩
      · exact ⟨hagrees.same ⟨rfl,rfl,rfl⟩,hreturns⟩
  refine ⟨hall.1.settle _,?_,hall.2⟩
  change (((call localTime s.1 c).2.2.foldl Watcher.see s.2).due && !(call localTime s.1
    c).2.1)=false
  cases hlater : ((call localTime s.1 c).2.2.foldl Watcher.see s.2).due with
  | false => rfl
  | true => rw [hall.2 hlater]; rfl

/-- In every run of safe calls, each call that observes the store with all reads succeeding returns
every effect that an observation since the first completed poll has shown. -/
theorem effects_delivered {calls : List (Call Rev)}
    (hsafe : Along (callStep localTime) (SafeCall localTime) (Controller.new,Watcher.new) calls) :
    ∀ before c after, calls=before++c::after →
      Delivered localTime (before.foldl (callStep localTime) (Controller.new,Watcher.new)) c := by
  have hrun : ∀ (calls : List (Call Rev)) (s : State Local Rev), Agrees s.1 s.2 →
      s.2.due=false → Along (callStep localTime) (SafeCall localTime) s calls →
      ∀ before c after, calls=before++c::after →
        Delivered localTime (before.foldl (callStep localTime) s) c := by
    intro calls
    induction calls with
    | nil =>
      intro s _ _ _ before c after hsplit
      exact absurd hsplit (by simp)
    | cons first rest ih =>
      intro s h hdue hsafe before c after hsplit
      obtain ⟨hone,hrest⟩ := hsafe
      obtain ⟨hagrees,hnone,hreturns⟩ := call_kept localTime h hdue hone
      cases before with
      | nil =>
        obtain ⟨rfl,-⟩ := List.cons.inj hsplit
        exact fun _ hlater => hreturns hlater
      | cons b before =>
        obtain ⟨rfl,htail⟩ := List.cons.inj hsplit
        exact ih (callStep localTime s first) hagrees hnone hrest before c after htail
  exact hrun calls _ ⟨(fun _ _ hn => nomatch hn),(fun _ hr => nomatch hr),rfl⟩ rfl hsafe

namespace Example

/-- A runtime at rest. -/
def jobs : JobObservation := ⟨false,⟨0,0,false,false,false,false⟩,false,[],[]⟩

def card (succeeded : ℕ) : OperationCard where
  id := "i"
  kind := .import
  state := .running
  createdAt := ""
  succeeded := succeeded
  running := []

/-- A store that shows some items of the import as succeeded, with a catalog or without. -/
def shows (succeeded : ℕ) (catalog : Except StorageError (CatalogStatus×Option ℕ)) :
    Observation ℕ := ⟨jobs,false,.ok [card succeeded],.ok [],.ok ⟨card succeeded,0,1⟩,catalog⟩

/-- The catalog is read. -/
def active : Except StorageError (CatalogStatus×Option ℕ) := .ok (⟨none⟩,some 1)

/-- A refresh between two observations. -/
def answers (before after : Observation ℕ) : Answers ℕ :=
  ⟨true,before,.error (.other 0),true,.ok (),true,true,.ok (),.ok (),false,.ok ⟨[],none⟩,after⟩

/-- A poll, and a refresh during which an item of the import succeeds. -/
def growing (catalog : Except StorageError (CatalogStatus×Option ℕ)) : List (Call ℕ) :=
  [.poll true (shows 0 active),
    .handle 0 1 .refresh (answers (shows 0 active) (shows 1 catalog))]

/-- A session before its first call. -/
def start : State Unit ℕ := (Controller.new,Watcher.new)

end Example

open Example

/-- A refresh whose reads succeed returns the effect of the import. -/
theorem refresh_delivered : (call (fun _ => some ()) ((growing active).take 1 |>.foldl
    (callStep fun _ => some ()) start).1
      (.handle 0 1 .refresh (answers (shows 0 active) (shows 1 active)))).2.1=true := by
  have hanswered : ∀ (c : Controller Unit ℕ) (succeeded : ℕ) (force : Bool),
      (c.observeJobs jobs).snapshot.observation+1<2^64 →
      (c.observeJobs jobs).snapshot.effectsRevision+1<2^64 →
      c.Safe force (shows succeeded active) := by
    intro c succeeded force hobservation heffects _ cards _
    refine ⟨fun _ => ⟨hobservation,?_,?_,⟨_,rfl⟩,heffects⟩,fun _ _ _ _ _ => heffects⟩
    · intro _ error he
      cases he
    · exact fun _ _ _ _ => ⟨_,rfl⟩
  have hsafe : Along (callStep fun _ => some ()) (SafeCall fun _ => some ()) start
      (growing active) := by
    refine ⟨hanswered _ 0 true (by decide +kernel) (by decide +kernel),?_,trivial⟩
    intro _ _
    refine ⟨hanswered _ 0 true (by decide +kernel) (by decide +kernel),?_⟩
    intro shown next _ hnext
    have hstate : next=((((growing active).take 1).foldl (callStep fun _ => some ()) start).1.begin
        .refresh 1 |>.poll (fun _ => some ()) true (shows 0 active)).controller := by
      cases hnext
      rfl
    rw [hstate]
    exact hanswered _ 1 true (by decide +kernel) (by decide +kernel)
  exact effects_delivered (fun _ => some ()) hsafe ((growing active).take 1) _ [] rfl
    (by decide +kernel) (by decide +kernel)

/-- A refresh whose catalog cannot be read loses the effect: the next poll that observes the store
with all reads succeeding does not return it. -/
theorem refresh_loses : ¬∀ (calls before after : List (Call ℕ)) (c : Call ℕ),
    calls=before++c::after →
    Delivered (fun _ => some ()) (before.foldl (callStep fun _ => some ()) start) c := by
  intro hall
  have hlost := hall _ (growing (.error (.other 5))) [] (.poll true (shows 1 active)) rfl
    (by decide +kernel) (by decide +kernel)
  exact absurd hlost (by decide +kernel)

end Librairii.OperationEffects
