import Librairii.ProfileCalls
import Librairii.NavigationRoundTrip

/-!
# Sessions of a profile store

The calls of a session follow each other on one namespace. The store carries its
memory from call to call; a poisoned one refuses everything until a restart.
-/

namespace Librairii.ProfileSessions

open InterruptedSteps NamedObjects ControlFiles ControlStages ProfileStore ProfileCalls

/-- What happens to a store: a call with the choices made during it, or a new binding. -/
inductive Event where
  | call (request : Request) (script : List Choice)
  | bind (binding : Option BindingState)

/-- One call that was served. -/
structure Call where
  /-- What the store remembered. -/
  before : State
  start : Control
  /-- What was asked for. -/
  request : Request
  /-- What the call did. -/
  outcome : Outcome Control Choice Refusal State

def Call.after (call : Call) : State :=
  match call.outcome.reply with
  | .ok result => result
  | .error refusal => refusal.state

variable (env : StoreEnv)

def serveCall (state : State) (control : Control) (request : Request) (script : List Choice) :
    Call :=
  ⟨state,control.start,request,serve env state request control.start script⟩

def calls (state : State) (control : Control) : List Event → List Call
  | [] => []
  | .bind binding::events => calls { state with binding := binding } control events
  | .call request script::events =>
    let call := serveCall env state control request script
    call::calls call.after call.outcome.state events

/-- Nobody else uses the private names of the store. -/
def Respected (events : List Event) : Prop :=
  ∀ request script, .call request script ∈ events → ∀ c ∈ script, Respectful settingsStem c

/-- A call that keeps the documents whole, whatever becomes of it. -/
structure Faithful (call : Call) : Prop where
  whole : ∀ t ∈ call.start::call.outcome.passed, Whole env call.request call.start t
  /-- A refusal poisons the store or leaves everything as it was. -/
  refused : ∀ refusal, call.outcome.reply=.error refusal → refusal.state.poisoned=true ∨
    (refusal.state.poisoned=call.before.poisoned ∧ refusal.state.binding=call.before.binding ∧
      Untouched call.outcome.state)
  /-- A success overwrote at most the accepted document it read. -/
  served : ∀ result, call.outcome.reply=.ok result →
    Replaced env call.request call.outcome.state

/-- A call refused without a step. -/
structure RefusedAtOnce (call : Call) : Prop where
  refused : ∃ refusal, call.outcome.reply=.error refusal
  /-- It did nothing. -/
  idle : call.outcome.passed=[] ∧ call.outcome.state=call.start

variable {env} {state : State} {control : Control}

theorem serve_poisoned (env : StoreEnv) (h : state.poisoned=true) (request : Request) :
    ∃ cause, serve env state request=fail ⟨cause,state⟩ := by
  have hreserve : reserve state=fail ⟨.profileRestartRequired,state⟩ := by
    unfold reserve
    rw [h]
    rfl
  have hfirst : ∀ f : Unit → Work State,
      (reserve state >>= f)=fail ⟨.profileRestartRequired,state⟩ := by
    intro f
    rw [hreserve]
    rfl
  cases request with
  | load => exact ⟨_,hfirst _⟩
  | beginBinding => exact ⟨_,hfirst _⟩
  | update change => exact ⟨_,hfirst _⟩
  | saveNavigation navigation =>
    change ∃ cause, saveNavigation env state navigation=_
    unfold saveNavigation
    cases NavigationCodec.encode env.navigation navigation with
    | error e => exact ⟨_,rfl⟩
    | ok bytes => exact ⟨_,hfirst _⟩
  | saveShelfWarnings warnings =>
    change ∃ cause, saveShelfWarnings env state warnings=_
    unfold saveShelfWarnings
    cases ShelfWarnings.encode env.warnings warnings with
    | error e => exact ⟨_,rfl⟩
    | ok bytes => exact ⟨_,hfirst _⟩
  | saveInterface value =>
    change ∃ cause, saveInterface env state value=_
    unfold saveInterface
    cases encodeInterface env value with
    | error e => exact ⟨_,rfl⟩
    | ok p => exact ⟨_,hfirst _⟩
  | importHandover source library =>
    change ∃ cause, importHandover env state source library=_
    unfold importHandover
    cases env.decodeHandover source library with
    | none => exact ⟨_,rfl⟩
    | some imported => exact ⟨_,hfirst _⟩

theorem refusedAtOnce_of_poisoned (env : StoreEnv) (control : Control)
    (h : state.poisoned=true) (request : Request) (script : List Choice) :
    RefusedAtOnce (serveCall env state control request script) ∧
      (serveCall env state control request script).after=state := by
  obtain ⟨cause,hcause⟩ := serve_poisoned env h request
  unfold serveCall Call.after
  rw [hcause]
  exact ⟨⟨⟨_,rfl⟩,rfl,rfl⟩,rfl⟩

theorem calls_poisoned (events : List Event) : ∀ (state : State) (control : Control),
    state.poisoned=true → ∀ call ∈ calls env state control events, RefusedAtOnce call := by
  induction events with
  | nil => exact fun _ _ _ call hcall => absurd hcall List.not_mem_nil
  | cons event events ih =>
    intro state control h call hcall
    cases event with
    | bind binding => exact ih { state with binding := binding } control h call hcall
    | call request script =>
      obtain ⟨hrefused,hafter⟩ :=
        refusedAtOnce_of_poisoned env control h request script
      cases List.mem_cons.mp hcall with
      | inl hfirst => exact hfirst ▸ hrefused
      | inr hlater => exact ih _ _ (by rw [hafter]; exact h) call hlater

theorem faithful_serveCall (env : StoreEnv) (state : State) (control : Control) (request : Request)
    {script : List Choice} (hscript : ∀ c ∈ script, Respectful settingsStem c) :
    Faithful env (serveCall env state control request script) := by
  have hstart := settled_start control
  have hserve := ensures_serve (A:=Respectful settingsStem) (fun _ hc => hc)
    (respectful_default settingsStem) env state request hstart script hscript
  refine ⟨?_,hserve.error,fun result hr => (hserve.result result hr).2.2⟩
  intro t ht
  cases List.mem_cons.mp ht with
  | inl hfirst =>
    rw [hfirst]
    exact (whole_reading hstart.unlinked (hstart.holding settingsStem)).1
  | inr hpassed => exact hserve.passed t hpassed

/-- In every session each call replaces its document as a whole or not at all, and a poisoned
store refuses everything that follows. -/
theorem documents_replaced_whole (env : StoreEnv) (events : List Event) :
    ∀ (state : State) (control : Control), Respected events →
      (∀ call ∈ calls env state control events, Faithful env call) ∧
      (calls env state control events).Pairwise fun earlier later =>
        earlier.after.poisoned=true → RefusedAtOnce later := by
  induction events with
  | nil => exact fun _ _ _ => ⟨fun call hcall => absurd hcall List.not_mem_nil,List.Pairwise.nil⟩
  | cons event events ih =>
    intro state control h
    have hrest : Respected events := fun request script hmem =>
      h request script (List.mem_cons_of_mem _ hmem)
    cases event with
    | bind binding => exact ih { state with binding := binding } control hrest
    | call request script =>
      have hfirst := faithful_serveCall env state control request
        (h request script List.mem_cons_self)
      obtain ⟨hall,hpairs⟩ := ih (serveCall env state control request script).after
        (serveCall env state control request script).outcome.state hrest
      refine ⟨?_,List.Pairwise.cons ?_ hpairs⟩
      · intro call hcall
        cases List.mem_cons.mp hcall with
        | inl he => exact he ▸ hfirst
        | inr hlater => exact hall call hlater
      · exact fun later hlater hpoisoned => calls_poisoned events _ _ hpoisoned later hlater

section Example

def plainLibrary : NavigationCodec.LibraryId := ⟨List.replicate 16 0,rfl⟩

def plainChoices (hidden : Bool) : InterfacePreferences :=
  ⟨"librairii.native-interface",1,plainLibrary.text,hidden,[]⟩

/-- A store whose interface documents have one byte. -/
def plainStore : StoreEnv where
  navigation := NavigationRoundTrip.plainNavigation
  warnings := ShelfWarnings.plainWarnings
  parseProfile := fun _ => none
  prettyProfile := fun _ => none
  parseInterface := fun bytes =>
    if bytes=[0] then some (plainChoices false)
    else if bytes=[1] then some (plainChoices true)
    else none
  printInterface := fun value => some [if value.syncPanelHidden then 1 else 0]
  parseReceipt := fun _ => none
  printReceipt := fun _ => none
  decodeHandover := fun _ _ => none
  digest := fun _ => ""
  parseLibraryId := fun text => if text=plainLibrary.text then some plainLibrary else none
  revalidateMoveJournal := fun _ => .ok ()

/-- A namespace with its marker alone. -/
def plainControl : Control where
  folder := (Folder.empty .folder).create markerName (.file markerBytes)
  serial := 0
  process := 7
  writable := true
  theirs := fun _ => none
  ours := none
  placed := []
  unlinked := []
  overwrote := none
  subject := none

/-- A store that has read nothing. -/
def plainState : State := ⟨false,none,none,false,none,[],[],0,false⟩

/-- Somebody else puts a valid interface document in place before the call reads it. -/
def foreignDocument : List Choice := [⟨[.replaced "interface.json" (.file [0])],.done⟩]

/-- A successful save unlinks the document that another party had put in place. -/
theorem foreign_document_unlinked : ∃ script : List Choice,
    (∀ c ∈ script, Respectful settingsStem c) ∧
    ∃ call ∈ calls plainStore plainState plainControl
      [.call (.saveInterface (plainChoices true)) script],
      (match call.outcome.reply with | .ok _ => true | .error _ => false)=true ∧
      ∃ i ∈ call.outcome.state.unlinked, ∃ q ∈ call.outcome.state.placed, q.1=i := by
  refine ⟨foreignDocument,by decide +kernel,_,List.mem_cons_self,by decide +kernel,?_⟩
  decide +kernel

/-- A save that meets a foreign document, and a later call. -/
def plainSession : List Event :=
  [.call (.saveInterface (plainChoices true)) foreignDocument,.call .load []]

theorem plain_documents_whole :
    (∀ call ∈ calls plainStore plainState plainControl plainSession, Faithful plainStore call) ∧
    (calls plainStore plainState plainControl plainSession).Pairwise fun earlier later =>
      earlier.after.poisoned=true → RefusedAtOnce later := by
  refine documents_replaced_whole plainStore plainSession plainState plainControl ?_
  intro request script hmem
  cases List.mem_cons.mp hmem with
  | inl h =>
    cases h
    decide +kernel
  | inr h =>
    cases List.mem_singleton.mp h
    exact fun _ hc => absurd hc List.not_mem_nil

end Example

end Librairii.ProfileSessions
