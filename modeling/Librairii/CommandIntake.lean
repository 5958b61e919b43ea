import Librairii.FateLedgers

/-!
# The intake of commands

A bounded queue between the presentation and its worker. A search request replaces the one
before it while that still waits, a fence drops what may not run without a library, and every
accepted command has its own revision.
-/

namespace Librairii.CommandIntake

open FateLedgers

def commandCapacity : ℕ := 16

/-- A path: whether it is absolute, and its length in bytes. -/
structure PathText where
  absolute : Bool
  length : ℕ
  deriving DecidableEq

/-- Settings commands. -/
inductive MaintenanceAction where
  | select (path : PathText)
  | confirm
  | retry
  | retryMove
  | keepSource
  | locate (path : PathText)
  | diagnostics (path : PathText)
  | clear
  | preserveSchema
  deriving DecidableEq

/-- Its path is absolute and not too long. -/
def MaintenanceAction.bounded : MaintenanceAction → Bool
  | .select p | .locate p | .diagnostics p => p.absolute && p.length≤16*1024
  | _ => true

/-- Operations commands; texts and paths are given by their lengths in bytes. -/
inductive OperationsAction where
  | sync
  | retrySync (id : ℕ)
  | hideSync (hidden : Bool)
  | «import» (paths : List ℕ)
  | cancel (id : ℕ)
  | inspect (id page : ℕ)
  | dismiss (id : ℕ)
  | history
  | refresh
  deriving DecidableEq

/-- The sum of lengths, unless it passes a machine word. -/
def checkedSum (lengths : List ℕ) : Option ℕ :=
  lengths.foldlM (fun bytes n => if bytes+n<2^64 then some (bytes+n) else none) 0

/-- Its ids and its paths are within their bounds. -/
def OperationsAction.bounded : OperationsAction → Bool
  | .import paths => 1≤paths.length && paths.length≤1000 &&
      (checkedSum paths).any fun bytes => bytes≤1024*1024
  | .cancel id | .dismiss id | .inspect id _ | .retrySync id => id≠0 && id≤256
  | .refresh | .sync | .hideSync _ | .history => true

/-- Export commands; texts, paths and lists are given by their lengths and capacities. -/
inductive ExportsAction where
  | «open» (rows : List ℕ)
  | select (groups : ℕ)
  | destination (path : ℕ)
  | refresh
  | page (delta : ℤ)
  | start (ticket : ℕ)
  | reveal (id : ℕ)
  | close
  deriving DecidableEq

/-- Its rows, its groups, its path and its id are within their bounds. -/
def ExportsAction.bounded : ExportsAction → Bool
  | .open rows => (checkedSum (rows.map (·+64))).any fun n => n≤1024*1024
  | .select groups => min (groups*8) (2^64-1)≤1024*1024
  | .destination path => path≤16*1024
  | .reveal id => id≠0 && id≤256
  | _ => true

/-- Commands of the presentation, whose other payloads the intake does not look at. -/
inductive Command (α : Type) where
  | refresh
  | maintenance (generation : Option ℕ) (action : MaintenanceAction)
  | exports (generation : ℕ) (action : ExportsAction)
  | operations (generation : ℕ) (action : OperationsAction)
  | shelfReview (generation : ℕ) (action : α)
  | shelves (generation : ℕ) (action : α)
  | selectUnavailable (target : α)
  | collections (generation : ℕ) (action : α)
  | flags (generation : ℕ) (action : α)
  | tags (generation : ℕ) (action : α)
  | details (target : α)
  | remove (target : α)
  | back
  | forward
  | navigate (scope : α)
  | presentation (value : α)
  | request (request : α)
  | sort (request : α) (manualOrder : Bool)
  | changePage (delta : ℤ)
  | groupPage (delta : ℤ)
  | select (id : ℤ) (query : α)
  | language (language : α)
  deriving DecidableEq

variable {α : Type}

def Command.bounded : Command α → Bool
  | .maintenance _ action => action.bounded
  | .operations _ action => action.bounded
  | .exports _ action => action.bounded
  | _ => true

/-- A command that may run without a library. -/
def Command.unfenced : Command α → Bool
  | .language _ | .refresh | .maintenance _ _ => true
  | _ => false

def Command.isRequest : Command α → Bool
  | .request _ => true
  | _ => false

/-- Why a command is not accepted. -/
inductive OfferError where
  | busy
  | closed
  deriving DecidableEq

/-- An accepted command. -/
structure Envelope (α : Type) where
  revision : ℕ
  command : Command α
  deriving DecidableEq

/-- The queue with its counter, the counter that readers see, and the fence. -/
structure Intake (α : Type) where
  queue : List (Envelope α)
  revision : ℕ
  latest : ℕ
  fenced : Bool
  deriving DecidableEq

def Intake.new : Intake α := ⟨[],0,0,false⟩

def offer (command : Command α) (s : Intake α) : Except OfferError ℕ×Intake α :=
  if !command.bounded then (.error .busy,s)
  else if s.fenced && !command.unfenced then (.error .closed,s)
  else
    let coalesce := command.isRequest && s.queue.getLast?.any fun e => e.command.isRequest
    if !coalesce && s.queue.length=commandCapacity then (.error .busy,s)
    else if s.revision+1<2^64 then
      let revision := s.revision+1
      let queue := if coalesce then s.queue.dropLast else s.queue
      (.ok revision,{s with
        queue := queue++[⟨revision,command⟩]
        revision := revision
        latest := revision})
    else (.error .closed,s)

/-- Close the intake for commands that need a library, and drop those that wait. -/
def fence (s : Intake α) : Intake α :=
  {s with fenced := true,queue := s.queue.filter fun e => e.command.unfenced}

/-- Open the intake again. -/
def resume (s : Intake α) : Intake α := {s with fenced := false}

/-- Receive the first command that waits; without one the wait times out. -/
def receive (s : Intake α) : Option (Envelope α)×Intake α :=
  (s.queue.head?,{s with queue := s.queue.tail})

/-- What the presentation and its worker do, in any order. -/
inductive Action (α : Type) where
  | offer (command : Command α)
  | receive
  | fence
  | resume
  deriving DecidableEq

/-- An intake with a record of the commands that were accepted and received, and a ledger of the
accepted ones. -/
structure World (α : Type) where
  intake : Intake α
  accepted : List (Envelope α)
  received : List (Envelope α)
  ledger : Ledger (Envelope α)

def merges (old new : Envelope α) : Bool := old.command.isRequest && new.command.isRequest

/-- One critical section. -/
def step (w : World α) : Action α → World α
  | .offer command =>
    let reply := offer command w.intake
    match reply.1 with
    | .ok revision => {w with
        intake := reply.2
        accepted := w.accepted++[⟨revision,command⟩]
        ledger := accept merges w.ledger ⟨revision,command⟩}
    | .error _ => {w with intake := reply.2}
  | .receive =>
    let reply := receive w.intake
    {w with
      intake := reply.2
      received := w.received++reply.1.toList
      ledger := serve w.ledger}
  | .fence => {w with
      intake := fence w.intake
      ledger := drop (fun e => e.command.unfenced) w.ledger}
  | .resume => {w with intake := resume w.intake}

/-- A session after some critical sections. -/
def run (actions : List (Action α)) : World α := actions.foldl step ⟨.new,[],[],[]⟩

/-- The last fence was not resumed. -/
def fencedBy (actions : List (Action α)) : Bool :=
  actions.foldl (fun fenced action => match action with
    | .fence => true
    | .resume => false
    | _ => fenced) false

/-- What the records say of the intake. -/
structure Recorded (w : World α) : Prop where
  queue : w.intake.queue=withFate .queued w.ledger
  accepted : w.ledger.map (·.1)=w.accepted
  received : w.received=withFate .served w.ledger
  /-- Revisions are those of an ascending count. -/
  increasing : (w.accepted.map (·.revision)).Pairwise (· < ·)
  bounded : ∀ e ∈ w.accepted, e.revision≤w.intake.revision
  latest : w.intake.latest=((w.accepted.getLast?.map (·.revision)).getD 0)
  counter : w.intake.revision=w.intake.latest
  capacity : w.intake.queue.length≤commandCapacity
  /-- Behind the fence only commands wait that may run without a library. -/
  fenced : w.intake.fenced=true → ∀ e ∈ w.intake.queue, e.command.unfenced=true
  request : ∀ e, w.intake.queue.getLast?=some e → e.command.isRequest=true →
    w.ledger.getLast?=some (e,.queued)
  order : Served w.ledger
  followed : Followed merges w.ledger
  dropped : ∀ e ∈ withFate .dropped w.ledger, e.command.unfenced=false

theorem offer_refused {command : Command α} {s : Intake α} {e : OfferError}
    (h : (offer command s).1=.error e) : (offer command s).2=s := by
  unfold offer at h ⊢
  split
  · rfl
  next hbounded =>
  rw [if_neg hbounded] at h
  split
  · rfl
  next hfence =>
  rw [if_neg hfence] at h
  dsimp only at h ⊢
  split
  · rfl
  next hfull =>
  rw [if_neg hfull] at h
  split
  · next hrevision =>
    rw [if_pos hrevision] at h
    cases h
  · rfl

/-- An accepted command merges with a search request at the end of the queue, or finds room
behind everything. -/
theorem offer_accepted {command : Command α} {s : Intake α} {revision : ℕ}
    (h : (offer command s).1=.ok revision) : revision=s.revision+1 ∧
      (s.fenced=true → command.unfenced=true) ∧
      ∃ queue, (offer command s).2={s with
        queue := queue++[⟨revision,command⟩],revision := revision,latest := revision} ∧
      ((∃ last, s.queue=queue++[last] ∧ last.command.isRequest=true ∧ command.isRequest=true) ∨
        (queue=s.queue ∧ s.queue.length≠commandCapacity ∧ (command.isRequest=true →
          ∀ last, s.queue.getLast?=some last → last.command.isRequest=false))) := by
  unfold offer at h ⊢
  split at h
  · cases h
  next hbounded =>
  rw [if_neg hbounded]
  split at h
  · cases h
  next hfence =>
  rw [if_neg hfence]
  dsimp only at h ⊢
  split at h
  · cases h
  next hfull =>
  rw [if_neg hfull]
  split at h
  · next hrevision =>
    rw [if_pos hrevision]
    cases h
    refine ⟨rfl,?_,_,rfl,?_⟩
    · intro hf
      rw [hf,Bool.true_and,Bool.not_eq_true,Bool.not_eq_false'] at hfence
      exact hfence
    · cases hlast : s.queue.getLast? with
      | none =>
        right
        rw [hlast] at hfull
        simp only [Option.any_none,Bool.and_false,Bool.not_false,Bool.true_and,
          decide_eq_true_eq] at hfull
        refine ⟨?_,hfull,fun _ _ he => nomatch he⟩
        simp
      | some last =>
        obtain ⟨front,hfront⟩ := List.getLast?_eq_some_iff.mp hlast
        rw [hlast,Option.any_some] at hfull
        rw [Option.any_some]
        by_cases hboth : command.isRequest=true ∧ last.command.isRequest=true
        · left
          refine ⟨last,?_,hboth.2,hboth.1⟩
          rw [hboth.1,hboth.2,if_pos (by rfl),hfront,List.dropLast_concat]
        · right
          have hnot : (command.isRequest && last.command.isRequest)=false := by
            rw [Bool.and_eq_false_iff]
            cases hc : command.isRequest with
            | true =>
              right
              exact Bool.not_eq_true _ ▸ fun hl => hboth ⟨hc,hl⟩
            | false => exact .inl rfl
          rw [hnot] at hfull ⊢
          simp only [Bool.not_false,Bool.true_and,decide_eq_true_eq] at hfull
          refine ⟨if_neg Bool.false_ne_true,hfull,?_⟩
          intro hc other hother
          cases hother
          exact Bool.not_eq_true _ ▸ fun hl => hboth ⟨hc,hl⟩
  · cases h

theorem accept_queued {w : World α} (h : Recorded w) {command : Command α} {revision : ℕ}
    {queue : List (Envelope α)}
    (hqueue : (∃ last, w.intake.queue=queue++[last] ∧ last.command.isRequest=true ∧
        command.isRequest=true) ∨
      (queue=w.intake.queue ∧ w.intake.queue.length≠commandCapacity ∧ (command.isRequest=true →
        ∀ last, w.intake.queue.getLast?=some last → last.command.isRequest=false))) :
    withFate .queued (accept merges w.ledger ⟨revision,command⟩)=queue++[⟨revision,command⟩] := by
  rcases accept_cases merges w.ledger ⟨revision,command⟩ with ⟨he,hnot⟩ | ⟨l',last,hl,hm,he⟩
  · rw [he,withFate_append,←h.queue]
    rcases hqueue with ⟨last,hlast,hrequest,hcommand⟩ | ⟨rfl,-,-⟩
    · have hledger := h.request last (by rw [hlast,List.getLast?_concat]) hrequest
      have hmerges := hnot last hledger
      rw [merges,hrequest,hcommand] at hmerges
      cases hmerges
    · rfl
  · have hlast : w.intake.queue=withFate .queued l'++[last] := by
      rw [h.queue,hl]
      simp
    rw [he]
    rcases hqueue with ⟨other,hother,-,-⟩ | ⟨-,-,hnone⟩
    · have hfront : queue=withFate .queued l' :=
        (List.append_inj_left' (hother.symm.trans hlast) rfl)
      rw [hfront]
      simp
    · rw [merges,Bool.and_eq_true] at hm
      have hno := hnone hm.2 last (by rw [hlast,List.getLast?_concat])
      rw [hm.1] at hno
      cases hno

/-- No acceptance drops a command. -/
theorem accept_dropped (l : Ledger (Envelope α)) (e : Envelope α) :
    withFate .dropped (accept merges l e)=withFate .dropped l := by
  rcases accept_cases merges l e with ⟨he,-⟩ | ⟨l',last,rfl,-,he⟩
  · rw [he]
    simp
  · rw [he]
    simp

theorem accept_last (l : Ledger (Envelope α)) (e : Envelope α) :
    (accept merges l e).getLast?=some (e,.queued) := by
  rcases accept_cases merges l e with ⟨he,-⟩ | ⟨l',last,rfl,-,he⟩
  · rw [he,List.getLast?_concat]
  · rw [he,List.getLast?_append]
    rfl

theorem Recorded.offer {w : World α} (h : Recorded w) (command : Command α) :
    Recorded (step w (.offer command)) := by
  cases hreply : (CommandIntake.offer command w.intake).1 with
  | error e =>
    have hsame : step w (.offer command)=w := by
      simp only [step,hreply,offer_refused hreply]
    rw [hsame]
    exact h
  | ok revision =>
    obtain ⟨hrevision,hfenced,queue,hafter,hqueue⟩ := offer_accepted hreply
    have hstep : step w (.offer command)={w with
        intake := {w.intake with
          queue := queue++[⟨revision,command⟩],revision := revision,latest := revision}
        accepted := w.accepted++[⟨revision,command⟩]
        ledger := accept merges w.ledger ⟨revision,command⟩} := by
      simp only [step,hreply,hafter]
    rw [hstep]
    have hsub : ∀ e ∈ queue, e ∈ w.intake.queue := by
      rcases hqueue with ⟨last,hlast,-,-⟩ | ⟨rfl,-,-⟩
      · rw [hlast]
        exact fun e he => List.mem_append_left _ he
      · exact fun e he => he
    refine ⟨(accept_queued h hqueue).symm,?_,?_,?_,?_,?_,rfl,?_,?_,?_,h.order.accept _ _,
      h.followed.accept _,?_⟩
    · dsimp only
      rw [accept_entries,h.accepted]
    · dsimp only
      rw [accept_served,h.received]
    · dsimp only
      rw [List.map_append,List.pairwise_append]
      refine ⟨h.increasing,List.pairwise_singleton _ _,?_⟩
      intro a ha b hb
      obtain ⟨e,he,rfl⟩ := List.mem_map.mp ha
      rw [List.map_singleton,List.mem_singleton] at hb
      have hle := h.bounded e he
      rw [hb]
      change e.revision<revision
      omega
    · intro e he
      dsimp only at he ⊢
      rcases List.mem_append.mp he with he | he
      · have hle := h.bounded e he
        omega
      · rw [List.mem_singleton.mp he]
    · dsimp only
      rw [List.getLast?_concat]
      rfl
    · have hcapacity := h.capacity
      dsimp only
      rw [List.length_append,List.length_singleton]
      rcases hqueue with ⟨last,hlast,-,-⟩ | ⟨rfl,hne,-⟩
      · rw [hlast,List.length_append,List.length_singleton] at hcapacity
        exact hcapacity
      · omega
    · intro hf e he
      rcases List.mem_append.mp he with he | he
      · exact h.fenced hf e (hsub e he)
      · rw [List.mem_singleton.mp he]
        exact hfenced hf
    · intro e he _
      dsimp only at he ⊢
      rw [List.getLast?_concat] at he
      cases he
      exact accept_last _ _
    · intro e he
      dsimp only at he
      rw [accept_dropped] at he
      exact h.dropped e he

/-- Serving drops nothing. -/
theorem serve_dropped (l : Ledger (Envelope α)) :
    withFate .dropped (serve l)=withFate .dropped l := by
  rcases serve_cases l with ⟨-,hsame⟩ | ⟨before,e,after,hl,-,hserve⟩
  · rw [hsame]
  · rw [hserve,hl]
    simp

theorem serve_last {l : Ledger (Envelope α)} {e : Envelope α} (hlast : l.getLast?=some (e,.queued))
    (hrest : (withFate .queued l).tail≠[]) : (serve l).getLast?=some (e,.queued) := by
  rcases serve_cases l with ⟨-,hsame⟩ | ⟨before,first,after,hl,hbefore,hserve⟩
  · rw [hsame]
    exact hlast
  · cases hafter : after.getLast? with
    | none =>
      rw [List.getLast?_eq_none_iff.mp hafter] at hl
      rw [hl] at hrest
      simp [hbefore] at hrest
    | some entry =>
      rw [hl,List.getLast?_append,List.getLast?_cons,hafter] at hlast
      rw [hserve,List.getLast?_append,List.getLast?_cons,hafter]
      exact hlast

theorem Recorded.receive {w : World α} (h : Recorded w) : Recorded (step w .receive) := by
  refine ⟨?_,?_,?_,h.increasing,h.bounded,h.latest,h.counter,?_,?_,?_,h.order.serve,
    h.followed.serve,?_⟩
  · change w.intake.queue.tail=_
    rw [h.queue]
    exact (serve_queued _).symm
  · exact (serve_entries _).trans h.accepted
  · change w.received++w.intake.queue.head?.toList=_
    rw [h.received,h.queue]
    exact (serve_served h.order).symm
  · have hcapacity := h.capacity
    change w.intake.queue.tail.length≤_
    rw [List.length_tail]
    omega
  · intro hf e he
    exact h.fenced hf e (List.mem_of_mem_tail he)
  · intro e he hrequest
    change w.intake.queue.tail.getLast?=some e at he
    have hrest : w.intake.queue.tail≠[] := by
      rintro hnil
      rw [hnil] at he
      cases he
    have hlast : w.intake.queue.getLast?=some e := by
      rw [←he]
      cases hq : w.intake.queue with
      | nil => rfl
      | cons first rest =>
        rw [hq] at hrest
        exact List.getLast?_cons_of_ne_nil hrest
    exact serve_last (h.request e hlast hrequest) (h.queue ▸ hrest)
  · intro e he
    exact h.dropped e (serve_dropped w.ledger ▸ he)

theorem drop_dropped {l : Ledger (Envelope α)} {e : Envelope α} {keeps : Envelope α → Bool}
    (h : e ∈ withFate .dropped (drop keeps l)) : e ∈ withFate .dropped l ∨ keeps e=false := by
  obtain ⟨entry,hentry,rfl⟩ := List.mem_map.mp h
  obtain ⟨hmem,hfate⟩ := List.mem_filter.mp hentry
  obtain ⟨old,hold,rfl⟩ := List.mem_map.mp hmem
  by_cases hd : old.2=.queued ∧ keeps old.1=false
  · right
    rw [if_pos hd]
    exact hd.2
  · left
    rw [if_neg hd] at hfate ⊢
    exact List.mem_map_of_mem (List.mem_filter.mpr ⟨hold,hfate⟩)

theorem unfenced_request {c : Command α} (h : c.unfenced=true) : c.isRequest=false := by
  cases c <;> first | rfl | cases h

theorem Recorded.fence {w : World α} (h : Recorded w) : Recorded (step w .fence) := by
  change Recorded {w with
    intake := CommandIntake.fence w.intake
    ledger := drop (fun e => e.command.unfenced) w.ledger}
  have hfollowed : Followed merges (drop (fun e => e.command.unfenced) w.ledger) :=
    h.followed.drop fun e => e.command.unfenced
  have horder : Served (drop (fun e => e.command.unfenced) w.ledger) :=
    h.order.drop fun e => e.command.unfenced
  refine ⟨?_,?_,?_,h.increasing,h.bounded,h.latest,h.counter,?_,?_,?_,horder,hfollowed,?_⟩
  · change w.intake.queue.filter _=_
    rw [h.queue]
    exact (drop_queued _ _).symm
  · exact (drop_entries (fun e => e.command.unfenced) w.ledger).trans h.accepted
  · exact h.received.trans (drop_served (fun e => e.command.unfenced) w.ledger).symm
  · exact (List.length_filter_le _ _).trans h.capacity
  · exact fun _ e he => (List.mem_filter.mp he).2
  · intro e he hrequest
    have hkept := (List.mem_filter.mp (List.mem_of_getLast? he)).2
    rw [unfenced_request hkept] at hrequest
    cases hrequest
  · intro e he
    rcases @drop_dropped α w.ledger e (fun e => e.command.unfenced) he with hold | hnew
    · exact h.dropped e hold
    · exact hnew

theorem step_recorded {w : World α} (h : Recorded w) (action : Action α) :
    Recorded (step w action) := by
  cases action with
  | offer command => exact h.offer command
  | receive => exact h.receive
  | fence => exact h.fence
  | resume =>
    exact ⟨h.queue,h.accepted,h.received,h.increasing,h.bounded,h.latest,h.counter,h.capacity,
      (fun hf => nomatch hf),h.request,h.order,h.followed,h.dropped⟩

theorem run_recorded (actions : List (Action α)) : Recorded (run actions) := by
  have hfold : ∀ {w : World α}, Recorded w → Recorded (actions.foldl step w) := by
    induction actions with
    | nil => exact fun h => h
    | cons action actions ih => exact fun h => ih (step_recorded h action)
  refine hfold ⟨rfl,rfl,rfl,List.Pairwise.nil,?_,rfl,rfl,Nat.zero_le _,?_,?_,List.Pairwise.nil,
    ⟨List.isChain_nil,?_⟩,?_⟩
  · exact fun _ he => nomatch he
  · exact fun _ _ he => nomatch he
  · exact fun _ he => nomatch he
  · exact fun _ he => nomatch he
  · exact fun _ he => nomatch he

/-- The fence of a session is the last one that was not resumed. -/
theorem run_fenced (actions : List (Action α)) : (run actions).intake.fenced=fencedBy actions := by
  have hstep : ∀ (w : World α) action, (step w action).intake.fenced=
      match action with
      | .fence => true
      | .resume => false
      | _ => w.intake.fenced := by
    intro w action
    cases action with
    | offer command =>
      cases hreply : (CommandIntake.offer command w.intake).1 with
      | error e => simp only [step,hreply,offer_refused hreply]
      | ok revision =>
        obtain ⟨-,-,queue,hafter,-⟩ := offer_accepted hreply
        simp only [step,hreply,hafter]
    | receive => rfl
    | fence => rfl
    | resume => rfl
  have hfold : ∀ (w : World α), (actions.foldl step w).intake.fenced=
      actions.foldl (fun fenced action => match action with
        | .fence => true
        | .resume => false
        | _ => fenced) w.intake.fenced := by
    induction actions with
    | nil => exact fun _ => rfl
    | cons action actions ih =>
      intro w
      rw [List.foldl_cons,List.foldl_cons,ih,hstep]
  exact hfold _

theorem run_dropped {actions : List (Action α)} (h : Action.fence ∉ actions) :
    withFate .dropped (run actions).ledger=[] := by
  have hfold : ∀ {w : World α}, withFate .dropped w.ledger=[] →
      withFate .dropped (actions.foldl step w).ledger=[] := by
    induction actions with
    | nil => exact fun hw => hw
    | cons action actions ih =>
      intro w hw
      refine ih (fun hmem => h (List.mem_cons_of_mem _ hmem)) ?_
      cases action with
      | offer command =>
        simp only [step]
        split
        · exact (accept_dropped _ _).trans hw
        · exact hw
      | receive => exact (serve_dropped _).trans hw
      | fence => exact absurd List.mem_cons_self h
      | resume => exact hw
  exact hfold rfl

/-- What keeping the order of commands means of a session. -/
structure Ordered (actions : List (Action α)) (w : World α) : Prop where
  /-- Accepted commands have ascending revisions. -/
  increasing : (w.accepted.map (·.revision)).Pairwise (· < ·)
  /-- Every accepted command was received, waits, was replaced or was dropped. -/
  entries : w.ledger.map (·.1)=w.accepted
  /-- The received commands are the served ones in the order of their offers. -/
  received : w.received=withFate .served w.ledger
  /-- The queue is what waits, in the order of the offers. -/
  queue : w.intake.queue=withFate .queued w.ledger
  /-- A replaced command is a search request, and the next accepted one is another. -/
  replaced : ∀ before old after, w.ledger=before++(old,.replaced)::after →
    ∃ new fate rest, after=(new,fate)::rest ∧ old.command.isRequest=true ∧
      new.command.isRequest=true
  /-- Only a fence drops a command, and none that may run without a library. -/
  dropped : ∀ e ∈ withFate .dropped w.ledger, e.command.unfenced=false ∧ Action.fence ∈ actions
  capacity : w.intake.queue.length≤commandCapacity
  refused : ∀ command error, (offer command w.intake).1=.error error →
    (offer command w.intake).2=w.intake
  /-- Between a fence and its resumption nothing else is accepted or received. -/
  fenced : fencedBy actions=true →
    (∀ command revision, (offer command w.intake).1=.ok revision → command.unfenced=true) ∧
    ∀ e, (receive w.intake).1=some e → e.command.unfenced=true
  /-- The counter that readers see is the revision accepted last. -/
  latest : w.intake.latest=(w.accepted.getLast?.map (·.revision)).getD 0

/-- Every session keeps the order of its commands. -/
theorem intake_ordered (actions : List (Action α)) : Ordered actions (run actions) := by
  have h := run_recorded actions
  refine ⟨h.increasing,h.accepted,h.received,h.queue,?_,?_,h.capacity,
    fun _ _ => offer_refused,?_,h.latest⟩
  · intro before old after hl
    cases after with
    | nil =>
      exact absurd rfl (h.followed.last (old,.replaced) (by rw [hl,List.getLast?_concat]))
    | cons next rest =>
      obtain ⟨new,fate⟩ := next
      have hchain := h.followed.chain
      rw [hl] at hchain
      have hboth := (List.isChain_cons_cons.mp (List.isChain_append.mp hchain).2.1).1 rfl
      rw [merges,Bool.and_eq_true] at hboth
      exact ⟨new,fate,rest,rfl,hboth⟩
  · intro e he
    refine ⟨h.dropped e he,?_⟩
    by_contra hfence
    rw [run_dropped hfence] at he
    cases he
  · intro hf
    rw [←run_fenced] at hf
    refine ⟨?_,?_⟩
    · intro command revision hok
      exact (offer_accepted hok).2.1 hf
    · intro e he
      exact h.fenced hf e (List.mem_of_mem_head? he)

end Librairii.CommandIntake
