import Librairii.NavigationHistory
import Librairii.OperationRows
import Librairii.RunConditions

/-!
# The projection of one operation

A session stamps a request before it reads. Reads of one operation complete in any
order, and a projection keeps the response with the latest stamp, except that a
terminal snapshot is never replaced within a session. A response that carries the
terminal snapshot under an earlier stamp than an applied one is refused, so it is
kept exactly when no later stamped response came before it.
-/

namespace Librairii.OperationProjection

open OperationRows NavigationCodec NavigationHistory RunConditions

/-- The order and the session of a request. -/
structure RequestStamp where
  generation : ℕ
  revision : ℕ
  query : Option QueryStamp

/-- A stamped observation. -/
structure Response where
  stamp : RequestStamp
  value : OperationSnapshot

/-- The session state a handle observes. -/
structure Handle where
  generation : ℕ
  done : Bool
  failed : Bool

/-- The latest snapshot of one operation. -/
structure Projection where
  id : String
  current : Option OperationSnapshot
  revision : ℕ
  generation : Option ℕ

/-- The bound on the id's buffer. -/
def maxCommandBytes : ℕ := 16*1024*1024

def Projection.new (id : String) (capacity : ℕ) : Option Projection :=
  if id="" ∨ maxCommandBytes<capacity then none else some ⟨id,none,0,none⟩

/-- A handle accepts the stamps of its running session, and a query stamp only while the
navigation is at it. -/
def acceptsStamp (handle : Handle) (stamp : RequestStamp) (nav : Option Navigation) : Bool :=
  !handle.done && !handle.failed && stamp.generation=handle.generation &&
    stamp.query.all fun query => nav.any fun nav => accepts nav query

/-- Apply a response; tells whether it became current. -/
def apply (p : Projection) (response : Response) (handle : Handle) (nav : Option Navigation) :
    Projection×Bool :=
  if response.value.operation.identity.id≠p.id ∨ acceptsStamp handle response.stamp nav=false then
    (p,false)
  else
    let p := if p.generation≠some response.stamp.generation then
      { p with current := none, revision := 0 } else p
    if p.current.any fun s => s.operation.identity.id=response.value.operation.identity.id &&
        (isTerminal s.operation.state || response.stamp.revision≤p.revision) then (p,false)
    else ({ p with
      revision := response.stamp.revision
      generation := some response.stamp.generation
      current := some response.value },true)

def Projection.terminal (p : Projection) : Bool :=
  p.current.any fun s => isTerminal s.operation.state

theorem apply_accepted {p : Projection} {response : Response} {handle : Handle}
    {nav : Option Navigation} (haccept : acceptsStamp handle response.stamp nav=true)
    (hid : response.value.operation.identity.id=p.id)
    (hcurrent : ∀ snapshot, p.current=some snapshot → snapshot.operation.identity.id=p.id ∧
      p.generation=some response.stamp.generation) :
    (apply p response handle nav).1=
      if p.terminal=true ∨ (p.current.isSome ∧ response.stamp.revision≤p.revision) then p
      else { p with
        revision := response.stamp.revision
        generation := some response.stamp.generation
        current := some response.value } := by
  have hopen : ¬(response.value.operation.identity.id≠p.id ∨
      acceptsStamp handle response.stamp nav=false) := by simp [hid,haccept]
  unfold apply
  rw [if_neg hopen]
  cases hc : p.current with
  | none =>
    by_cases hgen : p.generation=some response.stamp.generation
    · simp [hgen,hc,Projection.terminal]
    · simp [hgen,hc,Projection.terminal]
  | some snapshot =>
    obtain ⟨hsame,hgen⟩ := hcurrent snapshot hc
    by_cases hblock : isTerminal snapshot.operation.state=true ∨
        response.stamp.revision≤p.revision
    · simp [hgen,hc,Projection.terminal,hsame,hid,hblock]
    · simp [hgen,hc,Projection.terminal,hsame,hid,hblock]

theorem apply_refused {p : Projection} {response : Response} {handle : Handle}
    {nav : Option Navigation} (hrefuse : acceptsStamp handle response.stamp nav=false) :
    (apply p response handle nav).1=p := by
  simp [apply,hrefuse]

/-- One live session that reads one operation: the next stamp, the stored snapshot, the
stamped requests, the responses of completed reads, and the projection they are offered to. -/
structure Session where
  handle : Handle
  revision : ℕ
  stored : OperationSnapshot
  requests : List RequestStamp
  responses : List Response
  projection : Projection
  /-- The stamps of the accepted responses offered so far. -/
  offered : List ℕ
  /-- An accepted response with a terminal snapshot has been offered. -/
  delivered : Bool

/-- The steps of a session. Requests and responses are named by their place. -/
inductive Event where
  | request (query : Option QueryStamp)
  | store (snapshot : OperationSnapshot)
  /-- A request's read completes on the stored snapshot. -/
  | read (i : ℕ)
  | offer (i : ℕ) (nav : Option Navigation)

def stampBound : ℕ := 2^64

def offer (s : Session) (response : Response) (nav : Option Navigation) : Session :=
  { s with
    projection := (apply s.projection response s.handle nav).1
    offered := if acceptsStamp s.handle response.stamp nav then
      response.stamp.revision::s.offered else s.offered
    delivered := s.delivered ||
      (acceptsStamp s.handle response.stamp nav && isTerminal response.value.operation.state) }

/-- A step of a session; what cannot happen leaves it. A terminal snapshot is final in the
store. -/
def step (s : Session) : Event → Session
  | .request query =>
    if s.revision+1<stampBound then
      { s with
        revision := s.revision+1
        requests := ⟨s.handle.generation,s.revision,query⟩::s.requests }
    else s
  | .store snapshot =>
    if snapshot.operation.identity.id=s.stored.operation.identity.id ∧
        isTerminal s.stored.operation.state=false then { s with stored := snapshot }
    else s
  | .read i => match s.requests[i]? with
    | some stamp => { s with responses := ⟨stamp,s.stored⟩::s.responses }
    | none => s
  | .offer i nav => match s.responses[i]? with
    | some response => offer s response nav
    | none => s

/-- The session after events. -/
def run (s : Session) (events : List Event) : Session := events.foldl step s

def Session.new (generation revision : ℕ) (stored : OperationSnapshot) : Session :=
  ⟨⟨generation,false,false⟩,revision,stored,[],[],
    ⟨stored.operation.identity.id,none,0,none⟩,[],false⟩

/-- What every state of a session keeps. -/
structure Kept (s : Session) : Prop where
  stored : s.stored.operation.identity.id=s.projection.id
  /-- Stamps are of this session. -/
  requests : ∀ stamp ∈ s.requests, stamp.generation=s.handle.generation
  responses : ∀ response ∈ s.responses, response.stamp.generation=s.handle.generation ∧
    response.value.operation.identity.id=s.projection.id
  /-- Without an accepted response nothing is current. -/
  empty : s.offered=[] → s.projection.current=none
  current : ∀ snapshot, s.projection.current=some snapshot →
    snapshot.operation.identity.id=s.projection.id ∧
      s.projection.generation=some s.handle.generation
  /-- An active current snapshot has the latest stamp that was offered. -/
  latest : s.offered≠[] → s.projection.terminal=false →
    (∃ snapshot, s.projection.current=some snapshot) ∧ s.projection.revision ∈ s.offered ∧
      ∀ revision ∈ s.offered, revision ≤ s.projection.revision
  /-- A terminal current snapshot was offered. -/
  delivered : s.projection.terminal=true → s.delivered=true

/-- A terminal snapshot has not been lost. -/
def Safe (s : Session) : Prop := s.delivered=true → s.projection.terminal=true

/-- An offered terminal response is in time: one was offered before, or no response under
its own or a later stamp was. -/
def InTime (s : Session) : Event → Prop
  | .offer i nav => ∀ response, s.responses[i]?=some response →
    acceptsStamp s.handle response.stamp nav=true →
      isTerminal response.value.operation.state=true →
        s.delivered=true ∨ ∀ revision ∈ s.offered, revision<response.stamp.revision
  | _ => True

theorem offer_kept {s : Session} (hs : Kept s) {response : Response}
    (hr : response ∈ s.responses) (nav : Option Navigation) : Kept (offer s response nav) := by
  obtain ⟨hgen,hid⟩ := hs.responses response hr
  cases haccept : acceptsStamp s.handle response.stamp nav with
  | false =>
    have hsame : offer s response nav=s := by
      simp [offer,haccept,apply_refused haccept]
    rwa [hsame]
  | true =>
    have hcurrent : ∀ snapshot, s.projection.current=some snapshot →
        snapshot.operation.identity.id=s.projection.id ∧
          s.projection.generation=some response.stamp.generation := by
      rw [hgen]
      exact hs.current
    have happly := apply_accepted haccept hid hcurrent
    by_cases hblock : s.projection.terminal=true ∨
        (s.projection.current.isSome ∧ response.stamp.revision ≤ s.projection.revision)
    · rw [if_pos hblock] at happly
      refine ⟨?_,hs.requests,?_,?_,?_,?_,?_⟩
      · simpa [offer,happly] using hs.stored
      · simpa [offer,happly] using hs.responses
      · simp [offer,haccept]
      · simpa [offer,happly] using hs.current
      · intro _ hactive
        have hactive : s.projection.terminal=false := by simpa [offer,happly] using hactive
        have hlate : s.projection.current.isSome ∧
            response.stamp.revision ≤ s.projection.revision := by simpa [hactive] using hblock
        have hsome : s.offered≠[] := by
          intro hnone
          simp [hs.empty hnone] at hlate
        obtain ⟨hpresent,hmem,hbound⟩ := hs.latest hsome hactive
        refine ⟨by simpa [offer,happly] using hpresent,by simp [offer,happly,haccept,hmem],?_⟩
        intro revision hrev
        have hrev : revision=response.stamp.revision ∨ revision ∈ s.offered := by
          simpa [offer,haccept] using hrev
        rcases hrev with rfl | hrev
        · simpa [offer,happly] using hlate.2
        · simpa [offer,happly] using hbound revision hrev
      · intro hterminal
        have hterminal : s.projection.terminal=true := by simpa [offer,happly] using hterminal
        simp [offer,hs.delivered hterminal]
    · rw [if_neg hblock] at happly
      refine ⟨?_,hs.requests,?_,?_,?_,?_,?_⟩
      · simpa [offer,happly] using hs.stored
      · simpa [offer,happly] using hs.responses
      · simp [offer,haccept]
      · intro snapshot hsnap
        have hsnap : response.value=snapshot := by simpa [offer,happly] using hsnap
        simp [offer,happly,← hsnap,hid,hgen]
      · intro _ _
        refine ⟨⟨response.value,by simp [offer,happly]⟩,by simp [offer,happly,haccept],?_⟩
        intro revision hrev
        have hrev : revision=response.stamp.revision ∨ revision ∈ s.offered := by
          simpa [offer,haccept] using hrev
        rcases hrev with rfl | hrev
        · simp [offer,happly]
        · have hactive : s.projection.terminal=false := by
            by_contra hne
            simp_all
          obtain ⟨⟨snapshot,hpresent⟩,_,hbound⟩ :=
            hs.latest (List.ne_nil_of_mem hrev) hactive
          have hlater : s.projection.revision<response.stamp.revision := by
            by_contra hle
            exact hblock (.inr ⟨by simp [hpresent],by omega⟩)
          have := hbound revision hrev
          simp only [offer,happly]
          omega
      · intro hterminal
        have hterminal : isTerminal response.value.operation.state=true := by
          simpa [offer,happly,Projection.terminal] using hterminal
        simp [offer,haccept,hterminal]

theorem step_kept (s : Session) (event : Event) (hs : Kept s) : Kept (step s event) := by
  cases event with
  | request query =>
    by_cases hroom : s.revision+1<stampBound
    · simp only [step,if_pos hroom]
      refine ⟨hs.stored,?_,hs.responses,hs.empty,hs.current,hs.latest,hs.delivered⟩
      intro stamp hstamp
      rcases List.mem_cons.mp hstamp with rfl | hstamp
      · rfl
      · exact hs.requests stamp hstamp
    · simpa only [step,if_neg hroom] using hs
  | store snapshot =>
    by_cases hwrite : snapshot.operation.identity.id=s.stored.operation.identity.id ∧
        isTerminal s.stored.operation.state=false
    · simp only [step,if_pos hwrite]
      exact ⟨hwrite.1.trans hs.stored,hs.requests,hs.responses,hs.empty,hs.current,hs.latest,
        hs.delivered⟩
    · simpa only [step,if_neg hwrite] using hs
  | read i =>
    cases hi : s.requests[i]? with
    | none => simpa only [step,hi] using hs
    | some stamp =>
      simp only [step,hi]
      refine ⟨hs.stored,hs.requests,?_,hs.empty,hs.current,hs.latest,hs.delivered⟩
      intro response hr
      rcases List.mem_cons.mp hr with rfl | hr
      · exact ⟨hs.requests stamp (List.mem_of_getElem? hi),hs.stored⟩
      · exact hs.responses response hr
  | offer i nav =>
    cases hi : s.responses[i]? with
    | none => simpa only [step,hi] using hs
    | some response =>
      simp only [step,hi]
      exact offer_kept hs (List.mem_of_getElem? hi) nav

/-- Where no terminal snapshot is lost, an offer loses none exactly when it is in time. -/
theorem offer_safe_iff {s : Session} (hs : Kept s) (hsafe : Safe s) {response : Response}
    (hr : response ∈ s.responses) (nav : Option Navigation) :
    Safe (offer s response nav) ↔ (acceptsStamp s.handle response.stamp nav=true →
      isTerminal response.value.operation.state=true →
        s.delivered=true ∨ ∀ revision ∈ s.offered, revision<response.stamp.revision) := by
  obtain ⟨hgen,hid⟩ := hs.responses response hr
  cases haccept : acceptsStamp s.handle response.stamp nav with
  | false =>
    have hsame : offer s response nav=s := by
      simp [offer,haccept,apply_refused haccept]
    simp [hsame,hsafe]
  | true =>
    have hcurrent : ∀ snapshot, s.projection.current=some snapshot →
        snapshot.operation.identity.id=s.projection.id ∧
          s.projection.generation=some response.stamp.generation := by
      rw [hgen]
      exact hs.current
    have happly := apply_accepted haccept hid hcurrent
    cases hterminal : s.projection.terminal with
    | true =>
      rw [if_pos (.inl hterminal)] at happly
      simp [Safe,offer,happly,hterminal,hs.delivered hterminal]
    | false =>
      have hlost : s.delivered=false := by
        by_contra hdone
        simp [hsafe (by simpa using hdone)] at hterminal
      by_cases hlate : s.projection.current.isSome ∧
          response.stamp.revision ≤ s.projection.revision
      · rw [if_pos (.inr hlate)] at happly
        have hsome : s.offered≠[] := by
          intro hnone
          simp [hs.empty hnone] at hlate
        obtain ⟨_,hmem,_⟩ := hs.latest hsome hterminal
        have hbefore : ¬∀ revision ∈ s.offered, revision<response.stamp.revision := by
          intro hall
          have := hall _ hmem
          omega
        simp [Safe,offer,happly,haccept,hterminal,hlost,hbefore]
      · rw [if_neg (by simp [hterminal,hlate])] at happly
        have hfirst : ∀ revision ∈ s.offered, revision<response.stamp.revision := by
          intro revision hrev
          obtain ⟨⟨snapshot,hpresent⟩,_,hbound⟩ :=
            hs.latest (List.ne_nil_of_mem hrev) hterminal
          have hle := hbound revision hrev
          have hlater : ¬response.stamp.revision ≤ s.projection.revision := fun hback =>
            hlate ⟨by simp [hpresent],hback⟩
          omega
        have hkeep : Safe (offer s response nav) := by
          simp [Safe,offer,happly,haccept,hlost,Projection.terminal]
        exact ⟨fun _ _ _ => .inr hfirst,fun _ => hkeep⟩

theorem step_safe_iff (s : Session) (event : Event) (hs : Kept s) (hsafe : Safe s) :
    Safe (step s event) ↔ InTime s event := by
  cases event with
  | request query =>
    by_cases hroom : s.revision+1<stampBound
    · simpa [step,hroom,InTime,Safe] using hsafe
    · simpa [step,hroom,InTime] using hsafe
  | store snapshot =>
    by_cases hwrite : snapshot.operation.identity.id=s.stored.operation.identity.id ∧
        isTerminal s.stored.operation.state=false
    · simpa [step,hwrite,InTime,Safe] using hsafe
    · simpa only [step,if_neg hwrite,InTime,iff_true] using hsafe
  | read i =>
    cases hi : s.requests[i]? with
    | none => simpa [step,hi,InTime] using hsafe
    | some stamp => simpa [step,hi,InTime,Safe] using hsafe
  | offer i nav =>
    cases hi : s.responses[i]? with
    | none => simpa [step,hi,InTime] using hsafe
    | some response =>
      simp only [step,hi,InTime,Option.some.injEq,forall_eq']
      exact offer_safe_iff hs hsafe (List.mem_of_getElem? hi) nav

/-- A session that has not read keeps what sessions keep. -/
theorem new_kept (generation revision : ℕ) (stored : OperationSnapshot) :
    Kept (Session.new generation revision stored) := by
  constructor <;> simp [Session.new,Projection.terminal]

/-- No terminal snapshot is lost before the first read. -/
theorem new_safe (generation revision : ℕ) (stored : OperationSnapshot) :
    Safe (Session.new generation revision stored) := by
  simp [Safe,Session.new]

/-- In every state of a session the projection is terminal once a terminal response was
accepted, exactly when the first such response was offered after earlier stamps only. -/
theorem terminal_kept_iff (generation revision : ℕ) (stored : OperationSnapshot)
    (events : List Event) :
    (∀ taken, taken <+: events →
      (run (Session.new generation revision stored) taken).delivered=true →
        (run (Session.new generation revision stored) taken).projection.terminal=true) ↔
      Along step InTime (Session.new generation revision stored) events := by
  have hall := forall_prefix_iff step_kept step_safe_iff events
    (Session.new generation revision stored) (new_kept generation revision stored)
  exact hall.trans (and_iff_right (new_safe generation revision stored))

def importAt (state : OperationState) : OperationSnapshot :=
  ⟨⟨⟨"o","t",some "t",none⟩,.import,state,⟨none,none,none⟩,none,⟨0,0⟩,0,false,
    ⟨none,none⟩⟩,[]⟩

/-- Two overlapping reads: the later stamped one reads the running operation, the earlier
stamped one its end, and the later stamped response arrives first. -/
def overlappingReads : List Event :=
  [.request none,.request none,.read 0,.store (importAt .succeeded),.read 1,.offer 1 none,
    .offer 0 none]

/-- A terminal result is lost: the accepted terminal response is refused as older. -/
theorem overlapping_reads_lose_terminal :
    (run (Session.new 0 0 (importAt .running)) overlappingReads).delivered=true ∧
      (run (Session.new 0 0 (importAt .running)) overlappingReads).projection.current=
        some (importAt .running) ∧
      (run (Session.new 0 0 (importAt .running)) overlappingReads).projection.terminal=
        false := by
  decide

end Librairii.OperationProjection
