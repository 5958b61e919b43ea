import Mathlib

/-!
# Review tickets

A reviewed plan carries a ticket, and the registry keeps the tickets that may still be claimed.
Issuing, evicting and invalidating hold the registry's lock and touch one ticket at a time; a
claim reads the clock and then swaps the ticket's flag without the lock. The writer deletes
shelves inside a transaction and invalidates their tickets before it ends. The steps of all
threads interleave.
-/

namespace Librairii.ReviewTickets

/-- What a ticket admits. -/
inductive Kind where
  | create
  | update
  | sources
  | deleteCollection
  | curation
  deriving DecidableEq

/-- The bound on the registry. -/
def limit : ℕ := 64

/-- How long a ticket may be claimed, in nanoseconds. -/
def lifetime : ℕ := 15*60*1000000000

/-- A ticket as it was issued. -/
structure Ticket where
  kind : Kind
  /-- The shelf or collection it was issued for. -/
  target : ℤ
  /-- The shelves whose deletion invalidates it. -/
  shelves : List ℤ
  /-- The clock at its issue. -/
  issued : ℕ
  deriving DecidableEq

/-- A ticket with its flag; plans and the registry share it. -/
structure Entry where
  ticket : Ticket
  live : Bool
  deriving DecidableEq

/-- What a ticket is asked for. -/
structure Request where
  kind : Kind
  target : ℤ
  shelves : List ℤ
  deriving DecidableEq

/-- What the holder of the registry's lock is doing. -/
inductive Task where
  /-- Keep the tickets that may still be claimed. -/
  | retaining (request : Request) (now : ℕ) (todo kept : List ℕ)
  /-- Make room and add the ticket. -/
  | evicting (request : Request) (now : ℕ)
  /-- Drop the tickets that list a shelf. -/
  | dropping (shelf : ℤ) (todo kept : List ℕ)
  deriving DecidableEq

/-- A claim that passed its checks and has not swapped the flag yet. -/
structure Claim where
  id : ℕ
  kind : Kind
  target : ℤ
  /-- The clock it read. -/
  now : ℕ
  deriving DecidableEq

/-- What the writer's thread is doing. -/
inductive Writer where
  | idle
  | reading
  /-- A transaction: its rows, the shelves it deleted, and a deletion before its invalidation. -/
  | writing (rows gone : List ℤ) (deleting : Option ℤ)
  deriving DecidableEq

/-- The tickets ever issued, the registry and the threads. A ticket is named by its place. -/
structure System where
  clock : ℕ
  entries : List Entry
  registry : List ℕ
  /-- The holder of the registry's lock. -/
  task : Option Task
  claims : List Claim
  /-- The committed shelves. -/
  rows : List ℤ
  writer : Writer
  deriving DecidableEq

/-- No ticket was issued. -/
def System.new (rows : List ℤ) : System := ⟨0,[],[],none,[],rows,.idle⟩

/-- The atomic steps of the threads. -/
inductive Event where
  /-- The clock advances. -/
  | advance (elapsed : ℕ)
  /-- Take the lock and read the clock to issue a ticket. -/
  | issue (request : Request)
  /-- Look at one ticket, or end the look. -/
  | retain
  | evict
  /-- Add the new ticket and release the lock. -/
  | push
  /-- Read the clock to claim a ticket. -/
  | claim (id : ℕ) (kind : Kind) (target : ℤ)
  | swap (i : ℕ)
  /-- The writer starts and ends a read. -/
  | beginRead
  | endRead
  /-- The writer starts a transaction. -/
  | begin
  /-- The transaction adds a shelf; SQLite may reuse an id. -/
  | createShelf (id : ℤ)
  | deleteShelf (id : ℤ)
  /-- Take the lock to drop the tickets of the deleted shelf. -/
  | invalidate
  /-- Look at one ticket, or end the invalidation. -/
  | drop
  /-- The transaction commits, or its rows come back. -/
  | commit
  | rollback
  deriving DecidableEq

def System.clear (s : System) (id : ℕ) : System :=
  { s with entries := s.entries.modify id fun e => { e with live := false } }

/-- A ticket may still be claimed. -/
def System.valid (s : System) (now id : ℕ) : Bool :=
  (s.entries[id]?).any fun e => e.live && decide (now-e.ticket.issued<lifetime)

def System.lists (s : System) (shelf : ℤ) (id : ℕ) : Bool :=
  (s.entries[id]?).any fun e => e.ticket.shelves.contains shelf

/-- The lock is held to issue a ticket that lists shelves. -/
def System.listing (s : System) : Bool :=
  match s.task with
  | some (.retaining request _ _ _) => !request.shelves.isEmpty
  | some (.evicting request _) => !request.shelves.isEmpty
  | _ => false

/-- Look at one ticket while issuing. -/
def retain (s : System) : Option System :=
  match s.task with
  | some (.retaining request now (id::todo) kept) =>
    if s.valid now id then some { s with task := some (.retaining request now todo (kept++[id])) }
    else some { s.clear id with task := some (.retaining request now todo kept) }
  | some (.retaining request now [] kept) =>
    some { s with registry := kept, task := some (.evicting request now) }
  | _ => none

/-- Evict the oldest ticket of a full registry. -/
def evict (s : System) : Option System :=
  match s.task,s.registry with
  | some (.evicting _ _),id::rest =>
    if limit ≤ s.registry.length then some { s.clear id with registry := rest } else none
  | _,_ => none

/-- Add the new ticket. -/
def push (s : System) : Option System :=
  match s.task with
  | some (.evicting request now) =>
    if limit ≤ s.registry.length then none
    else some { s with
      entries := s.entries++[⟨⟨request.kind,request.target,request.shelves,now⟩,true⟩]
      registry := s.registry++[s.entries.length]
      task := none }
  | _ => none

def claim (s : System) (id : ℕ) (kind : Kind) (target : ℤ) : Option System :=
  (s.entries[id]?).map fun e =>
    if e.ticket.kind≠kind ∨ e.ticket.target≠target ∨ lifetime ≤ s.clock-e.ticket.issued then s
    else { s with claims := ⟨id,kind,target,s.clock⟩::s.claims }

/-- Swap the flag; the claim succeeds when it was set. -/
def swap (s : System) (i : ℕ) : Option System :=
  (s.claims[i]?).map fun c => { s.clear c.id with claims := s.claims.eraseIdx i }

/-- Look at one ticket while invalidating. -/
def drop (s : System) : Option System :=
  match s.task,s.writer with
  | some (.dropping shelf (id::todo) kept),_ =>
    if s.lists shelf id then some { s.clear id with task := some (.dropping shelf todo kept) }
    else some { s with task := some (.dropping shelf todo (kept++[id])) }
  | some (.dropping shelf [] kept),.writing rows gone _ =>
    some { s with registry := kept, task := none, writer := .writing rows (shelf::gone) none }
  | _,_ => none

/-- One step; none where the thread cannot take it. -/
def step (s : System) : Event → Option System
  | .advance elapsed => some { s with clock := s.clock+elapsed }
  | .issue request =>
    if s.task=none ∧ (request.shelves=[] ∨ s.writer=.reading) then
      some { s with task := some (.retaining request s.clock s.registry []) }
    else none
  | .retain => retain s
  | .evict => evict s
  | .push => push s
  | .claim id kind target => claim s id kind target
  | .swap i => swap s i
  | .beginRead => if s.writer=.idle then some { s with writer := .reading } else none
  | .endRead =>
    if s.writer=.reading ∧ s.listing=false then some { s with writer := .idle } else none
  | .begin => if s.writer=.idle then some { s with writer := .writing s.rows [] none } else none
  | .createShelf id =>
    match s.writer with
    | .writing rows gone none =>
      if id ∈ rows then none else some { s with writer := .writing (id::rows) gone none }
    | _ => none
  | .deleteShelf id =>
    match s.writer with
    | .writing rows gone none =>
      if id ∈ rows then
        some { s with writer := .writing (rows.filter (·≠id)) gone (some id) }
      else none
    | _ => none
  | .invalidate =>
    match s.task,s.writer with
    | none,.writing _ _ (some id) => some { s with task := some (.dropping id s.registry []) }
    | _,_ => none
  | .drop => drop s
  | .commit =>
    match s.writer with
    | .writing rows _ none => some { s with rows := rows, writer := .idle }
    | _ => none
  | .rollback =>
    match s.task,s.writer with
    | some (.dropping _ _ _),_ => none
    | _,.writing _ _ _ => some { s with writer := .idle }
    | _,_ => none

/-- A run; none where a step cannot be taken. -/
def run : System → List Event → Option System
  | s,[] => some s
  | s,event::later => (step s event).bind fun next => run next later

/-- A step is the swap of a claim of a ticket, and the flag was set. -/
def wins (id : ℕ) (s : System) : Event → Bool
  | .swap i => (s.claims[i]?).any fun c => c.id=id && (s.entries[id]?).any Entry.live
  | _ => false

/-- How often a ticket is claimed with success along a run. -/
def successes (id : ℕ) : System → List Event → ℕ
  | _,[] => 0
  | s,event::later =>
    (if wins id s event then 1 else 0)+
      ((step s event).map fun next => successes id next later).getD 0

/-- The tickets in the registry, also while the holder of its lock walks it. -/
def System.members (s : System) : List ℕ :=
  match s.task with
  | some (.retaining _ _ todo kept) => todo++kept
  | some (.dropping _ todo kept) => todo++kept
  | _ => s.registry

def System.liveCount (s : System) : ℕ := s.entries.countP Entry.live

/-- The tickets of one system are those of another with flags cleared, and new ones after them. -/
def Kept (s s' : System) : Prop :=
  ∀ (id : ℕ) (e : Entry), s.entries[id]?=some e →
    ∃ e', s'.entries[id]?=some e' ∧ e'.ticket=e.ticket ∧ (e'.live=true → e.live=true)

/-- Every ticket is itself. -/
theorem Kept.of_eq {s s' : System} (h : s'.entries=s.entries) : Kept s s' := by
  intro id e he
  exact ⟨e,by rw [h,he],rfl,fun hlive => hlive⟩

theorem Kept.trans {s s' s'' : System} (h : Kept s s') (h' : Kept s' s'') : Kept s s'' := by
  intro id e he
  obtain ⟨e',he',ht,hl⟩ := h id e he
  obtain ⟨e'',he'',ht',hl'⟩ := h' id e' he'
  exact ⟨e'',he'',ht'.trans ht,fun hlive => hl (hl' hlive)⟩

theorem clear_entries (s : System) (id other : ℕ) : (s.clear id).entries[other]?=
    (s.entries[other]?).map fun e => if id=other then { e with live := false } else e := by
  simp only [System.clear,List.getElem?_modify]
  rfl

theorem clear_dead {s : System} {id : ℕ} {e : Entry} (h : (s.clear id).entries[id]?=some e) :
    e.live=false := by
  rw [clear_entries] at h
  obtain ⟨e',-,rfl⟩ := Option.map_eq_some_iff.mp h
  simp

theorem clear_live {s : System} {id other : ℕ} {e : Entry} (h : (s.clear id).entries[other]?=some e)
    (hlive : e.live=true) : s.entries[other]?=some e ∧ other≠id := by
  have hne : other≠id := by
    rintro rfl
    rw [clear_dead h] at hlive
    cases hlive
  rw [clear_entries] at h
  obtain ⟨e',he',rfl⟩ := Option.map_eq_some_iff.mp h
  rw [if_neg (Ne.symm hne)] at hlive ⊢
  exact ⟨he',hne⟩

theorem kept_clear (s : System) (id : ℕ) : Kept s (s.clear id) := by
  intro other e he
  rw [clear_entries,he]
  refine ⟨_,rfl,?_,?_⟩
  · split_ifs <;> rfl
  · intro hlive
    split_ifs at hlive with heq
    · exact hlive

/-- Looking at a ticket while issuing clears at most its flag. -/
theorem retain_cases {s s' : System} (h : retain s=some s') :
    (∃ request now id todo kept, s.task=some (.retaining request now (id::todo) kept) ∧
      ((s.valid now id=true ∧
          s'={ s with task := some (.retaining request now todo (kept++[id])) }) ∨
        (s.valid now id=false ∧
          s'={ s.clear id with task := some (.retaining request now todo kept) }))) ∨
    (∃ request now kept, s.task=some (.retaining request now [] kept) ∧
      s'={ s with registry := kept, task := some (.evicting request now) }) := by
  unfold retain at h
  split at h
  next request now id todo kept htask =>
    left
    refine ⟨request,now,id,todo,kept,htask,?_⟩
    split_ifs at h with hvalid
    · cases h
      exact .inl ⟨hvalid,rfl⟩
    · cases h
      exact .inr ⟨by simpa using hvalid,rfl⟩
  next request now kept htask =>
    right
    cases h
    exact ⟨request,now,kept,htask,rfl⟩
  next => cases h

theorem evict_cases {s s' : System} (h : evict s=some s') :
    ∃ request now id rest, s.task=some (.evicting request now) ∧ s.registry=id::rest ∧
      s'={ s.clear id with registry := rest } := by
  unfold evict at h
  split at h
  next request now id rest htask hregistry =>
    split_ifs at h with hfull
    cases h
    exact ⟨request,now,id,rest,htask,hregistry,rfl⟩
  next => cases h

/-- A new ticket is added to a registry that has room. -/
theorem push_cases {s s' : System} (h : push s=some s') :
    ∃ request now, s.task=some (.evicting request now) ∧ s.registry.length<limit ∧
      s'={ s with
        entries := s.entries++[⟨⟨request.kind,request.target,request.shelves,now⟩,true⟩]
        registry := s.registry++[s.entries.length]
        task := none } := by
  unfold push at h
  split at h
  next request now htask =>
    split_ifs at h with hfull
    cases h
    exact ⟨request,now,htask,Nat.not_le.mp hfull,rfl⟩
  next => cases h

/-- Looking at a ticket while invalidating clears its flag when it lists the shelf. -/
theorem drop_cases {s s' : System} (h : drop s=some s') :
    (∃ shelf id todo kept, s.task=some (.dropping shelf (id::todo) kept) ∧
      ((s.lists shelf id=true ∧ s'={ s.clear id with task := some (.dropping shelf todo kept) }) ∨
        (s.lists shelf id=false ∧
          s'={ s with task := some (.dropping shelf todo (kept++[id])) }))) ∨
    (∃ shelf kept rows gone deleting, s.task=some (.dropping shelf [] kept) ∧
      s.writer=.writing rows gone deleting ∧
      s'={ s with
        registry := kept, task := none, writer := .writing rows (shelf::gone) none }) := by
  unfold drop at h
  split at h
  next shelf id todo kept htask =>
    left
    refine ⟨shelf,id,todo,kept,htask,?_⟩
    split_ifs at h with hlists
    · cases h
      exact .inl ⟨hlists,rfl⟩
    · cases h
      exact .inr ⟨by simpa using hlists,rfl⟩
  next shelf kept rows gone deleting htask hwriter =>
    right
    cases h
    exact ⟨shelf,kept,rows,gone,deleting,htask,hwriter,rfl⟩
  next => cases h

theorem step_kept {s s' : System} {event : Event} (h : step s event=some s') : Kept s s' := by
  cases event with
  | advance elapsed =>
    cases h
    exact .of_eq rfl
  | issue request =>
    simp only [step] at h
    split_ifs at h with hguard
    cases h
    exact .of_eq rfl
  | retain =>
    rcases retain_cases h with ⟨_,_,id,_,_,-,⟨-,rfl⟩ | ⟨-,rfl⟩⟩ | ⟨_,_,_,-,rfl⟩
    · exact .of_eq rfl
    · exact kept_clear s id
    · exact .of_eq rfl
  | evict =>
    obtain ⟨_,_,id,_,-,-,rfl⟩ := evict_cases h
    exact kept_clear s id
  | push =>
    obtain ⟨request,now,-,-,rfl⟩ := push_cases h
    intro id e he
    refine ⟨e,?_,rfl,fun hlive => hlive⟩
    have hlt := (List.getElem?_eq_some_iff.mp he).1
    rw [List.getElem?_append_left hlt]
    exact he
  | claim id kind target =>
    obtain ⟨e,-,rfl⟩ := Option.map_eq_some_iff.mp h
    split_ifs
    · exact .of_eq rfl
    · exact .of_eq rfl
  | swap i =>
    obtain ⟨c,-,rfl⟩ := Option.map_eq_some_iff.mp h
    exact kept_clear s c.id
  | beginRead | endRead | begin =>
    simp only [step] at h
    split_ifs at h with hguard
    cases h
    exact .of_eq rfl
  | createShelf id | deleteShelf id =>
    simp only [step] at h
    split at h
    · split_ifs at h with hguard
      cases h
      exact .of_eq rfl
    · cases h
  | invalidate =>
    simp only [step] at h
    split at h
    · cases h
      exact .of_eq rfl
    · cases h
  | drop =>
    rcases drop_cases h with ⟨_,id,_,_,-,⟨-,rfl⟩ | ⟨-,rfl⟩⟩ | ⟨_,_,_,_,_,-,-,rfl⟩
    · exact kept_clear s id
    · exact .of_eq rfl
    · exact .of_eq rfl
  | commit =>
    simp only [step] at h
    split at h
    · cases h
      exact .of_eq rfl
    · cases h
  | rollback =>
    simp only [step] at h
    split at h
    · cases h
    · cases h
      exact .of_eq rfl
    · cases h

/-- A ticket stays in the registry while it is live. -/
def Held (entries : List Entry) (members : List ℕ) : Prop :=
  ∀ (id : ℕ) (e : Entry), entries[id]?=some e → e.live=true → id ∈ members

/-- What every reachable system keeps. -/
structure Invariant (s : System) : Prop where
  /-- Live tickets are in the registry. -/
  held : Held s.entries s.members
  bounded : s.members.length≤limit
  /-- A claim under way asked for what the ticket was issued for, before its expiry. -/
  checked : ∀ c ∈ s.claims, ∃ e, s.entries[c.id]?=some e ∧ e.ticket.kind=c.kind ∧
    e.ticket.target=c.target ∧ c.now-e.ticket.issued<lifetime
  /-- An invalidation has left only tickets to look at that list its shelf. -/
  dropping : ∀ shelf todo kept, s.task=some (.dropping shelf todo kept) →
    (∃ rows gone, s.writer=.writing rows gone (some shelf)) ∧
      ∀ (id : ℕ) (e : Entry), s.entries[id]?=some e → e.live=true →
        shelf ∈ e.ticket.shelves → id ∈ todo
  /-- The tickets of a deleted shelf are dead. -/
  gone : ∀ rows gone deleting, s.writer=.writing rows gone deleting → ∀ shelf ∈ gone,
    ∀ (id : ℕ) (e : Entry), s.entries[id]?=some e → shelf ∈ e.ticket.shelves → e.live=false
  /-- A shelf that a transaction removed was or is being invalidated. -/
  removed : ∀ rows gone deleting, s.writer=.writing rows gone deleting →
    ∀ shelf ∈ s.rows, shelf ∈ rows ∨ shelf ∈ gone ∨ deleting=some shelf
  listed : s.listing=true → s.writer=.reading

/-- Nothing was issued yet. -/
theorem invariant_new (rows : List ℤ) : Invariant (.new rows) where
  held := by simp [Held,System.new]
  bounded := Nat.zero_le _
  checked := by simp [System.new]
  dropping := by simp [System.new]
  gone := by simp [System.new]
  removed := by simp [System.new]
  listed := by simp [System.listing,System.new]

theorem count_live {entries : List Entry} {members : List ℕ} (h : Held entries members) :
    entries.countP Entry.live ≤ members.length := by
  induction entries using List.reverseRecOn generalizing members with
  | nil => exact Nat.zero_le _
  | append_singleton entries e ih =>
    have hrest : Held entries (members.filter (·≠entries.length)) := by
      intro id x hx hlive
      have hlt := (List.getElem?_eq_some_iff.mp hx).1
      refine List.mem_filter.mpr ⟨h id x ?_ hlive,by simp; omega⟩
      rw [List.getElem?_append_left hlt]
      exact hx
    have hle := ih hrest
    rw [List.countP_append,List.countP_singleton]
    cases hlive : e.live with
    | false =>
      have hfilter := List.length_filter_le (·≠entries.length) members
      simp only [Bool.false_eq_true,if_false]
      omega
    | true =>
      have hmem : entries.length ∈ members := h entries.length e (by simp) hlive
      have hlt : (members.filter (·≠entries.length)).length < members.length := by
        rw [List.length_filter_lt_length_iff_exists]
        exact ⟨_,hmem,by simp⟩
      simp only [if_true]
      omega

theorem Held.clear {s : System} {members left : List ℕ} {id : ℕ} (h : Held s.entries members)
    (hleft : ∀ x ∈ members, x≠id → x ∈ left) : Held (s.clear id).entries left := by
  intro other e he hlive
  obtain ⟨hbefore,hne⟩ := clear_live he hlive
  exact hleft other (h other e hbefore hlive) hne

/-- A ticket that is not valid is expired or dead. -/
theorem live_of_clear {s : System} {id other : ℕ} {e : Entry} {shelf : ℤ} {todo : List ℕ}
    (h : ∀ (i : ℕ) (x : Entry), s.entries[i]?=some x → x.live=true →
      shelf ∈ x.ticket.shelves → i ∈ id::todo) (he : (s.clear id).entries[other]?=some e)
    (hlive : e.live=true) (hshelf : shelf ∈ e.ticket.shelves) : other ∈ todo := by
  obtain ⟨hbefore,hne⟩ := clear_live he hlive
  rcases List.mem_cons.mp (h other e hbefore hlive hshelf) with heq | hmem
  · exact absurd heq hne
  · exact hmem

theorem Invariant.checked_kept {s s' : System} (hs : Invariant s) (hkept : Kept s s') :
    ∀ c ∈ s.claims, ∃ e, s'.entries[c.id]?=some e ∧ e.ticket.kind=c.kind ∧
      e.ticket.target=c.target ∧ c.now-e.ticket.issued<lifetime := by
  intro c hc
  obtain ⟨e,he,hkind,htarget,hnow⟩ := hs.checked c hc
  obtain ⟨e',he',ht,-⟩ := hkept c.id e he
  exact ⟨e',he',by rw [ht,hkind],by rw [ht,htarget],by rw [ht]; exact hnow⟩

theorem dead_clear {s : System} {id : ℕ} {gone : List ℤ}
    (h : ∀ shelf ∈ gone, ∀ (i : ℕ) (e : Entry), s.entries[i]?=some e →
      shelf ∈ e.ticket.shelves → e.live=false) :
    ∀ shelf ∈ gone, ∀ (i : ℕ) (e : Entry), (s.clear id).entries[i]?=some e →
      shelf ∈ e.ticket.shelves → e.live=false := by
  intro shelf hshelf i e he hlist
  cases hlive : e.live with
  | false => rfl
  | true =>
    have hdead := h shelf hshelf i e (clear_live he hlive).1 hlist
    rw [hlive] at hdead
    cases hdead

section Steps

variable {s s' : System}

theorem retain_invariant (hs : Invariant s) (h : retain s=some s') : Invariant s' := by
  have hbounded := hs.bounded
  have hheld := hs.held
  rcases retain_cases h with ⟨request,now,id,todo,kept,htask,⟨-,rfl⟩ | ⟨-,rfl⟩⟩ |
    ⟨request,now,kept,htask,rfl⟩
  · simp only [System.members,htask] at hbounded hheld
    refine ⟨?_,?_,hs.checked,by simp,hs.gone,hs.removed,?_⟩
    · intro other e he hlive
      have hmem := hheld other e he hlive
      simp only [System.members,List.mem_append,List.mem_cons] at hmem ⊢
      tauto
    · simp only [System.members,List.length_append,List.length_cons,List.length_nil] at hbounded ⊢
      omega
    · have hlisted := hs.listed
      simp only [System.listing,htask] at hlisted
      exact hlisted
  · simp only [System.members,htask] at hbounded hheld
    refine ⟨hheld.clear ?_,?_,hs.checked_kept (kept_clear s id),by simp,?_,hs.removed,?_⟩
    · intro x hx hne
      simp only [System.members,List.mem_append,List.mem_cons] at hx ⊢
      tauto
    · simp only [System.members,List.length_append,List.length_cons] at hbounded ⊢
      omega
    · exact fun rows gone deleting hw => dead_clear (hs.gone rows gone deleting hw)
    · have hlisted := hs.listed
      simp only [System.listing,htask] at hlisted
      exact hlisted
  · simp only [System.members,htask,List.nil_append] at hbounded hheld
    refine ⟨hheld,hbounded,hs.checked,by simp,hs.gone,hs.removed,?_⟩
    have hlisted := hs.listed
    simp only [System.listing,htask] at hlisted
    exact hlisted

theorem evict_invariant (hs : Invariant s) (h : evict s=some s') : Invariant s' := by
  obtain ⟨request,now,id,rest,htask,hregistry,rfl⟩ := evict_cases h
  have hbounded := hs.bounded
  have hheld := hs.held
  simp only [System.members,htask,hregistry] at hbounded hheld
  refine ⟨?_,?_,hs.checked_kept (kept_clear s id),?_,?_,hs.removed,?_⟩
  · simp only [System.members,htask,System.clear]
    refine Held.clear hheld fun x hx hne => ?_
    exact (List.mem_cons.mp hx).resolve_left hne
  · simp only [System.members,System.clear,htask]
    rw [List.length_cons] at hbounded
    omega
  · intro shelf todo kept hdropping
    have htask' : s.task=some (.dropping shelf todo kept) := hdropping
    rw [htask] at htask'
    cases htask'
  · exact fun rows gone deleting hw => dead_clear (hs.gone rows gone deleting hw)
  · exact hs.listed

theorem push_invariant (hs : Invariant s) (h : push s=some s') : Invariant s' := by
  obtain ⟨request,now,htask,hroom,rfl⟩ := push_cases h
  have hheld := hs.held
  have hlisted := hs.listed
  simp only [System.members,htask] at hheld
  simp only [System.listing,htask] at hlisted
  have hentry : ∀ (id : ℕ) (e : Entry), (s.entries++
      [⟨⟨request.kind,request.target,request.shelves,now⟩,true⟩])[id]?=some e →
      s.entries[id]?=some e ∨ (id=s.entries.length ∧ e.ticket.shelves=request.shelves) := by
    intro id e he
    by_cases hlt : id<s.entries.length
    · rw [List.getElem?_append_left hlt] at he
      exact .inl he
    · rw [List.getElem?_append_right (Nat.not_lt.mp hlt)] at he
      obtain ⟨hlen,rfl⟩ := List.getElem?_eq_some_iff.mp he
      rw [List.length_singleton] at hlen
      exact .inr ⟨by omega,by simp [Nat.lt_one_iff.mp hlen]⟩
  refine ⟨?_,?_,?_,by simp,?_,hs.removed,by simp [System.listing]⟩
  · intro id e he hlive
    simp only [System.members,List.mem_append,List.mem_singleton]
    rcases hentry id e he with hbefore | ⟨rfl,-⟩
    · exact .inl (hheld id e hbefore hlive)
    · exact .inr rfl
  · simp only [System.members,List.length_append,List.length_singleton]
    omega
  · exact hs.checked_kept (@step_kept s _ .push h)
  · intro rows gone deleting hw shelf hshelf id e he hlist
    have hw : s.writer=.writing rows gone deleting := hw
    rcases hentry id e he with hbefore | ⟨-,hshelves⟩
    · exact hs.gone rows gone deleting hw shelf hshelf id e hbefore hlist
    · have hnonempty : request.shelves.isEmpty=false := by
        rw [hshelves] at hlist
        cases hr : request.shelves with
        | nil =>
          rw [hr] at hlist
          cases hlist
        | cons a t => rfl
      have hreading := hlisted (by rw [hnonempty]; rfl)
      rw [hreading] at hw
      cases hw

theorem claim_invariant (hs : Invariant s) {id : ℕ} {kind : Kind} {target : ℤ}
    (h : claim s id kind target=some s') : Invariant s' := by
  obtain ⟨e,he,rfl⟩ := Option.map_eq_some_iff.mp h
  split_ifs with hguard
  · exact hs
  · simp only [not_or,not_not,Nat.not_le] at hguard
    refine ⟨hs.held,hs.bounded,?_,hs.dropping,hs.gone,hs.removed,hs.listed⟩
    intro c hc
    rcases List.mem_cons.mp hc with rfl | hc
    · exact ⟨e,he,hguard⟩
    · exact hs.checked c hc

theorem swap_invariant (hs : Invariant s) {i : ℕ} (h : swap s i=some s') : Invariant s' := by
  obtain ⟨c,-,rfl⟩ := Option.map_eq_some_iff.mp h
  refine ⟨?_,hs.bounded,?_,?_,?_,hs.removed,hs.listed⟩
  · exact hs.held.clear fun x hx _ => hx
  · intro other hother
    exact hs.checked_kept (kept_clear s c.id) other (List.mem_of_mem_eraseIdx hother)
  · intro shelf todo kept htask
    obtain ⟨hwriter,hleft⟩ := hs.dropping shelf todo kept htask
    refine ⟨hwriter,fun id e he hlive hlist => ?_⟩
    exact hleft id e (clear_live he hlive).1 hlive hlist
  · exact fun rows gone deleting hw => dead_clear (hs.gone rows gone deleting hw)

theorem drop_invariant (hs : Invariant s) (h : drop s=some s') : Invariant s' := by
  have hbounded := hs.bounded
  have hheld := hs.held
  rcases drop_cases h with ⟨shelf,id,todo,kept,htask,⟨hlists,rfl⟩ | ⟨hlists,rfl⟩⟩ |
    ⟨shelf,kept,rows,gone,deleting,htask,hwriter,rfl⟩
  · simp only [System.members,htask] at hbounded hheld
    obtain ⟨hwriter,hleft⟩ := hs.dropping _ _ _ htask
    refine ⟨hheld.clear ?_,?_,hs.checked_kept (kept_clear s id),?_,?_,hs.removed,
      by simp [System.listing]⟩
    · intro x hx hne
      simp only [System.members,List.mem_append,List.mem_cons] at hx ⊢
      tauto
    · simp only [System.members,List.length_append,List.length_cons] at hbounded ⊢
      omega
    · intro other rest kept' hdropping
      cases hdropping
      exact ⟨hwriter,fun i e he hlive hlist => live_of_clear hleft he hlive hlist⟩
    · exact fun rows gone deleting hw => dead_clear (hs.gone rows gone deleting hw)
  · simp only [System.members,htask] at hbounded hheld
    obtain ⟨hwriter,hleft⟩ := hs.dropping _ _ _ htask
    refine ⟨?_,?_,hs.checked,?_,hs.gone,hs.removed,by simp [System.listing]⟩
    · intro other e he hlive
      have hmem := hheld other e he hlive
      simp only [System.members,List.mem_append,List.mem_cons] at hmem ⊢
      tauto
    · simp only [System.members,List.length_append,List.length_cons,List.length_nil] at hbounded ⊢
      omega
    · intro other rest kept' hdropping
      cases hdropping
      refine ⟨hwriter,fun i e he hlive hlist => ?_⟩
      rcases List.mem_cons.mp (hleft i e he hlive hlist) with rfl | hmem
      · have hyes : s.lists shelf i=true := by
          simp [System.lists,he,hlist]
        rw [hyes] at hlists
        cases hlists
      · exact hmem
  · simp only [System.members,htask,List.nil_append] at hbounded hheld
    obtain ⟨⟨rows',gone',hwriter'⟩,hleft⟩ := hs.dropping _ _ _ htask
    rw [hwriter] at hwriter'
    cases hwriter'
    refine ⟨hheld,hbounded,hs.checked,by simp,?_,?_,by simp [System.listing]⟩
    · intro rows' gone' deleting' hw other hother id e he hlist
      cases hw
      rcases List.mem_cons.mp hother with rfl | hother
      · cases hlive : e.live with
        | false => rfl
        | true => cases hleft id e he hlive hlist
      · exact hs.gone _ _ _ hwriter other hother id e he hlist
    · intro rows' gone' deleting' hw other hother
      cases hw
      rcases hs.removed _ _ _ hwriter other hother with hrow | hgone | heq
      · exact .inl hrow
      · exact .inr (.inl (List.mem_cons_of_mem _ hgone))
      · cases heq
        exact .inr (.inl List.mem_cons_self)

theorem step_invariant (hs : Invariant s) {event : Event} (h : step s event=some s') :
    Invariant s' := by
  cases event with
  | advance elapsed =>
    cases h
    exact ⟨hs.held,hs.bounded,hs.checked,hs.dropping,hs.gone,hs.removed,hs.listed⟩
  | issue request =>
    simp only [step] at h
    split_ifs at h with hguard
    cases h
    have hheld := hs.held
    have hbounded := hs.bounded
    simp only [System.members,hguard.1] at hheld hbounded
    refine ⟨?_,?_,hs.checked,by simp,hs.gone,hs.removed,?_⟩
    · simpa only [System.members,List.append_nil] using hheld
    · simpa only [System.members,List.append_nil] using hbounded
    · intro hlisting
      rcases hguard.2 with hnone | hreading
      · simp [System.listing,hnone] at hlisting
      · exact hreading
  | retain => exact retain_invariant hs h
  | evict => exact evict_invariant hs h
  | push => exact push_invariant hs h
  | claim id kind target => exact claim_invariant hs h
  | swap i => exact swap_invariant hs h
  | beginRead =>
    simp only [step] at h
    split_ifs at h with hidle
    cases h
    refine ⟨hs.held,hs.bounded,hs.checked,?_,by simp,by simp,fun _ => rfl⟩
    intro shelf todo kept htask
    obtain ⟨⟨rows,gone,hwriter⟩,-⟩ := hs.dropping shelf todo kept htask
    rw [hidle] at hwriter
    cases hwriter
  | endRead =>
    simp only [step] at h
    split_ifs at h with hguard
    cases h
    refine ⟨hs.held,hs.bounded,hs.checked,?_,by simp,by simp,?_⟩
    · intro shelf todo kept htask
      obtain ⟨⟨rows,gone,hwriter⟩,-⟩ := hs.dropping shelf todo kept htask
      rw [hguard.1] at hwriter
      cases hwriter
    · intro hlisting
      have hno : s.listing=true := hlisting
      rw [hguard.2] at hno
      cases hno
  | begin =>
    simp only [step] at h
    split_ifs at h with hidle
    cases h
    refine ⟨hs.held,hs.bounded,hs.checked,?_,?_,?_,?_⟩
    · intro shelf todo kept htask
      obtain ⟨⟨rows,gone,hwriter⟩,-⟩ := hs.dropping shelf todo kept htask
      rw [hidle] at hwriter
      cases hwriter
    · intro rows gone deleting hw
      cases hw
      exact List.forall_mem_nil _
    · intro rows gone deleting hw shelf hshelf
      cases hw
      exact .inl hshelf
    · intro hlisting
      have hreading := hs.listed hlisting
      rw [hidle] at hreading
      cases hreading
  | createShelf id =>
    simp only [step] at h
    split at h
    next rows gone hwriter =>
      split_ifs at h with hrow
      cases h
      refine ⟨hs.held,hs.bounded,hs.checked,?_,?_,?_,?_⟩
      · intro shelf todo kept htask
        obtain ⟨⟨rows',gone',hwriter'⟩,-⟩ := hs.dropping shelf todo kept htask
        rw [hwriter] at hwriter'
        cases hwriter'
      · intro rows' gone' deleting' hw
        cases hw
        exact hs.gone _ _ _ hwriter
      · intro rows' gone' deleting' hw shelf hshelf
        cases hw
        rcases hs.removed _ _ _ hwriter shelf hshelf with hin | hgone | hnone
        · exact .inl (List.mem_cons_of_mem _ hin)
        · exact .inr (.inl hgone)
        · cases hnone
      · intro hlisting
        have hreading := hs.listed hlisting
        rw [hwriter] at hreading
        cases hreading
    next => cases h
  | deleteShelf id =>
    simp only [step] at h
    split at h
    next rows gone hwriter =>
      split_ifs at h with hrow
      cases h
      refine ⟨hs.held,hs.bounded,hs.checked,?_,?_,?_,?_⟩
      · intro shelf todo kept htask
        obtain ⟨⟨rows',gone',hwriter'⟩,-⟩ := hs.dropping shelf todo kept htask
        rw [hwriter] at hwriter'
        cases hwriter'
      · intro rows' gone' deleting' hw
        cases hw
        exact hs.gone _ _ _ hwriter
      · intro rows' gone' deleting' hw shelf hshelf
        cases hw
        rcases hs.removed _ _ _ hwriter shelf hshelf with hin | hgone | hnone
        · by_cases heq : shelf=id
          · exact .inr (.inr (by rw [heq]))
          · exact .inl (List.mem_filter.mpr ⟨hin,by simpa using heq⟩)
        · exact .inr (.inl hgone)
        · cases hnone
      · intro hlisting
        have hreading := hs.listed hlisting
        rw [hwriter] at hreading
        cases hreading
    next => cases h
  | invalidate =>
    simp only [step] at h
    split at h
    next rows gone id htask hwriter =>
      cases h
      have hheld := hs.held
      have hbounded := hs.bounded
      simp only [System.members,htask] at hheld hbounded
      refine ⟨?_,?_,hs.checked,?_,hs.gone,hs.removed,by simp [System.listing]⟩
      · simpa only [System.members,List.append_nil] using hheld
      · simpa only [System.members,List.append_nil] using hbounded
      · intro shelf todo kept hdropping
        cases hdropping
        exact ⟨⟨rows,gone,hwriter⟩,fun i e he hlive _ => hheld i e he hlive⟩
    next => cases h
  | drop => exact drop_invariant hs h
  | commit =>
    simp only [step] at h
    split at h
    next rows gone hwriter =>
      cases h
      refine ⟨hs.held,hs.bounded,hs.checked,?_,by simp,by simp,?_⟩
      · intro shelf todo kept htask
        obtain ⟨⟨rows',gone',hwriter'⟩,-⟩ := hs.dropping shelf todo kept htask
        rw [hwriter] at hwriter'
        cases hwriter'
      · intro hlisting
        have hreading := hs.listed hlisting
        rw [hwriter] at hreading
        cases hreading
    next => cases h
  | rollback =>
    simp only [step] at h
    split at h
    next => cases h
    next hwriter hno =>
      cases h
      refine ⟨hs.held,hs.bounded,hs.checked,?_,by simp,by simp,?_⟩
      · intro shelf todo kept htask
        exact absurd htask (hno shelf todo kept)
      · intro hlisting
        have hreading := hs.listed hlisting
        rw [hwriter] at hreading
        cases hreading
    next => cases h

end Steps

theorem run_keeps {events : List Event} {s s' : System} (hs : Invariant s)
    (h : run s events=some s') : Invariant s' ∧ Kept s s' := by
  induction events generalizing s with
  | nil =>
    cases h
    exact ⟨hs,.of_eq rfl⟩
  | cons event events ih =>
    obtain ⟨next,hstep,hrest⟩ := Option.bind_eq_some_iff.mp h
    obtain ⟨hinv,hkept⟩ := ih (step_invariant hs hstep) hrest
    exact ⟨hinv,(step_kept hstep).trans hkept⟩

/-- A successful claim finds the flag set, and clears it. -/
theorem wins_cases {id : ℕ} {s : System} {event : Event} (h : wins id s event=true) :
    ∃ i c e, event=.swap i ∧ s.claims[i]?=some c ∧ c.id=id ∧ s.entries[id]?=some e ∧
      e.live=true ∧ step s event=some { s.clear id with claims := s.claims.eraseIdx i } := by
  cases event with
  | swap i =>
    obtain ⟨c,hc,hwin⟩ := (Option.any_eq_true _ _).mp h
    simp only [Bool.and_eq_true,decide_eq_true_eq] at hwin
    obtain ⟨e,he,hlive⟩ := (Option.any_eq_true _ _).mp hwin.2
    refine ⟨i,c,e,rfl,hc,hwin.1,he,hlive,?_⟩
    simp only [step,swap,hc,Option.map_some,hwin.1]
  | _ => cases h

theorem successes_dead {id : ℕ} {s : System} {events : List Event} {e : Entry}
    (he : s.entries[id]?=some e) (hdead : e.live=false) : successes id s events=0 := by
  induction events generalizing s e with
  | nil => rfl
  | cons event events ih =>
    have hno : wins id s event=false := by
      cases hwin : wins id s event with
      | false => rfl
      | true =>
        obtain ⟨i,c,e',-,-,-,he',hlive,-⟩ := wins_cases hwin
        rw [he] at he'
        cases he'
        rw [hdead] at hlive
        cases hlive
    rw [successes,hno]
    cases hstep : step s event with
    | none => rfl
    | some next =>
      obtain ⟨e',he',-,hlive⟩ := step_kept hstep id e he
      have hdead' : e'.live=false := by
        cases hl : e'.live with
        | false => rfl
        | true =>
          rw [hlive hl] at hdead
          cases hdead
      simp only [Option.map_some,Option.getD_some,ih he' hdead',Bool.false_eq_true,if_false]

/-- A ticket is claimed with success at most once. -/
theorem successes_le_one (id : ℕ) (s : System) (events : List Event) : successes id s events≤1 := by
  induction events generalizing s with
  | nil => exact Nat.zero_le _
  | cons event events ih =>
    rw [successes]
    cases hwin : wins id s event with
    | false =>
      cases hstep : step s event with
      | none => exact Nat.zero_le _
      | some next =>
        simp only [Bool.false_eq_true,if_false,Option.map_some,Option.getD_some,Nat.zero_add]
        exact ih next
    | true =>
      obtain ⟨i,c,e,-,-,-,he,-,hstep⟩ := wins_cases hwin
      have hcleared : (s.clear id).entries[id]?=some { e with live := false } := by
        rw [clear_entries,he]
        simp
      have hzero : successes id { s.clear id with claims := s.claims.eraseIdx i } events=0 :=
        successes_dead hcleared rfl
      rw [hstep,Option.map_some,Option.getD_some,hzero]
      exact Nat.le_refl _

/-- A committed transaction deleted a shelf: its invalidation ended, or its row is gone. -/
def Deletes (s s' : System) (shelf : ℤ) : Prop :=
  step s .commit=some s' ∧
    ((∃ rows gone, s.writer=.writing rows gone none ∧ shelf ∈ gone) ∨
      (shelf ∈ s.rows ∧ shelf ∉ s'.rows))

/-- Why a ticket cannot be claimed any more. -/
inductive Spent (s : System) (id : ℕ) (e : Entry) : Prop where
  /-- It was claimed, expired when another was issued, was evicted, or was invalidated. -/
  | dead (h : e.live=false)
  /-- It left the registry. -/
  | evicted (h : id ∉ s.members)
  | deleted (s' : System) (shelf : ℤ) (hshelf : shelf ∈ e.ticket.shelves)
    (h : Deletes s s' shelf)

theorem Spent.dead_of {s : System} (hs : Invariant s) {id : ℕ} {e : Entry}
    (he : s.entries[id]?=some e) (h : Spent s id e) : e.live=false := by
  cases h with
  | dead h => exact h
  | evicted h =>
    cases hlive : e.live with
    | false => rfl
    | true => exact absurd (hs.held id e he hlive) h
  | deleted s' shelf hshelf h =>
    obtain ⟨hcommit,hdeleted⟩ := h
    have hgone : ∃ rows gone, s.writer=.writing rows gone none ∧ shelf ∈ gone := by
      rcases hdeleted with hgone | ⟨hbefore,hafter⟩
      · exact hgone
      · simp only [step] at hcommit
        split at hcommit
        next rows gone hwriter =>
          cases hcommit
          rcases hs.removed _ _ _ hwriter shelf hbefore with hrow | hgone | hnone
          · exact absurd hrow hafter
          · exact ⟨rows,gone,hwriter,hgone⟩
          · cases hnone
        next => cases hcommit
    obtain ⟨rows,gone,hwriter,hmem⟩ := hgone
    exact hs.gone rows gone none hwriter shelf hmem id e he hshelf

/-- In every interleaving at most 64 tickets are live; a ticket is claimed with success at most
once, and only by a claim of its kind and owner that read the clock before its expiry; a claim
that is refused changes nothing; and a ticket that is dead, was evicted or lists a deleted shelf
is never claimed again, whatever happens later. -/
theorem review_tickets_single_use (rows : List ℤ) {events : List Event} {s : System}
    (h : run (.new rows) events=some s) :
    s.liveCount≤limit ∧ (∀ id, successes id (.new rows) events≤1) ∧
    (∀ id event, wins id s event=true → ∃ i c e, event=.swap i ∧ s.claims[i]?=some c ∧
      c.id=id ∧ s.entries[id]?=some e ∧ e.ticket.kind=c.kind ∧ e.ticket.target=c.target ∧
      c.now-e.ticket.issued<lifetime) ∧
    (∀ (id : ℕ) (kind : Kind) (target : ℤ) (e : Entry), s.entries[id]?=some e →
      (e.ticket.kind≠kind ∨ e.ticket.target≠target ∨ lifetime ≤ s.clock-e.ticket.issued) →
      step s (.claim id kind target)=some s) ∧
    (∀ (id : ℕ) (e : Entry), s.entries[id]?=some e → Spent s id e →
      ∀ later, successes id s later=0 ∧ ∀ s', run s later=some s' →
        ∃ e', s'.entries[id]?=some e' ∧ e'.live=false) := by
  have hs := (run_keeps (invariant_new rows) h).1
  refine ⟨Nat.le_trans (count_live hs.held) hs.bounded,fun id => successes_le_one id _ _,?_,?_,?_⟩
  · intro id event hwin
    obtain ⟨i,c,e,hevent,hc,rfl,he,-,-⟩ := wins_cases hwin
    obtain ⟨e',he',hkind,htarget,hnow⟩ := hs.checked c (List.mem_of_getElem? hc)
    exact ⟨i,c,e',hevent,hc,rfl,he',hkind,htarget,hnow⟩
  · intro id kind target e he hrefused
    simp only [step,claim,he,Option.map_some,if_pos hrefused]
  · intro id e he hspent later
    have hdead := hspent.dead_of hs he
    refine ⟨successes_dead he hdead,fun s' hrun => ?_⟩
    obtain ⟨e',he',-,hlive⟩ := (run_keeps hs hrun).2 id e he
    refine ⟨e',he',?_⟩
    cases hl : e'.live with
    | false => rfl
    | true =>
      rw [hlive hl] at hdead
      cases hdead

/-- A plan for shelf 7 is claimed; another is refused after the shelf was deleted. -/
def oneDeletion : List Event :=
  [.beginRead,.issue ⟨.curation,7,[7]⟩,.retain,.push,.issue ⟨.update,7,[7]⟩,.retain,.retain,
    .push,.endRead,.begin,.claim 0 .curation 7,.swap 0,.deleteShelf 7,.invalidate,.drop,.drop,
    .drop,.commit,.begin,.createShelf 7,.claim 1 .update 7,.swap 0,.commit]

/-- The first ticket is claimed once and the second never, though the id is in use again. -/
theorem oneDeletion_claims : ∃ s, run (.new [7]) oneDeletion=some s ∧ s.rows=[7] ∧
    successes 0 (.new [7]) oneDeletion=1 ∧ successes 1 (.new [7]) oneDeletion=0 ∧
    s.liveCount≤limit := by
  cases h : run (.new [7]) oneDeletion with
  | none => exact absurd h (by decide +kernel)
  | some s =>
    refine ⟨s,rfl,?_,by decide +kernel,by decide +kernel,(review_tickets_single_use [7] h).1⟩
    have hrows : (run (.new [7]) oneDeletion).map System.rows=some [7] := by decide +kernel
    rw [h] at hrows
    exact Option.some.inj hrows

end Librairii.ReviewTickets
