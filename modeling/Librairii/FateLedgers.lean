import Mathlib

/-!
# Ledgers of a queue with replacement

Everything that was ever accepted by a queue stays in a ledger in its order, with its fate. An
entry is served in its order, replaced by the entry accepted right after it, or dropped. The
entries that still wait are the queue.
-/

namespace Librairii.FateLedgers

/-- What became of an entry. -/
inductive Fate where
  | queued
  | served
  | replaced
  | dropped
  deriving DecidableEq

/-- Entries in the order of their acceptance, with their fates. -/
abbrev Ledger (ε : Type) := List (ε×Fate)

variable {ε : Type}

def withFate (fate : Fate) (l : Ledger ε) : List ε :=
  (l.filter fun entry => entry.2=fate).map (·.1)

/-- Accept an entry; it replaces the last one when that still waits and merges with it. -/
def accept (merges : ε → ε → Bool) (l : Ledger ε) (e : ε) : Ledger ε :=
  match l.getLast? with
  | some (last,.queued) =>
    if merges last e then l.dropLast++[(last,.replaced),(e,.queued)] else l++[(e,.queued)]
  | _ => l++[(e,.queued)]

def serve : Ledger ε → Ledger ε
  | [] => []
  | (e,.queued)::l => (e,.served)::l
  | entry::l => entry::serve l

def drop (keeps : ε → Bool) (l : Ledger ε) : Ledger ε :=
  l.map fun entry => if entry.2=.queued ∧ keeps entry.1=false then (entry.1,.dropped) else entry

/-- No entry was served after one that still waits. -/
def Served (l : Ledger ε) : Prop := l.Pairwise fun a b => a.2=.queued → b.2≠.served

/-- An entry that was replaced is followed by one it merges with. -/
structure Followed (merges : ε → ε → Bool) (l : Ledger ε) : Prop where
  chain : l.IsChain fun a b => a.2=.replaced → merges a.1 b.1=true
  last : ∀ entry, l.getLast?=some entry → entry.2≠.replaced

variable {merges : ε → ε → Bool} {keeps : ε → Bool} {l : Ledger ε} {e : ε}

@[simp] theorem withFate_append (fate : Fate) (l l' : Ledger ε) :
    withFate fate (l++l')=withFate fate l++withFate fate l' := by
  unfold withFate
  rw [List.filter_append,List.map_append]

@[simp] theorem withFate_cons (fate other : Fate) (e : ε) (l : Ledger ε) :
    withFate fate ((e,other)::l)=if other=fate then e::withFate fate l else withFate fate l := by
  unfold withFate
  by_cases h : other=fate
  · rw [if_pos h,List.filter_cons_of_pos (by simpa using h),List.map_cons]
  · rw [if_neg h,List.filter_cons_of_neg (by simpa using h)]

@[simp] theorem withFate_nil (fate : Fate) : withFate fate ([] : Ledger ε)=[] := rfl

/-- The ways of an acceptance: behind everything, or in the place of the last entry. -/
theorem accept_cases (merges : ε → ε → Bool) (l : Ledger ε) (e : ε) :
    (accept merges l e=l++[(e,.queued)] ∧
      ∀ last, l.getLast?=some (last,.queued) → merges last e=false) ∨
    ∃ l' last, l=l'++[(last,.queued)] ∧ merges last e=true ∧
      accept merges l e=l'++[(last,.replaced),(e,.queued)] := by
  unfold accept
  cases hlast : l.getLast? with
  | none => exact .inl ⟨rfl,fun _ h => nomatch h⟩
  | some entry =>
    obtain ⟨last,fate⟩ := entry
    cases fate with
    | queued =>
      dsimp only
      by_cases hm : merges last e=true
      · right
        obtain ⟨l',rfl⟩ := List.getLast?_eq_some_iff.mp hlast
        refine ⟨l',last,rfl,hm,?_⟩
        rw [if_pos hm,List.dropLast_concat]
      · left
        rw [if_neg hm]
        refine ⟨rfl,fun other hother => ?_⟩
        cases hother
        exact Bool.not_eq_true _ ▸ hm
    | served => exact .inl ⟨rfl,fun _ h => nomatch h⟩
    | replaced => exact .inl ⟨rfl,fun _ h => nomatch h⟩
    | dropped => exact .inl ⟨rfl,fun _ h => nomatch h⟩

/-- An acceptance adds its entry behind the others. -/
theorem accept_entries (merges : ε → ε → Bool) (l : Ledger ε) (e : ε) :
    (accept merges l e).map (·.1)=l.map (·.1)++[e] := by
  rcases accept_cases merges l e with ⟨h,-⟩ | ⟨l',last,rfl,-,h⟩
  · rw [h,List.map_append]
    rfl
  · rw [h]
    simp

/-- The ways of serving: nothing waits, or the first entry that waits is served. -/
theorem serve_cases (l : Ledger ε) : (withFate .queued l=[] ∧ serve l=l) ∨
    ∃ before e after, l=before++(e,.queued)::after ∧ withFate .queued before=[] ∧
      serve l=before++(e,.served)::after := by
  induction l with
  | nil => exact .inl ⟨rfl,rfl⟩
  | cons entry l ih =>
    obtain ⟨e,fate⟩ := entry
    have hother : fate≠.queued → serve ((e,fate)::l)=(e,fate)::serve l →
        (withFate .queued ((e,fate)::l)=[] ∧ serve ((e,fate)::l)=(e,fate)::l) ∨
        ∃ before e' after, (e,fate)::l=before++(e',.queued)::after ∧
          withFate .queued before=[] ∧ serve ((e,fate)::l)=before++(e',.served)::after := by
      intro hf hserve
      rcases ih with ⟨hnone,hsame⟩ | ⟨before,e',after,hl,hbefore,hserved⟩
      · left
        rw [withFate_cons,if_neg hf,hserve,hsame]
        exact ⟨hnone,rfl⟩
      · right
        refine ⟨(e,fate)::before,e',after,by rw [hl]; rfl,?_,by rw [hserve,hserved]; rfl⟩
        rw [withFate_cons,if_neg hf,hbefore]
    cases fate with
    | queued => exact .inr ⟨[],e,l,rfl,rfl,rfl⟩
    | served => exact hother (fun h => nomatch h) rfl
    | replaced => exact hother (fun h => nomatch h) rfl
    | dropped => exact hother (fun h => nomatch h) rfl

/-- Serving adds and removes nothing. -/
theorem serve_entries (l : Ledger ε) : (serve l).map (·.1)=l.map (·.1) := by
  rcases serve_cases l with ⟨-,h⟩ | ⟨before,e,after,hl,-,h⟩
  · rw [h]
  · rw [h,hl]
    simp

/-- Dropping adds and removes nothing. -/
theorem drop_entries (keeps : ε → Bool) (l : Ledger ε) : (drop keeps l).map (·.1)=l.map (·.1) := by
  unfold drop
  rw [List.map_map]
  refine List.map_congr_left fun entry _ => ?_
  dsimp only [Function.comp]
  split <;> rfl

/-- Serving takes the first entry that waits. -/
theorem serve_queued (l : Ledger ε) : withFate .queued (serve l)=(withFate .queued l).tail := by
  rcases serve_cases l with ⟨hnone,h⟩ | ⟨before,e,after,hl,hbefore,h⟩
  · rw [h,hnone]
    rfl
  · rw [h,hl]
    simp [hbefore]

theorem serve_served (h : Served l) : withFate .served (serve l)=
    withFate .served l++(withFate .queued l).head?.toList := by
  rcases serve_cases l with ⟨hnone,hsame⟩ | ⟨before,e,after,hl,hbefore,hserve⟩
  · rw [hsame,hnone]
    exact (List.append_nil _).symm
  · have hafter : withFate .served after=[] := by
      unfold withFate
      rw [List.map_eq_nil_iff,List.filter_eq_nil_iff]
      intro other hother he
      rw [hl] at h
      have hbehind := (List.pairwise_cons.mp (List.pairwise_append.mp h).2.1).1
      exact hbehind other hother rfl (of_decide_eq_true he)
    rw [hserve,hl]
    simp [hbefore,hafter]

/-- The entries that wait after dropping are those that are kept. -/
theorem drop_queued (keeps : ε → Bool) (l : Ledger ε) :
    withFate .queued (drop keeps l)=(withFate .queued l).filter keeps := by
  induction l with
  | nil => rfl
  | cons entry l ih =>
    obtain ⟨e,fate⟩ := entry
    change withFate .queued ((if fate=.queued ∧ keeps e=false then (e,.dropped) else (e,fate))::
      drop keeps l)=_
    by_cases hqueued : fate=.queued
    · cases hk : keeps e with
      | true => simp [hqueued,hk,ih]
      | false => simp [hqueued,hk,ih]
    · simp [hqueued,ih]

theorem drop_served (keeps : ε → Bool) (l : Ledger ε) :
    withFate .served (drop keeps l)=withFate .served l := by
  induction l with
  | nil => rfl
  | cons entry l ih =>
    obtain ⟨e,fate⟩ := entry
    change withFate .served ((if fate=.queued ∧ keeps e=false then (e,.dropped) else (e,fate))::
      drop keeps l)=_
    by_cases hdrop : fate=.queued ∧ keeps e=false
    · simp [hdrop,ih]
    · rw [if_neg hdrop,withFate_cons,withFate_cons,ih]

theorem accept_served (merges : ε → ε → Bool) (l : Ledger ε) (e : ε) :
    withFate .served (accept merges l e)=withFate .served l := by
  rcases accept_cases merges l e with ⟨h,-⟩ | ⟨l',last,rfl,-,h⟩
  · rw [h]
    simp
  · rw [h]
    simp

theorem Served.accept (h : Served l) (merges : ε → ε → Bool) (e : ε) :
    Served (accept merges l e) := by
  rcases accept_cases merges l e with ⟨he,-⟩ | ⟨l',last,rfl,-,he⟩
  · rw [he]
    refine List.pairwise_append.mpr ⟨h,List.pairwise_singleton _ _,?_⟩
    intro a _ b hb _
    rw [List.mem_singleton.mp hb]
    exact fun hs => nomatch hs
  · rw [he]
    refine List.pairwise_append.mpr ⟨(List.pairwise_append.mp h).1,?_,?_⟩
    · exact List.pairwise_pair.mpr fun hq => nomatch hq
    · intro a _ b hb _ hs
      rcases List.mem_cons.mp hb with rfl | hb
      · cases hs
      · rw [List.mem_singleton.mp hb] at hs
        cases hs

theorem Served.serve (h : Served l) : Served (serve l) := by
  rcases serve_cases l with ⟨-,hsame⟩ | ⟨before,e,after,hl,hbefore,hserve⟩
  · rw [hsame]
    exact h
  · rw [hl] at h
    rw [hserve]
    obtain ⟨hfirst,hrest,hbetween⟩ := List.pairwise_append.mp h
    refine List.pairwise_append.mpr ⟨hfirst,?_,?_⟩
    · exact List.pairwise_cons.mpr ⟨(fun _ _ hq => nomatch hq),(List.pairwise_cons.mp hrest).2⟩
    · intro a ha b hb hq
      rcases List.mem_cons.mp hb with rfl | hb
      · have hmem : a.1 ∈ withFate .queued before :=
          List.mem_map_of_mem (List.mem_filter.mpr ⟨ha,decide_eq_true hq⟩)
        rw [hbefore] at hmem
        cases hmem
      · exact hbetween a ha b (List.mem_cons_of_mem _ hb) hq

/-- Dropping keeps the order. -/
theorem Served.drop (h : Served l) (keeps : ε → Bool) : Served (drop keeps l) := by
  refine List.pairwise_map.mpr (h.imp ?_)
  intro a b hab
  split
  · exact fun hq => nomatch hq
  · split
    · exact fun _ hs => nomatch hs
    · exact hab

theorem Followed.accept (h : Followed merges l) (e : ε) : Followed merges (accept merges l e) := by
  rcases accept_cases merges l e with ⟨he,-⟩ | ⟨l',last,rfl,hm,he⟩
  · rw [he]
    constructor
    · refine List.isChain_append.mpr ⟨h.chain,List.isChain_singleton _,?_⟩
      intro a ha b _ hr
      exact absurd hr (h.last a ha)
    · intro entry hentry
      rw [List.getLast?_concat] at hentry
      cases hentry
      exact fun hr => nomatch hr
  · rw [he]
    obtain ⟨hfirst,-,hbetween⟩ := List.isChain_append.mp h.chain
    constructor
    · refine List.isChain_append.mpr ⟨hfirst,?_,?_⟩
      · exact List.isChain_pair.mpr fun _ => hm
      · intro a ha b hb
        cases hb
        exact hbetween a ha (last,.queued) rfl
    · intro entry hentry
      rw [List.getLast?_append] at hentry
      cases hentry
      exact fun hr => nomatch hr

theorem Followed.same {l' : Ledger ε} (h : Followed merges l)
    (hsame : List.Forall₂ (fun a b => b.1=a.1 ∧ (b.2=.replaced → a.2=.replaced)) l l') :
    Followed merges l' := by
  obtain ⟨hchain,hlast⟩ := h
  constructor
  · induction hsame with
    | nil => exact List.isChain_nil
    | @cons a b l l' hab hrest ih =>
      have htail := ih (List.isChain_of_isChain_cons hchain) (fun entry hentry => by
        refine hlast entry ?_
        cases l with
        | nil => cases hentry
        | cons c l => exact hentry)
      cases hrest with
      | nil => exact List.isChain_singleton _
      | @cons c d l l' hcd hrest =>
        refine List.isChain_cons_cons.mpr ⟨?_,htail⟩
        intro hr
        rw [hab.1,hcd.1]
        exact (List.isChain_cons_cons.mp hchain).1 (hab.2 hr)
  · intro entry hentry hr
    rw [List.getLast?_eq_getElem?] at hentry
    rw [←hsame.length_eq] at hentry
    obtain ⟨hlt,hget⟩ := List.getElem?_eq_some_iff.mp hentry
    have hlt' : l.length-1<l.length := by
      have := hsame.length_eq
      omega
    have hrel := hsame.get hlt' hlt
    have hlast' : l.getLast?=some l[l.length-1] := by
      rw [List.getLast?_eq_getElem?,List.getElem?_eq_getElem hlt']
    have hentry' : l'[l.length-1]=entry := hget
    refine hlast _ hlast' (hrel.2 ?_)
    simpa [hentry'] using hr

theorem Followed.drop (h : Followed merges l) (keeps : ε → Bool) :
    Followed merges (drop keeps l) := by
  refine h.same (List.forall₂_map_right_iff.mpr (List.forall₂_same.mpr fun a _ => ?_))
  split
  · exact ⟨rfl,fun hr => nomatch hr⟩
  · exact ⟨rfl,id⟩

theorem Followed.serve (h : Followed merges l) : Followed merges (serve l) := by
  rcases serve_cases l with ⟨-,hsame⟩ | ⟨before,e,after,hl,-,hserve⟩
  · rw [hsame]
    exact h
  · refine h.same ?_
    rw [hserve,hl]
    refine List.rel_append (List.forall₂_same.mpr fun _ _ => ⟨rfl,id⟩) ?_
    exact .cons ⟨rfl,fun hr => nomatch hr⟩ (List.forall₂_same.mpr fun _ _ => ⟨rfl,id⟩)

end Librairii.FateLedgers
