import Mathlib

/-!
# Entries in the order of their last use

A bounded store keeps its entries in the order of their last use. An entry that is used moves to
the end. A new entry replaces one of its key, and old entries leave from the front until it fits
the bounds on their number and on their total size. The total is kept by hand; subtracting more
from it than it holds is a fault.
-/

namespace Librairii.RecentEntries

/-- A subtraction that must not underflow. -/
def less (a b : ℕ) : Option ℕ := if b≤a then some (a-b) else none

/-- A subtraction within the minuend succeeds. -/
theorem less_add (a b : ℕ) : less (a+b) b=some a := by
  rw [less,if_pos (Nat.le_add_left b a),Nat.add_sub_cancel]

section Store

variable {κ ν : Type} [DecidableEq κ]

/-- The value of a key, and the entries without it. -/
def takeOut (key : κ) : List (κ×ν) → Option (ν×List (κ×ν))
  | [] => none
  | entry::rest =>
    if entry.1=key then some (entry.2,rest)
    else (takeOut key rest).map fun found => (found.1,entry::found.2)

/-- Use the entry of a key. -/
def touch (key : κ) (entries : List (κ×ν)) : Option (ν×List (κ×ν)) :=
  (takeOut key entries).map fun found => (found.1,found.2++[(key,found.1)])

variable (size : ν → ℕ) (maxEntries maxBytes : ℕ)

def total (entries : List (κ×ν)) : ℕ := (entries.map fun entry => size entry.2).sum

/-- Entries with their total size as it is kept. -/
structure Kept (κ ν : Type) where
  /-- The entries, in the order of their last use. -/
  entries : List (κ×ν)
  /-- The total size. -/
  bytes : ℕ

/-- Remove entries from the front until one of a size fits. -/
def evict (incoming : ℕ) : List (κ×ν) → ℕ → Option (Kept κ ν)
  | [],bytes => some ⟨[],bytes⟩
  | entry::rest,bytes =>
    if maxEntries≤(entry::rest).length ∨ maxBytes<bytes+incoming then do
      let bytes ← less bytes (size entry.2)
      evict incoming rest bytes
    else some ⟨entry::rest,bytes⟩

/-- Remove the entry of a key. -/
def discard (key : κ) (kept : Kept κ ν) : Option (Kept κ ν) :=
  match takeOut key kept.entries with
  | none => some kept
  | some (old,rest) => (less kept.bytes (size old)).map fun bytes => ⟨rest,bytes⟩

/-- Store a value under a key. -/
def insert (key : κ) (value : ν) (kept : Kept κ ν) : Option (Kept κ ν) := do
  let kept ← discard size key kept
  let kept ← evict size maxEntries maxBytes (size value) kept.entries kept.bytes
  some ⟨kept.entries++[(key,value)],kept.bytes+size value⟩

/-- Entries within their bounds. -/
structure Sound (kept : Kept κ ν) : Prop where
  distinct : (kept.entries.map Prod.fst).Nodup
  exact : kept.bytes=total size kept.entries
  /-- Their number is bounded. -/
  count : kept.entries.length ≤ maxEntries
  /-- Their total is bounded. -/
  bytes : kept.bytes ≤ maxBytes

def others (key : κ) (entries : List (κ×ν)) : List (κ×ν) :=
  entries.filter fun entry => entry.1≠key

section Totals

omit [DecidableEq κ]

/-- Nothing is within every bound. -/
theorem sound_empty : Sound size maxEntries maxBytes (⟨[],0⟩ : Kept κ ν) :=
  ⟨List.nodup_nil,rfl,Nat.zero_le _,Nat.zero_le _⟩

theorem total_append (a b : List (κ×ν)) : total size (a++b)=total size a+total size b := by
  rw [total,List.map_append,List.sum_append]
  rfl

theorem total_cons (entry : κ×ν) (rest : List (κ×ν)) :
    total size (entry::rest)=size entry.2+total size rest := List.sum_cons

end Totals

variable {size maxEntries maxBytes}

theorem takeOut_none {key : κ} {entries : List (κ×ν)} (h : takeOut key entries=none) :
    key ∉ entries.map Prod.fst := by
  induction entries with
  | nil => exact List.not_mem_nil
  | cons entry rest ih =>
    rw [takeOut] at h
    by_cases hkey : entry.1=key
    · rw [if_pos hkey] at h
      cases h
    · rw [if_neg hkey] at h
      rw [List.map_cons,List.mem_cons,not_or]
      exact ⟨fun he => hkey he.symm,ih (Option.map_eq_none_iff.mp h)⟩

theorem takeOut_some {key : κ} {entries : List (κ×ν)} {value : ν} {rest : List (κ×ν)}
    (h : takeOut key entries=some (value,rest)) :
    ∃ before after, entries=before++(key,value)::after ∧ rest=before++after := by
  induction entries generalizing rest with
  | nil => cases h
  | cons entry entries ih =>
    rw [takeOut] at h
    by_cases hkey : entry.1=key
    · rw [if_pos hkey] at h
      cases h
      exact ⟨[],entries,by rw [List.nil_append,←hkey],rfl⟩
    · rw [if_neg hkey] at h
      obtain ⟨⟨found,left⟩,hfound,he⟩ := Option.map_eq_some_iff.mp h
      cases he
      obtain ⟨before,after,hentries,hleft⟩ := ih hfound
      exact ⟨entry::before,after,by rw [hentries,List.cons_append],
        congrArg (List.cons entry) hleft⟩

theorem others_absent {key : κ} {entries : List (κ×ν)} (h : key ∉ entries.map Prod.fst) :
    others key entries=entries := by
  rw [others,List.filter_eq_self]
  intro entry hm
  exact decide_eq_true fun he => h (he ▸ List.mem_map_of_mem hm)

/-- The entries of other keys around an entry. -/
theorem others_split {key : κ} {value : ν} {before after : List (κ×ν)}
    (h : ((before++(key,value)::after).map Prod.fst).Nodup) :
    others key (before++(key,value)::after)=before++after := by
  rw [List.map_append,List.map_cons,List.nodup_middle,List.nodup_cons,←List.map_append] at h
  have hrest := others_absent h.1
  rw [others,List.filter_append] at hrest
  rw [others,List.filter_append,List.filter_cons_of_neg (by simp)]
  exact hrest

theorem key_others (key : κ) (entries : List (κ×ν)) : key ∉ (others key entries).map Prod.fst := by
  intro hm
  obtain ⟨entry,hentry,he⟩ := List.mem_map.mp hm
  exact of_decide_eq_true (List.mem_filter.mp hentry).2 he

theorem keys_others (key : κ) (entries : List (κ×ν)) :
    (others key entries).map Prod.fst=(entries.map Prod.fst).filter (·≠key) := by
  rw [List.filter_map]
  rfl

variable (size) in
theorem takeOut_others {key : κ} {entries : List (κ×ν)} {value : ν} {rest : List (κ×ν)}
    (hd : (entries.map Prod.fst).Nodup) (h : takeOut key entries=some (value,rest)) :
    rest=others key entries ∧ (key,value) ∈ entries ∧
      total size entries=total size rest+size value := by
  obtain ⟨before,after,hentries,hrest⟩ := takeOut_some h
  rw [hentries] at hd
  rw [hentries,hrest,others_split hd,total_append,total_append,total_cons]
  refine ⟨rfl,List.mem_append_right _ List.mem_cons_self,?_⟩
  change _+(size value+_)=_
  omega

omit [DecidableEq κ] in
theorem nodup_last {keys : List κ} {key : κ} (hd : keys.Nodup) (hout : key ∉ keys) :
    (keys++[key]).Nodup := by
  rw [List.nodup_append_comm,List.singleton_append,List.nodup_cons]
  exact ⟨hout,hd⟩

/-- An entry that is used becomes the most recent, and nothing else changes. -/
theorem touch_some {kept : Kept κ ν} (hs : Sound size maxEntries maxBytes kept) {key : κ}
    {value : ν} {used : List (κ×ν)} (h : touch key kept.entries=some (value,used)) :
    used=others key kept.entries++[(key,value)] ∧ (key,value) ∈ kept.entries ∧
      Sound size maxEntries maxBytes ⟨used,kept.bytes⟩ := by
  obtain ⟨⟨found,rest⟩,hfound,he⟩ := Option.map_eq_some_iff.mp h
  cases he
  obtain ⟨hrest,hm,htotal⟩ := takeOut_others size hs.distinct hfound
  obtain ⟨before,after,hentries,hsplit⟩ := takeOut_some hfound
  have hcount := hs.count
  refine ⟨by rw [hrest],hm,?_,?_,?_,hs.bytes⟩
  · rw [hrest,List.map_append]
    refine nodup_last ?_ (key_others _ _)
    rw [keys_others]
    exact hs.distinct.filter _
  · change kept.bytes=_
    rw [hs.exact,htotal,total_append,total_cons]
    rfl
  · change (rest++[(key,found)]).length ≤ maxEntries
    rw [hentries] at hcount
    rw [hsplit]
    simp only [List.length_append,List.length_cons,List.length_nil] at hcount ⊢
    omega

omit [DecidableEq κ] in
/-- Eviction does not underflow: it removes a front of the entries, what is left fits, and
nothing leaves needlessly. -/
theorem evict_some {incoming : ℕ} (hentries : 0 < maxEntries) (hbytes : incoming ≤ maxBytes)
    (entries : List (κ×ν)) :
    ∃ gone left, entries=gone++left ∧ left.length < maxEntries ∧
      total size left+incoming ≤ maxBytes ∧
      evict size maxEntries maxBytes incoming entries (total size entries)=
        some ⟨left,total size left⟩ ∧
      ∀ last, last≠[] → last <:+ gone →
        maxEntries≤(last++left).length ∨ maxBytes<total size (last++left)+incoming := by
  induction entries with
  | nil =>
    refine ⟨[],[],rfl,hentries,?_,rfl,?_⟩
    · rw [total,List.map_nil,List.sum_nil,Nat.zero_add]
      exact hbytes
    · exact fun last hne hsuffix => absurd (List.suffix_nil.mp hsuffix) hne
  | cons entry rest ih =>
    by_cases hfull : maxEntries≤(entry::rest).length ∨
        maxBytes<total size (entry::rest)+incoming
    · obtain ⟨gone,left,hrest,hlength,hsize,hevict,hneeded⟩ := ih
      refine ⟨entry::gone,left,by rw [hrest,List.cons_append],hlength,hsize,?_,?_⟩
      · have hless : less (total size (entry::rest)) (size entry.2)=some (total size rest) := by
          rw [total_cons,Nat.add_comm,less_add]
        rw [evict,if_pos hfull,hless]
        exact hevict
      · intro last hne hsuffix
        rw [List.suffix_cons_iff] at hsuffix
        cases hsuffix with
        | inl hall =>
          rw [hall,List.cons_append,←hrest]
          exact hfull
        | inr hlater => exact hneeded last hne hlater
    · have hroom : (entry::rest).length < maxEntries ∧
          total size (entry::rest)+incoming ≤ maxBytes := by omega
      refine ⟨[],entry::rest,rfl,hroom.1,hroom.2,?_,?_⟩
      · rw [evict,if_neg hfull]
      · exact fun last hne hsuffix => absurd (List.suffix_nil.mp hsuffix) hne

/-- Removing the entry of a key does not underflow and leaves the entries of other keys. -/
theorem discard_some {kept : Kept κ ν} (hs : Sound size maxEntries maxBytes kept) (key : κ) :
    discard size key kept=
      some ⟨others key kept.entries,total size (others key kept.entries)⟩ := by
  rw [discard]
  cases htake : takeOut key kept.entries with
  | none =>
    rw [others_absent (takeOut_none htake),←hs.exact]
  | some found =>
    obtain ⟨old,rest⟩ := found
    obtain ⟨hrest,_,htotal⟩ := takeOut_others size hs.distinct htake
    simp only [hs.exact,htotal,less_add,Option.map_some,hrest]

/-- Storing does not underflow and keeps the bounds: the entry of the key is replaced, a front of
the others leaves, no more than needed, and the new entry is the most recent. -/
theorem insert_some {kept : Kept κ ν} (hs : Sound size maxEntries maxBytes kept) (key : κ)
    {value : ν} (hentries : 0 < maxEntries) (hbytes : size value ≤ maxBytes) :
    ∃ gone left after, insert size maxEntries maxBytes key value kept=some after ∧
      Sound size maxEntries maxBytes after ∧ others key kept.entries=gone++left ∧
      after.entries=left++[(key,value)] ∧
      ∀ last, last≠[] → last <:+ gone →
        maxEntries≤(last++left).length ∨ maxBytes<total size (last++left)+size value := by
  obtain ⟨gone,left,hrest,hlength,hsize,hevict,hneeded⟩ :=
    evict_some hentries hbytes (others key kept.entries)
  refine ⟨gone,left,⟨left++[(key,value)],total size left+size value⟩,?_,?_,hrest,rfl,hneeded⟩
  · rw [insert,discard_some hs]
    change (evict size maxEntries maxBytes (size value) (others key kept.entries)
      (total size (others key kept.entries))).bind _=_
    rw [hevict]
    rfl
  · have hout := key_others key kept.entries
    have hkeys : ((others key kept.entries).map Prod.fst).Nodup := by
      rw [keys_others]
      exact hs.distinct.filter _
    rw [hrest,List.map_append] at hout hkeys
    refine ⟨?_,?_,?_,hsize⟩
    · rw [List.map_append]
      exact nodup_last (List.nodup_append.mp hkeys).2.1 fun hm =>
        hout (List.mem_append_right _ hm)
    · rw [total_append,total_cons]
      rfl
    · rw [List.length_append,List.length_singleton]
      omega

theorem dedup_use (uses : List κ) (key : κ) :
    (uses++[key]).dedup=uses.dedup.filter (·≠key)++[key] := by
  induction uses with
  | nil => rfl
  | cons first uses ih =>
    rw [List.cons_append]
    by_cases hm : first ∈ uses
    · rw [List.dedup_cons_of_mem (List.mem_append_left _ hm),List.dedup_cons_of_mem hm,ih]
    · rw [List.dedup_cons_of_notMem hm]
      by_cases hkey : first=key
      · rw [List.dedup_cons_of_mem (by simp [hkey]),ih,List.filter_cons_of_neg (by simp [hkey])]
      · rw [List.dedup_cons_of_notMem (by simp [hm,hkey]),ih,
          List.filter_cons_of_pos (by simp [hkey]),List.cons_append]

/-- Entries that are the last used ones stay so when one is used or stored. -/
theorem recent_use {entries left gone : List (κ×ν)} {uses : List κ} {key : κ} {value : ν}
    (h : entries.map Prod.fst <:+ uses.dedup) (hleft : others key entries=gone++left) :
    (left++[(key,value)]).map Prod.fst <:+ (uses++[key]).dedup := by
  obtain ⟨older,holder⟩ := h
  have hkeys := congrArg (List.map Prod.fst) hleft
  rw [keys_others,List.map_append] at hkeys
  rw [dedup_use,←holder,List.filter_append,hkeys,List.map_append]
  exact ⟨older.filter (·≠key)++gone.map Prod.fst,by
    simp only [List.append_assoc,List.map_cons,List.map_nil]⟩

end Store

end Librairii.RecentEntries
