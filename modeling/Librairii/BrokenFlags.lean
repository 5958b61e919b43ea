import Librairii.QueryCompilation

/-!
# Broken flags and their undo

A change of flags answers with a receipt of the stories it changed. The restore with the
receipt checks every story before it writes any: it brings back the flags as they were, or it
is refused and changes nothing.
-/

namespace Librairii.BrokenFlags

open CheckedResults RowTables StoryRows CanonicalQuery
open SavedQuery (retainFirst)
open QueryCompilation (oneStory)

inductive FlagError where
  | invalidRequest
  | storyUnavailable
  | restoreStale
  /-- A story is not the one that was shown. -/
  | snapshotChanged
  deriving DecidableEq

structure FlagChange where
  storyId : ℤ
  previous : Bool
  current : Bool
  deriving DecidableEq

structure FlagResult where
  requestedStories : ℕ
  changedStories : ℕ
  changes : List FlagChange
  deriving DecidableEq

structure StoryIdentity where
  id : ℤ
  uuid : String
  deriving DecidableEq

/-- The tables that flag commands read. -/
structure FlagTables where
  stories : List Story
  archives : List Archive
  /-- The stories with a removal intent. -/
  removals : List ℤ
  deriving DecidableEq

/-- Each requested story once. -/
def targets (ids : List ℤ) : Except FlagError (List ℤ) :=
  if ids=[] ∨ 1000 < ids.length ∨ (ids.any (· ≤ 0))=true then .error .invalidRequest
  else .ok (retainFirst [] ids)

def validateRestore (changes : List FlagChange) : Except FlagError Unit :=
  if changes=[] ∨ 1000 < changes.length then .error .invalidRequest
  else if (changes.any fun c => c.storyId≤0 || c.previous=c.current) ∨
      ¬(changes.map (·.storyId)).Nodup then .error .invalidRequest
  else .ok ()

def current (t : FlagTables) (id : ℤ) : Except FlagError Bool :=
  match lookup (·.id) id t.stories with
  | some story =>
    if (t.archives.any fun a => a.storyId=id) && id ∉ t.removals then .ok story.isBroken
    else .error .storyUnavailable
  | none => .error .storyUnavailable

/-- The changes that bring the stories to the desired flag. -/
def transitions (t : FlagTables) (broken : Bool) : List ℤ → Except FlagError (List FlagChange)
  | [] => .ok []
  | id::ids => do
    let previous ← current t id
    let changes ← transitions t broken ids
    .ok (if previous≠broken then ⟨id,previous,broken⟩::changes else changes)

def FlagChange.reverse (c : FlagChange) : FlagChange := ⟨c.storyId,c.current,c.previous⟩

/-- The changes that take a receipt back. -/
def reversals (t : FlagTables) : List FlagChange → Except FlagError (List FlagChange)
  | [] => .ok []
  | c::changes => do
    let now ← current t c.storyId
    if now≠c.current then .error .restoreStale
    else do
      let restored ← reversals t changes
      .ok (c.reverse::restored)

def write (t : FlagTables) (c : FlagChange) : FlagTables :=
  { t with
    stories := update (fun s => s.id=c.storyId) (fun s => {s with isBroken := c.current}) t.stories }

def publish (requested : ℕ) (changes : List FlagChange) (t : FlagTables) :
    FlagResult×FlagTables :=
  (⟨requested,changes.length,changes⟩,changes.foldl write t)

def set (ids : List ℤ) (broken : Bool) (t : FlagTables) :
    Except FlagError (FlagResult×FlagTables) := do
  let ids ← targets ids
  let changes ← transitions t broken ids
  .ok (publish ids.length changes t)

def restore (changes : List FlagChange) (t : FlagTables) :
    Except FlagError (FlagResult×FlagTables) := do
  let _ ← validateRestore changes
  let restored ← reversals t changes
  .ok (publish changes.length restored t)

def requireIdentities (t : FlagTables) (identities : List StoryIdentity) :
    Except FlagError Unit :=
  if identities=[] ∨ 1000 < identities.length then .error .snapshotChanged
  else if identities.any fun i => i.id≤0 || i.id ∈ t.removals ||
      !t.stories.any fun s => s.id=i.id && s.uuid=i.uuid then .error .snapshotChanged
  else .ok ()

def setBrokenGuarded (identities : List StoryIdentity) (broken : Bool) (t : FlagTables) :
    Except FlagError (FlagResult×FlagTables) := do
  let _ ← requireIdentities t identities
  set (identities.map (·.id)) broken t

def restoreBrokenGuarded (identities : List StoryIdentity) (changes : List FlagChange)
    (t : FlagTables) : Except FlagError (FlagResult×FlagTables) :=
  if identities.map (·.id)≠changes.map (·.storyId) then .error .invalidRequest
  else do
    let _ ← requireIdentities t identities
    restore changes t

/-- The stories the controller keeps for an undo: those that changed, each once. -/
def undoTargets (changes : List FlagChange) : List ℤ → List StoryIdentity → List StoryIdentity
  | _,[] => []
  | seen,i::identities =>
    if (changes.any fun c => c.storyId=i.id) && i.id ∉ seen then
      i::undoTargets changes (i.id::seen) identities
    else undoTargets changes seen identities

/-- A story with the flag a list of changes gives it. -/
def flagged (changes : List FlagChange) (s : Story) : Story :=
  match lookup (·.storyId) s.id changes with
  | some c => {s with isBroken := c.current}
  | none => s

variable {t t' : FlagTables} {broken : Bool} {ids : List ℤ} {changes : List FlagChange}

theorem publish_flagged (n : ℕ) (h : (changes.map (·.storyId)).Nodup) (t : FlagTables) :
    (publish n changes t).2={t with stories := t.stories.map (flagged changes)} := by
  change changes.foldl write t=_
  induction changes generalizing t with
  | nil =>
    have hid : flagged []=id := rfl
    rw [hid,List.map_id]
    rfl
  | cons c changes ih =>
    obtain ⟨hnew,hrest⟩ := List.nodup_cons.mp h
    rw [List.foldl_cons,ih hrest,write,update]
    dsimp only
    rw [List.map_map]
    congr 1
    refine List.map_congr_left fun s _ => ?_
    rw [Function.comp_apply]
    unfold flagged
    by_cases hs : s.id=c.storyId
    · have hnone : lookup (·.storyId) s.id changes=none :=
        lookup_none.mpr fun row hm he => hnew (List.mem_map.mpr ⟨row,hm,he.trans hs⟩)
      rw [if_pos (decide_eq_true hs)]
      dsimp only
      rw [hnone,lookup,List.find?_cons,decide_eq_true hs.symm]
    · rw [if_neg (by simpa using hs),lookup,lookup,List.find?_cons,
        decide_eq_false (Ne.symm hs)]

/-- The flag of an available story is not the desired one. -/
def differs (t : FlagTables) (broken : Bool) (id : ℤ) : Bool :=
  match current t id with
  | .ok previous => previous≠broken
  | .error _ => false

theorem differs_iff {id : ℤ} : differs t broken id=true ↔ current t id=.ok (!broken) := by
  unfold differs
  cases current t id with
  | error e => simp
  | ok previous => cases previous <;> cases broken <;> simp

theorem transitions_ok (h : transitions t broken ids=.ok changes) :
    changes=(ids.filter (differs t broken)).map fun id => ⟨id,!broken,broken⟩ := by
  induction ids generalizing changes with
  | nil =>
    cases h
    rfl
  | cons id ids ih =>
    rw [transitions] at h
    obtain ⟨previous,hprevious,h⟩ := exceptBind_ok.mp h
    obtain ⟨rest,hrest,h⟩ := exceptBind_ok.mp h
    rw [ih hrest] at h
    by_cases hp : previous=broken
    · have hd : differs t broken id=false := by rw [differs,hprevious,hp]; simp
      rw [if_neg (not_not.mpr hp)] at h
      cases h
      rw [List.filter_cons_of_neg (by rw [hd]; exact Bool.false_ne_true)]
    · have hb : previous = !broken := Bool.eq_not.mpr hp
      have hd : differs t broken id=true := differs_iff.mpr (hb ▸ hprevious)
      rw [if_pos hp,hb] at h
      cases h
      rw [List.filter_cons_of_pos hd,List.map_cons]

theorem reversals_ok {restored : List FlagChange} : reversals t changes=.ok restored ↔
    (∀ c ∈ changes, current t c.storyId=.ok c.current) ∧
      restored=changes.map FlagChange.reverse := by
  induction changes generalizing restored with
  | nil => simp [reversals,eq_comm]
  | cons c changes ih =>
    simp only [reversals,exceptBind_ok,checked_ok,ih,List.forall_mem_cons,List.map_cons,not_not,
      Except.ok.injEq]
    grind

theorem validateRestore_ok : validateRestore changes=.ok () ↔
    (changes≠[] ∧ changes.length≤1000) ∧
      (∀ c ∈ changes, 0<c.storyId ∧ c.previous≠c.current) ∧
      (changes.map (·.storyId)).Nodup := by
  unfold validateRestore
  rw [checked_ok,checked_ok]
  simp

/-- A restore succeeds exactly on a valid receipt of flags that are still recorded. -/
theorem restore_ok {result : FlagResult} : restore changes t=.ok (result,t') ↔
    validateRestore changes=.ok () ∧ (∀ c ∈ changes, current t c.storyId=.ok c.current) ∧
      result=⟨changes.length,changes.length,changes.map FlagChange.reverse⟩ ∧
      t'={t with stories := t.stories.map (flagged (changes.map FlagChange.reverse))} := by
  have hpublish : ∀ n, (changes.map (·.storyId)).Nodup →
      publish n (changes.map FlagChange.reverse) t=
        (⟨n,changes.length,changes.map FlagChange.reverse⟩,
          {t with stories := t.stories.map (flagged (changes.map FlagChange.reverse))}) := by
    intro n hn
    refine Prod.ext ?_ (publish_flagged n (by rwa [List.map_map]) t)
    rw [publish,List.length_map]
  unfold restore
  simp only [exceptBind_ok,reversals_ok,Except.ok.injEq]
  constructor
  · rintro ⟨u,hv,restored,⟨hc,rfl⟩,h⟩
    rw [hpublish _ (validateRestore_ok.mp hv).2.2] at h
    exact ⟨hv,hc,(Prod.mk.inj h).1.symm,(Prod.mk.inj h).2.symm⟩
  · rintro ⟨hv,hc,rfl,rfl⟩
    exact ⟨(),hv,_,⟨hc,rfl⟩,hpublish _ (validateRestore_ok.mp hv).2.2⟩

theorem requireIdentities_ok {identities : List StoryIdentity} :
    requireIdentities t identities=.ok () ↔ (identities≠[] ∧ identities.length≤1000) ∧
      ∀ i ∈ identities, 0 < i.id ∧ i.id ∉ t.removals ∧
        ∃ s ∈ t.stories, s.id=i.id ∧ s.uuid=i.uuid := by
  unfold requireIdentities
  rw [checked_ok,checked_ok]
  simp [and_assoc]

/-- The kept stories are those of the receipt, in its order. -/
theorem undoTargets_ids (seen others : List ℤ) (identities : List StoryIdentity)
    (h : ∀ id, (changes.any fun c => c.storyId=id)=true → (id ∈ seen ↔ id ∈ others)) :
    (undoTargets changes seen identities).map (·.id)=
      (retainFirst others (identities.map (·.id))).filter
        fun id => changes.any fun c => c.storyId=id := by
  induction identities generalizing seen others with
  | nil => rfl
  | cons i identities ih =>
    rw [undoTargets,List.map_cons,retainFirst]
    by_cases hi : (changes.any fun c => c.storyId=i.id)=true
    · have hsame := h i.id hi
      by_cases hseen : i.id ∈ others
      · rw [if_pos hseen,if_neg (by simp [hsame,hseen])]
        exact ih seen others h
      · rw [if_neg hseen,if_pos (by simp [hi,hsame,hseen]),List.map_cons,
          List.filter_cons,if_pos hi,ih (i.id::seen) (i.id::others)]
        intro id hid
        rw [List.mem_cons,List.mem_cons,h id hid]
    · rw [if_neg (by simp [hi])]
      by_cases hseen : i.id ∈ others
      · rw [if_pos hseen]
        exact ih seen others h
      · rw [if_neg hseen,List.filter_cons,if_neg hi]
        refine ih seen (i.id::others) fun id hid => ?_
        rw [h id hid,List.mem_cons]
        exact ⟨.inr,fun hm => hm.resolve_left fun he => hi (he ▸ hid)⟩

theorem undoTargets_mem {seen : List ℤ} {identities : List StoryIdentity} {i : StoryIdentity}
    (h : i ∈ undoTargets changes seen identities) : i ∈ identities := by
  induction identities generalizing seen with
  | nil => exact h
  | cons first identities ih =>
    rw [undoTargets] at h
    split at h
    · obtain rfl | h := List.mem_cons.mp h
      · exact List.mem_cons_self
      · exact List.mem_cons_of_mem _ (ih h)
    · exact List.mem_cons_of_mem _ (ih h)

theorem flagged_same (changes : List FlagChange) (s : Story) :
    (flagged changes s).id=s.id ∧ (flagged changes s).uuid=s.uuid := by
  unfold flagged
  split <;> exact ⟨rfl,rfl⟩

/-- Changes to one flag give it to the stories they list. -/
theorem flagged_all {b : Bool} (h : ∀ c ∈ changes, c.current=b) (s : Story) :
    flagged changes s=
      if s.id ∈ changes.map (·.storyId) then {s with isBroken := b} else s := by
  unfold flagged
  cases hc : lookup (·.storyId) s.id changes with
  | none =>
    rw [if_neg]
    rintro hm
    obtain ⟨c,hm,he⟩ := List.mem_map.mp hm
    exact lookup_none.mp hc c hm he
  | some c =>
    obtain ⟨hm,he⟩ := lookup_mem hc
    rw [if_pos (List.mem_map.mpr ⟨c,hm,he⟩),←h c hm]

/-- An available story has the flag that the changes give it. -/
theorem current_flagged {id : ℤ} {b : Bool} (h : current t id=.ok b) :
    ∃ s, lookup (·.id) id t.stories=some s ∧ s.isBroken=b ∧
      current {t with stories := t.stories.map (flagged changes)} id=
        .ok (flagged changes s).isBroken := by
  unfold current at h ⊢
  cases hs : lookup (·.id) id t.stories with
  | none =>
    rw [hs] at h
    cases h
  | some s =>
    rw [hs] at h
    have hlookup : lookup (·.id) id (t.stories.map (flagged changes))=
        some (flagged changes s) := by
      have hid : (fun s => decide (s.id=id)) ∘ flagged changes=fun s => decide (s.id=id) := by
        funext s
        rw [Function.comp_apply,(flagged_same changes s).1]
      rw [lookup,List.find?_map,hid,←lookup,hs]
      rfl
    dsimp only at h ⊢
    rw [hlookup]
    split at h
    · next hc =>
      exact ⟨s,rfl,Except.ok.inj h,if_pos hc⟩
    · cases h

/-- What the receipt of a change lists: every story whose flag changed, once. -/
structure Receipt (t : FlagTables) (broken : Bool) (ids : List ℤ) (changes : List FlagChange) :
    Prop where
  listed : changes.map (·.storyId)=(retainFirst [] ids).filter (differs t broken)
  flags : ∀ c ∈ changes, c.previous = !broken ∧ c.current=broken

namespace Receipt

variable (h : Receipt t broken ids changes)
include h

theorem nodup : (changes.map (·.storyId)).Nodup := by
  rw [h.listed]
  exact (retainFirst_nodup _ _).filter _

theorem mem (id : ℤ) : id ∈ changes.map (·.storyId) ↔ id ∈ ids ∧ current t id=.ok (!broken) := by
  rw [h.listed,List.mem_filter,differs_iff,mem_retainFirst]
  simp only [List.not_mem_nil,not_false_eq_true,and_true]

theorem sets : flagged changes=fun s =>
    if s.id ∈ changes.map (·.storyId) then {s with isBroken := broken} else s :=
  funext (flagged_all fun c hc => (h.flags c hc).2)

theorem resets : flagged (changes.map FlagChange.reverse)=fun s =>
    if s.id ∈ changes.map (·.storyId) then {s with isBroken := !broken} else s := by
  have hreverse : (changes.map FlagChange.reverse).map (·.storyId)=
      changes.map (·.storyId) := by
    rw [List.map_map]
    rfl
  rw [←hreverse]
  exact funext (flagged_all (List.forall_mem_map.mpr fun c hc => (h.flags c hc).1))

/-- The changes and their reversal leave every row. -/
theorem rows (hk : (t.stories.map (·.id)).Nodup) : (t.stories.map (flagged changes)).map
    (flagged (changes.map FlagChange.reverse))=t.stories := by
  rw [List.map_map]
  refine (List.map_congr_left fun s hs => ?_).trans (List.map_id _)
  rw [Function.comp_apply,h.resets]
  dsimp only
  rw [(flagged_same _ _).1,h.sets]
  by_cases hm : s.id ∈ changes.map (·.storyId)
  · obtain ⟨found,hfound,hb,-⟩ := @current_flagged t changes _ _ ((h.mem s.id).mp hm).2
    rw [lookup_of_mem hk hs] at hfound
    simp only [if_pos hm,←hb,←Option.some.inj hfound]
    rfl
  · simp only [if_neg hm,id_eq]

/-- Afterwards every story has the flag the receipt recorded. -/
theorem recorded : ∀ c ∈ changes,
    current {t with stories := t.stories.map (flagged changes)} c.storyId=.ok c.current := by
  intro c hc
  have hin : c.storyId ∈ changes.map (·.storyId) := List.mem_map_of_mem hc
  obtain ⟨s,hs,-,hnow⟩ := current_flagged ((h.mem _).mp hin).2
  rw [hnow,h.sets,(h.flags c hc).2]
  dsimp only
  rw [if_pos ((lookup_mem hs).2 ▸ hin)]

/-- The stories the controller keeps are paired with the receipt. -/
theorem paired {identities : List StoryIdentity} (hids : ids=identities.map (·.id)) :
    (undoTargets changes [] identities).map (·.id)=changes.map (·.storyId) := by
  rw [undoTargets_ids [] [] identities fun _ _ => .rfl,←hids,h.listed]
  refine List.filter_congr fun id hid => ?_
  rw [Bool.eq_iff_iff,differs_iff,List.any_eq_true]
  constructor
  · rintro ⟨c,hc,he⟩
    exact ((h.mem id).mp (List.mem_map.mpr ⟨c,hc,of_decide_eq_true he⟩)).2
  · intro hd
    obtain ⟨c,hc,he⟩ := List.mem_map.mp ((h.mem id).mpr ⟨((mem_retainFirst _ _ _).mp hid).1,hd⟩)
    exact ⟨c,hc,decide_eq_true he⟩

end Receipt

theorem set_ok {result : FlagResult} (h : set ids broken t=.ok (result,t')) :
    (∀ id ∈ ids, 0 < id) ∧ Receipt t broken ids result.changes ∧
      t'={t with stories := t.stories.map (flagged result.changes)} := by
  unfold set at h
  obtain ⟨kept,hkept,h⟩ := exceptBind_ok.mp h
  obtain ⟨changes,hchanges,h⟩ := exceptBind_ok.mp h
  obtain ⟨hlimits,hkept⟩ := checked_ok.mp hkept
  obtain rfl := Except.ok.inj hkept
  obtain ⟨rfl,rfl⟩ := Prod.mk.inj (Except.ok.inj h)
  have hreceipt : Receipt t broken ids changes := by
    rw [transitions_ok hchanges]
    refine ⟨?_,List.forall_mem_map.mpr fun _ _ => ⟨rfl,rfl⟩⟩
    rw [List.map_map]
    exact List.map_id _
  refine ⟨fun id hid => ?_,hreceipt,publish_flagged 0 hreceipt.nodup t⟩
  by_contra hle
  exact hlimits (.inr (.inr (List.any_eq_true.mpr ⟨id,hid,decide_eq_true (not_lt.mp hle)⟩)))

/-- Guarded changes of flags have an exact undo. The receipt lists every story whose flag changed
once, and only these flags change. The undo with the stories the controller keeps brings every
row back. On any later tables a guarded restore that succeeds found every story of the receipt
with the flag the receipt recorded, and gives these stories their former flag only. -/
theorem flags_undone {identities : List StoryIdentity} {result : FlagResult}
    (hk : (t.stories.map (·.id)).Nodup)
    (h : setBrokenGuarded identities broken t=.ok (result,t')) :
    let changed := result.changes.map (·.storyId)
    (changed.Nodup ∧ ∀ id, id ∈ changed ↔
      id ∈ identities.map (·.id) ∧ current t id=.ok (!broken)) ∧
    t'={t with stories := t.stories.map fun s =>
      if s.id ∈ changed then {s with isBroken := broken} else s} ∧
    (changed≠[] → ∃ again,
      restoreBrokenGuarded (undoTargets result.changes [] identities) result.changes t'=
        .ok (again,t)) ∧
    ∀ kept later again after, restoreBrokenGuarded kept result.changes later=.ok (again,after) →
      (∀ id ∈ changed, current later id=.ok broken) ∧
      after={later with stories := later.stories.map fun s =>
        if s.id ∈ changed then {s with isBroken := !broken} else s} := by
  obtain ⟨u,hidentities,h⟩ := exceptBind_ok.mp h
  obtain ⟨hpositive,hreceipt,ht⟩ := set_ok h
  obtain ⟨⟨-,hmany⟩,hvalid⟩ := requireIdentities_ok.mp hidentities
  refine ⟨⟨hreceipt.nodup,hreceipt.mem⟩,hreceipt.sets ▸ ht,fun hne => ?_,
    fun kept later again after hr => ?_⟩
  · have hpaired := hreceipt.paired rfl
    have hlength := congrArg List.length hpaired
    have hshort := (hreceipt.nodup.subperm fun id hid => ((hreceipt.mem id).mp hid).1).length_le
    rw [List.length_map,List.length_map] at hlength hshort
    have hsome : result.changes≠[] := fun he => hne (by rw [he]; rfl)
    have hkept : requireIdentities t' (undoTargets result.changes [] identities)=.ok () := by
      refine requireIdentities_ok.mpr ⟨⟨fun he => ?_,by omega⟩,fun i hi => ?_⟩
      · rw [he] at hlength
        exact hsome (List.length_eq_zero_iff.mp hlength.symm)
      · obtain ⟨hi,hstays,s,hs,hid,huuid⟩ := hvalid i (undoTargets_mem hi)
        obtain ⟨hid',huuid'⟩ := flagged_same result.changes s
        rw [ht]
        exact ⟨hi,hstays,_,List.mem_map_of_mem hs,hid'.trans hid,huuid'.trans huuid⟩
    have hvalidated : validateRestore result.changes=.ok () := by
      refine validateRestore_ok.mpr ⟨⟨hsome,by omega⟩,fun c hc => ⟨?_,?_⟩,hreceipt.nodup⟩
      · exact hpositive _ ((hreceipt.mem _).mp (List.mem_map_of_mem hc)).1
      · rw [(hreceipt.flags c hc).1,(hreceipt.flags c hc).2]
        exact Bool.not_ne_self broken
    have hrows : t={t' with
        stories := t'.stories.map (flagged (result.changes.map FlagChange.reverse))} := by
      rw [ht,hreceipt.rows hk]
    have hrestored := restore_ok.mpr ⟨hvalidated,ht ▸ hreceipt.recorded,rfl,hrows⟩
    exact ⟨_,(if_neg (not_not.mpr hpaired)).trans ((bind_of_ok hkept).trans hrestored)⟩
  · obtain ⟨-,hr⟩ := checked_ok.mp hr
    obtain ⟨-,-,hr⟩ := exceptBind_ok.mp hr
    obtain ⟨-,hc,-,rfl⟩ := restore_ok.mp hr
    refine ⟨List.forall_mem_map.mpr fun c hm => (hreceipt.flags c hm).2 ▸ hc c hm,?_⟩
    rw [hreceipt.resets]

def oneFlag (broken : Bool) : FlagTables :=
  ⟨oneStory.stories.map fun s => {s with isBroken := broken},oneStory.archives,[]⟩

def shownStory : StoryIdentity := ⟨1,"00000000-0000-0000-0000-000000000001"⟩

/-- The flag of a story that was selected twice is taken back. -/
theorem flags_undone_one : ∃ again,
    restoreBrokenGuarded (undoTargets [⟨1,false,true⟩] [] [shownStory,shownStory])
      [⟨1,false,true⟩] (oneFlag true)=.ok (again,oneFlag false) :=
  (@flags_undone (oneFlag false) (oneFlag true) true [shownStory,shownStory]
    ⟨1,1,[⟨1,false,true⟩]⟩ (by decide) rfl).2.2.1 (by decide)

end Librairii.BrokenFlags
