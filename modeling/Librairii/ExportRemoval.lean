import Librairii.ExportRuns
import Librairii.PolicyRefinement
import Librairii.RunConditions

/-!
# Removing stories while an export runs

A completion names the story the item was created for in a column that refers to the stored
stories, and its readback compares that column, which a removal clears. Removing the story of
an item before its completion is settled therefore fails the completion and interrupts the
whole operation. While only other stories are removed, every item is recorded as it was
reported.
-/

namespace Librairii.ExportRemoval

open StorageTransactions RowTables OperationRows OperationPolicy OperationReporting
  OperationAccounting StoryRows StoryPages ExportPlans CompletionOutcomes ExportRuns
open OperationStore hiding Event step run
open OperationTransitions (completedItem)
open PolicyRefinement (Coherent updateItems_checked)

def storedReference (story : ℤ) : Option ℤ := if story=0 then none else some story

/-- The story of a completion is stored, or the completion names none. -/
def Live (l : Library) (story : ℤ) : Prop := ∀ id, storedReference story=some id → id ∈ l.stories

/-- The story the completion of a stored item will name, while the item is not settled. -/
def named (found : Option OperationItem) : ItemPhase → Option ℤ
  | .waiting => found.bind fun row =>
      if row.state.isTerminal then none else row.identity.resolvedStoryId.bind storedReference
  | .fetched work | .executing work _ => storedReference (historicalStoryId work.item.identity)
  | .reporting r =>
    match r.command,r.phase with
    | .completeItem c,.persisting _ _ _ => c.storedStoryId
    | _,_ => none

/-- Only stories that no unsettled item of the export names are removed. -/
def Careful (e : Export) (s : System) : Event → Prop
  | .remove story => ∀ item, named (itemOf s.rows e.id item) (s.items item)≠some story
  | _ => True

/-- A fetched item is the stored unfinished one, under a stored story. -/
def WorkSound (scope : OperationScope) (l : Library) (found : Option OperationItem)
    (work : WorkItem) : Prop :=
  work.operation=scope ∧ Live l (historicalStoryId work.item.identity) ∧
    0≤work.item.progress.completed ∧
    work.item.progress.completed≤work.item.progress.total ∧
    ∃ row, found=some row ∧ row.immutableScope=work.item.immutableScope ∧
      row.state.isTerminal=false

/-- A report is unresolved over an unfinished row or its own record, or it has returned. -/
def ReportSound (l : Library) (c : CompleteItemCommand) (row : OperationItem) (r : Reported) :
    Prop :=
  match r.phase with
  | .persisting _ writes reads => Live l c.storyId ∧ writes+reads≤r.faults ∧
      (row.state.isTerminal=false ∨ Recorded c row ∧ row.identity.storyId=c.storedStoryId)
  | .returned header => header=none ∧ Recorded c row
  | .reconciling _ _ => False

def ItemSound (e : Export) (scope : OperationScope) (l : Library)
    (found : Option OperationItem) : ItemPhase → Prop
  | .waiting => ∀ row, found=some row → row.state.isTerminal=false →
      ∀ story, row.identity.resolvedStoryId=some story → Live l story
  | .fetched work | .executing work _ => WorkSound scope l found work
  | .reporting r => ∃ c row, r.command=.completeItem c ∧ found=some row ∧ c.operation=scope ∧
      row.immutableScope=c.item ∧ refusal e.generation r.command=none ∧ ReportSound l c row r

/-- What holds of a stored item: its live reference is stored, and while it is unfinished it
has the size of its approved story. -/
def RowSound (e : Export) (l : Library) (row : OperationItem) : Prop :=
  (∀ story, row.identity.storyId=some story → story ∈ l.stories) ∧
    (row.state.isTerminal=false → ∀ story,
      plannedStory e.plan row.identity.storyUuid=some story → story.byteSize=row.progress.total)

/-- What holds of the operation before and while its finish is reported. -/
def FinishSound (e : Export) (scope : OperationScope) (o : OperationHeader) :
    Option Reported → Prop
  | none => isTerminal o.state=false
  | some r => o.counts.completed=o.counts.total ∧ o.state≠.interrupted ∧
      ∃ c, r.command=.finish c ∧ c.operation=scope ∧ refusal e.generation r.command=none ∧
        match r.phase with
        | .persisting _ writes reads => writes+reads≤r.faults ∧
            (isTerminal o.state=false ∨ o.state=c.state ∧ o.outcome=c.storedOutcome ∧
              o.identity.finishedAt=some c.finishedAt)
        | .returned header => header=none
        | .reconciling _ _ => False

/-- What holds of a calm export that no removal has disturbed. -/
structure Sound (e : Export) (scope : OperationScope) (s : System) : Prop where
  accounted : Accounted s.rows
  schema : SchemaValid (e.schema s.library) s.rows
  operation : ∃ o, lookup (·.identity.id) e.id s.rows.operations=some o ∧
    o.immutableScope=scope ∧ FinishSound e scope o s.finishing
  items : ∀ item, ItemSound e scope s.library (itemOf s.rows e.id item) (s.items item)
  /-- Every stored item of the operation is sound. -/
  rows : ∀ item row, itemOf s.rows e.id item=some row → RowSound e s.library row
  /-- No item is in flight once the finish is reported. -/
  idle : s.finishing≠none → ∀ item, (s.items item).inFlight=false

theorem itemOf_some {d : Database} {id : String} {item : ℤ} {row : OperationItem}
    (h : itemOf d id item=some row) :
    row ∈ itemsOf d id ∧ row ∈ d.items ∧ row.operationId=id ∧ row.identity.id=item := by
  obtain ⟨hm,hid⟩ := lookup_mem h
  obtain ⟨hd,ho⟩ := List.mem_filter.mp hm
  exact ⟨hm,hd,of_decide_eq_true ho,hid⟩

theorem itemOf_update {d d' : Database} {p : OperationItem → Bool}
    {f : OperationItem → OperationItem} (hi : d'.items=update p f d.items)
    (hf : ∀ row, (f row).identity.id=row.identity.id ∧ (f row).operationId=row.operationId)
    (id : String) (item : ℤ) :
    itemOf d' id item=(itemOf d id item).map fun row => if p row=true then f row else row := by
  rw [itemOf,itemsOf_update hi fun row => (hf row).2,lookup_update fun row => (hf row).1,itemOf]

def Within (env : SchemaEnv) (d d' : Database) : Prop := SchemaValid env d → SchemaValid env d'

theorem respected_within (env : SchemaEnv) : Respected env (Within env) where
  refl _ h := h
  trans _ _ _ h h' ha := h' (h ha)
  operations {p f} hf _ := by
    intro d n d' h hd
    have hchecked : ∀ row ∈ d.operations, p row=true → operationChecks env (f row)=true := by
      unfold updateOperations StateT.run at h
      dsimp only at h
      split at h
      · next hall =>
        intro row hm hp
        have hrow := List.all_eq_true.mp hall row hm
        rw [hp] at hrow
        simp only [Bool.not_true,Bool.false_or,Bool.and_eq_true] at hrow
        exact hrow.2
      · cases h
    obtain ⟨-,rfl⟩ := updateOperations_ok h
    refine ⟨?_,?_,hd.items⟩
    · change ((update p f d.operations).map _).Nodup
      rw [update_keys fun row => congrArg (fun s : OperationScope => s.identity.id) (hf row)]
      exact hd.keys
    · intro row hm
      rcases mem_update.mp hm with ⟨hold,-⟩ | ⟨old,hold,hp,rfl⟩
      · exact hd.operations row hold
      · exact hchecked old hold hp
  items {p f} _ _ := by
    intro d n d' h hd
    have hchecked : ∀ old ∈ d.items, p old=true → itemChecks (f old)=true :=
      fun old hm hp => (updateItems_checked h hm hp).1
    obtain ⟨-,rfl⟩ := updateItems_ok h
    refine ⟨hd.keys,hd.operations,?_⟩
    intro row hm
    rcases mem_update.mp hm with ⟨hold,-⟩ | ⟨old,hold,hp,rfl⟩
    · exact hd.items row hold
    · exact hchecked old hold hp

section Inspection

variable {e : Export} {scope : OperationScope} {s : System} {o : OperationHeader}

theorem Sound.coherent (h : Sound e scope s)
    (ho : lookup (·.identity.id) e.id s.rows.operations=some o) :
    Coherent (e.schema s.library) s.rows o ∧ o.identity.id=e.id := by
  obtain ⟨hm,hid⟩ := lookup_mem ho
  exact ⟨⟨h.schema,h.accounted.itemKeys,hm,h.accounted.counts o hm⟩,hid⟩

/-- What inspection shows of a completion: nothing is applied over an unfinished row, and its
own record is recognised. -/
theorem Sound.inspected (h : Sound e scope s)
    (ho : lookup (·.identity.id) e.id s.rows.operations=some o) (hscope : o.immutableScope=scope)
    (hactive : isTerminal o.state=false) {c : CompleteItemCommand} {item : ℤ} {row : OperationItem}
    (hrow : itemOf s.rows e.id item=some row) (hop : c.operation=scope)
    (hitem : row.immutableScope=c.item) (hterminal : c.state.isTerminal=true) :
    (row.state.isTerminal=false →
      ∃ view, storedInspection s.rows (.completeItem c)=.unapplied view) ∧
    (Recorded c row → row.identity.storyId=c.storedStoryId →
      ∃ view, storedInspection s.rows (.completeItem c)=.matching view) := by
  obtain ⟨hc,hid⟩ := h.coherent ho
  have hitemId : c.item.id=item := by
    rw [←hitem]
    exact (itemOf_some hrow).2.2.2
  have hopId : c.operation.identity.id=e.id := by
    rw [hop,←hscope]
    exact hid
  have hview : storedView s.rows (.completeItem c)=
      some ⟨o,some row,siblingCounts s.rows o.identity.id⟩ := by
    simp only [storedView,OperationPolicy.scope,itemId,hopId,ho,Option.map_some,
      Option.bind_some,hitemId,hrow,hid]
  have hcoherent : OperationPolicy.coherent (OperationPolicy.scope (.completeItem c))
      ⟨o,some row,siblingCounts s.rows o.identity.id⟩=true :=
    (hc.coherent_iff _ _).mpr (hscope.trans hop.symm)
  have hrecorded : OperationPolicy.recorded (.completeItem c)
      ⟨o,some row,siblingCounts s.rows o.identity.id⟩=
      .ok (row.state=c.state && row.identity.storyId=c.storedStoryId &&
        row.progress.completed=c.completedBytes && row.outcome=c.storedOutcome) := by
    simp only [OperationPolicy.recorded,hitem,ne_eq,not_true_eq_false,if_false]
  constructor
  · intro hopen
    refine ⟨⟨o,some row,siblingCounts s.rows o.identity.id⟩,?_⟩
    have hne : row.state≠c.state := by
      intro heq
      rw [heq,hterminal] at hopen
      cases hopen
    simp only [storedInspection,hview,classify,hcoherent,hrecorded,hne,decide_false,
      Bool.false_and,hactive,hopen,Option.any_some,Bool.or_false,Bool.true_eq_false,
      Bool.false_eq_true,if_false]
  · rintro ⟨h1,h2,h3⟩ h4
    refine ⟨⟨o,some row,siblingCounts s.rows o.identity.id⟩,?_⟩
    simp only [storedInspection,hview,classify,hcoherent,hrecorded,h1,h2,h3,h4,decide_true,
      Bool.and_self,Bool.true_eq_false,if_false]

/-- A completion of an unfinished item under a stored story is written: its row records it,
every other item is kept, and the operation counts one more. -/
theorem Sound.completed (h : Sound e scope s)
    (ho : lookup (·.identity.id) e.id s.rows.operations=some o) (hscope : o.immutableScope=scope)
    (hactive : isTerminal o.state=false) {c : CompleteItemCommand} {item : ℤ} {row : OperationItem}
    (hrow : itemOf s.rows e.id item=some row) (hop : c.operation=scope)
    (hitem : row.immutableScope=c.item) (hvalid : valid (.completeItem c)=true)
    (hlive : Live s.library c.storyId) (hopen : row.state.isTerminal=false) :
    ∃ after, (write (e.schema s.library) (.completeItem c)).run s.rows=.ok ((),after) ∧
      Accounted after ∧ SchemaValid (e.schema s.library) after ∧
      lookup (·.identity.id) e.id after.operations=
        some {o with counts := {o.counts with completed := o.counts.completed+1}} ∧
      ∀ other, itemOf after e.id other=(itemOf s.rows e.id other).map fun row =>
        if row.identity.id=item then completedItem c c.state row else row := by
  obtain ⟨hc,hid⟩ := h.coherent ho
  obtain ⟨hmem,-,hown,hrowId⟩ := itemOf_some hrow
  have hitemId : row.identity.id=c.item.id := congrArg ItemScope.id hitem
  have hopId : c.operation.identity.id=o.identity.id := by
    rw [hop,←hscope]
    rfl
  have htotal : row.progress.total=c.item.totalBytes := congrArg ItemScope.totalBytes hitem
  have hbounds : 0≤c.completedBytes ∧ c.completedBytes≤row.progress.total := by
    unfold valid at hvalid
    split_ifs at hvalid
    simp only [Bool.and_eq_true,decide_eq_true_eq] at hvalid
    rw [htotal]
    exact ⟨hvalid.1.2,hvalid.2⟩
  have hstory : c.storedStoryId.all (e.schema s.library).storyExists=true := by
    cases hs : c.storedStoryId with
    | none => rfl
    | some id => simpa [Export.schema] using hlive id hs
  have hmem : row ∈ itemsOf s.rows o.identity.id := by
    rw [hid]
    exact hmem
  have hrun := (hc.write_completeItem hmem hitemId hopId hactive hopen).mpr
    ⟨⟨hbounds.1,hbounds.2,.inr hstory⟩,rfl⟩
  rw [hc.completed hmem hitemId hactive hopen hopId] at hrun
  refine ⟨_,hrun,accounted_write h.accounted hvalid hrun,
    (respected_within _).write _ _ _ _ hrun h.schema,?_,?_⟩
  · have hsel : (activeOperation c.operation.identity.id o &&
        decide (o.counts.completed<o.counts.total))=true := by
      simp [activeOperation,hopId,hactive,hc.open hmem hopen]
    rw [lookup_update (by intro other; rfl),ho,Option.map_some,if_pos hsel]
  · intro other
    rw [itemOf_update rfl (by intro other; exact ⟨rfl,rfl⟩)]
    cases hf : itemOf s.rows e.id other with
    | none => rfl
    | some found =>
      obtain ⟨-,hfm,hfo,hfi⟩ := itemOf_some hf
      rw [Option.map_some,Option.map_some,PolicyRefinement.nullif_getD,
        PolicyRefinement.nullif_getD]
      by_cases hsame : found.identity.id=item
      · have heq : found=row := by
          rw [←hfi,hsame] at hf
          exact Option.some.inj (hf.symm.trans hrow)
        rw [heq,if_pos (by simp [hitemId,hown,hopId,hid,hopen]),if_pos hrowId]
        rfl
      · have hno : found.identity.id≠c.item.id := by
          rw [←hitemId,hrowId]
          exact hsame
        rw [if_neg (by simp [hno]),if_neg hsame]

/-- What inspection shows of a finish: nothing is applied while the operation is active, and
its own record is recognised. -/
theorem Sound.inspected_finish (h : Sound e scope s)
    (ho : lookup (·.identity.id) e.id s.rows.operations=some o)
    (hscope : o.immutableScope=scope) {c : FinishCommand} (hop : c.operation=scope)
    (hdone : o.counts.completed=o.counts.total) (hterminal : isTerminal c.state=true) :
    (isTerminal o.state=false →
      ∃ view, storedInspection s.rows (.finish c)=.unapplied view) ∧
    (o.state=c.state ∧ o.outcome=c.storedOutcome ∧ o.identity.finishedAt=some c.finishedAt →
      ∃ view, storedInspection s.rows (.finish c)=.matching view) := by
  obtain ⟨hc,hid⟩ := h.coherent ho
  have hopId : c.operation.identity.id=e.id := by
    rw [hop,←hscope]
    exact hid
  have hview : storedView s.rows (.finish c)=
      some ⟨o,none,siblingCounts s.rows o.identity.id⟩ := by
    simp only [storedView,OperationPolicy.scope,itemId,hopId,ho,Option.map_some,
      Option.bind_none,hid]
  have hcoherent : OperationPolicy.coherent (OperationPolicy.scope (.finish c))
      ⟨o,none,siblingCounts s.rows o.identity.id⟩=true :=
    (hc.coherent_iff _ _).mpr (hscope.trans hop.symm)
  have hrecorded : OperationPolicy.recorded (.finish c)
      ⟨o,none,siblingCounts s.rows o.identity.id⟩=
      .ok (o.counts.completed=o.counts.total && o.state=c.state &&
        o.outcome=c.storedOutcome && o.identity.finishedAt=some c.finishedAt) := rfl
  constructor
  · intro hactive
    refine ⟨⟨o,none,siblingCounts s.rows o.identity.id⟩,?_⟩
    have hne : o.state≠c.state := by
      intro heq
      rw [heq,hterminal] at hactive
      cases hactive
    simp only [storedInspection,hview,classify,hcoherent,hrecorded,hne,decide_false,
      Bool.false_and,Bool.and_false,hactive,Option.any_none,Bool.or_false,Bool.true_eq_false,
      Bool.false_eq_true,if_false]
  · rintro ⟨h1,h2,h3⟩
    refine ⟨⟨o,none,siblingCounts s.rows o.identity.id⟩,?_⟩
    simp only [storedInspection,hview,classify,hcoherent,hrecorded,h1,h2,h3,hdone,decide_true,
      Bool.and_self,Bool.true_eq_false,if_false]

/-- A finish of a complete active operation is written over the operation alone. -/
theorem Sound.finished (h : Sound e scope s)
    (ho : lookup (·.identity.id) e.id s.rows.operations=some o) (hscope : o.immutableScope=scope)
    (hactive : isTerminal o.state=false) (hdone : o.counts.completed=o.counts.total)
    {c : FinishCommand} (hop : c.operation=scope) (hvalid : valid (.finish c)=true) :
    ∃ after, (write (e.schema s.library) (.finish c)).run s.rows=.ok ((),after) ∧
      Accounted after ∧ SchemaValid (e.schema s.library) after ∧ after.items=s.rows.items ∧
      lookup (·.identity.id) e.id after.operations=some {o with
        state := c.state
        outcome := c.storedOutcome
        identity := {o.identity with finishedAt := some c.finishedAt}} := by
  obtain ⟨hc,hid⟩ := h.coherent ho
  have hopId : c.operation.identity.id=o.identity.id := by
    rw [hop,←hscope]
    rfl
  have hrun := (hc.write_finish hopId hactive).mpr ⟨hdone,rfl⟩
  rw [hc.finished hactive hdone hopId] at hrun
  refine ⟨_,hrun,accounted_write h.accounted hvalid hrun,
    (respected_within _).write _ _ _ _ hrun h.schema,rfl,?_⟩
  have hsel : (activeOperation c.operation.identity.id o &&
      decide (o.counts.completed=o.counts.total))=true := by
    simp [activeOperation,hopId,hactive,hdone]
  rw [lookup_update (by intro other; rfl),ho,Option.map_some,if_pos hsel,
    PolicyRefinement.nullif_getD,PolicyRefinement.nullif_getD]
  rfl

theorem Sound.all_terminal (h : Sound e scope s)
    (ho : lookup (·.identity.id) e.id s.rows.operations=some o)
    (hdone : o.counts.completed=o.counts.total) {item : ℤ} {row : OperationItem}
    (hrow : itemOf s.rows e.id item=some row) : row.state.isTerminal=true := by
  obtain ⟨hc,hid⟩ := h.coherent ho
  by_contra hopen
  have hmem : row ∈ itemsOf s.rows o.identity.id := by
    rw [hid]
    exact (itemOf_some hrow).1
  have hlt := hc.open hmem (Bool.not_eq_true _ ▸ hopen)
  omega

end Inspection

section Removal

variable {e : Export} {scope : OperationScope} {l : Library} {story : ℤ}

theorem Live.remove {id : ℤ} (h : Live l id) (hne : storedReference id≠some story) :
    Live (l.remove story) id := by
  intro stored hs
  rw [Library.remove,List.mem_filter]
  refine ⟨h stored hs,?_⟩
  rw [decide_eq_true_eq]
  intro heq
  rw [heq] at hs
  exact hne hs

/-- An item after a story was deleted. -/
def detach (story : ℤ) (row : OperationItem) : OperationItem :=
  if row.identity.storyId=some story then clearStory row else row

/-- A deleted story changes only the live reference of an item. -/
theorem detach_kept (story : ℤ) (row : OperationItem) :
    (detach story row).immutableScope=row.immutableScope ∧
      (detach story row).identity.resolvedStoryId=row.identity.resolvedStoryId ∧
      (detach story row).state=row.state ∧ (detach story row).progress=row.progress ∧
      (detach story row).outcome=row.outcome := by
  unfold detach
  split
  · exact ⟨rfl,rfl,rfl,rfl,rfl⟩
  · exact ⟨rfl,rfl,rfl,rfl,rfl⟩

theorem clearReferences_itemOf (story : ℤ) (d : Database) (id : String) (item : ℤ) :
    itemOf (clearReferences story d) id item=(itemOf d id item).map (detach story) := by
  have hitems : (clearReferences story d).items=
      update (fun row => row.identity.storyId=some story) clearStory d.items := rfl
  rw [itemOf_update hitems (by intro row; exact ⟨rfl,rfl⟩)]
  simp only [decide_eq_true_eq]
  rfl

theorem accounted_clearReferences {d : Database} (h : Accounted d) (story : ℤ) :
    Accounted (clearReferences story d) := by
  refine h.updates (q:=fun _ => false) (g:=id) rfl (update_none _ _)
    (fun _ => ⟨rfl,rfl⟩) (fun _ => rfl) ?_ ?_
  · intro row hm
    rw [if_neg Bool.false_ne_true,h.counts row hm]
    exact (trueCounts_same (p:=fun row => row.identity.storyId=some story) (f:=clearStory) rfl
      (fun _ => rfl) (fun _ _ => rfl) _).symm
  · intro row _ hq
    cases hq

theorem schema_clearReferences {d : Database} (h : SchemaValid (e.schema l) d) (story : ℤ) :
    SchemaValid (e.schema (l.remove story)) (clearReferences story d) := by
  refine ⟨h.keys,h.operations,?_⟩
  intro row hm
  rcases mem_update.mp hm with ⟨hold,-⟩ | ⟨old,hold,-,rfl⟩
  · exact h.items row hold
  · exact h.items old hold

/-- A fetched item survives the removal of another story. -/
theorem WorkSound.remove {found : Option OperationItem} {work : WorkItem}
    (h : WorkSound scope l found work)
    (hne : storedReference (historicalStoryId work.item.identity)≠some story) :
    WorkSound scope (l.remove story) (found.map (detach story)) work := by
  obtain ⟨hop,hlive,hlow,hhigh,row,rfl,hscope,hopen⟩ := h
  obtain ⟨hkept,-,hstate,-,-⟩ := detach_kept story row
  exact ⟨hop,hlive.remove hne,hlow,hhigh,_,rfl,hkept.trans hscope,
    (congrArg ItemState.isTerminal hstate).trans hopen⟩

theorem ItemSound.remove {found : Option OperationItem} {phase : ItemPhase}
    (h : ItemSound e scope l found phase) (hne : named found phase≠some story) :
    ItemSound e scope (l.remove story) (found.map (detach story)) phase := by
  cases phase with
  | waiting =>
    intro detached hfound hopen stored hs
    rw [Option.map_eq_some_iff] at hfound
    obtain ⟨row,rfl,rfl⟩ := hfound
    obtain ⟨-,hresolved,hstate,-,-⟩ := detach_kept story row
    rw [hstate] at hopen
    rw [hresolved] at hs
    refine (h row rfl hopen stored hs).remove ?_
    simpa [named,hopen,hs] using hne
  | fetched work => exact WorkSound.remove h hne
  | executing work checks => exact WorkSound.remove h hne
  | reporting r =>
    obtain ⟨c,row,hcommand,rfl,hop,hscope,hrefusal,hreport⟩ := h
    obtain ⟨hkept,-,hstate,hprogress,houtcome⟩ := detach_kept story row
    have hrecorded : Recorded c row → Recorded c (detach story row) := by
      rintro ⟨h1,h2,h3⟩
      exact ⟨hstate.trans h1,(congrArg Progress.completed hprogress).trans h2,
        houtcome.trans h3⟩
    refine ⟨c,_,hcommand,rfl,hop,hkept.trans hscope,hrefusal,?_⟩
    unfold ReportSound at hreport ⊢
    cases hphase : r.phase with
    | persisting unknown writes reads =>
      rw [hphase] at hreport
      obtain ⟨hlive,hfaults,hrow⟩ := hreport
      have hother : c.storedStoryId≠some story := by
        simpa [named,hcommand,hphase] using hne
      refine ⟨hlive.remove hother,hfaults,?_⟩
      rcases hrow with hopen | ⟨hrec,hstory⟩
      · left
        rw [hstate]
        exact hopen
      · right
        refine ⟨hrecorded hrec,?_⟩
        rw [detach,if_neg (by rw [hstory]; exact hother)]
        exact hstory
    | returned header =>
      rw [hphase] at hreport
      exact ⟨hreport.1,hrecorded hreport.2⟩
    | reconciling unknown attempts =>
      rw [hphase] at hreport
      exact hreport

theorem RowSound.remove {row : OperationItem} (h : RowSound e l row) :
    RowSound e (l.remove story) (detach story row) := by
  unfold detach
  split
  · refine ⟨?_,h.2⟩
    intro stored hs
    cases hs
  · next hne =>
    refine ⟨?_,h.2⟩
    intro stored hs
    rw [Library.remove,List.mem_filter]
    refine ⟨h.1 stored hs,?_⟩
    rw [decide_eq_true_eq]
    intro heq
    rw [heq] at hs
    exact hne hs

end Removal

section Steps

variable {e : Export} {scope : OperationScope} {s : System}

theorem Sound.remove (h : Sound e scope s) {story : ℤ}
    (hne : ∀ item, named (itemOf s.rows e.id item) (s.items item)≠some story) :
    Sound e scope (step e s (.remove story)) where
  accounted := accounted_clearReferences h.accounted story
  schema := schema_clearReferences h.schema story
  operation := h.operation
  items := by
    intro item
    change ItemSound e scope _ (itemOf (clearReferences story s.rows) e.id item) _
    rw [clearReferences_itemOf]
    exact (h.items item).remove (hne item)
  rows := by
    intro item cleared hrow
    change itemOf (clearReferences story s.rows) e.id item=some cleared at hrow
    rw [clearReferences_itemOf,Option.map_eq_some_iff] at hrow
    obtain ⟨row,hrow,rfl⟩ := hrow
    exact (h.rows item row hrow).remove
  idle := h.idle

theorem Sound.active (h : Sound e scope s) (hf : s.finishing=none) :
    ∃ o, lookup (·.identity.id) e.id s.rows.operations=some o ∧ o.immutableScope=scope ∧
      isTerminal o.state=false := by
  obtain ⟨o,ho,hscope,hfinish⟩ := h.operation
  rw [hf] at hfinish
  exact ⟨o,ho,hscope,hfinish⟩

theorem Sound.unfinished (h : Sound e scope s) (item : ℤ)
    (hflight : (s.items item).inFlight=true) : s.finishing=none := by
  by_contra hf
  rw [h.idle hf item] at hflight
  cases hflight

theorem Sound.setItem (h : Sound e scope s) {item : ℤ} (phase : ItemPhase)
    (hphase : ItemSound e scope s.library (itemOf s.rows e.id item) phase)
    (hf : s.finishing=none) : Sound e scope (s.setItem item phase) where
  accounted := h.accounted
  schema := h.schema
  operation := h.operation
  items := by
    intro other
    change ItemSound e scope s.library (itemOf s.rows e.id other)
      (Function.update s.items item phase other)
    by_cases hother : other=item
    · rw [hother,Function.update_self]
      exact hphase
    · rw [Function.update_of_ne hother]
      exact h.items other
  rows := h.rows
  idle := fun hsome => absurd hf hsome

/-- Rewriting the row of one item, with its phase, keeps the export sound. -/
theorem Sound.rewrite (h : Sound e scope s) (hf : s.finishing=none) {after : Database}
    (haccounted : Accounted after) (hschema : SchemaValid (e.schema s.library) after)
    {o : OperationHeader} (ho : lookup (·.identity.id) e.id after.operations=some o)
    (hscope : o.immutableScope=scope) (hactive : isTerminal o.state=false) {item : ℤ}
    {g : OperationItem → OperationItem}
    (hitems : ∀ other, itemOf after e.id other=(itemOf s.rows e.id other).map fun row =>
      if row.identity.id=item then g row else row)
    (hrow : ∀ row, itemOf s.rows e.id item=some row → RowSound e s.library (g row))
    {phase : ItemPhase}
    (hphase : ItemSound e scope s.library ((itemOf s.rows e.id item).map g) phase) :
    Sound e scope {s.setItem item phase with rows := after} := by
  have hsame : itemOf after e.id item=(itemOf s.rows e.id item).map g := by
    rw [hitems]
    cases hfound : itemOf s.rows e.id item with
    | none => rfl
    | some row => rw [Option.map_some,Option.map_some,if_pos (itemOf_some hfound).2.2.2]
  have hother : ∀ other, other≠item → itemOf after e.id other=itemOf s.rows e.id other := by
    intro other hne
    rw [hitems]
    cases hfound : itemOf s.rows e.id other with
    | none => rfl
    | some row =>
      rw [Option.map_some,if_neg (by rw [(itemOf_some hfound).2.2.2]; exact hne)]
  refine ⟨haccounted,hschema,⟨o,ho,hscope,?_⟩,?_,?_,fun hsome => absurd hf hsome⟩
  · change FinishSound e scope o s.finishing
    rw [hf]
    exact hactive
  · intro other
    change ItemSound e scope s.library (itemOf after e.id other)
      (Function.update s.items item phase other)
    by_cases hne : other=item
    · rw [hne,Function.update_self,hsame]
      exact hphase
    · rw [Function.update_of_ne hne,hother other hne]
      exact h.items other
  · intro other row hfound
    change itemOf after e.id other=some row at hfound
    by_cases hne : other=item
    · rw [hne,hsame,Option.map_eq_some_iff] at hfound
      obtain ⟨old,hold,rfl⟩ := hfound
      exact hrow old hold
    · rw [hother other hne] at hfound
      exact h.rows other row hfound

theorem Sound.reporting (h : Sound e scope s) {item : ℤ} {work : WorkItem} {r : ItemReport}
    (hwork : WorkSound scope s.library (itemOf s.rows e.id item) work) (hf : s.finishing=none)
    (hterminal : r.state.isTerminal=true) (hstory : r.storyId=historicalStoryId work.item.identity)
    (hlow : 0≤r.completedBytes) (hhigh : r.completedBytes≤work.item.progress.total) :
    Sound e scope (s.setItem item (ExportRuns.reporting e work r)) := by
  obtain ⟨hop,hlive,-,-,row,hrow,hitem,hopen⟩ := hwork
  obtain ⟨o,ho,hscope,-⟩ := h.active hf
  obtain ⟨hc,hid⟩ := h.coherent ho
  have hopId : work.operation.identity.id=o.identity.id := by
    rw [hop,←hscope]
    rfl
  have hown : work.item.operationId=work.operation.identity.id := by
    have hkept : row.operationId=work.item.operationId :=
      congrArg ItemScope.operationId hitem
    rw [hopId,hid,←hkept]
    exact (itemOf_some hrow).2.2.1
  have hname : work.operation.identity.id≠"" := by
    rw [hopId]
    exact hc.named
  have hvalid : valid (.completeItem (completion e work r))=true := by
    have hbytes : work.item.immutableScope.totalBytes=work.item.progress.total := rfl
    have hscopes : work.item.immutableScope.operationId=work.item.operationId := rfl
    simp only [valid,OperationPolicy.scope,completion,hname,hterminal,hscopes,hown,hlow,hbytes,
      hhigh,decide_true,Bool.and_self,if_false]
  have hrefusal : refusal e.generation (.completeItem (completion e work r))=none := by
    have hgen : generation (.completeItem (completion e work r))=e.generation := rfl
    simp only [refusal,hgen,hvalid,ne_eq,not_true_eq_false,if_false,Bool.true_eq_false]
  refine h.setItem _ ⟨completion e work r,row,rfl,hrow,hop,hitem,hrefusal,?_,?_,.inl hopen⟩ hf
  · change Live s.library r.storyId
    rw [hstory]
    exact hlive
  · exact Nat.le_refl 0

theorem Sound.fetched (h : Sound e scope s) {item : ℤ} {work : WorkItem}
    (hwaiting : s.items item=.waiting) (hwork : pendingWork s.rows e.id item=some work) :
    s.finishing=none ∧ WorkSound scope s.library (itemOf s.rows e.id item) work := by
  obtain ⟨o,ho,hscope,hfinish⟩ := h.operation
  have hsound := h.items item
  rw [hwaiting] at hsound
  unfold pendingWork at hwork
  cases hfound : itemOf s.rows e.id item with
  | none =>
    rw [ho,hfound] at hwork
    cases hwork
  | some row =>
    rw [ho,hfound] at hwork
    dsimp only at hwork
    split_ifs at hwork with hpending
    cases hwork
    have hopen : row.state.isTerminal=false := by
      rw [hpending.2]
      rfl
    refine ⟨?_,hscope,?_,?_,?_,row,rfl,rfl,hopen⟩
    · cases hf : s.finishing with
      | none => rfl
      | some r =>
        rw [hf] at hfinish
        have hterminal := h.all_terminal ho hfinish.1 hfound
        rw [hopen] at hterminal
        cases hterminal
    · change Live s.library (historicalStoryId row.identity)
      unfold historicalStoryId
      cases hresolved : row.identity.resolvedStoryId with
      | some story => exact hsound row hfound hopen story hresolved
      | none =>
        cases hstory : row.identity.storyId with
        | none =>
          intro stored hs
          cases hs
        | some story =>
          intro stored hs
          have hstored := (h.rows item row hfound).1 story hstory
          change storedReference story=some stored at hs
          unfold storedReference at hs
          split_ifs at hs
          rw [←Option.some.inj hs]
          exact hstored
    · have hchecks := h.schema.items row (itemOf_some hfound).2.1
      simp only [itemChecks,Bool.and_eq_true,decide_eq_true_eq] at hchecks
      exact hchecks.1.1.1.1.1
    · have hchecks := h.schema.items row (itemOf_some hfound).2.1
      simp only [itemChecks,Bool.and_eq_true,decide_eq_true_eq] at hchecks
      exact hchecks.1.1.1.2

theorem Sound.move (h : Sound e scope s) (item : ℤ) (m : Move) :
    Sound e scope (step e s (.move item m)) := by
  have hsound := h.items item
  unfold step
  dsimp only
  cases hphase : s.items item with
  | waiting =>
    cases m with
    | fetch =>
      cases hwork : pendingWork s.rows e.id item with
      | none => simpa only [moved,hwork,Option.map_none] using h
      | some work =>
        obtain ⟨hf,hw⟩ := h.fetched hphase hwork
        simpa only [moved,hwork,Option.map_some] using h.setItem (.fetched work) hw hf
    | cancelled => exact h
    | check => exact h
    | fail error => exact h
    | publish => exact h
  | fetched work =>
    cases m with
    | fetch => exact h
    | cancelled => exact h
    | check => exact h
    | fail error => exact h
    | publish => exact h
  | reporting r =>
    cases m with
    | fetch => exact h
    | cancelled => exact h
    | check => exact h
    | fail error => exact h
    | publish => exact h
  | executing work checks =>
    rw [hphase] at hsound
    have hf : s.finishing=none := h.unfinished item (by rw [hphase]; rfl)
    have hw : WorkSound scope s.library (itemOf s.rows e.id item) work := hsound
    obtain ⟨-,-,hlow,hhigh,row,hrow,hitem,hopen⟩ := hsound
    have htotal : 0≤work.item.progress.total := by omega
    have hfailed : ∀ error, Sound e scope
        (s.setItem item (ExportRuns.reporting e work (failed work error))) := by
      intro error
      obtain ⟨hterminal,hstory,hbytes⟩ := failed_report work error
      exact h.reporting hw hf hterminal hstory (by omega) (by omega)
    cases m with
    | fetch => exact h
    | cancelled =>
      cases checks with
      | zero => exact h.reporting hw hf rfl rfl hlow hhigh
      | succ checks => exact h
    | fail error => exact hfailed error
    | check =>
      by_cases hchecks : 3≤checks
      · simpa only [moved,if_pos hchecks] using h
      · cases hindex : planIndex e.plan work.item.identity.storyUuid with
        | none => simpa only [moved,if_neg hchecks,hindex] using hfailed .snapshotChanged
        | some index =>
          cases heligible : eligibility work
              (checkItem s.library.listed s.library.intents e.plan index) with
          | none =>
            simpa only [moved,if_neg hchecks,hindex,heligible] using
              h.setItem (.executing work (checks+1)) hw hf
          | some r =>
            obtain ⟨hterminal,hstory,hbytes⟩ := eligibility_report heligible
            simpa only [moved,if_neg hchecks,hindex,heligible] using
              h.reporting hw hf hterminal hstory (by omega) (by omega)
    | publish =>
      by_cases hchecks : checks=3
      · cases hstory : plannedStory e.plan work.item.identity.storyUuid with
        | none => simpa only [moved,if_pos hchecks,hstory,Option.map_none] using h
        | some story =>
          have huuid : row.identity.storyUuid=work.item.identity.storyUuid :=
            congrArg ItemScope.storyUuid hitem
          have hbytes : row.progress.total=work.item.progress.total :=
            congrArg ItemScope.totalBytes hitem
          have hsize := (h.rows item row hrow).2 hopen story (by rw [huuid]; exact hstory)
          simpa only [moved,if_pos hchecks,hstory,Option.map_some] using
            h.reporting (r:=exported work story) hw hf rfl rfl
              (by change 0 ≤ story.byteSize; omega) (by change story.byteSize≤_; omega)
      · simpa only [moved,if_neg hchecks] using h

/-- What a successful start leaves: the rows as they are for an item that already runs, or the
pending item and its operation running. -/
theorem startBody_ok {session : OperationStore.Session} {env : SchemaEnv} {work : WorkItem}
    {at_ : String} {d after : Database} {u : Unit}
    (hrun : (startBody session env work at_).run d=.ok (u,after)) :
    after=d ∨ (after.items=update (fun row => row.identity.id=work.item.identity.id &&
          row.operationId=work.operation.identity.id && row.state=.pending)
        (fun row => {row with state := .running}) d.items ∧
      after.operations=update (activeOperation work.operation.identity.id) (fun row => {row with
        state := .running
        identity := {row.identity with startedAt := some (row.identity.startedAt.getD at_)}})
        d.operations) := by
  obtain ⟨found,d₁,h1,hrun⟩ := bind_ok.mp hrun
  obtain ⟨-,rfl⟩ := observe_ok.mp h1
  cases found with
  | none => exact (throw_ok.mp hrun).elim
  | some v =>
    dsimp only at hrun
    split at hrun
    · exact (throw_ok.mp hrun).elim
    split at hrun
    · obtain ⟨-,rfl⟩ := pure_ok.mp hrun
      exact .inl rfl
    · obtain ⟨n,d₂,h2,hrun⟩ := bind_ok.mp hrun
      obtain ⟨-,rfl⟩ := updateOperations_ok h2
      split at hrun
      · exact (throw_ok.mp hrun).elim
      obtain ⟨m,d₃,h3,hrun⟩ := bind_ok.mp hrun
      obtain ⟨-,rfl⟩ := updateItems_ok h3
      split at hrun
      · exact (throw_ok.mp hrun).elim
      obtain ⟨-,rfl⟩ := pure_ok.mp hrun
      exact .inr ⟨rfl,rfl⟩

/-- Mark a pending item running. -/
def started (row : OperationItem) : OperationItem :=
  if row.state=.pending then {row with state := .running} else row

theorem started_kept (row : OperationItem) :
    (started row).immutableScope=row.immutableScope ∧ (started row).identity=row.identity ∧
      (started row).progress=row.progress ∧
      (started row).state.isTerminal=row.state.isTerminal := by
  unfold started
  split
  · next h => exact ⟨rfl,rfl,rfl,by rw [h]; rfl⟩
  · exact ⟨rfl,rfl,rfl,rfl⟩

theorem Sound.start (h : Sound e scope s) (item : ℤ) (at_ : String) :
    Sound e scope (step e s (.start item at_)) := by
  have hsound := h.items item
  unfold step
  dsimp only
  cases hphase : s.items item with
  | waiting => exact h
  | executing work checks => exact h
  | reporting r => exact h
  | fetched work =>
    rw [hphase] at hsound
    have hf : s.finishing=none := h.unfinished item (by rw [hphase]; rfl)
    obtain ⟨o,ho,hscope,hactive⟩ := h.active hf
    dsimp only
    cases hrun : (startBody e.session (e.schema s.library) work at_).run s.rows with
    | error error =>
      have hquiet : interruptedOperation s.rows e.id=false := by
        have hne : o.state≠.interrupted := by
          intro heq
          rw [heq] at hactive
          cases hactive
        simp only [interruptedOperation,ho,Option.any_some,hne,decide_false]
      simp only [hquiet,Bool.false_eq_true,if_false]
      exact h
    | ok result =>
      obtain ⟨u,after⟩ := result
      have haccounted := accounted_startBody h.accounted hrun
      have hschema := (respected_within _).startBody _ _ _ _ _ _ hrun h.schema
      rcases startBody_ok hrun with hsame | ⟨hitems,hoperations⟩
      · rw [hsame]
        exact h.setItem (.executing work 0) hsound hf
      · obtain ⟨hop,hlive,hlow,hhigh,row,hrow,hitem,hopen⟩ := hsound
        obtain ⟨hc,hid⟩ := h.coherent ho
        have hopId : work.operation.identity.id=e.id := by
          rw [hop,←hscope]
          exact hid
        have hitemId : work.item.identity.id=item := by
          have hkept : row.identity.id=work.item.identity.id := congrArg ItemScope.id hitem
          rw [←hkept]
          exact (itemOf_some hrow).2.2.2
        have hsel : activeOperation work.operation.identity.id o=true := by
          simp [activeOperation,hopId,hid,hactive]
        have hafter : lookup (·.identity.id) e.id after.operations=some {o with
            state := .running
            identity := {o.identity with startedAt := some (o.identity.startedAt.getD at_)}} := by
          rw [hoperations,lookup_update (by intro other; rfl),ho,Option.map_some,if_pos hsel]
        refine h.rewrite (g:=started) hf haccounted hschema hafter hscope rfl ?_ ?_ ?_
        · intro other
          rw [itemOf_update hitems (by intro other; exact ⟨rfl,rfl⟩)]
          cases hfound : itemOf s.rows e.id other with
          | none => rfl
          | some found =>
            obtain ⟨-,-,hown,-⟩ := itemOf_some hfound
            rw [Option.map_some,Option.map_some]
            by_cases hsame : found.identity.id=item
            · by_cases hpending : found.state=.pending
              · rw [if_pos (by simp [hsame,hitemId,hown,hopId,hpending]),if_pos hsame,started,
                  if_pos hpending]
              · rw [if_neg (by simp [hpending]),if_pos hsame,started,if_neg hpending]
            · rw [if_neg (by simp [hitemId,hsame]),if_neg hsame]
        · intro found hfound
          obtain ⟨-,hidentity,hprogress,hterminal⟩ := started_kept found
          obtain ⟨hstory,hplanned⟩ := h.rows item found hfound
          refine ⟨?_,?_⟩
          · rw [hidentity]
            exact hstory
          · rw [hidentity,hprogress,hterminal]
            exact hplanned
        · obtain ⟨hkept,-,-,hterminal⟩ := started_kept row
          exact ⟨hop,hlive,hlow,hhigh,started row,by rw [hrow]; rfl,hkept.trans hitem,
            hterminal.trans hopen⟩

/-- A completion that is being reported can be applied, and then its row records it while
every other item is kept. -/
theorem Sound.applied (h : Sound e scope s) {item : ℤ} {r : Reported}
    (hphase : s.items item=.reporting r) {unknown : Bool} {writes reads : ℕ}
    (hr : r.phase=.persisting unknown writes reads) :
    ∃ c after o, r.command=.completeItem c ∧
      Applied (e.schema s.library) r.command s.rows after ∧ Accounted after ∧
      SchemaValid (e.schema s.library) after ∧
      lookup (·.identity.id) e.id after.operations=some o ∧ o.immutableScope=scope ∧
      isTerminal o.state=false ∧
      ∃ g : OperationItem → OperationItem,
        (∀ other, itemOf after e.id other=(itemOf s.rows e.id other).map fun row =>
          if row.identity.id=item then g row else row) ∧
        ∀ row, itemOf s.rows e.id item=some row → (g row).immutableScope=c.item ∧
          Recorded c (g row) ∧ (g row).identity.storyId=c.storedStoryId := by
  have hsound := h.items item
  rw [hphase] at hsound
  have hf : s.finishing=none := h.unfinished item (by
    rw [hphase]
    simp [ItemPhase.inFlight,hr,Phase.isReturned])
  obtain ⟨o,ho,hscope,hactive⟩ := h.active hf
  obtain ⟨c,row,hcommand,hrow,hop,hitem,hrefusal,hreport⟩ := hsound
  unfold ReportSound at hreport
  rw [hr] at hreport
  obtain ⟨hlive,-,hstate⟩ := hreport
  rw [hcommand] at hrefusal
  have hvalid := (refusal_none hrefusal).2
  have hterminal : c.state.isTerminal=true := by
    unfold valid at hvalid
    split_ifs at hvalid
    simp only [Bool.and_eq_true] at hvalid
    exact hvalid.1.1.1
  obtain ⟨hunapplied,hmatching⟩ :=
    h.inspected ho hscope hactive hrow hop hitem hterminal
  have honly : ∀ found, itemOf s.rows e.id item=some found → found=row := by
    intro found hfound
    exact Option.some.inj (hfound.symm.trans hrow)
  rcases hstate with hopen | ⟨hrecorded,hstory⟩
  · obtain ⟨after,hrun,haccounted,hschema,hafter,hitems⟩ :=
      h.completed ho hscope hactive hrow hop hitem hvalid hlive hopen
    refine ⟨c,after,_,hcommand,?_,haccounted,hschema,hafter,hscope,hactive,
      completedItem c c.state,hitems,?_⟩
    · rw [hcommand]
      exact .inr ⟨hrun,hunapplied hopen⟩
    · intro found hfound
      rw [honly found hfound]
      exact ⟨hitem,⟨rfl,rfl,rfl⟩,rfl⟩
  · refine ⟨c,s.rows,o,hcommand,?_,h.accounted,h.schema,ho,hscope,hactive,id,?_,?_⟩
    · rw [hcommand]
      exact .inl ⟨rfl,hmatching hrecorded hstory⟩
    · intro other
      simp only [id_eq,ite_self,Option.map_id']
    · intro found hfound
      rw [honly found hfound]
      exact ⟨hitem,hrecorded,hstory⟩

/-- Lost answers below three do not escalate. -/
theorem calm_persisting {writes reads faults : ℕ} (h : writes+reads≤faults) (hcalm : faults+1<3)
    {phase : Phase} (hphase : phase=afterWrite true writes reads ∨ phase=afterRead writes reads) :
    ∃ unknown writes' reads', phase=.persisting unknown writes' reads' ∧
      writes'+reads'≤faults+1 := by
  rcases hphase with rfl | rfl
  · refine ⟨true,writes+1,reads,if_neg (by omega),by omega⟩
  · refine ⟨true,writes,reads+1,if_neg (by omega),by omega⟩

theorem Sound.persist (h : Sound e scope s) (item : ℤ) (answer : Answer)
    (hcalm : Calm (step e s (.persist item answer))) :
    Sound e scope (step e s (.persist item answer)) := by
  have hsound := h.items item
  cases hphase : s.items item with
  | waiting => simpa only [step,hphase] using h
  | fetched work => simpa only [step,hphase] using h
  | executing work checks => simpa only [step,hphase] using h
  | reporting r =>
    have hstep : step e s (.persist item answer)=
        {s.setItem item (.reporting (r.next (e.schema s.library) e.generation
            (e.escalatedAt (some item)) answer s.rows).1) with
          rows := (r.next (e.schema s.library) e.generation (e.escalatedAt (some item)) answer
            s.rows).2} := by
      simp only [step,hphase]
    have hcommand : ∀ at_, (r.next (e.schema s.library) e.generation at_ answer
        s.rows).1.command=r.command := fun _ => rfl
    rw [hphase] at hsound
    cases hr : r.phase with
    | reconciling unknown attempts =>
      obtain ⟨c,row,-,-,-,-,-,hreport⟩ := hsound
      unfold ReportSound at hreport
      rw [hr] at hreport
      exact hreport.elim
    | returned header =>
      rw [hstep,next_returned hr]
      have hsame : s.setItem item (.reporting r)=s := by
        rw [System.setItem,←hphase,Function.update_eq_self]
      change Sound e scope (s.setItem item (.reporting r))
      rw [hsame]
      exact h
    | persisting unknown writes reads =>
      obtain ⟨c,after,o,hc,happlied,haccounted,hschema,ho,hscope,hactive,g,hitems,hg⟩ :=
        h.applied hphase hr
      obtain ⟨c',row,hc',hrow,hop,hitem,hrefusal,hreport⟩ := hsound
      cases CommandWitness.completeItem.inj (hc.symm.trans hc')
      unfold ReportSound at hreport
      rw [hr] at hreport
      obtain ⟨hlive,hfaults,hstate⟩ := hreport
      have hf : s.finishing=none := h.unfinished item
        (by rw [hphase]; simp [ItemPhase.inFlight,hr,Phase.isReturned])
      obtain ⟨hgscope,hgrecorded,hgstory⟩ := hg row hrow
      have hgrow : ∀ found, itemOf s.rows e.id item=some found →
          RowSound e s.library (g found) := by
        intro found hfound
        obtain ⟨hfscope,⟨hfstate,-,-⟩,hfstory⟩ := hg found hfound
        refine ⟨?_,?_⟩
        · intro story hs
          rw [hfstory] at hs
          exact hlive story hs
        · intro hopen
          have hvalid := (refusal_none (hc ▸ hrefusal)).2
          unfold valid at hvalid
          split_ifs at hvalid
          simp only [Bool.and_eq_true] at hvalid
          rw [hfstate,hvalid.1.1.1] at hopen
          cases hopen
      rw [hstep] at hcalm ⊢
      rcases next_applied (e.escalatedAt (some item)) hr hrefusal happlied answer with
        ⟨hnext,hrows⟩ | ⟨-,hfault,hnext,hrows⟩
      · rw [hrows]
        refine h.rewrite hf haccounted hschema ho hscope hactive hitems hgrow ?_
        refine ⟨c,g row,(hcommand _).trans hc,by rw [hrow]; rfl,hop,hgscope,?_,?_⟩
        · rw [hcommand]
          exact hrefusal
        · unfold ReportSound
          rw [hnext]
          exact ⟨rfl,hgrecorded⟩
      · have hsmall : r.faults+1<3 := by
          rw [←hfault]
          exact hcalm.1 item _ (Function.update_self item _ s.items)
        obtain ⟨unknown',writes',reads',hnext,hcount⟩ :=
          calm_persisting hfaults hsmall hnext
        rcases hrows with hrows | hrows
        · rw [hrows]
          refine h.setItem _ ⟨c,row,(hcommand _).trans hc,hrow,hop,hitem,?_,?_⟩ hf
          · rw [hcommand]
            exact hrefusal
          · unfold ReportSound
            rw [hnext,hfault]
            exact ⟨hlive,hcount,hstate⟩
        · rw [hrows]
          refine h.rewrite hf haccounted hschema ho hscope hactive hitems hgrow ?_
          refine ⟨c,g row,(hcommand _).trans hc,by rw [hrow]; rfl,hop,hgscope,?_,?_⟩
          · rw [hcommand]
            exact hrefusal
          · unfold ReportSound
            rw [hnext,hfault]
            exact ⟨hlive,hcount,.inr ⟨hgrecorded,hgstory⟩⟩

theorem Sound.finish (h : Sound e scope s) (finishedAt : String) :
    Sound e scope (step e s (.finish finishedAt)) := by
  unfold step
  dsimp only
  cases hf : s.finishing with
  | some r =>
    dsimp only
    exact h
  | none =>
    cases hready : readyToFinish e s with
    | none => exact h
    | some ready =>
      obtain ⟨named,result⟩ := ready
      obtain ⟨o,ho,hscope,hactive⟩ := h.active hf
      obtain ⟨hc,hid⟩ := h.coherent ho
      unfold readyToFinish at hready
      rw [ho] at hready
      dsimp only at hready
      split_ifs at hready with hopen
      obtain ⟨-,hdone,hidle⟩ := hopen
      split at hready
      · next outcome houtcome =>
        cases hready
        obtain ⟨hterminal,hother⟩ := terminalOutcome_state houtcome
        have hname : o.immutableScope.identity.id≠"" := hc.named
        have hvalid : valid (.finish (finishCommand e o.immutableScope result finishedAt))=
            true := by
          simp only [valid,OperationPolicy.scope,finishCommand,hname,hterminal,hother,
            ne_eq,not_false_eq_true,decide_true,Bool.and_self,if_false]
        have hrefusal : refusal e.generation
            (.finish (finishCommand e o.immutableScope result finishedAt))=none := by
          have hgen : generation (.finish (finishCommand e o.immutableScope result finishedAt))=
            e.generation := rfl
          simp only [refusal,hgen,hvalid,ne_eq,not_true_eq_false,if_false,Bool.true_eq_false]
        refine ⟨h.accounted,h.schema,⟨o,ho,hscope,hdone,?_,_,rfl,hscope,hrefusal,
          Nat.le_refl 0,.inl hactive⟩,h.items,h.rows,?_⟩
        · intro heq
          rw [heq] at hactive
          cases hactive
        · intro _ item
          change (s.items item).inFlight=false
          have hsound := h.items item
          cases hfound : itemOf s.rows e.id item with
          | some row =>
            obtain ⟨hmem,-,-,hrowId⟩ := itemOf_some hfound
            have hrow := List.any_eq_false.mp hidle row hmem
            rw [hrowId] at hrow
            exact Bool.not_eq_true _ ▸ hrow
          | none =>
            rw [hfound] at hsound
            cases hphase : s.items item with
            | waiting => rfl
            | fetched work =>
              rw [hphase] at hsound
              obtain ⟨-,-,-,-,row,hrow,-⟩ := hsound
              cases hrow
            | executing work checks =>
              rw [hphase] at hsound
              obtain ⟨-,-,-,-,row,hrow,-⟩ := hsound
              cases hrow
            | reporting r =>
              rw [hphase] at hsound
              obtain ⟨c,row,-,hrow,-⟩ := hsound
              cases hrow
      · cases hready

theorem Sound.persistFinish (h : Sound e scope s) (answer : Answer)
    (hcalm : Calm (step e s (.persistFinish answer))) :
    Sound e scope (step e s (.persistFinish answer)) := by
  cases hf : s.finishing with
  | none => simpa only [step,hf] using h
  | some r =>
    have hstep : step e s (.persistFinish answer)=
        {s with
          finishing := some (r.next (e.schema s.library) e.generation (e.escalatedAt none) answer
            s.rows).1
          rows := (r.next (e.schema s.library) e.generation (e.escalatedAt none) answer
            s.rows).2} := by
      simp only [step,hf]
    obtain ⟨o,ho,hscope,hfinish⟩ := h.operation
    rw [hf] at hfinish
    obtain ⟨hdone,hquiet,c,hc,hop,hrefusal,hreport⟩ := hfinish
    have hcommand : (r.next (e.schema s.library) e.generation (e.escalatedAt none) answer
      s.rows).1.command=r.command := rfl
    have hidle := h.idle (by rw [hf]; exact Option.some_ne_none r)
    rw [hstep] at hcalm ⊢
    cases hr : r.phase with
    | reconciling unknown attempts =>
      rw [hr] at hreport
      exact hreport.elim
    | returned header =>
      rw [next_returned hr]
      refine ⟨h.accounted,h.schema,⟨o,ho,hscope,hdone,hquiet,c,hc,hop,hrefusal,?_⟩,h.items,
        h.rows,fun _ => hidle⟩
      rw [hr]
      rw [hr] at hreport
      exact hreport
    | persisting unknown writes reads =>
      rw [hr] at hreport
      obtain ⟨hfaults,hstate⟩ := hreport
      have hvalid := (refusal_none (hc ▸ hrefusal)).2
      have hterminal : isTerminal c.state=true ∧ c.state≠.interrupted := by
        unfold valid at hvalid
        split_ifs at hvalid
        simp only [Bool.and_eq_true,decide_eq_true_eq] at hvalid
        exact hvalid
      obtain ⟨hunapplied,hmatching⟩ := h.inspected_finish ho hscope hop hdone hterminal.1
      have hafter : ∃ after o', Applied (e.schema s.library) r.command s.rows after ∧
          Accounted after ∧ SchemaValid (e.schema s.library) after ∧
          after.items=s.rows.items ∧
          lookup (·.identity.id) e.id after.operations=some o' ∧ o'.immutableScope=scope ∧
          o'.counts.completed=o'.counts.total ∧ o'.state=c.state ∧
          o'.outcome=c.storedOutcome ∧ o'.identity.finishedAt=some c.finishedAt := by
        rcases hstate with hactive | hsame
        · obtain ⟨after,hrun,haccounted,hschema,hitems,hafter⟩ :=
            h.finished ho hscope hactive hdone hop hvalid
          refine ⟨after,_,?_,haccounted,hschema,hitems,hafter,hscope,hdone,rfl,rfl,rfl⟩
          rw [hc]
          exact .inr ⟨hrun,hunapplied hactive⟩
        · refine ⟨s.rows,o,?_,h.accounted,h.schema,rfl,ho,hscope,hdone,hsame⟩
          rw [hc]
          exact .inl ⟨rfl,hmatching hsame⟩
      obtain ⟨after,o',happlied,haccounted,hschema,hitems,ho',hscope',hdone',hrecord⟩ := hafter
      have hquiet' : o'.state≠.interrupted := by
        rw [hrecord.1]
        exact hterminal.2
      have hfound : ∀ item, itemOf after e.id item=itemOf s.rows e.id item := by
        intro item
        simp only [itemOf,itemsOf,hitems]
      have hsound : ∀ item, ItemSound e scope s.library (itemOf after e.id item)
          (s.items item) := by
        intro item
        rw [hfound]
        exact h.items item
      have hrows' : ∀ item row, itemOf after e.id item=some row →
          RowSound e s.library row := by
        intro item row hrow
        rw [hfound] at hrow
        exact h.rows item row hrow
      rcases next_applied (e.escalatedAt none) hr hrefusal happlied answer with
        ⟨hnext,hrows⟩ | ⟨-,hfault,hnext,hrows⟩
      · rw [hrows]
        refine ⟨haccounted,hschema,⟨o',ho',hscope',hdone',hquiet',c,hcommand.trans hc,hop,?_,?_⟩,
          hsound,hrows',fun _ => hidle⟩
        · rw [hcommand]
          exact hrefusal
        · rw [hnext]
      · have hsmall : r.faults+1<3 := by
          rw [←hfault]
          exact hcalm.2 _ rfl
        obtain ⟨unknown',writes',reads',hnext,hcount⟩ :=
          calm_persisting hfaults hsmall hnext
        rcases hrows with hrows | hrows
        · rw [hrows]
          refine ⟨h.accounted,h.schema,⟨o,ho,hscope,hdone,hquiet,c,hcommand.trans hc,hop,?_,?_⟩,
            h.items,h.rows,fun _ => hidle⟩
          · rw [hcommand]
            exact hrefusal
          · rw [hnext,hfault]
            exact ⟨hcount,hstate⟩
        · rw [hrows]
          refine ⟨haccounted,hschema,⟨o',ho',hscope',hdone',hquiet',c,hcommand.trans hc,hop,
            ?_,?_⟩,hsound,hrows',fun _ => hidle⟩
          · rw [hcommand]
            exact hrefusal
          · rw [hnext,hfault]
            exact ⟨hcount,.inr hrecord⟩

/-- Every step keeps a calm export sound, where only stories that no unsettled item names are
removed. -/
theorem Sound.step (h : Sound e scope s) {event : Event} (hok : Careful e s event)
    (hcalm : Calm (ExportRuns.step e s event)) : Sound e scope (ExportRuns.step e s event) := by
  cases event with
  | announce story => exact ⟨h.accounted,h.schema,h.operation,h.items,h.rows,h.idle⟩
  | remove story => exact h.remove hok
  | move item m => exact h.move item m
  | start item at_ => exact h.start item at_
  | persist item answer => exact h.persist item answer hcalm
  | finish finishedAt => exact h.finish finishedAt
  | persistFinish answer => exact h.persistFinish answer hcalm

end Steps

section Runs

variable {e : Export} {s : System}

/-- A report never forgets a lost answer. -/
theorem next_faults (r : Reported) (env : SchemaEnv) (opened : ℕ) (escalatedAt : String)
    (answer : Answer) (d : Database) :
    r.faults≤(r.next env opened escalatedAt answer d).1.faults := by
  unfold Reported.next
  dsimp only
  split
  · exact Nat.le_refl _
  · exact Nat.le_succ _

theorem calm_of_setItem {s' : System} (h : Calm s') {item : ℤ} {phase : ItemPhase}
    (hitems : s'.items=Function.update s.items item phase) (hfinish : s'.finishing=s.finishing)
    (hphase : ∀ r, s.items item=.reporting r →
      ∃ r', phase=.reporting r' ∧ r.faults≤r'.faults) : Calm s := by
  refine ⟨?_,?_⟩
  · intro other r hr
    by_cases hother : other=item
    · subst hother
      obtain ⟨r',rfl,hle⟩ := hphase r hr
      have hlt := h.1 other r' (by rw [hitems,Function.update_self])
      omega
    · exact h.1 other r (by rw [hitems,Function.update_of_ne hother]; exact hr)
  · intro r hr
    exact h.2 r (hfinish.trans hr)

theorem calm_of_step {event : Event} (h : Calm (step e s event)) : Calm s := by
  cases event with
  | announce story => exact h
  | remove story => exact h
  | move item m =>
    unfold step at h
    dsimp only at h
    cases hmoved : moved e s item m (s.items item) with
    | none =>
      rw [hmoved] at h
      exact h
    | some phase =>
      rw [hmoved] at h
      refine calm_of_setItem (s:=s) h rfl rfl ?_
      intro r hr
      rw [hr] at hmoved
      cases m <;> cases hmoved
  | start item at_ =>
    unfold step at h
    dsimp only at h
    cases hphase : s.items item with
    | waiting => rwa [hphase] at h
    | executing work checks => rwa [hphase] at h
    | reporting r => rwa [hphase] at h
    | fetched work =>
      rw [hphase] at h
      dsimp only at h
      have hnone : ∀ phase r, s.items item=.reporting r →
          ∃ r', phase=ItemPhase.reporting r' ∧ r.faults≤r'.faults := by
        intro phase r hr
        rw [hphase] at hr
        cases hr
      split at h
      · exact calm_of_setItem (s:=s) h rfl rfl (hnone _)
      · split at h
        · exact calm_of_setItem (s:=s) h rfl rfl (hnone _)
        · exact h
  | persist item answer =>
    unfold step at h
    dsimp only at h
    cases hphase : s.items item with
    | waiting => rwa [hphase] at h
    | fetched work => rwa [hphase] at h
    | executing work checks => rwa [hphase] at h
    | reporting r =>
      rw [hphase] at h
      refine calm_of_setItem (s:=s) h rfl rfl ?_
      intro r' hr'
      rw [hphase] at hr'
      cases hr'
      exact ⟨_,rfl,next_faults _ _ _ _ _ _⟩
  | finish finishedAt =>
    unfold step at h
    dsimp only at h
    split at h
    · next hf hready =>
      refine ⟨h.1,?_⟩
      intro r hr
      rw [hf] at hr
      cases hr
    · exact h
  | persistFinish answer =>
    unfold step at h
    dsimp only at h
    cases hf : s.finishing with
    | none => rwa [hf] at h
    | some r =>
      rw [hf] at h
      refine ⟨h.1,?_⟩
      intro r' hr'
      cases hf.symm.trans hr'
      have hlt := h.2 _ rfl
      have hle := next_faults r (e.schema s.library) e.generation (e.escalatedAt none) answer
        s.rows
      omega

theorem calm_of_run (events : List Event) : ∀ s, Calm (run e s events) → Calm s := by
  induction events with
  | nil => exact fun s h => h
  | cons event events ih => exact fun s h => calm_of_step (ih (step e s event) h)

theorem sound_run {scope : OperationScope} (events : List Event) :
    ∀ s, Sound e scope s → RunConditions.Along (step e) (Careful e) s events →
      Calm (run e s events) → Sound e scope (run e s events) := by
  induction events with
  | nil => exact fun s h _ _ => h
  | cons event events ih =>
    intro s h hcareful hcalm
    have hnext : Calm (step e s event) := calm_of_run events _ hcalm
    exact ih (step e s event) (h.step hcareful.1 hnext) hcareful.2 hcalm

theorem Sound.undisturbed {scope : OperationScope} (h : Sound e scope s) :
    Undisturbed e s where
  recorded := by
    intro item r c header hphase hcommand hr
    have hsound := h.items item
    rw [hphase] at hsound
    obtain ⟨c',row,hc,hrow,-,-,-,hreport⟩ := hsound
    cases CommandWitness.completeItem.inj (hcommand.symm.trans hc)
    unfold ReportSound at hreport
    rw [hr] at hreport
    exact ⟨hreport.1,row,hrow,hreport.2⟩
  recognised := by
    intro item r c hphase hcommand hopen at_
    have hsound := h.items item
    rw [hphase] at hsound
    obtain ⟨_,row,-,hrow,-,-,hrefusal,hreport⟩ := hsound
    cases hr : r.phase with
    | returned header =>
      rw [hr] at hopen
      cases hopen
    | reconciling unknown attempts =>
      unfold ReportSound at hreport
      rw [hr] at hreport
      exact hreport.elim
    | persisting unknown writes reads =>
      obtain ⟨c',after,o,hc,happlied,-,-,-,-,-,g,hitems,hg⟩ := h.applied hphase hr
      cases CommandWitness.completeItem.inj (hcommand.symm.trans hc)
      rcases next_applied at_ hr hrefusal happlied .truthful with ⟨hnext,hrows⟩ | ⟨hbad,-⟩
      · refine ⟨hnext,g row,?_,(hg row hrow).2.1⟩
        rw [hrows,hitems,hrow,Option.map_some,if_pos (itemOf_some hrow).2.2.2]
      · exact absurd rfl hbad
  uninterrupted := by
    obtain ⟨o,ho,-,hfinish⟩ := h.operation
    have hne : o.state≠.interrupted := by
      intro heq
      cases hf : s.finishing with
      | none =>
        rw [hf] at hfinish
        have hactive : isTerminal o.state=false := hfinish
        rw [heq] at hactive
        cases hactive
      | some r =>
        rw [hf] at hfinish
        exact hfinish.2.1 heq
    simp only [interruptedOperation,ho,Option.any_some,hne,decide_false]

/-- An export as its creation leaves it: the operation is active with its own items, each
unfinished item has the size of its approved story, every item refers to the stored story it
was created for, and nothing is in flight. -/
structure Created (e : Export) (s : System) : Prop where
  accounted : Accounted s.rows
  schema : SchemaValid (e.schema s.library) s.rows
  active : ∃ o, lookup (·.identity.id) e.id s.rows.operations=some o ∧
    isTerminal o.state=false
  /-- Items refer to the stored stories they were created for. -/
  references : ∀ item row, itemOf s.rows e.id item=some row →
    row.identity.resolvedStoryId=row.identity.storyId ∧
      ∀ story, row.identity.storyId=some story → story ∈ s.library.stories
  /-- Unfinished items have the size of their approved stories. -/
  planned : ∀ item row, itemOf s.rows e.id item=some row → row.state.isTerminal=false →
    ∀ story, plannedStory e.plan row.identity.storyUuid=some story →
      story.byteSize=row.progress.total
  /-- No item is in flight. -/
  waiting : ∀ item, s.items item=.waiting
  /-- No finish is reported. -/
  unfinished : s.finishing=none

theorem Created.sound (h : Created e s) : ∃ scope, Sound e scope s := by
  obtain ⟨o,ho,hactive⟩ := h.active
  refine ⟨o.immutableScope,h.accounted,h.schema,⟨o,ho,rfl,?_⟩,?_,?_,?_⟩
  · rw [h.unfinished]
    exact hactive
  · intro item
    rw [h.waiting item]
    intro row hrow _ story hs stored hstored
    obtain ⟨hresolved,hlive⟩ := h.references item row hrow
    unfold storedReference at hstored
    split_ifs at hstored
    rw [←Option.some.inj hstored]
    exact hlive story (hresolved.symm.trans hs)
  · intro item row hrow
    exact ⟨(h.references item row hrow).2,h.planned item row hrow⟩
  · intro hsome
    exact absurd h.unfinished hsome

/-- While only stories that no unsettled item names are removed, no removal disturbs a calm
export: reports that returned are recorded exactly, the others are recorded by their next
truthful answer, and the operation is not interrupted. -/
theorem careful_removals (h : Created e s) (events : List Event)
    (hcareful : RunConditions.Along (step e) (Careful e) s events)
    (hcalm : Calm (run e s events)) : Undisturbed e (run e s events) := by
  obtain ⟨scope,hsound⟩ := h.sound
  exact (sound_run events s hsound hcareful hcalm).undisturbed

end Runs

section Example

def addressed : Event → Option ℤ
  | .move item _ | .start item _ | .persist item _ => some item
  | _ => none

/-- An item that no step addresses stays in its phase. -/
theorem run_other {e : Export} {item : ℤ} (events : List Event) :
    ∀ s, (∀ event ∈ events, addressed event≠some item) →
      (run e s events).items item=s.items item := by
  induction events with
  | nil => exact fun s _ => rfl
  | cons event events ih =>
    intro s h
    have hne := h event List.mem_cons_self
    have hstep : (step e s event).items item=s.items item := by
      have hset : ∀ other phase, other≠item →
          (s.setItem other phase).items item=s.items item := by
        intro other phase hother
        exact Function.update_of_ne (Ne.symm hother) _ _
      cases event with
      | announce story => rfl
      | remove story => rfl
      | move other m =>
        have hother : other≠item := fun heq => hne (congrArg some heq)
        unfold step
        dsimp only
        split
        · exact hset _ _ hother
        · rfl
      | start other at_ =>
        have hother : other≠item := fun heq => hne (congrArg some heq)
        unfold step
        dsimp only
        split
        · split
          · exact hset _ _ hother
          · split
            · exact hset _ _ hother
            · rfl
        · rfl
      | persist other answer =>
        have hother : other≠item := fun heq => hne (congrArg some heq)
        unfold step
        dsimp only
        split
        · exact hset _ _ hother
        · rfl
      | finish finishedAt =>
        unfold step
        dsimp only
        split <;> rfl
      | persistFinish answer =>
        unfold step
        dsimp only
        split <;> rfl
    change (run e (step e s event) events).items item=_
    rw [ih _ fun event hm => h event (List.mem_cons_of_mem _ hm),hstep]

def operationId : String := "aaaaaaaa-0000-4000-8000-000000000001"

def storyUuid (story : ℕ) : String :=
  if story=1 then "bbbbbbbb-0000-4000-8000-000000000001"
  else "bbbbbbbb-0000-4000-8000-000000000002"

def exampleStory (story : ℕ) : ExportStory where
  broken := false
  id := story
  uuid := storyUuid story
  title := "A story"
  originalFilename := "a.zip"
  originalFilenameBytes := [97]
  detectedFormat := "zip"
  sha256 := ""
  byteSize := 10
  managedRelativePath := "a"
  managedRelativePathBytes := [97]
  verification := "compatible"

def examplePreview (story : ℕ) : PreviewItem :=
  ⟨storyUuid story,"A story","a.zip","zip",10,.ready⟩

/-- The live row of an approved story. -/
def exampleListed (story : ℕ) : Listed where
  story := ⟨story,storyUuid story,none,none,none,"2026-01-01","a story",false⟩
  archive := ⟨story,[97],"zip","",10,[97],.valid⟩

def exampleItem (story : ℕ) : OperationItem where
  operationId := operationId
  identity := ⟨story,some story,some story,some (storyUuid story)⟩
  storyTitle := some "A story"
  sourceName := "a.zip"
  outputName := some ⟨[97]⟩
  archiveRelativePath := some ⟨[97]⟩
  archiveSha256 := none
  exportSkipCode := none
  state := .pending
  progress := ⟨0,10⟩
  outcome := ⟨none,none⟩

/-- The queued export of two stories. -/
def exampleOperation : OperationHeader where
  identity := ⟨operationId,"2026-01-01",none,none⟩
  kind := .export
  state := .queued
  exportScope := ⟨some "selection",some "[]",some "[]"⟩
  destination := some ⟨[47]⟩
  counts := ⟨0,2⟩
  totalBytes := 20
  cancelRequested := false
  outcome := ⟨none,none⟩

def exampleExport : Export where
  id := operationId
  generation := 1
  session := ⟨⟨0,0⟩,⟨fun _ => true,fun _ => .ok 0,fun _ => "",fun _ => ""⟩⟩
  jsonValid := fun _ => true
  jsonArrayLength := fun _ => some 0
  plan := ⟨[exampleStory 1,exampleStory 2],[examplePreview 1,examplePreview 2]⟩
  escalatedAt := fun _ => "2026-01-03"

/-- The created export in a library with a third story. -/
def exampleSystem : System where
  rows := ⟨[exampleOperation],[exampleItem 1,exampleItem 2]⟩
  library := ⟨[1,2,3],[exampleListed 1,exampleListed 2],[]⟩
  items := fun _ => .waiting
  finishing := none

theorem exampleItems {item : ℤ} {row : OperationItem}
    (h : itemOf exampleSystem.rows exampleExport.id item=some row) :
    row=exampleItem 1 ∨ row=exampleItem 2 := by
  have hm := (itemOf_some h).2.1
  simpa [exampleSystem] using hm

theorem exampleSystem_created : Created exampleExport exampleSystem := by
  refine ⟨⟨by decide +kernel,by decide +kernel,by decide +kernel,by decide +kernel,
    by decide +kernel⟩,⟨by decide +kernel,by decide +kernel,by decide +kernel⟩,
    ⟨exampleOperation,by decide +kernel,rfl⟩,?_,?_,fun _ => rfl,rfl⟩
  · intro item row hrow
    rcases exampleItems hrow with rfl | rfl
    · refine ⟨rfl,?_⟩
      intro story hs
      cases hs
      exact List.mem_cons_self
    · refine ⟨rfl,?_⟩
      intro story hs
      cases hs
      exact List.mem_cons_of_mem _ List.mem_cons_self
  · intro item row hrow _ story hstory
    rcases exampleItems hrow with rfl | rfl
    · have hplanned : plannedStory exampleExport.plan (exampleItem 1).identity.storyUuid=
        some (exampleStory 1) := by decide +kernel
      rw [hplanned] at hstory
      cases hstory
      rfl
    · have hplanned : plannedStory exampleExport.plan (exampleItem 2).identity.storyUuid=
        some (exampleStory 2) := by decide +kernel
      rw [hplanned] at hstory
      cases hstory
      rfl

def ItemPhase.faults : ItemPhase → ℕ
  | .reporting r => r.faults
  | _ => 0

/-- A run of the example that addresses only its first item is calm when that item's report
is, and no finish is reported. -/
theorem calm_of_first {events : List Event}
    (hevents : ∀ event ∈ events, ∀ item, addressed event=some item → item=1)
    (hfirst : ItemPhase.faults ((run exampleExport exampleSystem events).items 1)<3)
    (hfinish : (run exampleExport exampleSystem events).finishing.isNone=true) :
    Calm (run exampleExport exampleSystem events) := by
  refine ⟨?_,?_⟩
  · intro item r hr
    by_cases hitem : item=1
    · subst hitem
      rw [hr] at hfirst
      exact hfirst
    · rw [run_other events exampleSystem fun event hm heq =>
        hitem (hevents event hm item heq)] at hr
      cases hr
  · intro r hr
    rw [hr] at hfinish
    cases hfinish

/-- The story of the first item is removed after its start; every answer is truthful. -/
def removedBeforeReport : List Event :=
  [.move 1 .fetch,.start 1 "2026-01-02",.remove 1,.move 1 .check,.persist 1 .truthful,
    .persist 1 .truthful,.persist 1 .truthful,.persist 1 .truthful]

def reportedOutcome : ItemPhase → Option (ItemState×RawOutcome)
  | .reporting r =>
    match r.command with
    | .completeItem c => some (c.state,c.outcome)
    | _ => none
  | _ => none

/-- Removing the story of an item before it is reported interrupts the export: the item is
reported as skipped, and both items are stored as cancelled. -/
theorem removal_interrupts_export :
    Created exampleExport exampleSystem ∧
      Calm (run exampleExport exampleSystem removedBeforeReport) ∧
      reportedOutcome ((run exampleExport exampleSystem removedBeforeReport).items 1)=
        some (.skipped,⟨some "story_unavailable",
          some "This approved story is unavailable in the library."⟩) ∧
      (run exampleExport exampleSystem removedBeforeReport).rows.items.map
        (fun row => (row.state,row.outcome.code))=
        [(.cancelled,some "persistence_failed"),(.cancelled,some "persistence_failed")] ∧
      ¬Undisturbed exampleExport (run exampleExport exampleSystem removedBeforeReport) := by
  refine ⟨exampleSystem_created,calm_of_first ?_ (by decide +kernel) (by decide +kernel),
    by decide +kernel,by decide +kernel,?_⟩
  · intro event hm item heq
    simp only [removedBeforeReport,List.mem_cons,List.not_mem_nil,or_false] at hm
    rcases hm with rfl | rfl | rfl | rfl | rfl | rfl | rfl | rfl <;> cases heq <;> rfl
  · intro h
    have hinterrupted : interruptedOperation
        (run exampleExport exampleSystem removedBeforeReport).rows exampleExport.id=true := by
      decide +kernel
    rw [h.uninterrupted] at hinterrupted
    cases hinterrupted

/-- A run that removes the third story and loses an acknowledgement records its report. -/
theorem careful_removals_recorded :
    Undisturbed exampleExport (run exampleExport exampleSystem
      [.remove 3,.move 1 .fetch,.start 1 "2026-01-02",.move 1 .check,.move 1 (.fail .other),
        .persist 1 (.writeLost true),.persist 1 .truthful]) := by
  refine careful_removals exampleSystem_created _ ⟨?_,trivial,trivial,trivial,trivial,trivial,
    trivial,trivial⟩ (calm_of_first ?_ (by decide +kernel) (by decide +kernel))
  · intro item hnamed
    change (itemOf exampleSystem.rows exampleExport.id item).bind _=some 3 at hnamed
    rw [Option.bind_eq_some_iff] at hnamed
    obtain ⟨row,hrow,hnamed⟩ := hnamed
    rcases exampleItems hrow with rfl | rfl
    · revert hnamed
      decide +kernel
    · revert hnamed
      decide +kernel
  · intro event hm item heq
    simp only [List.mem_cons,List.not_mem_nil,or_false] at hm
    rcases hm with rfl | rfl | rfl | rfl | rfl | rfl | rfl <;> cases heq <;> rfl

end Example

end Librairii.ExportRemoval
