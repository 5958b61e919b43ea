import Librairii.JobExecutors
import Librairii.JobIntake
import Librairii.SavedQueryRoundTrip

/-!
# The entries of operations beside the scheduler

An operation that is not decided or not terminal has its entry, its picked paths are handed out
once and to the items of their slots, and a start that the ingress refuses leaves what it was
made of. When nothing is undecided and everything stored is terminal there is room for every
offer, as long as no import was rejected after its start was taken in.
-/

namespace Librairii.JobEntries

open RowTables OperationRows OperationPolicy OperationCreation OperationStore OperationAccounting
  RowChanges JobDispatch JobRows JobIntake JsonText JobExecutors TemporaryScopes
open JobScheduler hiding Event step run workerStep
open SavedQueryCodec (digitsValue)
open ExportStarts (Start StartEnv maxCommandBytes operationBytes operationInput)
open ExportPreparation (Registry Prepared maxPrepared maxPreparedBytes takePrepared)

theorem ascii_text {text : List Char} (h : ∀ c ∈ text, 48≤c.toNat ∧ c.toNat≤57) :
    (ascii text).map (fun b => Char.ofNat b.toNat)=text := by
  rw [ascii,List.map_map]
  refine List.map_congr_left (g:=id) ?_ |>.trans (List.map_id text)
  intro c hc
  obtain ⟨-,hle⟩ := h c hc
  have hbyte : (UInt8.ofNat c.toNat).toNat=c.toNat := by
    rw [UInt8.toNat_ofNat']
    omega
  change Char.ofNat (UInt8.ofNat c.toNat).toNat=c
  rw [hbyte]
  exact Char.ofNat_toNat c

/-- A written number is read back. -/
theorem parseUsize_decimalNat {n : ℕ} (h : n<2^64) : parseUsize (ascii (decimalNat n))=some n := by
  obtain ⟨hne,hdigits⟩ := decimalNat_digits n
  have hhead : (ascii (decimalNat n)).head?≠some 0x2b := by
    cases hd : decimalNat n with
    | nil => exact absurd hd hne
    | cons c cs =>
      obtain ⟨hge,hle⟩ := hdigits c (hd ▸ List.mem_cons_self)
      intro he
      have hbyte : UInt8.ofNat c.toNat=0x2b := Option.some.inj he
      have hnat := congrArg UInt8.toNat hbyte
      rw [UInt8.toNat_ofNat'] at hnat
      have hplus : (0x2b : UInt8).toNat=43 := rfl
      omega
  have hempty : ascii (decimalNat n)≠[] := by
    rw [ascii,ne_eq,List.map_eq_nil_iff]
    exact hne
  unfold parseUsize
  rw [if_neg hhead,if_neg hempty,ascii_text hdigits,SavedQueryRoundTrip.digitsValue_decimalNat]
  exact Option.filter_some_pos (decide_eq_true h)

variable {index : ℕ}

theorem slotIndex_slotToken (h : index<2^64) : slotIndex (slotToken index)=some index := by
  have hstarts : (ascii slotPrefix.toList).isPrefixOf (slotToken index).bytes=true :=
    List.isPrefixOf_iff_prefix.mpr (List.prefix_append _ _)
  have hrest : (slotToken index).bytes.drop (ascii slotPrefix.toList).length=
      ascii (decimalNat index) := List.drop_left
  unfold slotIndex
  rw [if_pos hstarts,hrest,parseUsize_decimalNat h]
  exact Option.filter_some_pos (decide_eq_true rfl)

/-- What an import that was prepared keeps of its files. -/
structure Sliced (p : Preparation) : Prop where
  kind : p.start.input.kind=.import
  length : p.start.input.items.length=p.paths.length
  /-- An item names the slot of its path. -/
  tokens : ∀ (i : ℕ) item, p.start.input.items[i]?=some item →
    item.archiveRelativePath=slotToken i
  /-- There are at most a thousand. -/
  bounded : p.paths.length≤1000
  /-- It fits the budget. -/
  bytes : p.bytes ≤ maxCommandBytes

theorem pickedItems_slots {env : ImportEnv} {paths : List OperationPath} :
    ∀ {index bytes : ℕ} {items : List NewItem} {total : ℕ},
      pickedItems env index bytes paths=.ok (items,total) → items.length=paths.length ∧
        ∀ (i : ℕ) item, items[i]?=some item → item.archiveRelativePath=slotToken (index+i) := by
  induction paths with
  | nil =>
    intro index bytes items total h
    cases h
    exact ⟨rfl,fun i item he => nomatch he⟩
  | cons path paths ih =>
    intro index bytes items total h
    unfold pickedItems at h
    dsimp only at h
    obtain ⟨-,h⟩ := CheckedResults.checked_ok.mp h
    split at h
    · cases h
    next name hname =>
    obtain ⟨-,h⟩ := CheckedResults.checked_ok.mp h
    split at h
    · next rest after hrest =>
      cases h
      obtain ⟨hlength,htokens⟩ := ih hrest
      refine ⟨by rw [List.length_cons,List.length_cons,hlength],?_⟩
      intro i item hitem
      cases i with
      | zero =>
        cases hitem
        rfl
      | succ i =>
        rw [List.getElem?_cons_succ] at hitem
        have htoken := htokens i item hitem
        rw [htoken]
        congr 1
        omega
    · cases h

variable {p : Preparation} {id : String}

theorem preparation_sliced {env : ImportEnv} {paths : List OperationPath}
    (h : Preparation.new env id paths=.ok p) : Sliced p := by
  unfold Preparation.new at h
  obtain ⟨hcount,h⟩ := CheckedResults.checked_ok.mp h
  split at h
  · cases h
  next items bytes hitems =>
  split at h
  · cases h
  next start hstart =>
  split at h
  · cases h
  next retained hretained =>
  obtain ⟨hbytes,h⟩ := CheckedResults.checked_ok.mp h
  cases h
  obtain ⟨hlength,htokens⟩ := pickedItems_slots hitems
  have hinput : start.input=importOperation id items := by
    unfold Start.new at hstart
    split at hstart
    · cases hstart
      rfl
    · cases hstart
  constructor
  · dsimp only
    rw [hinput]
    rfl
  · dsimp only
    rw [hinput]
    exact hlength
  · dsimp only
    rw [hinput]
    intro i item hitem
    have htoken := htokens i item hitem
    rw [Nat.zero_add] at htoken
    exact htoken
  · dsimp only
    omega
  · dsimp only
    omega

/-- An operation whose entry is needed: it is not decided, or active. -/
def Needed (s : System) (start : Start) : Prop :=
  Undecided s start ∨ ∃ row, lookup (·.identity.id) start.input.id s.rows.operations=some row ∧
    isTerminal row.state=false

def Entry (env : ImportEnv) (w : World) (start : Start) : Prop :=
  match start.input.kind with
  | .import => ∃ batch, (start.input.id,batch) ∈ w.batches ∧ batch.items=start.input.items
  | .export => ∃ plan, (start.input.id,plan) ∈ w.plans ∧
      operationInput env.toStartEnv plan start.input.id=.ok start.input
  | .metadataSync => True

/-- The path of a slot was handed out. -/
def Gone (handed : List Handed) (id : String) (index : ℕ) : Prop :=
  ∃ h ∈ handed, h.operation=id ∧ h.index=index

/-- A batch keeps the paths of an import that were not handed out. -/
structure Keeping (handed : List Handed) (p : Preparation) (batch : Batch) : Prop where
  items : batch.items=p.start.input.items
  bytes : batch.bytes=p.bytes
  kept : ∀ (i : ℕ) path, p.paths[i]?=some path → ¬Gone handed p.start.input.id i →
    batch.paths[i]?=some (some path)
  gone : ∀ i, Gone handed p.start.input.id i → ∀ path, batch.paths[i]?≠some (some path)

/-- What is known of the entries. -/
structure Tables (env : ImportEnv) (w : World) : Prop where
  /-- Batches have their own ids. -/
  batchKeys : (w.batches.map (·.1)).Nodup
  /-- Plans have their own ids. -/
  planKeys : (w.plans.map (·.1)).Nodup
  picked : ∀ p ∈ w.picked, p.start ∈ w.offered ∧ Sliced p
  /-- Imports have their own ids. -/
  pickedKeys : (w.picked.map (·.start.input.id)).Nodup
  imports : ∀ start ∈ w.offered, start.input.kind=.import → ∃ p ∈ w.picked, p.start=start
  /-- A batch keeps the paths of its import. -/
  batches : ∀ entry ∈ w.batches, ∃ p ∈ w.picked, p.start.input.id=entry.1 ∧
    Keeping w.handed p entry.2
  plans : ∀ entry ∈ w.plans, ∃ start ∈ w.offered, start.input.id=entry.1 ∧
    operationInput env.toStartEnv entry.2 entry.1=.ok start.input
  /-- An entry that is needed is there. -/
  present : ∀ start ∈ w.offered, Needed w.scheduler start → Entry env w start
  /-- A path was handed to the item of its slot. -/
  handed : ∀ h ∈ w.handed, ∃ p ∈ w.picked, p.start.input.id=h.operation ∧
    p.paths[h.index]?=some h.path ∧
    ∃ row, (itemsOf w.scheduler.rows h.operation)[h.index]?=some row ∧ row.identity.id=h.item
  /-- No path was handed out twice. -/
  once : (w.handed.map fun h => (h.operation,h.index)).Nodup
  begun : ∀ h ∈ w.handed, Begun w.scheduler.rows h.item
  /-- An item that is not executed has no path. -/
  waiting : ∀ h ∈ w.handed, ∀ work ∈ worksBy unexecuted w.scheduler,
    work.item.identity.id≠h.item
  /-- Only items of terminal operations lacked their entries. -/
  lacking : ∀ work ∈ w.lacking, terminal w.scheduler.rows work.operation.identity.id=true

theorem step_slots {r : Runtime} {s : System} {event : JobScheduler.Event} {d' : Database}
    (h : RowStep r s event d') {id : String} {index : ℕ} {row : OperationItem}
    (hrow : (itemsOf s.rows id)[index]?=some row) :
    ∃ row', (itemsOf d' id)[index]?=some row' ∧ row'.identity.id=row.identity.id := by
  rcases h with h | ⟨_,start,_,_,_,_,_,h,_⟩
  · have hitems := itemsOf_related (fun a b hr => congrArg ItemScope.operationId hr.scope)
      h.items id
    change List.Forall₂ _ (itemsOf s.rows id) (itemsOf d' id) at hitems
    obtain ⟨hlt,hget⟩ := List.getElem?_eq_some_iff.mp hrow
    have hlt' : index<(itemsOf d' id).length := hitems.length_eq ▸ hlt
    have hr := List.forall₂_iff_get.mp hitems
    have hchange := hr.2 index hlt hlt'
    refine ⟨(itemsOf d' id)[index],List.getElem?_eq_getElem hlt',?_⟩
    rw [←hget]
    exact hchange.id
  · obtain ⟨rows,hitems,-⟩ := h.items
    refine ⟨row,?_,rfl⟩
    rw [itemsOf,hitems,List.filter_append]
    obtain ⟨hlt,-⟩ := List.getElem?_eq_some_iff.mp hrow
    exact (List.getElem?_append_left hlt).trans hrow

variable {env : ImportEnv} {r : Runtime} {w : World}

variable {α : Type} {entries : List (String×α)}

theorem entry_found (hkeys : (entries.map (·.1)).Nodup) {entry : String×α} (h : entry ∈ entries) :
    entries.find? (fun other => other.1=entry.1)=some entry :=
  lookup_of_mem hkeys h

theorem picked_unique (h : Tables env w) {q : Preparation} (hp : p ∈ w.picked)
    (hq : q ∈ w.picked) (hid : p.start.input.id=q.start.input.id) : p=q :=
  List.inj_on_of_nodup_map h.pickedKeys hp hq hid

def takeOut (batches : List (String×Batch)) (entry : String×Batch) (index : ℕ) :
    List (String×Batch) :=
  batches.map fun other => if other.1=entry.1 then
    (entry.1,{entry.2 with paths := entry.2.paths.set index none}) else other

variable {work : WorkItem}

/-- An item of an import with a batch has a slot, and gets the path of it unless that is gone. -/
theorem source_kept (h : Tables env w) (hi : Intake w.offered w.scheduler)
    (ht : Tracked r w.scheduler) (hwork : work ∈ works w.scheduler) {entry : String×Batch}
    (hentry : entry ∈ w.batches) (hid : entry.1=work.operation.identity.id) :
    ∃ p ∈ w.picked, ∃ (i : ℕ) (path : OperationPath) (row : OperationItem),
      p.start.input.id=entry.1 ∧ p.paths[i]?=some path ∧
      (itemsOf w.scheduler.rows entry.1)[i]?=some row ∧
      row.identity.id=work.item.identity.id ∧
      (¬Gone w.handed entry.1 i →
        JobExecutors.source w.batches work=some (i,path,takeOut w.batches entry i)) := by
  obtain ⟨p,hp,hpid,hkeeping⟩ := h.batches entry hentry
  obtain ⟨hoffered,hsliced⟩ := h.picked p hp
  have hknown := ht.known work hwork
  obtain ⟨orow,horow,-⟩ := hknown.operation
  obtain ⟨irow,hirow,hscope,hown⟩ := hknown.item
  have hoperation : p.start.input.id=work.operation.identity.id := hpid.trans hid
  rw [←hoperation] at horow
  obtain ⟨-,hmatches⟩ := hi.rows p.start hoffered orow horow
  have hmem : irow ∈ itemsOf w.scheduler.rows p.start.input.id :=
    List.mem_filter.mpr ⟨(lookup_mem hirow).1,decide_eq_true (hown.trans hoperation.symm)⟩
  obtain ⟨i,hat⟩ := List.mem_iff_getElem?.mp hmem
  obtain ⟨hlt,hget⟩ := List.getElem?_eq_some_iff.mp hat
  have hlength : p.start.input.items.length=(itemsOf w.scheduler.rows p.start.input.id).length :=
    hmatches.length_eq
  have hitemLt : i<p.start.input.items.length := hlength ▸ hlt
  have hpathLt : i<p.paths.length := hsliced.length ▸ hitemLt
  obtain ⟨-,hrow⟩ := (List.forall₂_iff_get.mp hmatches).2 i hitemLt hlt
  have hitem : p.start.input.items[i]?=some p.start.input.items[i] :=
    List.getElem?_eq_getElem hitemLt
  have hpath : p.paths[i]?=some p.paths[i] := List.getElem?_eq_getElem hpathLt
  have htoken := hsliced.tokens i _ hitem
  have hsame : work.item.immutableScope=
      (assigned (newItemRow p.start.input.id p.start.input.items[i])
        irow.identity.id).immutableScope := by
    rw [←hscope]
    have hlist : (itemsOf w.scheduler.rows p.start.input.id).get ⟨i,hlt⟩=irow := hget
    rw [hlist] at hrow
    exact hrow
  have harchive : work.item.archiveRelativePath=some (slotToken i) := by
    have hstored : work.item.archiveRelativePath=
        (p.start.input.items[i]).storedArchivePath := congrArg ItemScope.archiveRelativePath hsame
    have hne : (slotToken i).bytes≠[] := by
      have hprefix : slotPrefix.toList≠[] := by decide
      rw [slotToken,ascii,ne_eq,List.append_eq_nil_iff,List.map_eq_nil_iff]
      exact fun he => hprefix he.1
    rw [hstored,NewItem.storedArchivePath,htoken,nonemptyPath,if_neg hne]
  have hname : (p.start.input.items[i]).sourceName=work.item.sourceName :=
    (congrArg ItemScope.sourceName hsame).symm
  have htotal : (p.start.input.items[i]).totalBytes=work.item.progress.total :=
    (congrArg ItemScope.totalBytes hsame).symm
  have hkey : work.item.identity.id=irow.identity.id := (lookup_mem hirow).2.symm
  refine ⟨p,hp,i,p.paths[i],irow,hpid,hpath,?_,hkey.symm,?_⟩
  · rw [←hpid]
    exact hat
  · intro hgone
    have hbound := hsliced.bounded
    have hindex : slotIndex (slotToken i)=some i := slotIndex_slotToken (by omega)
    have hfound := entry_found h.batchKeys hentry
    rw [hid] at hfound
    have hbatch : entry.2.items[i]?=some p.start.input.items[i] := by
      rw [hkeeping.items]
      exact hitem
    have hkept : entry.2.paths[i]?=some (some p.paths[i]) :=
      hkeeping.kept i _ hpath (by rw [hpid]; exact hgone)
    unfold JobExecutors.source
    simp only [harchive,hindex,hfound,hbatch,hkept,hname,htotal,takeOut,ne_eq,not_true_eq_false,
      or_self,if_false,Option.bind_eq_bind,Option.bind_some,hid]
    rfl

variable {start : Start} {s : System} {offered : List Start}

theorem active_before (h : Intake offered s) {event : JobScheduler.Event} {d' : Database}
    (hrows : RowStep r s event d') (hstart : start ∈ offered) {row' : OperationHeader}
    (hrow' : lookup (·.identity.id) start.input.id d'.operations=some row')
    (hactive : isTerminal row'.state=false) : Needed s start := by
  rcases hrows with hrows | ⟨-,other,at_,id,stopping,-,hc,hcreated,-⟩
  · obtain ⟨row,hrow,hr⟩ :=
      lookup_related_back (fun _ _ hr => hr.id) hrows.operations row' hrow'
    refine .inr ⟨row,hrow,?_⟩
    cases hterminal : isTerminal row.state with
    | false => rfl
    | true =>
      rw [hr.closed hterminal,hterminal] at hactive
      cases hactive
  · have hde : deciding s.coordinator=some other := by
      rw [hc]
      rfl
    by_cases hid : other.input.id=start.input.id
    · have hsame : other=start :=
        List.inj_on_of_nodup_map h.keys (h.undecided other (.inr hde)) hstart hid
      exact .inl (.inr (hsame ▸ hde))
    · obtain ⟨total,createdAt,hoperations⟩ := hcreated.operations
      rw [hoperations,lookup,List.find?_append] at hrow'
      have hlast : List.find? (fun row : OperationHeader => row.identity.id=start.input.id)
          [newHeader r.session.inputs other.input total createdAt]=none := by
        rw [List.find?_singleton]
        exact if_neg fun he => hid (of_decide_eq_true he)
      rw [hlast,Option.or_none] at hrow'
      exact .inr ⟨row',hrow',hactive⟩

theorem terminal_later {d d' : Database} {id : String} (h : terminal d id=true)
    (hd : Later d d') : terminal d' id=true := by
  unfold terminal at h ⊢
  obtain ⟨row,hrow,hstate⟩ := (Option.any_eq_true _ _).mp h
  obtain ⟨row',hrow',-,hsame⟩ := hd.operations id row hrow
  rw [hrow',hsame hstate,Option.any_some]
  exact hstate

theorem rowStep_later {event : JobScheduler.Event} {d' : Database} (h : RowStep r s event d') :
    Later s.rows d' := by
  rcases h with h | ⟨_,_,_,_,_,_,_,h,_⟩
  · exact changes_later h
  · exact created_later h

/-- A step of the scheduler keeps what is known of the entries. -/
theorem Tables.moves (h : Tables env w) (hi : Intake w.offered w.scheduler)
    (event : JobScheduler.Event) {s' : System} (hrows : RowStep r w.scheduler event s'.rows)
    (hundecided : ∀ start, Undecided s' start → Undecided w.scheduler start)
    (hwaiting : ∀ work ∈ worksBy unexecuted s', work ∈ worksBy unexecuted w.scheduler ∨
      ¬Begun w.scheduler.rows work.item.identity.id) : Tables env {w with scheduler := s'} := by
  have hlater := rowStep_later hrows
  constructor
  · exact h.batchKeys
  · exact h.planKeys
  · exact h.picked
  · exact h.pickedKeys
  · exact h.imports
  · exact h.batches
  · exact h.plans
  · intro start hstart hneeded
    refine h.present start hstart ?_
    rcases hneeded with hu | ⟨row,hrow,hactive⟩
    · exact .inl (hundecided start hu)
    · exact active_before hi hrows hstart hrow hactive
  · intro given hgiven
    obtain ⟨p,hp,hid,hpath,row,hrow,hitem⟩ := h.handed given hgiven
    obtain ⟨row',hrow',hsame⟩ := step_slots hrows hrow
    exact ⟨p,hp,hid,hpath,row',hrow',hsame.trans hitem⟩
  · exact h.once
  · intro given hgiven
    exact begun_later (h.begun given hgiven) hlater
  · intro given hgiven work hwork
    rcases hwaiting work hwork with hold | hnot
    · exact h.waiting given hgiven work hold
    · intro he
      exact hnot (he ▸ h.begun given hgiven)
  · intro work hwork
    exact terminal_later (h.lacking work hwork) hlater

theorem nextPending_waiting {lost : Bool} {excluded : List ℤ} {d : Database} (hd : Accounted d)
    (h : nextPending r lost excluded d=.known (some work)) : ¬Begun d work.item.identity.id := by
  obtain ⟨operation,item,hmem,-,hitem⟩ := nextPending_found h
  obtain ⟨hstored,-,-,hpending,-⟩ := pendingItems_found hmem
  have hkey : work.item.identity.id=item.identity.id := (lookup_mem hitem).2
  rintro ⟨row,hrow,hstate⟩
  have hl := lookup_of_mem hd.itemKeys hstored
  rw [hkey,hl] at hrow
  exact hstate (Option.some.inj hrow ▸ hpending)

theorem Tables.coordinatorStep (h : Tables env w) (hi : Intake w.offered w.scheduler)
    (ht : Tracked r w.scheduler) (a : Answer) :
    Tables env {w with scheduler := coordinatorStep r a w.scheduler} := by
  refine h.moves hi (.coordinator a) (coordinatorStep_rows a w.scheduler)
    (fun start hu => coordinatorStep_undecided a hu) ?_
  intro work hwork
  rcases coordinatorStep_worksBy unexecuted a work hwork with hold | ⟨excluded,hread⟩
  · exact .inl hold
  · exact .inr (nextPending_waiting ht.accounted hread)

theorem Tables.schedulerWorker (h : Tables env w) (hi : Intake w.offered w.scheduler) (a : Answer)
    {index : ℕ} {worker : Worker} (hworker : w.scheduler.workers[index]?=some worker) :
    Tables env {w with scheduler := JobScheduler.workerStep r a w.scheduler index worker} := by
  obtain ⟨hcoordinator,-⟩ := workerStep_frame (r:=r) a w.scheduler index worker
  obtain ⟨-,hingress,-,-⟩ := workerStep_intake (r:=r) a w.scheduler index worker
  refine h.moves (r:=r) hi (.worker index a) (.inl (workerStep_rows a hworker)) ?_ ?_
  · rintro start (hin | hde)
    · exact .inl (hingress.symm.trans hin)
    · rw [hcoordinator] at hde
      exact .inr hde
  · intro work hwork
    exact .inl (workerStep_worksBy (fun h => h.2) (fun _ _ => rfl) rfl a hworker work hwork)

theorem takeOut_keeping {handed : List Handed} {entry : String×Batch} (h : Keeping handed p entry.2)
    (hid : p.start.input.id=entry.1) {item : ℤ} {path : OperationPath} :
    Keeping (⟨entry.1,index,item,path⟩::handed) p
      {entry.2 with paths := entry.2.paths.set index none} := by
  constructor
  · exact h.items
  · exact h.bytes
  · intro i other hi hgone
    have hne : index≠i := by
      intro he
      exact hgone ⟨_,List.mem_cons_self,hid.symm,he⟩
    rw [List.getElem?_set_ne hne]
    refine h.kept i other hi ?_
    rintro ⟨given,hgiven,hmatch⟩
    exact hgone ⟨given,List.mem_cons_of_mem _ hgiven,hmatch⟩
  · rintro i ⟨given,hgiven,hoperation,hindex⟩ other hother
    by_cases hne : index=i
    · rw [hne,List.getElem?_set_self'] at hother
      cases hat : entry.2.paths[i]? with
      | none =>
        rw [hat] at hother
        cases hother
      | some kept =>
        rw [hat] at hother
        cases hother
    · rw [List.getElem?_set_ne hne] at hother
      rcases List.mem_cons.mp hgiven with rfl | hold
      · exact hne hindex
      · exact h.gone i ⟨given,hold,hoperation,hindex⟩ other hother

/-- A path goes to the item of its slot. -/
theorem Tables.hand (h : Tables env w) {entry : String×Batch} (hentry : entry ∈ w.batches)
    {p : Preparation} (hp : p ∈ w.picked) (hid : p.start.input.id=entry.1) {index : ℕ}
    {path : OperationPath} (hpath : p.paths[index]?=some path)
    (hgone : ¬Gone w.handed entry.1 index) {row : OperationItem}
    (hrow : (itemsOf w.scheduler.rows entry.1)[index]?=some row) {item : ℤ}
    (hitem : row.identity.id=item) (hbegun : Begun w.scheduler.rows item)
    (hwaiting : ∀ work ∈ worksBy unexecuted w.scheduler, work.item.identity.id≠item) :
    Tables env {w with
      batches := takeOut w.batches entry index
      handed := ⟨entry.1,index,item,path⟩::w.handed} := by
  have hkeys : (takeOut w.batches entry index).map (·.1)=w.batches.map (·.1) := by
    rw [takeOut,List.map_map]
    refine List.map_congr_left ?_
    intro other _
    dsimp only [Function.comp_apply]
    split
    · next he => exact he.symm
    · rfl
  constructor
  · rw [hkeys]
    exact h.batchKeys
  · exact h.planKeys
  · exact h.picked
  · exact h.pickedKeys
  · exact h.imports
  · intro other hother
    obtain ⟨old,hold,rfl⟩ := List.mem_map.mp hother
    obtain ⟨q,hq,hqid,hkeeping⟩ := h.batches old hold
    by_cases he : old.1=entry.1
    · rw [if_pos he]
      have hsame : q=p := picked_unique h hq hp (hqid.trans (he.trans hid.symm))
      have hown : old=entry := List.inj_on_of_nodup_map h.batchKeys hold hentry he
      subst hsame hown
      exact ⟨q,hq,hqid,takeOut_keeping hkeeping hqid⟩
    · rw [if_neg he]
      refine ⟨q,hq,hqid,hkeeping.items,hkeeping.bytes,?_,?_⟩
      · intro i kept hi hnot
        refine hkeeping.kept i kept hi ?_
        rintro ⟨given,hgiven,hmatch⟩
        exact hnot ⟨given,List.mem_cons_of_mem _ hgiven,hmatch⟩
      · rintro i ⟨given,hgiven,hoperation,hindex⟩
        rcases List.mem_cons.mp hgiven with rfl | hbefore
        · exact absurd (hqid.symm.trans hoperation.symm) he
        · exact hkeeping.gone i ⟨given,hbefore,hoperation,hindex⟩
  · exact h.plans
  · intro start hstart hneeded
    have hpresent := h.present start hstart hneeded
    unfold Entry at hpresent ⊢
    cases hkind : start.input.kind with
    | metadataSync => exact trivial
    | «export» =>
      rw [hkind] at hpresent
      exact hpresent
    | «import» =>
      rw [hkind] at hpresent
      obtain ⟨batch,hbatch,hitems⟩ := hpresent
      by_cases he : start.input.id=entry.1
      · have hown : (start.input.id,batch)=entry :=
          List.inj_on_of_nodup_map h.batchKeys hbatch hentry he
        refine ⟨{batch with paths := batch.paths.set index none},?_,hitems⟩
        refine List.mem_map.mpr ⟨_,hbatch,?_⟩
        rw [if_pos he,←hown]
      · refine ⟨batch,?_,hitems⟩
        refine List.mem_map.mpr ⟨_,hbatch,?_⟩
        rw [if_neg he]
  · intro given hgiven
    rcases List.mem_cons.mp hgiven with rfl | hold
    · exact ⟨p,hp,hid,hpath,row,hrow,hitem⟩
    · exact h.handed given hold
  · rw [List.map_cons,List.nodup_cons]
    refine ⟨?_,h.once⟩
    intro hmem
    obtain ⟨given,hgiven,he⟩ := List.mem_map.mp hmem
    exact hgone ⟨given,hgiven,congrArg Prod.fst he,congrArg Prod.snd he⟩
  · intro given hgiven
    rcases List.mem_cons.mp hgiven with rfl | hold
    · exact hbegun
    · exact h.begun given hold
  · intro given hgiven
    rcases List.mem_cons.mp hgiven with rfl | hold
    · exact hwaiting
    · exact h.waiting given hold
  · exact h.lacking

/-- What is not executed is between its read and its release. -/
theorem unexecuted_works (h : work ∈ worksBy unexecuted s) : work ∈ works s := by
  unfold works worksBy at *
  rcases List.mem_append.mp h with h | h
  · exact List.mem_append_left _ h
  apply List.mem_append_right
  rcases List.mem_append.mp h with h | h
  · exact List.mem_append_left _ h
  apply List.mem_append_right
  obtain ⟨worker,hworker,hplace⟩ := List.mem_filterMap.mp h
  refine List.mem_filterMap.mpr ⟨worker,hworker,?_⟩
  cases worker <;> first | exact hplace | cases hplace

theorem started_unexecuted (hworker : s.workers[index]?=some (.started work)) :
    work ∈ worksBy unexecuted s :=
  List.mem_append_right _ (List.mem_append_right _
    (List.mem_filterMap.mpr ⟨_,List.mem_of_getElem? hworker,rfl⟩))

theorem executed_apart {s : System} (hexact : Exact r s) (hplace : Place r s) {a : Answer}
    {index : ℕ} {work : WorkItem} (hworker : s.workers[index]?=some (.started work)) :
    ∀ other ∈ worksBy unexecuted (JobScheduler.workerStep r a s index (.started work)),
      other.item.identity.id≠work.item.identity.id := by
  obtain ⟨hlt,hget⟩ := List.getElem?_eq_some_iff.mp hworker
  have hheld : s.held.Perm (work::(s.workers.eraseIdx index).filterMap Worker.held) := by
    have hperm := (List.getElem_cons_eraseIdx_perm hlt).symm.filterMap Worker.held
    rw [hget] at hperm
    exact hperm
  have howned : (s.state.inflight.map (·.item)).Perm (work.item.identity.id::
      itemIds (s.state.queue++(s.workers.eraseIdx index).filterMap Worker.held)) :=
    hexact.owned.trans (((hheld.append_left _).trans List.perm_middle).map _)
  have hnot := (List.nodup_cons.mp (howned.nodup_iff.mp hexact.distinct)).1
  obtain ⟨hcoordinator,-⟩ := workerStep_frame (r:=r) a s index (.started work)
  intro other hother
  unfold worksBy at hother
  rw [hcoordinator] at hother
  rcases List.mem_append.mp hother with hwaiting | hother
  · have hfresh : ∀ entry ∈ s.state.inflight, entry.item≠other.item.identity.id := by
      unfold Place at hplace
      revert hplace hwaiting
      cases s.coordinator with
      | observing _ _ =>
        intro hplace hwaiting
        rw [List.mem_singleton.mp hwaiting]
        exact hplace.2
      | queueing _ _ =>
        intro hplace hwaiting
        rw [List.mem_singleton.mp hwaiting]
        exact hplace.2
      | _ =>
        intro _ hwaiting
        cases hwaiting
    have hinflight : work.item.identity.id ∈ s.state.inflight.map (·.item) :=
      howned.mem_iff.mpr List.mem_cons_self
    obtain ⟨entry,hentry,he⟩ := List.mem_map.mp hinflight
    intro hsame
    exact hfresh entry hentry (he.trans hsame.symm)
  · intro hsame
    rcases workerStep_moves (r:=r) a s index (.started work) with
      ⟨-,-,hnot⟩ | ⟨next,hworkers,hqueue,-,hnone⟩ | ⟨_,_,_,_,_,_,_,hidle⟩
    · exact hnot work rfl
    · rw [hworkers,hqueue] at hother
      apply hnot
      rw [←hsame]
      refine List.mem_map_of_mem (f:=fun work : WorkItem => work.item.identity.id) ?_
      rcases List.mem_append.mp hother with hother | hother
      · exact List.mem_append_left _ hother
      apply List.mem_append_right
      obtain ⟨worker,hmem,hplace'⟩ := List.mem_filterMap.mp hother
      have hcons := (List.set_perm_cons_eraseIdx hlt next).mem_iff.mp hmem
      rcases List.mem_cons.mp hcons with rfl | hrest
      · rw [hnone work rfl] at hplace'
        cases hplace'
      · refine List.mem_filterMap.mpr ⟨worker,hrest,?_⟩
        cases worker <;> first | exact hplace' | cases hplace'
    · cases hidle

/-- What is known of a session of the desktop. -/
structure Sound (env : ImportEnv) (r : Runtime) (w : World) : Prop where
  exact : Exact r w.scheduler
  place : Place r w.scheduler
  tracked : Tracked r w.scheduler
  intake : Intake w.offered w.scheduler
  tables : Tables env w

theorem Sound.entry (h : Sound env r w) {work : WorkItem} (hwork : work ∈ w.scheduler.held) :
    terminal w.scheduler.rows work.operation.identity.id=true ∨ ∃ start ∈ w.offered,
      start.input.id=work.operation.identity.id ∧ start.input.kind=work.operation.kind ∧
      Entry env w start := by
  have hmem : work ∈ works w.scheduler :=
    List.mem_append_right _ (List.mem_append_right _ hwork)
  obtain ⟨row,hrow,hscope⟩ := (h.tracked.known work hmem).operation
  cases hterminal : isTerminal row.state with
  | true =>
    left
    unfold terminal
    rw [hrow,Option.any_some]
    exact hterminal
  | false =>
    right
    have hready : w.scheduler.state.ready=true := by
      cases hr : w.scheduler.state.ready with
      | true => rfl
      | false =>
        have hempty := (h.exact.empty (h.tracked.quiet hr).2.1).2
        rw [hempty] at hwork
        cases hwork
    obtain ⟨hstored,hkey⟩ := lookup_mem hrow
    obtain ⟨start,hstart,hid⟩ := h.intake.known hready row hstored hterminal
    have hoperation : start.input.id=work.operation.identity.id := hid.trans hkey
    rw [←hoperation] at hrow
    obtain ⟨hkind,-⟩ := h.intake.rows start hstart row hrow
    have hkinds : row.kind=work.operation.kind := congrArg OperationScope.kind hscope
    exact ⟨start,hstart,hoperation,hkind.symm.trans hkinds,
      h.tables.present start hstart (.inr ⟨row,hrow,hterminal⟩)⟩

/-- A started item of an import with a batch gets the path of its slot, which is not gone. -/
theorem Sound.source (h : Sound env r w) {index : ℕ} {work : WorkItem}
    (hworker : w.scheduler.workers[index]?=some (.started work)) {entry : String×Batch}
    (hentry : entry ∈ w.batches) (hid : entry.1=work.operation.identity.id) :
    ∃ p ∈ w.picked, ∃ (i : ℕ) (path : OperationPath) (row : OperationItem),
      p.start.input.id=entry.1 ∧ p.paths[i]?=some path ∧
      (itemsOf w.scheduler.rows entry.1)[i]?=some row ∧
      row.identity.id=work.item.identity.id ∧ ¬Gone w.handed entry.1 i ∧
      JobExecutors.source w.batches work=some (i,path,takeOut w.batches entry i) := by
  have hunexecuted := started_unexecuted hworker
  obtain ⟨p,hp,i,path,row,hpid,hpath,hrow,hitem,hsource⟩ :=
    source_kept h.tables h.intake h.tracked (unexecuted_works hunexecuted) hentry hid
  have hgone : ¬Gone w.handed entry.1 i := by
    rintro ⟨given,hgiven,hoperation,hindex⟩
    obtain ⟨q,-,-,-,row',hrow',hitem'⟩ := h.tables.handed given hgiven
    rw [hoperation,hindex,hrow] at hrow'
    have hsame : work.item.identity.id=given.item := by
      rw [←hitem,Option.some.inj hrow']
      exact hitem'
    exact h.tables.waiting given hgiven work hunexecuted hsame
  exact ⟨p,hp,i,path,row,hpid,hpath,hrow,hitem,hgone,hsource hgone⟩

/-- An execution without its entry is noted. -/
theorem Tables.lack (h : Tables env w) {work : WorkItem}
    (hterminal : terminal w.scheduler.rows work.operation.identity.id=true) :
    Tables env {w with lacking := work::w.lacking} := by
  refine ⟨h.batchKeys,h.planKeys,h.picked,h.pickedKeys,h.imports,h.batches,h.plans,h.present,
    h.handed,h.once,h.begun,h.waiting,?_⟩
  intro other hother
  rcases List.mem_cons.mp hother with rfl | hold
  · exact hterminal
  · exact h.lacking other hold

theorem workerStep_scheduler (w : World) (index : ℕ) (a : Answer) :
    ∃ b, (JobExecutors.workerStep r w index a).scheduler=
      JobScheduler.step r w.scheduler (.worker index b) ∧
      (JobExecutors.workerStep r w index a).offered=w.offered := by
  unfold JobExecutors.workerStep
  cases hworker : w.scheduler.workers[index]? with
  | none =>
    refine ⟨a,?_,rfl⟩
    simp only [JobScheduler.step,hworker]
  | some worker =>
    cases worker with
    | started work =>
      dsimp only
      split
      · refine ⟨a,?_,rfl⟩
        simp only [JobScheduler.step,hworker]
      · refine ⟨{a with execution := (execute w work).2.getD a.execution},?_,?_⟩
        · simp only [JobScheduler.step,hworker]
        · unfold execute
          split
          · rfl
          · split <;> rfl
          · split <;> rfl
    | _ =>
      refine ⟨a,?_,rfl⟩
      simp only [JobScheduler.step,hworker]

theorem Sound.workerStep (h : Sound env r w) (index : ℕ) (a : Answer) :
    Tables env (JobExecutors.workerStep r w index a) := by
  unfold JobExecutors.workerStep
  cases hworker : w.scheduler.workers[index]? with
  | none => exact h.tables
  | some worker =>
    have hmove := fun b => h.tables.schedulerWorker (r:=r) h.intake b hworker
    cases worker with
    | started work =>
      dsimp only
      split
      · exact hmove a
      have hheld : work ∈ w.scheduler.held :=
        List.mem_filterMap.mpr ⟨_,List.mem_of_getElem? hworker,rfl⟩
      have hrows := fun b => workerStep_rows (r:=r) b hworker
      have hlater := fun b => changes_later (hrows b)
      have hlack : ∀ b, terminal w.scheduler.rows work.operation.identity.id=true →
          Tables env {w with
            scheduler := JobScheduler.workerStep r b w.scheduler index (.started work)
            lacking := work::w.lacking} := by
        intro b hterminal
        exact (hmove b).lack (terminal_later hterminal (hlater b))
      have hentry := h.entry hheld
      unfold execute
      cases hkind : work.operation.kind with
      | metadataSync => exact hmove _
      | «export» =>
        dsimp only
        split
        · exact hmove _
        · next hnone =>
          apply hlack
          rcases hentry with hterminal | ⟨start,-,hid,hsame,hthere⟩
          · exact hterminal
          · exfalso
            unfold Entry at hthere
            rw [hsame,hkind] at hthere
            obtain ⟨plan,hplan,-⟩ := hthere
            exact hnone (List.any_eq_true.mpr ⟨_,hplan,decide_eq_true hid⟩)
      | «import» =>
        dsimp only
        cases hfind : w.batches.find? (fun entry => entry.1=work.operation.identity.id) with
        | none =>
          have hsource : JobExecutors.source w.batches work=none := by
            unfold JobExecutors.source
            cases work.item.archiveRelativePath with
            | none => rfl
            | some token =>
              cases hs : slotIndex token with
              | none => simp only [Option.bind_eq_bind,Option.bind_some,hs,Option.bind_none]
              | some slot =>
                simp only [Option.bind_eq_bind,Option.bind_some,hs,hfind,Option.bind_none]
          rw [hsource]
          apply hlack
          rcases hentry with hterminal | ⟨start,-,hid,hsame,hthere⟩
          · exact hterminal
          · exfalso
            unfold Entry at hthere
            rw [hsame,hkind] at hthere
            obtain ⟨batch,hbatch,-⟩ := hthere
            exact List.find?_eq_none.mp hfind _ hbatch (decide_eq_true hid)
        | some entry =>
          have hmem := List.mem_of_find?_eq_some hfind
          have hid : entry.1=work.operation.identity.id := by
            have hfound := List.find?_some hfind
            exact of_decide_eq_true hfound
          obtain ⟨p,hp,i,path,row,hpid,hpath,hrow,hitem,hgone,hsource⟩ :=
            h.source hworker hmem hid
          rw [hsource]
          dsimp only
          rw [←hid]
          obtain ⟨row',hrow',hitem'⟩ := step_slots (r:=r) (.inl (hrows _)) hrow
          refine (hmove _).hand hmem hp hpid hpath hgone hrow' (hitem'.trans hitem) ?_ ?_
          · exact begun_later (h.tracked.workers _ (List.mem_of_getElem? hworker)) (hlater _)
          · exact executed_apart h.exact h.place hworker
    | _ => exact hmove a

theorem needed_active (h : Intake offered s) (hneeded : Needed s start) :
    terminal s.rows start.input.id=false := by
  unfold terminal
  cases hrow : lookup (·.identity.id) start.input.id s.rows.operations with
  | none => rfl
  | some row =>
    rw [Option.any_some]
    rcases hneeded with hu | ⟨other,hother,hactive⟩
    · exact h.active start hu row hrow
    · rw [hrow] at hother
      rw [Option.some.inj hother]
      exact hactive

/-- Removing entries keeps their ids distinct. -/
theorem filter_keys (h : (entries.map (·.1)).Nodup) (keep : String×α → Bool) :
    ((entries.filter keep).map (·.1)).Nodup :=
  h.sublist (List.filter_sublist.map _)

theorem prune_needed (h : Intake offered s) (hneeded : Needed s start) (unread : String → Bool)
    {value : α} (hentry : (start.input.id,value) ∈ entries) :
    (start.input.id,value) ∈ prune unread s.rows entries := by
  refine List.mem_filter.mpr ⟨hentry,?_⟩
  rw [needed_active h hneeded,Bool.not_false,Bool.or_true]

theorem Tables.pruneImports (h : Tables env w) (hi : Intake w.offered w.scheduler)
    (unread : String → Bool) :
    Tables env {w with batches := prune unread w.scheduler.rows w.batches} := by
  refine ⟨filter_keys h.batchKeys _,h.planKeys,h.picked,h.pickedKeys,h.imports,?_,h.plans,?_,
    h.handed,h.once,h.begun,h.waiting,h.lacking⟩
  · intro entry hentry
    exact h.batches entry (List.mem_filter.mp hentry).1
  · intro start hstart hneeded
    have hthere := h.present start hstart hneeded
    unfold Entry at hthere ⊢
    cases hkind : start.input.kind with
    | metadataSync => exact trivial
    | «export» =>
      rw [hkind] at hthere
      exact hthere
    | «import» =>
      rw [hkind] at hthere
      obtain ⟨batch,hbatch,hitems⟩ := hthere
      exact ⟨batch,prune_needed hi hneeded unread hbatch,hitems⟩

theorem Tables.removePlans (h : Tables env w) (keep : String×Prepared → Bool)
    (hkeep : ∀ start ∈ w.offered, Needed w.scheduler start → ∀ plan,
      (start.input.id,plan) ∈ w.plans → keep (start.input.id,plan)=true) :
    Tables env {w with plans := w.plans.filter keep} := by
  refine ⟨h.batchKeys,filter_keys h.planKeys _,h.picked,h.pickedKeys,h.imports,h.batches,?_,?_,
    h.handed,h.once,h.begun,h.waiting,h.lacking⟩
  · intro entry hentry
    exact h.plans entry (List.mem_filter.mp hentry).1
  · intro start hstart hneeded
    have hthere := h.present start hstart hneeded
    unfold Entry at hthere ⊢
    cases hkind : start.input.kind with
    | metadataSync => exact trivial
    | «import» =>
      rw [hkind] at hthere
      exact hthere
    | «export» =>
      rw [hkind] at hthere
      obtain ⟨plan,hplan,hinput⟩ := hthere
      exact ⟨plan,List.mem_filter.mpr ⟨hplan,hkeep start hstart hneeded plan hplan⟩,hinput⟩

theorem filter_last {α : Type} {entries : List (String×α)} {id : String} {value : α}
    (h : ∀ entry ∈ entries, entry.1≠id) :
    (entries++[(id,value)]).filter (fun entry => entry.1≠id)=entries := by
  rw [List.filter_append,List.filter_eq_self.mpr fun entry hentry => decide_eq_true
    (h entry hentry)]
  simp

theorem hasRoom_fresh {α : Type} {limit budget bytes : ℕ} {bytesOf : α → ℕ}
    {entries : List (String×α)} {id : String}
    (h : hasRoom limit budget bytesOf entries id bytes=true) : ∀ entry ∈ entries, entry.1≠id := by
  unfold hasRoom at h
  simp only [Bool.and_eq_true,Bool.not_eq_true',List.any_eq_false,decide_eq_true_eq] at h
  exact h.2

theorem offerImport_cases (contended : Bool) (p : Preparation) (w : World) :
    offerImport contended p w=(w,some (.busy,p)) ∨ ∃ state,
      offerImport contended p w=({w with
        scheduler := {w.scheduler with state := state}
        batches := w.batches++[(p.start.input.id,p.batch)]
        offered := p.start::w.offered
        picked := p::w.picked},none) ∧
      tryStart contended p.start w.scheduler.state=.ok state ∧ importRoom w p=true := by
  unfold offerImport
  dsimp only
  split
  · next hroom =>
    have hfresh := hasRoom_fresh hroom
    cases htry : tryStart contended p.start w.scheduler.state with
    | ok state => exact .inr ⟨state,rfl,rfl,hroom⟩
    | error refusal =>
      left
      have hfind : (w.batches++[(p.start.input.id,p.batch)]).find?
          (fun entry => entry.1=p.start.input.id)=some (p.start.input.id,p.batch) := by
        have hnone : w.batches.find? (fun entry => entry.1=p.start.input.id)=none :=
          List.find?_eq_none.mpr fun entry hentry he =>
            hfresh entry hentry (of_decide_eq_true he)
        rw [List.find?_append,hnone,Option.none_or,List.find?_singleton]
        exact if_pos (decide_eq_true rfl)
      dsimp only
      rw [filter_last hfresh,hfind,Option.map_some,Option.getD_some]
      have hpaths : p.batch.paths.reduceOption=p.paths := by
        change (p.paths.map some).reduceOption=p.paths
        rw [List.reduceOption,List.filterMap_map]
        exact List.filterMap_some
      rw [hpaths]
  · exact .inl rfl

variable {contended : Bool} {state : State}

theorem needed_offered (hok : tryStart contended start s.state=.ok state) {other : Start}
    (h : Needed {s with state := state} other) : other=start ∨ Needed s other := by
  obtain ⟨rfl,-⟩ := tryStart_ok hok
  rcases h with (hin | hde) | hactive
  · exact .inl (Option.some.inj hin).symm
  · exact .inr (.inl (.inr hde))
  · exact .inr (.inr hactive)

theorem tryStart_frame (hok : tryStart contended start s.state=.ok state) :
    worksBy unexecuted {s with state := state}=worksBy unexecuted s := by
  obtain ⟨rfl,-⟩ := tryStart_ok hok
  rfl

theorem entry_beside {w' : World} (hbatches : ∀ entry ∈ w.batches, entry ∈ w'.batches)
    (hplans : ∀ entry ∈ w.plans, entry ∈ w'.plans) (h : Entry env w start) :
    Entry env w' start := by
  unfold Entry at h ⊢
  cases hkind : start.input.kind with
  | metadataSync => exact trivial
  | «import» =>
    rw [hkind] at h
    obtain ⟨batch,hbatch,hitems⟩ := h
    exact ⟨batch,hbatches _ hbatch,hitems⟩
  | «export» =>
    rw [hkind] at h
    obtain ⟨plan,hplan,hinput⟩ := h
    exact ⟨plan,hplans _ hplan,hinput⟩

/-- Adding an entry under a fresh id keeps the ids distinct. -/
theorem append_keys (h : (entries.map (·.1)).Nodup) {value : α}
    (hfresh : ∀ entry ∈ entries, entry.1≠id) : ((entries++[(id,value)]).map (·.1)).Nodup := by
  rw [List.map_append,List.nodup_append]
  refine ⟨h,List.nodup_singleton _,?_⟩
  intro key hkey other hother he
  obtain ⟨entry,hentry,rfl⟩ := List.mem_map.mp hkey
  rw [List.map_singleton,List.mem_singleton] at hother
  exact hfresh entry hentry (he.trans hother)

/-- An import that is handed over keeps what is known of the entries. -/
theorem Tables.takeImport (h : Tables env w) (hp : Sliced p)
    (hok : tryStart contended p.start w.scheduler.state=.ok state) (hroom : importRoom w p=true)
    (hfresh : Fresh w.offered w.scheduler p.start.input.id) :
    Tables env {w with
      scheduler := {w.scheduler with state := state}
      batches := w.batches++[(p.start.input.id,p.batch)]
      offered := p.start::w.offered
      picked := p::w.picked} := by
  have hpicked : ∀ q ∈ w.picked, q.start.input.id≠p.start.input.id := fun q hq =>
    hfresh.1 q.start (h.picked q hq).1
  have hgone : ∀ i, ¬Gone w.handed p.start.input.id i := by
    rintro i ⟨given,hgiven,hoperation,-⟩
    obtain ⟨q,hq,hid,-⟩ := h.handed given hgiven
    exact hpicked q hq (hid.trans hoperation)
  constructor
  · exact append_keys h.batchKeys (hasRoom_fresh hroom)
  · exact h.planKeys
  · intro q hq
    rcases List.mem_cons.mp hq with rfl | hold
    · exact ⟨List.mem_cons_self,hp⟩
    · exact ⟨List.mem_cons_of_mem _ (h.picked q hold).1,(h.picked q hold).2⟩
  · rw [List.map_cons,List.nodup_cons]
    refine ⟨?_,h.pickedKeys⟩
    intro hmem
    obtain ⟨q,hq,hid⟩ := List.mem_map.mp hmem
    exact hpicked q hq hid
  · intro start hstart hkind
    rcases List.mem_cons.mp hstart with rfl | hold
    · exact ⟨p,List.mem_cons_self,rfl⟩
    · obtain ⟨q,hq,he⟩ := h.imports start hold hkind
      exact ⟨q,List.mem_cons_of_mem _ hq,he⟩
  · intro entry hentry
    rcases List.mem_append.mp hentry with hold | hnew
    · obtain ⟨q,hq,hid,hkeeping⟩ := h.batches entry hold
      exact ⟨q,List.mem_cons_of_mem _ hq,hid,hkeeping⟩
    · rw [List.mem_singleton.mp hnew]
      refine ⟨p,List.mem_cons_self,rfl,rfl,rfl,?_,?_⟩
      · intro i path hi _
        change (p.paths.map some)[i]?=some (some path)
        rw [List.getElem?_map,hi]
        rfl
      · intro i hg
        exact absurd hg (hgone i)
  · intro entry hentry
    obtain ⟨start,hstart,hmatch⟩ := h.plans entry hentry
    exact ⟨start,List.mem_cons_of_mem _ hstart,hmatch⟩
  · intro start hstart hneeded
    by_cases hsame : start=p.start
    · subst hsame
      unfold Entry
      rw [hp.kind]
      exact ⟨p.batch,List.mem_append_right _ (List.mem_singleton.mpr rfl),rfl⟩
    · have hold : start ∈ w.offered := (List.mem_cons.mp hstart).resolve_left hsame
      have hbefore := (needed_offered hok hneeded).resolve_left hsame
      exact entry_beside (fun _ hentry => List.mem_append_left _ hentry) (fun _ he => he)
        (h.present start hold hbefore)
  · intro given hgiven
    obtain ⟨q,hq,hrest⟩ := h.handed given hgiven
    exact ⟨q,List.mem_cons_of_mem _ hq,hrest⟩
  · exact h.once
  · exact h.begun
  · dsimp only
    rw [tryStart_frame hok]
    exact h.waiting
  · exact h.lacking

/-- A start that brings no picked files keeps what is known of the entries. -/
theorem Tables.takeStart (h : Tables env w)
    (hok : tryStart contended start w.scheduler.state=.ok state) (hkind : start.input.kind≠.import)
    {plans : List (String×Prepared)} {exports : Registry}
    (hplans : ∀ entry ∈ w.plans, entry ∈ plans) (hkeys : (plans.map (·.1)).Nodup)
    (howned : ∀ entry ∈ plans, entry ∈ w.plans ∨ start.input.id=entry.1 ∧
      operationInput env.toStartEnv entry.2 entry.1=.ok start.input)
    (hentry : Entry env {w with plans := plans} start) :
    Tables env {w with
      scheduler := {w.scheduler with state := state}
      plans := plans
      exports := exports
      offered := start::w.offered} := by
  constructor
  · exact h.batchKeys
  · exact hkeys
  · intro q hq
    exact ⟨List.mem_cons_of_mem _ (h.picked q hq).1,(h.picked q hq).2⟩
  · exact h.pickedKeys
  · intro other hother hother'
    rcases List.mem_cons.mp hother with rfl | hold
    · exact absurd hother' hkind
    · exact h.imports other hold hother'
  · exact h.batches
  · intro entry hmem
    rcases howned entry hmem with hold | hnew
    · obtain ⟨other,hother,hmatch⟩ := h.plans entry hold
      exact ⟨other,List.mem_cons_of_mem _ hother,hmatch⟩
    · exact ⟨start,List.mem_cons_self,hnew⟩
  · intro other hother hneeded
    by_cases hsame : other=start
    · subst hsame
      exact hentry
    · have hold : other ∈ w.offered := (List.mem_cons.mp hother).resolve_left hsame
      have hbefore := (needed_offered hok hneeded).resolve_left hsame
      exact entry_beside (w:=w) (fun _ he => he) hplans (h.present other hold hbefore)
  · exact h.handed
  · exact h.once
  · exact h.begun
  · dsimp only
    rw [tryStart_frame hok]
    exact h.waiting
  · exact h.lacking

/-- An export is handed over with its plan, or refused and the table of plans is as before. -/
theorem offerExport_cases (contended : Bool) (preparation : ℕ) (id : String)
    (library : ExportScopes.Library) (intents : List ℤ) (revalidated : Bool) (w : World) :
    (∃ exports error, offerExport env.toStartEnv contended preparation id library intents
      revalidated w=({w with exports := exports},.error error)) ∨
    ∃ exports plan start state, offerExport env.toStartEnv contended preparation id library
      intents revalidated w=({w with
        scheduler := {w.scheduler with state := state}
        plans := w.plans++[(id,plan)]
        exports := exports
        offered := start::w.offered},.ok ()) ∧
      tryStart contended start w.scheduler.state=.ok state ∧
      operationInput env.toStartEnv plan id=.ok start.input ∧
      (∀ entry ∈ w.plans, entry.1≠id) := by
  unfold offerExport
  split
  · exact .inl ⟨w.exports,_,rfl⟩
  next preview hpreview =>
  split
  · next hroom =>
    have hfresh := hasRoom_fresh hroom
    dsimp only
    split
    · exact .inl ⟨_,_,rfl⟩
    next plan hplan =>
    split
    · exact .inl ⟨_,_,rfl⟩
    next input hinput =>
    split
    · exact .inl ⟨_,_,rfl⟩
    next start hstart =>
    have hsame : start.input=input := by
      unfold Start.new at hstart
      split at hstart
      · cases hstart
        rfl
      · cases hstart
    split
    · next state htry =>
      exact .inr ⟨_,plan,start,state,rfl,htry,hsame ▸ hinput,hfresh⟩
    · rw [filter_last hfresh]
      exact .inl ⟨_,_,rfl⟩
  · exact .inl ⟨w.exports,_,rfl⟩

theorem operationInput_kind {plan : Prepared} {input : NewOperation}
    (h : operationInput env.toStartEnv plan id=.ok input) : input.kind=.export ∧ input.id=id := by
  obtain ⟨u,-,h⟩ := CheckedResults.exceptBind_ok.mp h
  cases h
  exact ⟨rfl,rfl⟩

def freshIds (w : World) : Event env → Prop
  | .offerImport _ prepared => Fresh w.offered w.scheduler prepared.start.input.id
  | .offerExport _ _ id _ _ _ => Fresh w.offered w.scheduler id
  | .offerMetadata _ start => Fresh w.offered w.scheduler start.input.id
  | _ => True

theorem Sound.tryStart (h : Sound env r w)
    (hok : tryStart contended start w.scheduler.state=.ok state)
    (hfresh : Fresh w.offered w.scheduler start.input.id) :
    Exact r {w.scheduler with state := state} ∧ Place r {w.scheduler with state := state} ∧
      Tracked r {w.scheduler with state := state} ∧
      Intake (start::w.offered) {w.scheduler with state := state} := by
  have hstep := step_session r w.scheduler (.tryStart contended start)
    ⟨h.exact,h.place,h.tracked⟩
  simp only [JobScheduler.step,hok,accepted] at hstep
  exact ⟨hstep.1,hstep.2.1,hstep.2.2,h.intake.tryStart h.tracked hfresh hok⟩

/-- The rejected receipt of a plan that is read leaves the plans that are needed. -/
theorem Sound.observeJobs (h : Sound env r w) : Sound env r (JobExecutors.observeJobs w) := by
  have hstep := step_session r w.scheduler .takeAdmission ⟨h.exact,h.place,h.tracked⟩
  have hintake : Intake w.offered {w.scheduler with state := (takeAdmission w.scheduler.state).2} :=
    h.intake.command rfl (.inr rfl) rfl rfl rfl
  have hmoved : Tables env
      {w with scheduler := {w.scheduler with state := (takeAdmission w.scheduler.state).2}} :=
    h.tables.moves (r:=r) h.intake .takeAdmission (.inl (.refl _ _)) (fun _ hu => hu)
      fun _ hwork => .inl hwork
  unfold JobExecutors.observeJobs
  dsimp only
  split
  · next admission hadmission =>
    split
    · exact ⟨hstep.1,hstep.2.1,hstep.2.2,hintake,hmoved⟩
    · next hrejected =>
      refine ⟨hstep.1,hstep.2.1,hstep.2.2,hintake,?_⟩
      refine hmoved.removePlans _ ?_
      intro start hstart hneeded plan _
      refine decide_eq_true ?_
      intro hid
      have hbefore : w.scheduler.state.admission=some ⟨start.input.id,false⟩ := by
        have haccepted : admission.accepted=false := Bool.not_eq_true _ ▸ hrejected
        have hown : start.input.id=admission.id := hid
        change w.scheduler.state.admission=some admission at hadmission
        rw [hadmission,hown,←haccepted]
      have hsome : w.scheduler.state.admission≠none := by
        rw [hbefore]
        exact fun he => nomatch he
      rcases hneeded with (hin | hde) | ⟨row,hrow,-⟩
      · have hingress : w.scheduler.state.ingress=some start := hin
        exact hsome (h.intake.receipt (by rw [hingress]; exact fun he => nomatch he))
      · have hdeciding : deciding w.scheduler.coordinator=some start := hde
        exact hsome (h.intake.single (by rw [hdeciding]; exact fun he => nomatch he)).2.2
      · rw [h.intake.refused _ hbefore] at hrow
        cases hrow
  · exact ⟨hstep.1,hstep.2.1,hstep.2.2,hintake,hmoved⟩

theorem Sound.command (h : Sound env r w) (event : JobScheduler.Event)
    (hstep : JobScheduler.step r w.scheduler event={w.scheduler with state := state})
    (hingress : state.ingress=w.scheduler.state.ingress)
    (hadmission : state.admission=w.scheduler.state.admission)
    (hadmitting : state.admitting=w.scheduler.state.admitting)
    (hready : state.ready=w.scheduler.state.ready) (hqueue : state.queue=w.scheduler.state.queue) :
    Sound env r {w with scheduler := {w.scheduler with state := state}} := by
  obtain ⟨h1,h2,h3⟩ := step_session r w.scheduler event ⟨h.exact,h.place,h.tracked⟩
  rw [hstep] at h1 h2 h3
  refine ⟨h1,h2,h3,h.intake.command hingress (.inl hadmission) hadmitting hready hqueue,
    h.tables.moves (r:=r) h.intake event (.inl (.refl _ _)) ?_ ?_⟩
  · rintro start (hin | hde)
    · exact .inl (hingress.symm.trans hin)
    · exact .inr hde
  · intro work hwork
    left
    unfold worksBy at hwork ⊢
    rw [hqueue] at hwork
    exact hwork

theorem step_sound (h : Sound env r w) (event : Event env) (hfresh : freshIds w event) :
    Sound env r (step r w event) := by
  cases event with
  | pruneImports unread =>
    exact ⟨h.exact,h.place,h.tracked,h.intake,h.tables.pruneImports h.intake unread⟩
  | pruneExports unread =>
    refine ⟨h.exact,h.place,h.tracked,h.intake,h.tables.removePlans _ ?_⟩
    intro start _ hneeded plan _
    rw [needed_active h.intake hneeded,Bool.not_false,Bool.or_true]
  | offerImport contended prepared =>
    change Sound env r (offerImport contended prepared.toPreparation w).1
    rcases offerImport_cases contended prepared.toPreparation w with
      he | ⟨state,he,hok,hroom⟩
    · rw [he]
      exact h
    · rw [he]
      obtain ⟨h1,h2,h3,h4⟩ := h.tryStart hok hfresh
      exact ⟨h1,h2,h3,h4,h.tables.takeImport (preparation_sliced prepared.prepared) hok hroom
        hfresh⟩
  | offerExport contended preparation id library intents revalidated =>
    change Sound env r (offerExport env.toStartEnv contended preparation id library intents
      revalidated w).1
    rcases @offerExport_cases env contended preparation id library intents revalidated w with
      ⟨exports,error,he⟩ | ⟨exports,plan,start,state,he,hok,hinput,hnew⟩
    · rw [he]
      exact ⟨h.exact,h.place,h.tracked,h.intake,⟨h.tables.batchKeys,h.tables.planKeys,
        h.tables.picked,h.tables.pickedKeys,h.tables.imports,h.tables.batches,h.tables.plans,
        h.tables.present,h.tables.handed,h.tables.once,h.tables.begun,h.tables.waiting,
        h.tables.lacking⟩⟩
    · rw [he]
      obtain ⟨hkind,hid⟩ := operationInput_kind hinput
      have hstart : Fresh w.offered w.scheduler start.input.id := by
        rw [hid]
        exact hfresh
      obtain ⟨h1,h2,h3,h4⟩ := h.tryStart hok hstart
      refine ⟨h1,h2,h3,h4,h.tables.takeStart hok (by rw [hkind]; exact fun he => nomatch he)
        (fun _ hentry => List.mem_append_left _ hentry) (append_keys h.tables.planKeys hnew) ?_ ?_⟩
      · intro entry hentry
        rcases List.mem_append.mp hentry with hold | hlast
        · exact .inl hold
        · rw [List.mem_singleton.mp hlast]
          exact .inr ⟨hid,hinput⟩
      · unfold Entry
        rw [hkind,hid]
        exact ⟨plan,List.mem_append_right _ (List.mem_singleton.mpr rfl),hinput⟩
  | offerMetadata contended start =>
    change Sound env r (offerMetadata contended start w)
    unfold offerMetadata
    split
    · next hkind =>
      split
      · next state hok =>
        obtain ⟨h1,h2,h3,h4⟩ := h.tryStart hok hfresh
        refine ⟨h1,h2,h3,h4,h.tables.takeStart hok (by rw [hkind]; exact fun he => nomatch he)
          (fun _ hentry => hentry) h.tables.planKeys (fun _ hentry => .inl hentry) ?_⟩
        unfold Entry
        rw [hkind]
        exact trivial
      · exact h
    · exact h
  | prepare call =>
    exact ⟨h.exact,h.place,h.tracked,h.intake,⟨h.tables.batchKeys,h.tables.planKeys,
      h.tables.picked,h.tables.pickedKeys,h.tables.imports,h.tables.batches,h.tables.plans,
      h.tables.present,h.tables.handed,h.tables.once,h.tables.begun,h.tables.waiting,
      h.tables.lacking⟩⟩
  | observeJobs => exact h.observeJobs
  | cancel contended id =>
    change Sound env r {w with
      scheduler := JobScheduler.step r w.scheduler (.cancel contended id)}
    simp only [JobScheduler.step]
    cases hcancel : JobScheduler.cancel contended id w.scheduler.state with
    | error refusal => exact h
    | ok state =>
      refine h.command (.cancel contended id) ?_ ?_ ?_ ?_ ?_ ?_
      · simp only [JobScheduler.step,hcancel,accepted]
      all_goals
        rw [cancel_ok hcancel]
        rfl
  | shutdown => exact h.command .shutdown rfl rfl rfl rfl rfl rfl
  | coordinator a =>
    obtain ⟨h1,h2,h3⟩ := step_session r w.scheduler (.coordinator a) ⟨h.exact,h.place,h.tracked⟩
    exact ⟨h1,h2,h3,h.intake.coordinatorStep h.tracked a,
      h.tables.coordinatorStep h.intake h.tracked a⟩
  | worker index a =>
    obtain ⟨b,hscheduler,hoffered⟩ := workerStep_scheduler (r:=r) w index a
    obtain ⟨h1,h2,h3⟩ := step_session r w.scheduler (.worker index b) ⟨h.exact,h.place,h.tracked⟩
    change Sound env r (JobExecutors.workerStep r w index a)
    rw [←hscheduler] at h1 h2 h3
    refine ⟨h1,h2,h3,?_,h.workerStep index a⟩
    rw [hscheduler,hoffered]
    cases hworker : w.scheduler.workers[index]? with
    | none =>
      simp only [JobScheduler.step,hworker]
      exact h.intake
    | some worker =>
      simp only [JobScheduler.step,hworker]
      exact h.intake.workerStep h.tracked b hworker

section Registries

/-- Preparations have their own ids, which are spent, and fit the budget. -/
structure Distinct (x : Registry) : Prop where
  keys : (x.prepared.map (·.id)).Nodup
  spent : ∀ plan ∈ x.prepared, plan.id<x.next
  bytes : ∀ plan ∈ x.prepared, plan.bytes ≤ maxPreparedBytes

theorem Distinct.fewer {x y : Registry} (h : Distinct x) (hplans : y.prepared.Sublist x.prepared)
    (hnext : x.next≤y.next) : Distinct y :=
  ⟨h.keys.sublist (hplans.map _),fun plan hp => (h.spent plan (hplans.subset hp)).trans_le hnext,
    fun plan hp => h.bytes plan (hplans.subset hp)⟩

theorem register_distinct {alloc : ExportScopes.Allocation} {x : Registry} (h : Distinct x)
    (scope : ExportScopes.Resolved) (destination : ExportPreparation.Destination)
    (preview : ExportPreparation.Preview) :
    Distinct (ExportPreparation.register alloc x scope destination preview).2 := by
  unfold ExportPreparation.register
  split
  · exact h
  dsimp only
  split
  · exact h.fewer (List.Sublist.refl _) (Nat.le_succ _)
  · next bytes hbytes =>
    have hsuffix := (ExportPreparation.evict_suffix bytes x.prepared).sublist
    have hold := fun plan (hp : plan ∈ ExportPreparation.evict bytes x.prepared) =>
      h.spent plan (hsuffix.subset hp)
    constructor
    · dsimp only
      rw [List.map_append,List.nodup_append]
      refine ⟨h.keys.sublist (hsuffix.map _),List.nodup_singleton _,?_⟩
      intro key hkey other hother he
      obtain ⟨plan,hplan,rfl⟩ := List.mem_map.mp hkey
      rw [List.map_singleton,List.mem_singleton] at hother
      have hlt := hold plan hplan
      rw [he,hother] at hlt
      exact absurd hlt (Nat.lt_irrefl _)
    · intro plan hp
      rcases List.mem_append.mp hp with hp | hp
      · exact (hold plan hp).trans (Nat.lt_succ_self _)
      · rw [List.mem_singleton.mp hp]
        exact Nat.lt_succ_self _
    · intro plan hp
      rcases List.mem_append.mp hp with hp | hp
      · exact h.bytes plan (hsuffix.subset hp)
      · rw [List.mem_singleton.mp hp]
        unfold ExportPreparation.retainedBytes at hbytes
        rw [ExportPreparation.addAll_eq _ (.inr (by
          unfold ExportPreparation.retainedSizes ExportPreparation.sourceSizes
          simp))] at hbytes
        split at hbytes
        · next hle =>
          cases hbytes
          exact hle
        · cases hbytes

theorem call_distinct {env : ExportScopes.ScopeEnv} {x : Registry} (h : Distinct x)
    (call : ExportPreparation.Call env) : Distinct (ExportPreparation.step x call) := by
  cases call with
  | prepare given scope =>
    change Distinct (ExportPreparation.prepare env given.view given.library given.locale scope x).2
    unfold ExportPreparation.prepare
    split
    · exact h
    split
    · exact h
    · exact h.fewer (List.Sublist.refl _) (le_refl _)
    split
    · exact h
    · exact register_distinct h _ _ _
  | take id library intents revalidated =>
    change Distinct (takePrepared x id library intents revalidated).2
    unfold takePrepared
    split
    · exact h
    split
    · exact h
    dsimp only
    split
    · exact h.fewer List.eraseP_sublist (le_refl _)
    split
    · exact h.fewer List.eraseP_sublist (le_refl _)
    · exact h.fewer List.eraseP_sublist (le_refl _)
  | discard id => exact h.fewer List.filter_sublist (le_refl _)
  | invalidate => exact h.fewer (List.nil_sublist _) (le_refl _)

theorem takePrepared_found {x : Registry} {id : ℕ} {library : ExportScopes.Library}
    {intents : List ℤ} {revalidated : Bool} {plan : Prepared}
    (h : (takePrepared x id library intents revalidated).1=.ok plan) :
    x.prepared.find? (fun p => p.id=id)=some plan ∧
    (takePrepared x id library intents revalidated).2=
      {x with prepared := x.prepared.eraseP fun p => p.id=id} := by
  unfold takePrepared at h ⊢
  split at h
  · cases h
  next hcustody =>
  rw [if_neg hcustody]
  split at h
  · cases h
  next found hfound =>
  rw [hfound]
  dsimp only at h ⊢
  split at h
  · cases h
  next hgone =>
  rw [if_neg hgone]
  split at h
  · cases h
  next hstale =>
  rw [if_neg hstale]
  cases h
  exact ⟨rfl,rfl⟩

theorem putBack {x : Registry} (h : Distinct x) {id : ℕ} {plan : Prepared}
    (hfound : x.prepared.find? (fun p => p.id=id)=some plan) :
    Distinct {x with prepared := x.prepared.eraseP (fun p => p.id=id)++[plan]} ∧
    (x.prepared.eraseP (fun p => p.id=id)++[plan]).find? (fun p => p.id=id)=some plan := by
  have hid : plan.id=id := by
    have he := List.find?_some hfound
    exact of_decide_eq_true he
  have hmem := List.mem_of_find?_eq_some hfound
  have hothers : ∀ p ∈ x.prepared.eraseP (fun p => p.id=id), p.id≠id := by
    obtain ⟨first,rest,hsplit,hnone⟩ := (List.find?_eq_some_iff_append.mp hfound).2
    intro p hp he
    rw [hsplit,List.eraseP_append_right _ (by
      intro q hq
      have hnot := hnone q hq
      simpa using hnot),List.eraseP_cons_of_pos (by exact decide_eq_true hid)] at hp
    have hkeys := h.keys
    rw [hsplit,List.map_append,List.map_cons] at hkeys
    rcases List.mem_append.mp hp with hp | hp
    · have hnot := hnone p hp
      rw [decide_eq_true he] at hnot
      cases hnot
    · have hdistinct := (List.nodup_append.mp hkeys).2.1
      rw [List.nodup_cons] at hdistinct
      refine hdistinct.1 ?_
      rw [hid,←he]
      exact List.mem_map_of_mem hp
  refine ⟨⟨?_,?_,?_⟩,?_⟩
  · dsimp only
    rw [List.map_append,List.nodup_append]
    refine ⟨h.keys.sublist (List.eraseP_sublist.map _),List.nodup_singleton _,?_⟩
    intro key hkey other hother he
    obtain ⟨p,hp,rfl⟩ := List.mem_map.mp hkey
    rw [List.map_singleton,List.mem_singleton] at hother
    exact hothers p hp (he.trans (hother.trans hid))
  · intro p hp
    rcases List.mem_append.mp hp with hp | hp
    · exact h.spent p (List.mem_of_mem_eraseP hp)
    · rw [List.mem_singleton.mp hp]
      exact h.spent plan hmem
  · intro p hp
    rcases List.mem_append.mp hp with hp | hp
    · exact h.bytes p (List.mem_of_mem_eraseP hp)
    · rw [List.mem_singleton.mp hp]
      exact h.bytes plan hmem
  · have hnone : (x.prepared.eraseP fun p => p.id=id).find? (fun p => p.id=id)=none :=
      List.find?_eq_none.mpr fun p hp he => hothers p hp (of_decide_eq_true he)
    rw [List.find?_append,hnone,Option.none_or,List.find?_singleton]
    exact if_pos (decide_eq_true hid)

/-- An offer of an export keeps the preparations distinct, and one that the ingress refuses
leaves its preparation to be claimed and everything else as it was. -/
theorem offerExport_registry {given : StartEnv} (h : Distinct w.exports) (contended : Bool)
    (preparation : ℕ) (id : String) (library : ExportScopes.Library) (intents : List ℤ)
    (revalidated : Bool) :
    Distinct (offerExport given contended preparation id library intents revalidated w).1.exports ∧
    ((offerExport given contended preparation id library intents revalidated w).2=
        .error .queueFull →
      ∃ plan exports, w.exports.prepared.find? (fun p => p.id=preparation)=some plan ∧
        exports.prepared.find? (fun p => p.id=preparation)=some plan ∧
        (offerExport given contended preparation id library intents revalidated w).1=
          {w with exports := exports}) := by
  have htake := @call_distinct given.toScopeEnv w.exports h
    (.take preparation library intents revalidated)
  change Distinct (takePrepared w.exports preparation library intents revalidated).2 at htake
  unfold offerExport
  split
  · exact ⟨h,fun he => nomatch he⟩
  next preview hpreview =>
  split
  · next hroom =>
    have hfresh := hasRoom_fresh hroom
    dsimp only
    split
    · exact ⟨htake,fun he => nomatch he⟩
    next plan hplan =>
    split
    · exact ⟨htake,fun he => nomatch he⟩
    next input hinput =>
    split
    · exact ⟨htake,fun he => nomatch he⟩
    next start hstart =>
    split
    · exact ⟨htake,fun he => nomatch he⟩
    · obtain ⟨hfound,htaken⟩ := takePrepared_found hplan
      obtain ⟨hdistinct,hagain⟩ := putBack h hfound
      rw [htaken,filter_last hfresh]
      exact ⟨hdistinct,fun _ => ⟨plan,_,hfound,hagain,rfl⟩⟩
  · exact ⟨h,fun he => nomatch he⟩

end Registries

end Librairii.JobEntries
