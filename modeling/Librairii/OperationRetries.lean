import Librairii.JobRows

/-!
# Creating an operation again

A creation whose acknowledgement is lost is repeated or read back. The rows of an
operation are inserted once and stay as they were inserted; while no item has
started, every later creation or readback of the same input finds them, and one of
another input is refused.
-/

namespace Librairii.OperationRetries

open CheckedResults StorageTransactions RowTables OperationRows OperationPolicy OperationCreation
  OperationStore OperationAccounting RowChanges FrozenText
open JobScheduler (Runtime creationReadback)
open JobRows (writeResult_known)

section Inputs

variable {inputs : InputEnv} {kind : OperationKind} {input : NewOperation} {total : ℤ}

theorem validateItems_sum {items : List NewItem} : ∀ {total result : ℤ} {ids : List ℤ}
    {uuids : List String}, validateItems inputs kind items total ids uuids=.ok result →
    result=total+(items.map (·.totalBytes)).sum ∧ (total ≤ maxInt → result ≤ maxInt) ∧
      ∀ item ∈ items, 0 ≤ item.totalBytes := by
  induction items with
  | nil =>
    intro total result ids uuids h
    cases h
    simp
  | cons item items ih =>
    intro total result ids uuids h
    have hstep : 0 ≤ item.totalBytes ∧ total+item.totalBytes ≤ maxInt ∧ ∃ ids' uuids',
        validateItems inputs kind items (total+item.totalBytes) ids' uuids'=.ok result := by
      rw [validateItems] at h
      obtain ⟨hbytes,h⟩ := checked_ok.mp h
      obtain ⟨hsum,h⟩ := checked_ok.mp h
      refine ⟨by simp at hbytes; omega,by omega,?_⟩
      split at h
      · obtain ⟨-,h⟩ := checked_ok.mp h
        exact ⟨_,_,h⟩
      obtain ⟨-,h⟩ := checked_ok.mp h
      split at h
      · split at h
        · exact ⟨_,_,h⟩
        · cases h
      split at h
      · split at h
        · exact ⟨_,_,h⟩
        · cases h
      · obtain ⟨-,h⟩ := checked_ok.mp h
        exact ⟨_,_,h⟩
    obtain ⟨hbytes,hsum,ids',uuids',hrest⟩ := hstep
    obtain ⟨he,hmax,hall⟩ := ih hrest
    refine ⟨?_,fun _ => hmax hsum,?_⟩
    · rw [he,List.map_cons,List.sum_cons]
      omega
    · simpa [hbytes] using hall

/-- What a validated input records and where its items come from. -/
theorem validate_sum (h : input.validate inputs=.ok total) :
    total=(if input.kind=.export then (input.items.map (·.totalBytes)).sum else 0) ∧
    (input.items.map (·.totalBytes)).sum ≤ maxInt ∧ (∀ item ∈ input.items, 0 ≤ item.totalBytes) ∧
    ∀ s, input.source=some s → s.validate=true := by
  obtain ⟨_,-,h⟩ := exceptBind_ok.mp h
  obtain ⟨-,h⟩ := checked_ok.mp h
  obtain ⟨sum,hsum,h⟩ := exceptBind_ok.mp h
  obtain ⟨he,hmax,hall⟩ := validateItems_sum hsum
  have hle := hmax (by decide)
  rw [zero_add] at he
  subst he
  refine ⟨?_,hle,hall,?_⟩
  · split at h
    · next hk =>
      rw [if_pos hk]
      split at h
      · cases h
        rfl
      · cases h
    · next hk =>
      rw [if_neg hk]
      obtain ⟨-,h⟩ := checked_ok.mp h
      cases h
      rfl
  · intro s hs
    split at h
    · split at h
      · next hok =>
        simp only [hs,Option.any_some,Bool.and_eq_true] at hok
        exact hok.1
      · cases h
    · simp [hs] at h

end Inputs

section Agreement

variable {inputs : InputEnv}

/-- The serialized texts of id and name arrays tell the arrays. -/
structure Lossless (inputs : InputEnv) : Prop where
  ids : ∀ a b, goEscapes (inputs.idsText a).toList=goEscapes (inputs.idsText b).toList → a=b
  names : ∀ a b, goEscapes (inputs.namesText a).toList=goEscapes (inputs.namesText b).toList → a=b

/-- An input item that agrees with a stored one: the same, or without the plan it has. -/
def AgreesItem (first item : NewItem) : Prop := item=first ∨ item={first with planned := none}

/-- An input that agrees with the one an operation was created from. -/
structure Agrees (first input : NewOperation) : Prop where
  id : input.id=first.id
  kind : input.kind=first.kind
  source : input.source=first.source
  destination : input.destination=first.destination
  items : List.Forall₂ AgreesItem first.items input.items

theorem nonempty_inj {a b : String} : nonempty a=nonempty b ↔ a=b := by
  unfold nonempty
  grind

theorem nonemptyPath_inj {a b : OperationPath} : nonemptyPath a=nonemptyPath b ↔ a=b := by
  cases a
  cases b
  simp only [nonemptyPath]
  grind

theorem storedStory_inj {a b : NewItem} : a.storedStory=b.storedStory ↔ a.storyId=b.storyId := by
  unfold NewItem.storedStory
  grind

theorem asPersisted_inj {a b : ExportSourceType} (h : a.asPersisted=b.asPersisted) : a=b := by
  cases a <;> cases b <;> first | rfl | exact absurd h (by decide)

/-- Sources that are stored alike are the same. -/
theorem source_inj (hl : Lossless inputs) {a b : NewOperation}
    (ha : ∀ s, a.source=some s → s.validate=true) (hb : ∀ s, b.source=some s → s.validate=true)
    (h : source inputs a=source inputs b) : a.source=b.source := by
  unfold source at h
  cases has : a.source with
  | none =>
    cases hbs : b.source with
    | none => rfl
    | some t => simp [has,hbs] at h
  | some s =>
    cases hbs : b.source with
    | none => simp [has,hbs] at h
    | some t =>
      simp only [has,hbs,StoredExportScope.mk.injEq,Option.some.injEq,String.ofList_inj] at h
      obtain ⟨htype,hids,hnames⟩ := h
      have hs := ha s has
      have ht := hb t hbs
      have hids := hl.ids _ _ hids
      have hnames := hl.names _ _ hnames
      obtain ⟨stype,sc,scn,ss,ssn⟩ := s
      obtain ⟨ttype,tc,tcn,ts,tsn⟩ := t
      cases asPersisted_inj htype
      unfold ExportSource.validate ExportSource.groupIds ExportSource.groupNames
        ExportSource.collectionFields at *
      grind

theorem itemMatches_iff (id : String) (first : NewItem) {item : NewItem} (n : ℤ)
    (hplan : ∀ plan, item.planned=some plan → plan.state.isTerminal=true) :
    itemMatches (assigned (newItemRow id first) n) item=true ↔ AgreesItem first item := by
  obtain ⟨story,uuid,title,name,output,path,hash,skip,bytes,planned⟩ := item
  obtain ⟨story',uuid',title',name',output',path',hash',skip',bytes',planned'⟩ := first
  simp only [itemMatches,assigned,newItemRow,AgreesItem,NewItem.storedOutputName,
    NewItem.storedArchivePath,NewItem.storedArchiveHash,Bool.and_eq_true,decide_eq_true_eq,
    nonempty_inj,nonemptyPath_inj,storedStory_inj,NewItem.mk.injEq]
  cases planned with
  | none => grind
  | some plan =>
    have ht := hplan plan rfl
    cases planned' with
    | none =>
      simp only [Option.map_none,Option.getD_none,Option.all_some]
      grind [ItemState.isTerminal]
    | some plan' =>
      obtain ⟨state,code,message⟩ := plan
      obtain ⟨state',code',message'⟩ := plan'
      simp
      grind

end Agreement

section Rows

/-- The item rows of an operation, with the row ids from one number on. -/
def placed (id : String) : ℤ → List NewItem → List OperationItem
  | _,[] => []
  | n,item::items => assigned (newItemRow id item) n::placed id (n+1) items

theorem nextRowId_snoc (rows : List OperationItem) (row : OperationItem) :
    nextRowId (rows++[assigned row (nextRowId rows)])=nextRowId rows+1 := by
  have hfold : ∀ (ids : List ℤ) (n : ℤ),
      (ids++[n]).foldr max 0=max (ids.foldr max 0) (max n 0) := by
    intro ids n
    induction ids with
    | nil => simp
    | cons id ids ih => simp [ih,max_assoc]
  have hnonneg : ∀ ids : List ℤ, 0 ≤ ids.foldr max 0 := by
    intro ids
    induction ids with
    | nil => simp
    | cons id ids ih => simp [ih]
  have h := hnonneg (rows.map (·.identity.id))
  simp only [nextRowId,List.map_append,List.map_cons,List.map_nil,hfold,assigned]
  omega

theorem insertItems_placed {env : SchemaEnv} {id : String} {items : List NewItem} {u : Unit} :
    ∀ {d d' : Database}, (insertItems env id items).run d=.ok (u,d') →
      d'={d with items := d.items++placed id (nextRowId d.items) items} := by
  induction items with
  | nil =>
    intro d d' h
    obtain ⟨-,rfl⟩ := pure_ok.mp h
    simp [placed]
  | cons item items ih =>
    intro d d' h
    obtain ⟨_,d₁,h1,h⟩ := bind_ok.mp h
    have hd := insertItem_ok h1
    rw [ih h,hd]
    change (⟨_,_⟩ : Database)=⟨_,_⟩
    have hnext := nextRowId_snoc d.items (newItemRow id item)
    unfold assigned at hnext
    simp [placed,assigned,hnext]

variable {id : String}

theorem placed_rows (id : String) {items : List NewItem} : ∀ {n : ℤ},
    (∀ row ∈ placed id n items, row.operationId=id ∧ n ≤ row.identity.id) ∧
      (placed id n items).Pairwise fun a b => a.identity.id ≤ b.identity.id := by
  induction items with
  | nil => simp [placed]
  | cons item items ih =>
    intro n
    obtain ⟨hall,hsorted⟩ := @ih (n+1)
    refine ⟨?_,List.pairwise_cons.mpr ⟨fun row hr => ?_,hsorted⟩⟩
    · intro row hr
      cases List.mem_cons.mp hr with
      | inl he => exact he ▸ ⟨rfl,le_refl n⟩
      | inr hr => exact ⟨(hall row hr).1,by have := (hall row hr).2; omega⟩
    · have hn := (hall row hr).2
      change n ≤ row.identity.id
      omega

theorem placed_matches (id : String) {first : List NewItem} : ∀ {items : List NewItem} (n : ℤ),
    (∀ item ∈ items, ∀ plan, item.planned=some plan → plan.state.isTerminal=true) →
    ((placed id n first).length=items.length ∧
      ((placed id n first).zip items).all (fun p => itemMatches p.1 p.2)=true ↔
        List.Forall₂ AgreesItem first items) := by
  induction first with
  | nil =>
    intro items n _
    cases items <;> simp [placed]
  | cons item first ih =>
    intro items n hplan
    cases items with
    | nil => simp [placed]
    | cons other items =>
      have hrest := ih (n+1) fun item hm => hplan item (List.mem_cons_of_mem _ hm)
      have hhead := itemMatches_iff id item n (hplan other List.mem_cons_self)
      simp only [placed,List.length_cons,List.zip_cons_cons,List.all_cons,Bool.and_eq_true,
        List.forall₂_cons,hhead,←hrest]
      grind

end Rows

section Records

variable {session : Session} {d d' : Database} {id : String}

/-- The stored rows of an operation. -/
def entry (d : Database) (id : String) : List OperationHeader×List OperationItem :=
  (d.operations.filter fun row => row.identity.id=id,itemsOf d id)

theorem lookup_entry : lookup (·.identity.id) id d.operations=(entry d id).1.head? :=
  List.head?_filter.symm

theorem snapshot_entry (h : entry d' id=entry d id) :
    snapshot session.sizes d' id=snapshot session.sizes d id := by
  have hheader : header session.sizes d' id=header session.sizes d id := by
    unfold header
    rw [lookup_entry,lookup_entry,h]
    have hfilter := congrArg Prod.fst h
    unfold entry at hfilter
    dsimp only at hfilter
    rw [hfilter]
  have hitems : itemsOf d' id=itemsOf d id := congrArg Prod.snd h
  unfold snapshot
  rw [hheader,hitems]

/-- An operation as it was created from an input: its header, and its items in their order. -/
structure Recorded (session : Session) (input : NewOperation) (createdAt : String)
    (s : OperationSnapshot) (d : Database) : Prop where
  /-- The input was valid. -/
  header : ∃ total, input.validate session.inputs=.ok total ∧
    s.operation=newHeader session.inputs input total createdAt
  items : ∃ n, s.items=placed input.id n input.items
  /-- The creation time is a visible text. -/
  present : textPresent createdAt=true
  read : snapshot session.sizes d input.id=.ok (some s)

/-- A creation that commits found its input recorded, or records it where nothing was stored. -/
theorem create_entry {env : SchemaEnv} {input : NewOperation} {createdAt : String}
    {s : OperationSnapshot} (h : Accounted d)
    (hr : (create session.sizes session.inputs env input createdAt).run d=.ok (s,d')) :
    d'=d ∨ entry d input.id=([],[]) ∧ Recorded session input createdAt s d' ∧
      ∀ id, id≠input.id → entry d' id=entry d id := by
  obtain ⟨total,hv,htext,⟨he,-⟩ | ⟨hfree,hi,hread⟩⟩ := create_cases hr
  · exact .inl he
  right
  have hrows := insertItems_placed hi
  obtain ⟨hplaced,hsorted⟩ := @placed_rows input.id input.items (nextRowId d.items)
  have hoperations : d.operations.filter (fun row => row.identity.id=input.id)=[] :=
    List.filter_eq_nil_iff.mpr fun row hr => by simpa using lookup_none.mp hfree row hr
  have hitems : itemsOf d input.id=[] := by
    refine List.filter_eq_nil_iff.mpr fun row hr => ?_
    rw [decide_eq_true_eq]
    intro hown
    have hparent := h.parents row hr
    rw [hown,hfree] at hparent
    cases hparent
  have hentry : ∀ id, entry d' id=(d.operations.filter (fun row => row.identity.id=id)++
      [newHeader session.inputs input total createdAt].filter (fun row => row.identity.id=id),
      itemsOf d id++(placed input.id (nextRowId d.items) input.items).filter
        fun row => row.operationId=id) := by
    intro id
    rw [hrows,entry,itemsOf,List.filter_append,List.filter_append]
    rfl
  refine ⟨by rw [entry,hoperations,hitems],⟨⟨total,hv,?_⟩,⟨nextRowId d.items,?_⟩,htext,hread⟩,?_⟩
  · have hlookup := snapshot_ok hread
    rw [lookup_entry,hentry,hoperations] at hlookup
    simpa [newHeader] using hlookup.symm
  · have hown : (placed input.id (nextRowId d.items) input.items).filter
        (fun row => row.operationId=input.id)=placed input.id (nextRowId d.items) input.items :=
      List.filter_eq_self.mpr fun row hr => decide_eq_true (hplaced row hr).1
    have hitems' : itemsOf d' input.id=placed input.id (nextRowId d.items) input.items := by
      rw [show itemsOf d' input.id=_ from congrArg Prod.snd (hentry input.id),hitems,hown]
      rfl
    obtain ⟨found,-,hsnapshot⟩ := exceptBind_ok.mp hread
    cases found with
    | none => cases hsnapshot
    | some operation =>
      obtain ⟨_,-,hsnapshot⟩ := exceptBind_ok.mp hsnapshot
      cases hsnapshot
      dsimp only
      rw [hitems']
      exact List.mergeSort_of_pairwise (hsorted.imp fun h => decide_eq_true h)
  · intro id hid
    have hheader : [newHeader session.inputs input total createdAt].filter
        (fun row => row.identity.id=id)=[] := by simpa [newHeader] using Ne.symm hid
    have hother : (placed input.id (nextRowId d.items) input.items).filter
        (fun row => row.operationId=id)=[] :=
      List.filter_eq_nil_iff.mpr fun row hr => by simpa [(hplaced row hr).1] using Ne.symm hid
    rw [hentry,hheader,hother,List.append_nil,List.append_nil]
    rfl

variable {first input : NewOperation} {createdAt at_ : String} {s s' : OperationSnapshot}

/-- The recorded snapshot matches exactly the valid inputs that agree with the one recorded. -/
theorem Recorded.matches_iff (hl : Lossless session.inputs)
    (h : Recorded session first createdAt s d) : creationMatches session.inputs input s=.ok true ↔
      Agrees first input ∧ ∃ total, input.validate session.inputs=.ok total := by
  obtain ⟨total,hfirst,hs⟩ := h.header
  obtain ⟨n,hn⟩ := h.items
  have hsum := validate_sum hfirst
  unfold creationMatches
  dsimp only
  rw [hs,hn]
  constructor
  · intro hm
    split at hm
    · cases hm
    next hsame =>
    simp only [Bool.or_eq_true,decide_eq_true_eq,ne_eq,not_or,not_not] at hsame
    obtain ⟨⟨⟨⟨⟨hid,hkind⟩,hscope⟩,hdestination⟩,hlength⟩,-⟩ := hsame
    obtain ⟨total',hvalid,hm⟩ := exceptBind_ok.mp hm
    have hvalid := mapError_ok.mp hvalid
    split at hm
    · cases hm
    have hitems := (placed_matches first.id n (validate_planned hvalid)).mp
      ⟨hlength,Except.ok.inj hm⟩
    exact ⟨⟨hid.symm,hkind.symm,
      (source_inj hl hsum.2.2.2 (validate_sum hvalid).2.2.2 hscope).symm,hdestination.symm,hitems⟩,
      total',hvalid⟩
  · rintro ⟨ha,total',hvalid⟩
    obtain ⟨hlength,hall⟩ :=
      (placed_matches first.id n (validate_planned hvalid)).mpr ha.items
    have hscope : source session.inputs first=source session.inputs input := by
      rw [source,source,ha.source]
    have htotals : first.items.map (·.totalBytes)=input.items.map (·.totalBytes) := by
      rw [←List.forall₂_eq_eq_eq,List.forall₂_map_left_iff,List.forall₂_map_right_iff]
      refine ha.items.imp fun a b hab => ?_
      cases hab with
      | inl hab => rw [hab]
      | inr hab => rw [hab]
    have htotal : total=total' := by
      rw [hsum.1,(validate_sum hvalid).1,ha.kind,htotals]
    rw [if_neg]
    · rw [bind_of_ok (mapError_ok.mpr hvalid),hall,newHeader,if_neg (not_not.mpr htotal)]
    · simp [newHeader,ha.id,ha.kind,hscope,ha.destination,hlength,ha.items.length_eq]

/-- A creation over a recorded operation commits exactly for the inputs that agree, and then finds
what is recorded. -/
theorem Recorded.create_iff (hl : Lossless session.inputs)
    (h : Recorded session first createdAt s d) (hid : input.id=first.id) (env : SchemaEnv) :
    (create session.sizes session.inputs env input at_).run d=.ok (s',d') ↔ d'=d ∧ s'=s ∧
      at_=createdAt ∧ Agrees first input ∧ ∃ total, input.validate session.inputs=.ok total := by
  have hread := h.read
  have hat : s.operation.identity.createdAt=createdAt := by
    obtain ⟨total,-,hs⟩ := h.header
    rw [hs]
    rfl
  rw [←hid] at hread
  constructor
  · intro hr
    obtain ⟨total,hv,-,⟨rfl,hs,hcreated,hm⟩ | ⟨hfree,-⟩⟩ := create_cases hr
    · cases hread.symm.trans hs
      exact ⟨rfl,rfl,hcreated.symm.trans hat,(h.matches_iff hl).mp hm⟩
    · rw [snapshot_ok hread] at hfree
      cases hfree
  · rintro ⟨rfl,rfl,rfl,ha,total,hv⟩
    refine bind_ok.mpr ⟨total,d',observe_ok.mpr ⟨mapError_ok.mpr hv,rfl⟩,?_⟩
    rw [if_neg (by rw [h.present]; exact Bool.false_ne_true)]
    refine bind_ok.mpr ⟨some s',d',observe_ok.mpr ⟨hread,rfl⟩,?_⟩
    dsimp only
    rw [if_neg (not_not.mpr hat)]
    exact bind_ok.mpr ⟨true,d',observe_ok.mpr ⟨(h.matches_iff hl).mpr ⟨ha,total,hv⟩,rfl⟩,
      pure_ok.mpr ⟨rfl,rfl⟩⟩

/-- A job creation that commits is a creation that commits. -/
theorem createBody_ok {env : SchemaEnv} {u : Unit}
    (h : (createBody session env input at_).run d=.ok (u,d')) : ∃ s,
      (create session.sizes session.inputs env input at_).run d=.ok (s,d') := by
  obtain ⟨other,d₁,h1,h⟩ := bind_ok.mp h
  obtain ⟨-,rfl⟩ := observe_ok.mp h1
  split at h
  · exact (throw_ok.mp h).elim
  obtain ⟨found,d₂,h2,h⟩ := bind_ok.mp h
  obtain ⟨-,rfl⟩ := pure_ok.mp h
  exact ⟨found,h2⟩

end Records

/-- A call that creates an operation or reads its creation back. -/
inductive Call where
  | createOperation (call : StoreCall) (input : NewOperation) (createdAt : String)
  | createJob (call : StoreCall) (input : NewOperation) (createdAt : String)
  | readback (lost : Bool) (input : NewOperation) (createdAt : String)

def Call.step (session : Session) (d : Database) : Call → Database
  | .createOperation call input createdAt =>
    (OperationStore.createOperation session call input createdAt d).2
  | .createJob call input createdAt => (OperationStore.createJob session call input createdAt d).2
  | .readback _ _ _ => d

def after (session : Session) (calls : List Call) (d : Database) : Database :=
  calls.foldl (Call.step session) d

def Call.Creates (input : NewOperation) (createdAt : String) : Call → Prop
  | .createOperation _ other at_ | .createJob _ other at_ => other=input ∧ at_=createdAt
  | .readback _ _ _ => False

def Answers (session : Session) (d : Database) (call : StoreCall) (input : NewOperation)
    (createdAt : String) (s : OperationSnapshot) : Prop :=
  (createOperation session call input createdAt d).1=.ok (.answered (.committed s))

/-- A call without faults, whose reply arrives. -/
def Quiet (call : StoreCall) : Prop :=
  call.refused=none ∧ call.fault=.quiet ∧ call.replyLost=none

section Calls

variable {session : Session} {d : Database} {id : String} {first input : NewOperation}
  {createdAt at_ : String} {s s' : OperationSnapshot}

/-- A call leaves the rows of an operation, or creates it where nothing was stored. -/
theorem step_entry (session : Session) (h : Accounted d) (call : Call) :
    Accounted (call.step session d) ∧ ∀ id,
    entry (call.step session d) id=entry d id ∨ entry d id=([],[]) ∧ ∃ input createdAt s,
      call.Creates input createdAt ∧ input.id=id ∧
      Recorded session input createdAt s (call.step session d) := by
  have hbody : ∀ {α : Type} (body : Body α) (storeCall : StoreCall) (input : NewOperation)
      (createdAt : String), (∀ a d', body.run d=.ok (a,d') → ∃ s,
        (create session.sizes session.inputs storeCall.schema input createdAt).run d=.ok (s,d')) →
      ∀ id, entry (submit storeCall body d).2 id=entry d id ∨ entry d id=([],[]) ∧
        ∃ s, input.id=id ∧ Recorded session input createdAt s (submit storeCall body d).2 := by
    intro α body storeCall input createdAt hcreate id
    by_cases hsame : (submit storeCall body d).2=d
    · exact .inl (by rw [hsame])
    obtain ⟨a,ha⟩ := submit_changed hsame
    obtain ⟨s,hs⟩ := hcreate a _ ha
    obtain he | ⟨hempty,hrecorded,hother⟩ := create_entry h hs
    · exact absurd he hsame
    · by_cases hid : id=input.id
      · exact .inr ⟨hid ▸ hempty,s,hid.symm,hrecorded⟩
      · exact .inl (hother id hid)
  cases call with
  | createOperation storeCall input createdAt =>
    refine ⟨accounted_step session (.createOperation storeCall input createdAt) h,fun id => ?_⟩
    simp only [Call.step,OperationStore.createOperation]
    cases input.validate session.inputs with
    | error e => exact .inl rfl
    | ok total =>
      refine (hbody _ storeCall input createdAt (fun a d' ha => ⟨a,ha⟩) id).imp_right ?_
      exact fun ⟨hempty,s,hid,hr⟩ => ⟨hempty,input,createdAt,s,⟨rfl,rfl⟩,hid,hr⟩
  | createJob storeCall input createdAt =>
    refine ⟨accounted_step session (.createJob storeCall input createdAt) h,fun id => ?_⟩
    simp only [Call.step,OperationStore.createJob]
    cases input.validate session.inputs with
    | error e => exact .inl rfl
    | ok total =>
      refine (hbody _ storeCall input createdAt (fun _ _ ha => createBody_ok ha) id).imp_right ?_
      exact fun ⟨hempty,s,hid,hr⟩ => ⟨hempty,input,createdAt,s,⟨rfl,rfl⟩,hid,hr⟩
  | readback lost input createdAt => exact ⟨h,fun _ => .inl rfl⟩

theorem Recorded.entry_ne (h : Recorded session first createdAt s d) :
    entry d first.id≠([],[]) := by
  intro he
  have hlookup := snapshot_ok h.read
  rw [lookup_entry,he] at hlookup
  cases hlookup

theorem Recorded.after (hd : Accounted d) (h : Recorded session first createdAt s d)
    (calls : List Call) : Accounted (after session calls d) ∧
      entry (after session calls d) first.id=entry d first.id ∧
      Recorded session first createdAt s (after session calls d) := by
  induction calls generalizing d with
  | nil => exact ⟨hd,rfl,h⟩
  | cons call calls ih =>
    obtain ⟨haccounted,hentry⟩ := step_entry session hd call
    obtain he | ⟨hempty,-⟩ := hentry first.id
    · have hstep : Recorded session first createdAt s (call.step session d) :=
        ⟨h.header,h.items,h.present,(snapshot_entry he).trans h.read⟩
      obtain ⟨ha,he',hr⟩ := ih haccounted hstep
      exact ⟨ha,he'.trans he,hr⟩
    · exact absurd hempty h.entry_ne

/-- The replies of the calls about a recorded operation. -/
structure Replies (r : Runtime) (first : NewOperation) (createdAt : String) (s : OperationSnapshot)
    (d : Database) (input : NewOperation) (at_ : String) : Prop where
  /-- No call changes the tables. -/
  kept : ∀ call, (createOperation r.session call input at_ d).2=d ∧
    (createJob r.session call input at_ d).2=d
  /-- A creation that succeeds agrees and answers with what is recorded. -/
  same : ∀ call s', Answers r.session d call input at_ s' →
    s'=s ∧ at_=createdAt ∧ Agrees first input
  /-- A job creation that succeeds agrees. -/
  known : ∀ call, (createJob r.session call input at_ d).1=.known →
    at_=createdAt ∧ Agrees first input
  /-- A valid input that agrees succeeds. -/
  repeated : ∀ call, Quiet call → at_=createdAt → Agrees first input →
    (∃ total, input.validate r.session.inputs=.ok total) → Answers r.session d call input at_ s
  /-- A readback is positive exactly for a valid input that agrees. -/
  readback : ∀ lost, creationReadback r lost input at_ d=some true ↔ lost=false ∧ at_=createdAt ∧
    Agrees first input ∧ ∃ total, input.validate r.session.inputs=.ok total

theorem Recorded.replies {r : Runtime} (hl : Lossless r.session.inputs)
    (h : Recorded r.session first createdAt s d) (hid : input.id=first.id) :
    Replies r first createdAt s d input at_ := by
  have hbody : ∀ {α : Type} (call : StoreCall) (body : Body α),
      (∀ a d', body.run d=.ok (a,d') → ∃ s, (create r.session.sizes r.session.inputs call.schema
        input at_).run d=.ok (s,d')) → (submit call body d).2=d := by
    intro α call body hcreate
    by_contra hsame
    obtain ⟨a,ha⟩ := submit_changed hsame
    obtain ⟨s',hs⟩ := hcreate a _ ha
    exact hsame ((h.create_iff hl hid _).mp hs).1
  have hanswers : ∀ call s', Answers r.session d call input at_ s' ↔
      ∃ total, input.validate r.session.inputs=.ok total ∧ (submit call (create r.session.sizes
        r.session.inputs call.schema input at_) d).1=.answered (.committed s') := by
    intro call s'
    unfold Answers createOperation
    cases input.validate r.session.inputs with
    | error e => simp
    | ok total => simp
  constructor
  · intro call
    unfold createOperation createJob
    cases input.validate r.session.inputs with
    | error e => exact ⟨rfl,rfl⟩
    | ok total =>
      exact ⟨hbody call _ fun a d' ha => ⟨a,ha⟩,hbody call _ fun _ _ ha => createBody_ok ha⟩
  · intro call s' hs
    obtain ⟨total,-,hs⟩ := (hanswers call s').mp hs
    obtain ⟨-,he,hat,hagrees,-⟩ := (h.create_iff hl hid _).mp (submit_committed hs)
    exact ⟨he,hat,hagrees⟩
  · intro call hknown
    unfold createJob at hknown
    cases hv : input.validate r.session.inputs with
    | error e =>
      rw [hv] at hknown
      cases hknown
    | ok total =>
      rw [hv] at hknown
      obtain ⟨u,hu⟩ := writeResult_known hknown
      obtain ⟨s',hs⟩ := createBody_ok (submit_committed hu)
      obtain ⟨-,-,hat,hagrees,-⟩ := (h.create_iff hl hid _).mp hs
      exact ⟨hat,hagrees⟩
  · rintro call ⟨hrefused,hfault,hlost⟩ hat hagrees ⟨total,hv⟩
    have hrun := (h.create_iff hl hid call.schema).mpr ⟨rfl,rfl,hat,hagrees,total,hv⟩
    refine (hanswers call s).mpr ⟨total,hv,?_⟩
    simp only [submit,hrefused,hfault,hlost,runTransaction,hrun]
  · intro lost
    have hat : s.operation.identity.createdAt=createdAt := by
      obtain ⟨total,-,hs⟩ := h.header
      rw [hs]
      rfl
    rw [←h.matches_iff hl]
    unfold creationReadback
    rw [hid,h.read]
    grind

/-- Where nothing is stored of an operation, calls leave it so or one of them records it. -/
theorem after_new (hd : Accounted d) (hnew : entry d id=([],[])) (calls : List Call) :
    entry (after session calls d) id=([],[]) ∨ ∃ before call rest first createdAt s,
      calls=before++call::rest ∧ call.Creates first createdAt ∧ first.id=id ∧
      entry (after session before d) id=([],[]) ∧ Accounted (after session before d) ∧
      Accounted (after session (before++[call]) d) ∧
      Recorded session first createdAt s (after session (before++[call]) d) := by
  induction calls generalizing d with
  | nil => exact .inl hnew
  | cons call calls ih =>
    obtain ⟨haccounted,hentry⟩ := step_entry session hd call
    obtain he | ⟨-,first,createdAt,s,hcreates,hid,hrecorded⟩ := hentry id
    · refine (ih haccounted (he.trans hnew)).imp_right ?_
      rintro ⟨before,other,rest,first,createdAt,s,rfl,hrest⟩
      exact ⟨call::before,other,rest,first,createdAt,s,rfl,hrest⟩
    · exact .inr ⟨[],call,calls,first,createdAt,s,rfl,hcreates,hid,hnew,hd,haccounted,hrecorded⟩

theorem Recorded.answers (hd : Accounted d) (hnew : entry d first.id=([],[])) {call : StoreCall}
    (h : Recorded session first createdAt s (createOperation session call first createdAt d).2)
    (hs : Answers session d call first createdAt s') : s'=s := by
  unfold Answers createOperation at hs
  unfold createOperation at h
  cases hv : first.validate session.inputs with
  | error e =>
    rw [hv] at hs
    cases hs
  | ok total =>
    rw [hv] at hs h
    obtain he | ⟨-,hrecorded,-⟩ := create_entry hd (submit_committed (Except.ok.inj hs))
    · dsimp only at h
      rw [he] at h
      exact absurd hnew h.entry_ne
    · exact Option.some.inj (Except.ok.inj (hrecorded.read.symm.trans h.read))

end Calls

section Example

/-- A list with a code has as many letters as its code. -/
def spelled (code : ℕ) : String := String.ofList ('['::(List.replicate code 'a'++[']']))

theorem goEscapes_spelled (code : ℕ) : goEscapes (spelled code).toList=(spelled code).toList := by
  have hkeep : ∀ (c : Char) (text : List Char), c≠ '[' → c≠ 'a' → c≠ ']' →
      replace c text (spelled code).toList=(spelled code).toList := by
    intro c text h1 h2 h3
    have hletters : (List.replicate code 'a').flatMap (fun d => if d=c then text else [d])=
        List.replicate code 'a' := by
      induction code with
      | zero => rfl
      | succ code ih => rw [List.replicate_succ,List.flatMap_cons,ih,if_neg h2.symm,
          List.singleton_append]
    simp [replace,spelled,hletters,h1.symm,h3.symm]
  unfold goEscapes
  rw [hkeep,hkeep,hkeep,hkeep,hkeep] <;> decide

theorem spelled_inj {a b : ℕ} (h : goEscapes (spelled a).toList=goEscapes (spelled b).toList) :
    a=b := by
  rw [goEscapes_spelled,goEscapes_spelled] at h
  simpa [spelled] using congrArg List.length h

/-- Serializers that tell arrays by their codes. -/
def spelledInputs : InputEnv where
  parsesUuid _ := true
  retainedBytes _ := .ok 0
  idsText ids := spelled (Encodable.encode ids)
  namesText names := spelled (Encodable.encode (names.map fun name => name.toList.map (·.toNat)))

theorem lossless_spelled : Lossless spelledInputs := by
  constructor
  · exact fun a b h => Encodable.encode_injective (spelled_inj h)
  · intro a b h
    have hnames := Encodable.encode_injective (spelled_inj h)
    refine List.map_injective_iff.mpr (fun x y hxy => ?_) hnames
    exact String.toList_injective (List.map_injective_iff.mpr (fun _ _ => Char.toNat_inj.mp) hxy)

theorem single_worker : 1≤1 ∧ 1≤8 := by decide

def spelledWorker : Runtime := ⟨⟨1,single_worker⟩,⟨⟨0,0⟩,spelledInputs⟩,1⟩

def quietCall : StoreCall :=
  ⟨⟨fun _ => true,fun _ => true,fun _ => some 0⟩,none,.quiet,none,none⟩

/-- An export of one story whose output name is taken. -/
def plannedExport : NewOperation where
  id := "aaaaaaaa-0000-4000-8000-000000000001"
  kind := .export
  source := some ⟨.selection,[],[],[],[]⟩
  destination := some ⟨[0x2f]⟩
  items := [⟨1,"aaaaaaaa-0000-4000-8000-000000000002","Story","story.zip",⟨[0x61]⟩,⟨[0x61]⟩,
    String.ofList (List.replicate 64 'a'),"",0,some ⟨.conflicted,some "taken",some "Taken"⟩⟩]

def unplannedExport : NewOperation :=
  {plannedExport with items := plannedExport.items.map ({· with planned := none})}

end Example

end Librairii.OperationRetries

