import Librairii.DisplayNames
import Librairii.OperationAccounting
import Librairii.TaggedFields

/-!
# Scopes of registered temporaries

A temporary is registered under a digest of the immutable columns of its operation
and its item. Recovery computes the digest again from the rows it finds and refuses
a registration that no longer agrees. The columns are followed through every call of
the job store and through the removal of stories.
-/

namespace Librairii.TemporaryScopes

open StorageTransactions RowTables OperationRows OperationPolicy OperationCreation OperationStore
open OperationAccounting TaggedFields DisplayNames
open JsonText (bytes)

def textBytes (text : String) : List UInt8 := bytes text.toList

/-- The texts and paths that are hashed, in order. -/
def scopeTexts (h : OperationHeader) (i : OperationItem) : List (Option (List UInt8)) :=
  [some (textBytes h.identity.id),
    some (textBytes h.identity.createdAt),
    some (textBytes (encodeKind h.kind)),
    h.exportScope.discriminator.map textBytes,
    h.exportScope.groupIds.map textBytes,
    h.exportScope.groupNames.map textBytes,
    h.destination.map (·.bytes),
    some (textBytes i.operationId),
    i.identity.storyUuid.map textBytes,
    i.storyTitle.map textBytes,
    some (textBytes i.sourceName),
    i.outputName.map (·.bytes),
    i.archiveRelativePath.map (·.bytes),
    i.archiveSha256.map textBytes,
    i.exportSkipCode.map textBytes]

def scopeNumbers (h : OperationHeader) (i : OperationItem) : List (Option ℤ) :=
  [some h.counts.total,some h.totalBytes,some i.identity.id,i.identity.resolvedStoryId,
    some i.progress.total]

/-- The bytes given to the hash. -/
def scopeMessage (h : OperationHeader) (i : OperationItem) : List UInt8 :=
  textBytes "librairii.temporary-scope.v1"++
    ((scopeTexts h i).flatMap textField++(scopeNumbers h i).flatMap numberField)

/-- What a scope is answered with: its digest, the destination and the kind. -/
structure TempScope where
  /-- Spelled digest of the hashed columns. -/
  digest : String
  destination : Option OperationPath
  kind : OperationKind
  deriving DecidableEq

/-- The scope of one item; registration requires the item and its operation to run. -/
def operationTempScope (sha256 : List UInt8 → String) (sizes : RowSizes) (d : Database)
    (id : String) (item : ℤ) (running : Bool) : Except StorageError TempScope :=
  match view sizes d id (some item) with
  | .error error => .error error
  | .ok none => .error .snapshotChanged
  | .ok (some v) =>
    match v.item with
    | none => .error .snapshotChanged
    | some i =>
      if running && (isTerminal v.operation.state || i.state≠.running) then .error .snapshotChanged
      else .ok ⟨sha256 (scopeMessage v.operation i),v.operation.destination,v.operation.kind⟩

/-- What a registration keeps of its scope. -/
structure Temporary where
  operation : String
  item : ℤ
  /-- Digest recorded at registration. -/
  scopeSha256 : String
  /-- Directory outside the library, for an export. -/
  destination : Option OperationPath
  deriving DecidableEq

/-- Registration of a stage inside the library. -/
def registerOperation (sha256 : List UInt8 → String) (sizes : RowSizes) (d : Database)
    (operation : String) (item : ℤ) : Option Temporary :=
  match operationTempScope sha256 sizes d operation item true with
  | .error _ => none
  | .ok scope => some ⟨operation,item,scope.digest,none⟩

/-- Registration of a workspace at the destination of an export; `usable` stands for
the checks of the directory. -/
def registerExport (sha256 : List UInt8 → String) (usable : OperationPath → Bool)
    (sizes : RowSizes) (d : Database) (operation : String) (item : ℤ) : Option Temporary :=
  match operationTempScope sha256 sizes d operation item true with
  | .error _ => none
  | .ok scope =>
    if scope.kind≠.export then none
    else scope.destination.bind fun path =>
      if usable path then some ⟨operation,item,scope.digest,some path⟩ else none

/-- The check of one registration at startup. -/
def recoverTemporary (sha256 : List UInt8 → String) (sizes : RowSizes) (d : Database)
    (t : Temporary) : Except StorageError Unit :=
  match operationTempScope sha256 sizes d t.operation t.item false with
  | .error error => .error error
  | .ok scope =>
    if scope.digest≠t.scopeSha256 || t.destination.any (fun path =>
        scope.kind≠.export || scope.destination≠some path) then .error .snapshotChanged
    else .ok ()

def clearStory (row : OperationItem) : OperationItem :=
  {row with identity := {row.identity with storyId := none}}

/-- Removing a story clears the live references to it. -/
def deleteStory (story : ℤ) (d : Database) : Database :=
  ⟨d.operations,update (fun row => row.identity.storyId=some story) clearStory d.items⟩

/-- A call of the job store or the removal of a story. -/
inductive Change where
  | store (event : Event)
  | deleteStory (story : ℤ)

def change (session : Session) (d : Database) : Change → Database
  | .store event => (step session event d).2
  | .deleteStory story => deleteStory story d

/-- The tables after changes in order. -/
def changes (session : Session) (list : List Change) (d : Database) : Database :=
  list.foldl (change session) d

/-- Every stored row is found again with the same immutable columns. -/
structure ScopesKept (d d' : Database) : Prop where
  /-- Operations keep their scopes. -/
  operations : ∀ id row, lookup (·.identity.id) id d.operations=some row →
    ∃ row', lookup (·.identity.id) id d'.operations=some row' ∧
      row'.immutableScope=row.immutableScope
  /-- Items keep their scopes. -/
  items : ∀ id row, lookup (·.identity.id) id d.items=some row →
    ∃ row', lookup (·.identity.id) id d'.items=some row' ∧ row'.immutableScope=row.immutableScope

theorem ScopesKept.refl (d : Database) : ScopesKept d d :=
  ⟨fun _ row h => ⟨row,h,rfl⟩,fun _ row h => ⟨row,h,rfl⟩⟩

theorem ScopesKept.trans (a b c : Database) (h : ScopesKept a b) (h' : ScopesKept b c) :
    ScopesKept a c := by
  constructor
  · intro id row hr
    obtain ⟨row',hr',hs⟩ := h.operations id row hr
    obtain ⟨row'',hr'',hs'⟩ := h'.operations id row' hr'
    exact ⟨row'',hr'',hs'.trans hs⟩
  · intro id row hr
    obtain ⟨row',hr',hs⟩ := h.items id row hr
    obtain ⟨row'',hr'',hs'⟩ := h'.items id row' hr'
    exact ⟨row'',hr'',hs'.trans hs⟩

theorem operation_id_of_scope {row row' : OperationHeader}
    (h : row'.immutableScope=row.immutableScope) : row'.identity.id=row.identity.id :=
  congrArg (fun s : OperationScope => s.identity.id) h

theorem item_id_of_scope {row row' : OperationItem}
    (h : row'.immutableScope=row.immutableScope) : row'.identity.id=row.identity.id :=
  congrArg ItemScope.id h

theorem lookup_update_scope {α κ σ : Type} [DecidableEq κ] {key : α → κ} {scope : α → σ}
    {p : α → Bool} {f : α → α} (hf : ∀ row, scope (f row)=scope row)
    (hkey : ∀ row row', scope row'=scope row → key row'=key row) {rows : List α} {k : κ} {row : α}
    (h : lookup key k rows=some row) :
    ∃ row', lookup key k (update p f rows)=some row' ∧ scope row'=scope row := by
  rw [lookup_update (fun row => hkey row (f row) (hf row)),h,Option.map_some]
  refine ⟨_,rfl,?_⟩
  split
  · exact hf row
  · rfl

theorem respected_scopes (env : SchemaEnv) : Respected env ScopesKept where
  refl := ScopesKept.refl
  trans := ScopesKept.trans
  operations {p f} hf _ := by
    intro d n d' h
    obtain ⟨-,rfl⟩ := updateOperations_ok h
    constructor
    · intro id row hr
      exact lookup_update_scope hf (fun _ _ => operation_id_of_scope) hr
    · intro id row hr
      exact ⟨row,hr,rfl⟩
  items {p f} hf _ := by
    intro d n d' h
    obtain ⟨-,rfl⟩ := updateItems_ok h
    constructor
    · intro id row hr
      exact ⟨row,hr,rfl⟩
    · intro id row hr
      exact lookup_update_scope hf (fun _ _ => item_id_of_scope) hr

theorem followed_scopes : Followed ScopesKept where
  respected := respected_scopes
  create sizes inputs env input createdAt := by
    intro d stored d' h
    rcases create_ok h with rfl | ⟨total,rows,-,ho,hi,-⟩
    · exact ScopesKept.refl _
    · constructor
      · intro id row hr
        exact ⟨row,by rw [ho]; exact lookup_append hr _,rfl⟩
      · intro id row hr
        exact ⟨row,by rw [hi]; exact lookup_append hr _,rfl⟩

theorem scopes_deleteStory (story : ℤ) (d : Database) : ScopesKept d (deleteStory story d) := by
  constructor
  · intro id row hr
    exact ⟨row,hr,rfl⟩
  · intro id row hr
    exact lookup_update_scope (f:=clearStory) (fun _ => rfl) (fun _ _ => item_id_of_scope) hr

variable {d : Database}

theorem accounted_deleteStory (story : ℤ) (h : Accounted d) : Accounted (deleteStory story d) := by
  refine h.updates (f:=clearStory) (q:=fun _ => false) (g:=id) rfl (update_none _ _)
    (fun _ => ⟨rfl,rfl⟩) (fun _ => rfl) ?_ ?_
  · intro row hm
    rw [if_neg Bool.false_ne_true,
      trueCounts_same (d:=d) (f:=clearStory) rfl (fun _ => rfl) (fun _ _ => rfl) row.identity.id]
    exact h.counts row hm
  · intro row _ hs
    cases hs

variable (session : Session)

theorem scopes_change (c : Change) (d : Database) : ScopesKept d (change session d c) := by
  cases c with
  | store event => exact followed_scopes.step session event d
  | deleteStory story => exact scopes_deleteStory story d

variable (list : List Change)

theorem scopes_changes (d : Database) : ScopesKept d (changes session list d) := by
  induction list generalizing d with
  | nil => exact ScopesKept.refl d
  | cons c list ih => exact ScopesKept.trans _ _ _ (scopes_change session c d) (ih _)

theorem accounted_changes (h : Accounted d) : Accounted (changes session list d) := by
  induction list generalizing d with
  | nil => exact h
  | cons c list ih =>
    have hc : Accounted (change session d c) := by
      cases c with
      | store event => exact accounted_step session event h
      | deleteStory story => exact accounted_deleteStory story h
    exact ih hc

theorem filter_of_lookup {α κ : Type} [DecidableEq κ] {key : α → κ} {k : κ} {rows : List α}
    {row : α} (hk : (rows.map key).Nodup) (h : lookup key k rows=some row) :
    rows.filter (fun r => key r=k)=[row] := by
  induction rows with
  | nil => cases h
  | cons first rows ih =>
    rw [List.map_cons,List.nodup_cons] at hk
    by_cases hf : key first=k
    · have hfirst : first=row := by
        rw [lookup,List.find?_cons_of_pos (by simpa using hf)] at h
        exact Option.some.inj h
      have hnone : rows.filter (fun r => key r=k)=[] := by
        rw [List.filter_eq_nil_iff]
        intro r hr hkey
        rw [decide_eq_true_eq] at hkey
        exact hk.1 (List.mem_map.mpr ⟨r,hr,hkey.trans hf.symm⟩)
      rw [List.filter_cons_of_pos (by simpa using hf),hnone,hfirst]
    · rw [lookup,List.find?_cons_of_neg (by simpa using hf)] at h
      rw [List.filter_cons_of_neg (by simpa using hf)]
      exact ih hk.2 h

/-- The two rows of a scope are small enough to be read. -/
def Readable (sizes : RowSizes) (h : OperationHeader) (i : OperationItem) : Prop :=
  headerText sizes h ≤ maxRowText ∧ itemText sizes i ≤ maxRowText

instance (sizes : RowSizes) (h : OperationHeader) (i : OperationItem) :
    Decidable (Readable sizes h i) := inferInstanceAs (Decidable (_ ∧ _))

theorem budget_single (n : ℕ) : budget [n] maxRowText=
    if n ≤ maxRowText then .ok () else .error (.operationInput .resourceLimit) := by
  by_cases h : n ≤ maxRowText
  · rw [if_pos h]
    simp [budget,h]
  · rw [if_neg h]
    simp [budget,not_le.mp h]

variable {sha256 : List UInt8 → String} {sizes : RowSizes} {t : Temporary}

theorem recoverTemporary_error {error : StorageError}
    (h : operationTempScope sha256 sizes d t.operation t.item false=.error error) :
    recoverTemporary sha256 sizes d t=.error error := by
  rw [recoverTemporary,h]

theorem itemsOf_keys (h : Accounted d) (id : String) : ((itemsOf d id).map (·.identity.id)).Nodup :=
  h.itemKeys.sublist (List.filter_sublist.map _)

variable {i : OperationItem} {h : OperationHeader} {id : String} {item : ℤ}

/-- Over stored rows a recovered scope is answered exactly when both rows are small
enough; otherwise the read is refused for its size. -/
theorem operationTempScope_stored (hd : Accounted d)
    (hh : lookup (·.identity.id) id d.operations=some h) (hi : itemOf d id item=some i) :
    operationTempScope sha256 sizes d id item false=
      if Readable sizes h i then
        .ok ⟨sha256 (scopeMessage h i),h.destination,h.kind⟩
      else .error (.operationInput .resourceLimit) := by
  have hheader : header sizes d id=if headerText sizes h ≤ maxRowText then .ok (some h)
      else .error (.operationInput .resourceLimit) := by
    rw [header,filter_of_lookup hd.operationKeys hh,List.map_singleton,budget_single,hh]
    split <;> rfl
  by_cases hsmall : headerText sizes h ≤ maxRowText
  · rw [if_pos hsmall] at hheader
    have hview : view sizes d id (some item)=if itemText sizes i ≤ maxRowText then
        .ok (some ⟨h,some i,siblingCounts d id⟩) else .error (.operationInput .resourceLimit) := by
      rw [view,hheader]
      change (budget (((itemsOf d id).filter fun row => row.identity.id=item).map
        (itemText sizes)) maxRowText >>= _)=_
      rw [filter_of_lookup (itemsOf_keys hd id) hi,List.map_singleton,budget_single]
      rw [hi]
      split <;> rfl
    by_cases hitem : itemText sizes i ≤ maxRowText
    · rw [if_pos hitem] at hview
      rw [operationTempScope,hview,if_pos ⟨hsmall,hitem⟩]
      rfl
    · rw [if_neg hitem] at hview
      rw [operationTempScope,hview,if_neg fun hr => hitem hr.2]
  · rw [if_neg hsmall] at hheader
    have hview : view sizes d id (some item)=.error (.operationInput .resourceLimit) := by
      rw [view,hheader]
      rfl
    rw [operationTempScope,hview,if_neg fun hr => hsmall hr.1]

variable {s : TempScope}

/-- An answered scope was computed from stored rows that were small enough. -/
theorem operationTempScope_ok {running : Bool}
    (h : operationTempScope sha256 sizes d id item running=.ok s) :
    ∃ o i, view sizes d id (some item)=.ok (some ⟨o,some i,siblingCounts d id⟩) ∧
      lookup (·.identity.id) id d.operations=some o ∧ itemOf d id item=some i ∧
      s=⟨sha256 (scopeMessage o i),o.destination,o.kind⟩ := by
  unfold operationTempScope at h
  split at h
  · cases h
  · cases h
  · next v hv =>
    split at h
    · cases h
    · next i hi =>
      split at h
      · cases h
      · obtain ⟨hh,hitem,hs⟩ := view_some hv
        rw [hi] at hitem
        refine ⟨v.operation,i,?_,hh,hitem.symm,(Except.ok.inj h).symm⟩
        rw [hv,←hs,←hi]

/-- The hashed bytes are determined by the two immutable scopes. -/
theorem scopeMessage_congr {h' : OperationHeader} {i' : OperationItem}
    (hh : h'.immutableScope=h.immutableScope) (hi : i'.immutableScope=i.immutableScope) :
    scopeMessage h' i'=scopeMessage h i := by
  simp only [OperationHeader.immutableScope,StoredOperationIdentity.historyKey,
    OperationScope.mk.injEq,HistoryKey.mk.injEq] at hh
  simp only [OperationItem.immutableScope,ItemScope.mk.injEq] at hi
  obtain ⟨⟨hcreated,hid⟩,hkind,hscope,hdestination,htotal,hbytes⟩ := hh
  obtain ⟨hop,hitem,hstory,huuid,htitle,hsource,hout,hpath,hhash,hskip,hsize⟩ := hi
  simp only [scopeMessage,scopeTexts,scopeNumbers,hcreated,hid,hkind,hscope,hdestination,htotal,
    hbytes,hop,hitem,hstory,huuid,htitle,hsource,hout,hpath,hhash,hskip,hsize]

theorem itemOf_some (hd : Accounted d) (h : itemOf d id item=some i) :
    lookup (·.identity.id) item d.items=some i ∧ i.operationId=id := by
  obtain ⟨hmem,hkey⟩ := lookup_mem h
  obtain ⟨hmem,hop⟩ := List.mem_filter.mp hmem
  rw [←hkey]
  exact ⟨lookup_of_mem hd.itemKeys hmem,by simpa using hop⟩

/-- A scope that was answered is answered again over later rows, unless they have
outgrown the row bound. -/
theorem operationTempScope_later {d' : Database} {running : Bool} (hd : Accounted d)
    (hd' : Accounted d') (hkept : ScopesKept d d')
    (h : operationTempScope sha256 sizes d id item running=.ok s) :
    ∃ o i, lookup (·.identity.id) id d'.operations=some o ∧ itemOf d' id item=some i ∧
      operationTempScope sha256 sizes d' id item false=
        if Readable sizes o i then .ok s else .error (.operationInput .resourceLimit) := by
  obtain ⟨o,i,-,ho,hi,hs⟩ := operationTempScope_ok h
  obtain ⟨hitem,hop⟩ := itemOf_some hd hi
  obtain ⟨o',ho',hoscope⟩ := hkept.operations id o ho
  obtain ⟨i',hi',hiscope⟩ := hkept.items item i hitem
  have hop' : i'.operationId=id := (congrArg ItemScope.operationId hiscope).trans hop
  have hitem' : itemOf d' id item=some i' := lookup_filter hi' (by simpa using hop')
  have hdestination : o'.destination=o.destination := congrArg OperationScope.destination hoscope
  have hkind : o'.kind=o.kind := congrArg OperationScope.kind hoscope
  refine ⟨o',i',ho',hitem',?_⟩
  rw [operationTempScope_stored hd' ho' hitem',scopeMessage_congr hoscope hiscope,hdestination,
    hkind,hs]

/-- A temporary recorded by one of the two registrations. -/
def Registered (sha256 : List UInt8 → String) (usable : OperationPath → Bool) (sizes : RowSizes)
    (d : Database) (t : Temporary) : Prop :=
  registerOperation sha256 sizes d t.operation t.item=some t ∨
    registerExport sha256 usable sizes d t.operation t.item=some t

theorem Registered.scope {usable : OperationPath → Bool} (h : Registered sha256 usable sizes d t) :
    ∃ s, operationTempScope sha256 sizes d t.operation t.item true=.ok s ∧
      t.scopeSha256=s.digest ∧
      ∀ path ∈ t.destination, s.kind=.export ∧ s.destination=some path := by
  rcases h with h | h
  · unfold registerOperation at h
    split at h
    · cases h
    · next s hs =>
      rw [Option.some.injEq] at h
      refine ⟨s,hs,by rw [←h],?_⟩
      intro path hpath
      rw [←h] at hpath
      cases hpath
  · unfold registerExport at h
    split at h
    · cases h
    · next s hs =>
      split at h
      · cases h
      · next hkind =>
        obtain ⟨path,hdestination,h⟩ := Option.bind_eq_some_iff.mp h
        split at h
        · rw [Option.some.injEq] at h
          refine ⟨s,hs,by rw [←h],?_⟩
          intro path' hpath
          rw [←h] at hpath
          cases hpath
          exact ⟨not_not.mp hkind,hdestination⟩
        · cases h

theorem recoverTemporary_same
    (hread : operationTempScope sha256 sizes d t.operation t.item false=.ok s)
    (hdigest : t.scopeSha256=s.digest)
    (hpath : ∀ path ∈ t.destination, s.kind=.export ∧ s.destination=some path) :
    recoverTemporary sha256 sizes d t=.ok () := by
  rw [recoverTemporary,hread]
  dsimp only
  rw [if_neg]
  simp only [hdigest,ne_eq,not_true_eq_false,decide_false,Bool.false_or,Option.any_eq_true,
    Bool.or_eq_true,decide_eq_true_eq,not_exists,not_and]
  intro path hmem hbad
  obtain ⟨hkind,hdestination⟩ := hpath path hmem
  cases hbad with
  | inl hbad => exact hbad hkind
  | inr hbad => exact hbad hdestination

theorem textBytes_injective : Function.Injective textBytes := by
  intro a b h
  have ha := @String.utf8Encode_toList a
  have hb := @String.utf8Encode_toList b
  have hbytes : a.toList.utf8Encode=b.toList.utf8Encode := congrArg List.toByteArray h
  rw [ha,hb] at hbytes
  exact String.toByteArray_inj.mp hbytes

theorem map_textBytes {a b : Option String} (h : a.map textBytes=b.map textBytes) : a=b :=
  Option.map_injective textBytes_injective h

theorem map_pathBytes {a b : Option OperationPath} (h : a.map (·.bytes)=b.map (·.bytes)) : a=b := by
  refine Option.map_injective ?_ h
  intro p q hpq
  cases p
  cases q
  exact congrArg OperationPath.mk hpq

theorem encodeKind_injective : Function.Injective encodeKind := by
  intro a b h
  cases a <;> cases b <;> first | rfl | exact absurd h (by decide)

def StoredWords (h : OperationHeader) (i : OperationItem) : Prop :=
  ∀ n ∈ scopeNumbers h i, HeldNumber n

theorem length_of_text {value : Option String} {text : List UInt8}
    (h : text ∈ value.map textBytes) : text.length≤textLength value := by
  cases value with
  | none => cases h
  | some value =>
    cases h
    rw [textBytes,←utf8ByteSize_eq]
    exact le_rfl

theorem length_of_path {value : Option OperationPath} {text : List UInt8}
    (h : text ∈ value.map (·.bytes)) : text.length≤pathLength value := by
  cases value with
  | none => cases h
  | some value =>
    cases h
    exact le_rfl

theorem heldTexts (hr : Readable sizes h i) : ∀ v ∈ scopeTexts h i, HeldText v := by
  obtain ⟨hheader,hitem⟩ := hr
  simp only [headerText,itemText,maxRowText] at hheader hitem
  have hsize : ∀ (value : String) (text : List UInt8),
      text ∈ some (textBytes value) → text.length=value.utf8ByteSize := by
    intro value text ht
    cases ht
    exact (utf8ByteSize_eq value).symm
  intro v hv text ht
  simp only [scopeTexts,List.mem_cons,List.not_mem_nil,or_false] at hv
  rcases hv with rfl | rfl | rfl | rfl | rfl | rfl | rfl | rfl | rfl | rfl | rfl | rfl | rfl |
    rfl | rfl
  all_goals
    first
    | have hlength := hsize _ _ ht
      omega
    | have hlength := length_of_text ht
      omega
    | have hlength := length_of_path ht
      omega

/-- The hashed bytes name the two immutable scopes: tags tell an absent field from
an empty one, and lengths tell where each field ends. -/
theorem scopeMessage_injective {h' : OperationHeader} {i' : OperationItem} (hr : Readable sizes h i)
    (hr' : Readable sizes h' i') (hw : StoredWords h i)
    (hw' : StoredWords h' i') (hm : scopeMessage h i=scopeMessage h' i') :
    h.immutableScope=h'.immutableScope ∧ i.immutableScope=i'.immutableScope := by
  have hbody := List.append_cancel_left hm
  obtain ⟨htexts,hrest⟩ := fields_append textField_append (heldTexts hr) (heldTexts hr') rfl hbody
  have hend : (scopeNumbers h i).flatMap numberField++[]=
      (scopeNumbers h' i').flatMap numberField++[] := by
    rw [List.append_nil,List.append_nil]
    exact hrest
  have hnumbers := fields_append numberField_append hw hw' rfl hend
  simp only [scopeTexts,List.cons.injEq,Option.some.injEq,and_true] at htexts
  simp only [scopeNumbers,List.cons.injEq,Option.some.injEq,and_true] at hnumbers
  obtain ⟨hid,hcreated,hkind,hsource,hids,hnames,hdestination,hop,huuid,htitle,hname,hout,hpath,
    hhash,hskip⟩ := htexts
  obtain ⟨htotal,hbytes,hitem,hstory,hsize⟩ := hnumbers
  have hscope : h.exportScope=h'.exportScope := by
    cases he : h.exportScope with
    | mk source ids names =>
      cases he' : h'.exportScope with
      | mk source' ids' names' =>
        rw [he,he'] at hsource hids hnames
        exact congr (congr (congrArg StoredExportScope.mk (map_textBytes hsource))
          (map_textBytes hids)) (map_textBytes hnames)
  constructor
  · simp only [OperationHeader.immutableScope,StoredOperationIdentity.historyKey,
      textBytes_injective hid,textBytes_injective hcreated,
      encodeKind_injective (textBytes_injective hkind),hscope,map_pathBytes hdestination,htotal,
      hbytes]
  · simp only [OperationItem.immutableScope,textBytes_injective hop,hitem,hstory,
      map_textBytes huuid,map_textBytes htitle,textBytes_injective hname,map_pathBytes hout,
      map_pathBytes hpath,map_textBytes hhash,map_textBytes hskip,hsize]

theorem le_of_budget {lengths : List ℕ} {n limit : ℕ} (h : budget lengths limit=.ok ())
    (hn : n ∈ lengths) : n≤limit := by
  have hsum := List.le_sum_of_mem hn
  unfold budget at h
  split at h
  · cases h
  · next hsmall =>
    simp only [Bool.or_eq_true,decide_eq_true_eq,not_or] at hsmall
    omega

/-- Rows that were read were small enough. -/
theorem readable_of_view {o : OperationHeader} {n : SiblingCounts}
    (h : view sizes d id (some item)=.ok (some ⟨o,some i,n⟩)) : Readable sizes o i := by
  obtain ⟨found,hheader,h⟩ := CheckedResults.exceptBind_ok.mp h
  cases found with
  | none => cases h
  | some operation =>
    obtain ⟨u,hbudget,h⟩ := CheckedResults.exceptBind_ok.mp h
    have hrow := header_ok hheader
    obtain ⟨u',hbudget',-⟩ := CheckedResults.exceptBind_ok.mp hheader
    have hfound := Option.some.inj (Except.ok.inj h)
    have ho : operation=o := congrArg TerminalView.operation hfound
    have hi : itemOf d id item=some i := congrArg TerminalView.item hfound
    obtain ⟨hmem,hkey⟩ := lookup_mem hrow
    obtain ⟨hmem',hkey'⟩ := lookup_mem hi
    rw [ho] at hmem hkey
    constructor
    · exact le_of_budget hbudget'
        (List.mem_map.mpr ⟨o,List.mem_filter.mpr ⟨hmem,by simpa using hkey⟩,rfl⟩)
    · exact le_of_budget hbudget
        (List.mem_map.mpr ⟨i,List.mem_filter.mpr ⟨hmem',by simpa using hkey'⟩,rfl⟩)

/-- The scope was answered for these two rows, stored in some tables. -/
def Answered (sha256 : List UInt8 → String) (sizes : RowSizes) (o : OperationHeader)
    (i : OperationItem) (s : TempScope) : Prop :=
  ∃ d id item running, operationTempScope sha256 sizes d id item running=.ok s ∧
    lookup (·.identity.id) id d.operations=some o ∧ itemOf d id item=some i ∧ StoredWords o i

theorem Answered.digest {o : OperationHeader} (h : Answered sha256 sizes o i s) :
    s.digest=sha256 (scopeMessage o i) ∧ Readable sizes o i ∧ StoredWords o i := by
  obtain ⟨d,id,item,running,hs,ho,hi,hw⟩ := h
  obtain ⟨o',i',hv,ho',hi',hs'⟩ := operationTempScope_ok hs
  have heq : o'=o := Option.some.inj (ho'.symm.trans ho)
  have heq' : i'=i := Option.some.inj (hi'.symm.trans hi)
  rw [heq,heq'] at hv hs'
  exact ⟨by rw [hs'],readable_of_view hv,hw⟩

theorem accounted_reached :
    Accounted (changes session list emptyTables) :=
  accounted_changes session list accounted_emptyTables

/-- A registered temporary is answered its own digest after every run of changes, and
recovery accepts it, unless its rows have outgrown the bound under which rows are
read. Two items whose immutable columns differ have different digests unless the
hash collides on what is hashed for them. -/
theorem temp_scope_stable_injective (sha256 : List UInt8 → String) (session : Session) :
    (∀ (before after : List Change) (usable : OperationPath → Bool) (t : Temporary),
      Registered sha256 usable session.sizes (changes session before emptyTables) t →
      ∃ s o i,
        operationTempScope sha256 session.sizes (changes session before emptyTables)
          t.operation t.item true=.ok s ∧
        lookup (·.identity.id) t.operation
          (changes session after (changes session before emptyTables)).operations=some o ∧
        itemOf (changes session after (changes session before emptyTables))
          t.operation t.item=some i ∧
        operationTempScope sha256 session.sizes
          (changes session after (changes session before emptyTables)) t.operation t.item false=
            (if Readable session.sizes o i then .ok s
              else .error (.operationInput .resourceLimit)) ∧
        recoverTemporary sha256 session.sizes
          (changes session after (changes session before emptyTables)) t=
            if Readable session.sizes o i then .ok ()
              else .error (.operationInput .resourceLimit)) ∧
    ∀ o i s o' i' s', Answered sha256 session.sizes o i s →
      Answered sha256 session.sizes o' i' s' →
      (sha256 (scopeMessage o i)=sha256 (scopeMessage o' i') →
        scopeMessage o i=scopeMessage o' i') →
      (o.immutableScope≠o'.immutableScope ∨ i.immutableScope≠i'.immutableScope) →
      s.digest≠s'.digest := by
  constructor
  · intro before after usable t ht
    obtain ⟨s,hs,hdigest,hpath⟩ := ht.scope
    have hd := accounted_reached session before
    obtain ⟨o,i,ho,hi,hread⟩ := operationTempScope_later hd (accounted_changes session after hd)
      (scopes_changes session after _) hs
    refine ⟨s,o,i,hs,ho,hi,hread,?_⟩
    by_cases hr : Readable session.sizes o i
    · rw [if_pos hr] at hread ⊢
      exact recoverTemporary_same hread hdigest hpath
    · rw [if_neg hr] at hread ⊢
      exact recoverTemporary_error hread
  · intro o i s o' i' s' h h' hfree hne heq
    obtain ⟨hs,hr,hw⟩ := h.digest
    obtain ⟨hs',hr',hw'⟩ := h'.digest
    rw [hs,hs'] at heq
    obtain ⟨ho,hi⟩ := scopeMessage_injective hr hr' hw hw' (hfree heq)
    cases hne with
    | inl hne => exact hne ho
    | inr hne => exact hne hi

section Example

/-- A call whose transaction commits. -/
def plainCall : StoreCall :=
  ⟨⟨fun _ => false,fun _ => true,fun _ => none⟩,none,.quiet,none,none⟩

def plainSession : Session :=
  ⟨⟨400,400⟩,⟨fun _ => true,fun _ => .ok 0,fun _ => "",fun _ => ""⟩⟩

def plainImport : NewOperation where
  id := "aaaaaaaa-0000-4000-8000-000000000001"
  kind := .import
  source := none
  destination := none
  items := [⟨0,"","","pack.zip",⟨[]⟩,⟨[]⟩,"","",10,none⟩]

/-- Its only item runs. -/
def runningImport : List Change :=
  [.store (.createOperation plainCall plainImport "2026-01-01"),
    .store (.markOperationItemRunning plainCall plainImport.id 1 "2026-01-02")]

def runningRow : OperationHeader where
  identity := ⟨"aaaaaaaa-0000-4000-8000-000000000001","2026-01-01",some "2026-01-02",none⟩
  kind := .import
  state := .running
  exportScope := ⟨none,none,none⟩
  destination := none
  counts := ⟨0,1⟩
  totalBytes := 0
  cancelRequested := false
  outcome := ⟨none,none⟩

def runningItem : OperationItem where
  operationId := "aaaaaaaa-0000-4000-8000-000000000001"
  identity := ⟨1,none,none,none⟩
  storyTitle := none
  sourceName := "pack.zip"
  outputName := none
  archiveRelativePath := none
  archiveSha256 := none
  exportSkipCode := none
  state := .running
  progress := ⟨0,10⟩
  outcome := ⟨none,none⟩

/-- The item with an empty title in the place of the absent one. -/
def untitledItem : OperationItem := {runningItem with storyTitle := some ""}

def twoDigests (message : List UInt8) : String :=
  if message=scopeMessage runningRow runningItem then
    "ce0f2845b87a0a1d73be58201320af45b5a87c04144d9ce9d1b44fd069e63dcd"
  else if message=scopeMessage runningRow untitledItem then
    "4261cb76f383260b18d5976022f68c3543b7c9f5f8918c1da2d5ff497b6b3a9d"
  else ""

def runningStage : Temporary :=
  ⟨plainImport.id,1,"ce0f2845b87a0a1d73be58201320af45b5a87c04144d9ce9d1b44fd069e63dcd",none⟩

/-- The numbers of these rows are small. -/
theorem storedWords_running : StoredWords runningRow runningItem := by
  intro n hn m hm
  simp only [scopeNumbers,runningRow,runningItem,List.mem_cons,List.not_mem_nil,or_false] at hn
  rcases hn with rfl | rfl | rfl | rfl | rfl <;> simp only [Option.mem_def,Option.some.injEq,
    reduceCtorEq] at hm <;> omega

theorem registered_running : Registered twoDigests (fun _ => true) plainSession.sizes
    (changes plainSession runningImport emptyTables) runningStage := by
  left
  show registerOperation twoDigests plainSession.sizes
    (changes plainSession runningImport emptyTables) plainImport.id 1=some runningStage
  decide +kernel

/-- A stage registered for the running import is accepted after its cancellation was
requested, and an absent title is not an empty one. -/
theorem temp_scope_import :
    (∃ s o i, operationTempScope twoDigests plainSession.sizes
          (changes plainSession runningImport emptyTables) plainImport.id 1 true=.ok s ∧
        lookup (·.identity.id) plainImport.id
          (changes plainSession [.store (.requestCancel plainCall plainImport.id)]
            (changes plainSession runningImport emptyTables)).operations=some o ∧
        itemOf (changes plainSession [.store (.requestCancel plainCall plainImport.id)]
          (changes plainSession runningImport emptyTables)) plainImport.id 1=some i ∧
        operationTempScope twoDigests plainSession.sizes
          (changes plainSession [.store (.requestCancel plainCall plainImport.id)]
            (changes plainSession runningImport emptyTables)) plainImport.id 1 false=
            (if Readable plainSession.sizes o i then .ok s
              else .error (.operationInput .resourceLimit)) ∧
        recoverTemporary twoDigests plainSession.sizes
          (changes plainSession [.store (.requestCancel plainCall plainImport.id)]
            (changes plainSession runningImport emptyTables)) runningStage=
            if Readable plainSession.sizes o i then .ok ()
              else .error (.operationInput .resourceLimit)) ∧
      "ce0f2845b87a0a1d73be58201320af45b5a87c04144d9ce9d1b44fd069e63dcd"≠
        "4261cb76f383260b18d5976022f68c3543b7c9f5f8918c1da2d5ff497b6b3a9d" := by
  refine ⟨(temp_scope_stable_injective twoDigests plainSession).1 runningImport
    [.store (.requestCancel plainCall plainImport.id)] (fun _ => true) runningStage ?_,?_⟩
  · exact registered_running
  · exact (temp_scope_stable_injective twoDigests plainSession).2 runningRow runningItem
      ⟨"ce0f2845b87a0a1d73be58201320af45b5a87c04144d9ce9d1b44fd069e63dcd",none,.import⟩
      runningRow untitledItem
      ⟨"4261cb76f383260b18d5976022f68c3543b7c9f5f8918c1da2d5ff497b6b3a9d",none,.import⟩
      ⟨⟨[runningRow],[runningItem]⟩,plainImport.id,1,true,by decide +kernel,by decide +kernel,
        by decide +kernel,storedWords_running⟩
      ⟨⟨[runningRow],[untitledItem]⟩,plainImport.id,1,true,by decide +kernel,by decide +kernel,
        by decide +kernel,storedWords_running⟩
      (fun h => absurd h (by decide +kernel)) (.inr (by decide +kernel))

/-- The failure of the import, reported in a text. -/
def failedWith (message : String) : Change :=
  .store (.attempt 1 plainCall (.completeItem
    ⟨1,runningRow.immutableScope,runningItem.immutableScope,0,.failed,0,⟨none,some message⟩⟩))

theorem changes_runningImport :
    changes plainSession runningImport emptyTables=⟨[runningRow],[runningItem]⟩ := by
  decide +kernel

theorem changes_failedWith (message : String) :
    changes plainSession [failedWith message] ⟨[runningRow],[runningItem]⟩=
      ⟨[{runningRow with counts := ⟨1,1⟩}],
        [{runningItem with state := .failed, outcome := ⟨none,nullif message⟩}]⟩ := by
  rfl

theorem operationTempScope_failedWith {message : String} (h : maxRowText < message.utf8ByteSize) :
    operationTempScope twoDigests plainSession.sizes (changes plainSession [failedWith message]
      (changes plainSession runningImport emptyTables)) plainImport.id 1 false=
        .error (.operationInput .resourceLimit) := by
  have hd := accounted_changes plainSession [failedWith message]
    (accounted_reached plainSession runningImport)
  rw [changes_runningImport,changes_failedWith] at hd ⊢
  have hfull : nullif message=some message := by
    rw [nullif,if_neg]
    intro hempty
    rw [hempty] at h
    exact absurd h (by decide)
  rw [operationTempScope_stored hd rfl rfl,if_neg]
  intro hr
  have hitem := hr.2
  simp only [itemText,hfull,textLength,Option.map_some,Option.getD_some] at hitem
  omega

/-- Recovery then refuses the stage of that item. -/
theorem recoverTemporary_failedWith {message : String} (h : maxRowText < message.utf8ByteSize) :
    recoverTemporary twoDigests plainSession.sizes (changes plainSession [failedWith message]
      (changes plainSession runningImport emptyTables)) runningStage=
        .error (.operationInput .resourceLimit) :=
  recoverTemporary_error (t:=runningStage) (operationTempScope_failedWith h)

/-- A text just over the row bound. -/
def longMessage : String := String.ofList (List.replicate (maxRowText+1) 'a')

theorem longMessage_size : maxRowText<longMessage.utf8ByteSize := by
  have hsize : longMessage.utf8ByteSize=maxRowText+1 := by
    rw [longMessage,utf8ByteSize_eq,String.toList_ofList,JsonText.length_bytes_ascii]
    · exact List.length_replicate
    · intro c hc
      rw [List.eq_of_mem_replicate hc]
      decide
  rw [hsize]
  exact Nat.lt_succ_self maxRowText

/-- A stage registered for the running import is refused once its failure has been
recorded with a message over 16 MiB: its row is over the bound of a read. -/
theorem temp_scope_outgrown :
    Registered twoDigests (fun _ => true) plainSession.sizes
        (changes plainSession runningImport emptyTables) runningStage ∧
      operationTempScope twoDigests plainSession.sizes
        (changes plainSession [failedWith longMessage]
          (changes plainSession runningImport emptyTables)) plainImport.id 1 false=
            .error (.operationInput .resourceLimit) ∧
      recoverTemporary twoDigests plainSession.sizes
        (changes plainSession [failedWith longMessage]
          (changes plainSession runningImport emptyTables)) runningStage=
            .error (.operationInput .resourceLimit) := by
  exact ⟨registered_running,operationTempScope_failedWith longMessage_size,
    recoverTemporary_failedWith longMessage_size⟩

end Example

end Librairii.TemporaryScopes
