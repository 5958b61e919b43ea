import Librairii.StoryPages
import Librairii.TagDeletion

/-!
# Inspection of saved Collections

An inspection migrates the stored query, decodes the migrated text again and marks the
Collection when its criteria cannot be decoded or are not available. It rewrites the row
with the migrated text. Migration normalizes the names one time more than decoding, and the
second decoding one time more again; when a third normalization of a name is its first, the
criteria that are decoded from the rewritten row are those of the first decoding.
-/

namespace Librairii.CollectionInspection

open CheckedResults RowTables StorageTransactions SavedQuery CanonicalQuery NormalizationPasses
  SavedQueryCodec SavedQueryRoundTrip CollectionRows JsonText
open PassSchedules (members_retire retireOwn)
open StoryQueries hiding validateReferences validateBranches
open WireParser hiding members

/-- Why an inspected Collection cannot be opened. -/
inductive Attention where
  | unmigratableQuery
  | missingCriteria
  deriving DecidableEq

/-- The result of an inspection before its query is handed out. -/
structure CompatibilityInspection where
  collection : Collection
  decodedQueryPayload : Option String
  attention : Option Attention

/-- The result of an inspection. -/
structure Inspection where
  collection : Collection
  query : Option Query
  attention : Option Attention

/-- A valid Collection with a query can be opened. -/
def Inspection.isOpenable (inspection : Inspection) : Bool :=
  inspection.collection.validity=.valid && inspection.query.isSome

/-- Decode a saved query and encode its current form. -/
def migrate (env : CodecEnv) (version : I64) (bytes : List UInt8) (legacyId : I64) :
    Except CodecError (String×Query) := do
  let q ← decode env version bytes legacyId
  let q ← canonicalSaved env.toNormalEnv q
  let _ ← validateReferences q maxNodes true
  let text ← payload env q
  return (text,q)

def read (t : CollectionTables) (id : ℤ) : Except StorageError Collection :=
  match lookup (·.id) id t.collections with
  | some c => .ok c
  | none => .error .collectionNotFound

/-- Mark a Collection that is still valid; the trigger counts the revision. -/
def attentionInspection (collection : Collection) (reason : Attention) :
    Work CollectionTables StorageError CompatibilityInspection := fun t =>
  if collection.validity=.valid then
    if affected (fun c : Collection => c.id=collection.id && c.validity=.valid) t.collections≠1 then
      .error .collectionNotFound
    else .ok (⟨{ collection with
        validity := .needsAttention
        revision := collection.revision+1 },none,some reason⟩,
      { t with collections := TagDeletion.markAttention collection.id t.collections })
  else .ok (⟨collection,none,some reason⟩,t)

/-- A Collection with a migrated query; the trigger counts the revision. -/
def rewritten (payload : List UInt8) (c : Collection) : Collection :=
  { c with queryVersion := currentVersion, queryPayload := payload, revision := c.revision+1 }

def rewriteQuery (id : ℤ) (payload : List UInt8) (rows : List Collection) : List Collection :=
  update (fun c => c.id=id) (rewritten payload) rows

/-- Inspect a Collection: migrate its query, decode the migrated text, check the criteria and
rewrite a row that differs. -/
def inspectCollectionWithQuery (env : CodecEnv) (id : ℤ) :
    Work CollectionTables StorageError (CompatibilityInspection×Option Query) := fun t => do
  let collection ← read t id
  match migrate env collection.queryVersion collection.queryPayload t.legacyId with
  | .error .frozenData => .error .compatibilityInvariant
  | .error _ => (attentionInspection collection .unmigratableQuery t).map fun r => ((r.1,none),r.2)
  | .ok (text,_) =>
    match decode env currentVersion (bytes text.toList) zero with
    | .error .frozenData => .error .compatibilityInvariant
    | .error _ =>
      (attentionInspection collection .unmigratableQuery t).map fun r => ((r.1,none),r.2)
    | .ok query =>
      if availableCriteria t.tags query=false then
        (attentionInspection collection .missingCriteria t).map fun r => ((r.1,none),r.2)
      else do
        let decoded ← (payload env query).mapError fun _ => .compatibilityInvariant
        let (collection,t) := if collection.queryVersion≠currentVersion ∨
            collection.queryPayload≠bytes text.toList then
          (rewritten (bytes text.toList) collection,
            { t with collections := rewriteQuery collection.id (bytes text.toList) t.collections })
          else (collection,t)
        let attention := if collection.validity=.needsAttention then some .missingCriteria else none
        .ok ((⟨collection,some decoded,attention⟩,some query),t)

def inspect (env : CodecEnv) (id : ℤ) : Work CollectionTables StorageError Inspection := fun t =>
  (inspectCollectionWithQuery env id t).map fun r =>
    (⟨r.1.1.collection,r.1.2,r.1.1.attention⟩,r.2)

/-- The refusal of a saved query. -/
def codec : CodecError → StorageError
  | .frozenData => .compatibilityInvariant
  | _ => .collection .invalidQuery

/-- Read the criteria of a Collection without rewriting it. -/
def source (env : CodecEnv) (t : CollectionTables) (id : ℤ) :
    Except StorageError (Collection×Query) := do
  let c ← read t id
  if c.validity≠.valid then .error (.collection .needsAttention)
  else do
    let q ← (decode env c.queryVersion c.queryPayload t.legacyId).mapError codec
    if availableCriteria t.tags q=false then .error (.collection .criteriaUnavailable)
    else return (c,q)

section Passes

variable {env : CodecEnv}

/-- The third normalization of every name of a query is its first, and its languages are
canonical. -/
def Stable (env : NormalEnv) (q : Query) : Prop :=
  ∀ own ∈ members q, Cubic env own.name ∧ FixedLanguages env own

theorem Stable.retire {env : NormalEnv} {q : Query} (h : Stable env q) (version legacyId : I64) :
    Stable env (retire version legacyId q) := by
  intro own' hown
  rw [members_retire] at hown
  obtain ⟨own,hmem,rfl⟩ := List.mem_map.mp hown
  have hstable := h own hmem
  unfold retireOwn
  split <;> split <;> exact hstable

/-- Canonical criteria that another pass renames and a further one renames back. -/
structure Returned (env : NormalEnv) (a b : Query) : Prop where
  canonical : canonical a=a
  /-- The criteria have at most fifty nodes. -/
  bounded : nodes a ≤ maxNodes
  /-- The languages of every node are canonical and its fields within their limits. -/
  members : ∀ own ∈ members a, FixedLanguages env own ∧ Limits own
  renames : Renames env passes a b
  back : Renames env passes b a
  /-- The further pass is a conversion. -/
  saved : canonicalSaved env b=.ok a

/-- Criteria canonicalized twice are canonicalized back by the third time. -/
theorem canonicalSaved_returns {env : NormalEnv} {q a b : Query} (h : Stable env q)
    (ha : canonicalSaved env q=.ok a) (hb : canonicalSaved env a=.ok b) : Returned env a b := by
  have hf : ∀ own ∈ members q, FixedLanguages env own := fun own hown => (h own hown).2
  have hroot : ∀ c, membersOf [c]=members c := by
    intro c
    rw [membersOf,membersOf,List.append_nil]
  obtain ⟨hnodes,hlimits,hrenames⟩ := (canonicalSaved_passes q hf a).mp ha
  have hall : RenamesAll env passes (canonicalBranches [q]) [a] := .cons hrenames .nil
  have hfa : ∀ own ∈ members a, FixedLanguages env own := by
    rw [← hroot] at hf ⊢
    exact fixed_renames hf hall
  have hla : ∀ own ∈ members a, Limits own ∧ Limits (dropIgnored own) := by
    rw [← hroot] at hlimits ⊢
    exact limits_renames hlimits hall
  obtain ⟨hnodesA,hlimitsA,hrenamesB⟩ := (canonicalSaved_passes a hfa b).mp hb
  have hallB : RenamesAll env passes (canonicalBranches [a]) [b] := .cons hrenamesB .nil
  have hfb : ∀ own ∈ members b, FixedLanguages env own := by
    rw [← hroot] at hfa ⊢
    exact fixed_renames hfa hallB
  have hlb : ∀ own ∈ members b, Limits (dropIgnored own) := by
    rw [← hroot] at hlimitsA ⊢
    exact fun own hown => (limits_renames hlimitsA hallB own hown).2
  have hcanonicalA := canonical_renames q hrenames
  have hcanonicalB := canonical_renames a hrenamesB
  rw [hcanonicalA] at hrenamesB
  have hnodesB : nodes b ≤ maxNodes := by
    rw [(members_renames a hrenamesB).1]
    exact hnodesA
  have hcubic : ∀ own ∈ members (CanonicalQuery.canonical q), Cubic env own.name := by
    intro own hown
    rw [members_canonical] at hown
    obtain ⟨o,ho,rfl⟩ := List.mem_map.mp hown
    exact (h o ho).1
  have hback := renames_cubic (CanonicalQuery.canonical q) hcubic passes_pos hrenames hrenamesB
  refine ⟨hcanonicalA,hnodesA,fun own hown => ⟨hfa own hown,(hla own hown).1⟩,hrenamesB,hback,?_⟩
  refine (canonicalSaved_passes b hfb a).mpr ⟨hnodesB,hlb,?_⟩
  rwa [hcanonicalB]

theorem migrate_ok {version : I64} {bytes : List UInt8} {legacyId : I64} {text : String}
    {b : Query} (h : migrate env version bytes legacyId=.ok (text,b)) :
    ∃ a left, decode env version bytes legacyId=.ok a ∧ canonicalSaved env.toNormalEnv a=.ok b ∧
      validateReferences b maxNodes true=.ok left ∧ payload env b=.ok text := by
  unfold migrate at h
  obtain ⟨a,ha,h⟩ := exceptBind_ok.mp h
  obtain ⟨b',hb,h⟩ := exceptBind_ok.mp h
  obtain ⟨left,hleft,h⟩ := exceptBind_ok.mp h
  obtain ⟨text',htext,h⟩ := exceptBind_ok.mp h
  cases h
  exact ⟨a,left,ha,hb,hleft,htext⟩

/-- A migrated text decodes to the criteria it was migrated from, whatever the retired tag is,
and migrates to itself. -/
theorem migrate_returns (hd : Documented env) {version : I64} {payload : List UInt8}
    {legacyId : I64} {text : String} {b : Query}
    (h : migrate env version payload legacyId=.ok (text,b))
    (hs : ∀ q, decodePayload env version payload=.ok q → Stable env.toNormalEnv q) :
    ∃ a left, Returned env.toNormalEnv a b ∧ validateReferences b maxNodes true=.ok left ∧
      (∀ legacyId', decode env currentVersion (bytes text.toList) legacyId'=.ok a) ∧
      ∀ legacyId', migrate env currentVersion (bytes text.toList) legacyId'=.ok (text,b) := by
  obtain ⟨a,left,ha,hb,hleft,htext⟩ := migrate_ok h
  unfold decode at ha
  obtain ⟨q,hq,ha⟩ := exceptBind_ok.mp ha
  have hreturned := canonicalSaved_returns ((hs q hq).retire version legacyId) ha hb
  have hnodes : nodes b ≤ maxNodes := by
    rw [(members_renames a hreturned.renames).1]
    exact hreturned.bounded
  have hread := decodePayload_payload hd htext hnodes hleft
  have hagain : ∀ legacyId', decode env currentVersion (bytes text.toList) legacyId'=.ok a := by
    intro legacyId'
    rw [decode,bind_of_ok hread,retire_current]
    exact hreturned.saved
  refine ⟨a,left,hreturned,hleft,hagain,?_⟩
  intro legacyId'
  rw [migrate,bind_of_ok (hagain legacyId'),bind_of_ok hb,bind_of_ok hleft,bind_of_ok htext]
  rfl

end Passes

/-- A migrated query that is decoded and available. -/
structure Migrated where
  text : String
  decoded : String
  query : Query

/-- What an inspection finds in a row: why it needs attention, or its migrated query. -/
def examine (env : CodecEnv) (t : CollectionTables) (c : Collection) :
    Except StorageError (Attention⊕Migrated) :=
  match migrate env c.queryVersion c.queryPayload t.legacyId with
  | .error .frozenData => .error .compatibilityInvariant
  | .error _ => .ok (.inl .unmigratableQuery)
  | .ok (text,_) =>
    match decode env currentVersion (bytes text.toList) zero with
    | .error .frozenData => .error .compatibilityInvariant
    | .error _ => .ok (.inl .unmigratableQuery)
    | .ok query =>
      if availableCriteria t.tags query=false then .ok (.inl .missingCriteria)
      else do
        let decoded ← (payload env query).mapError fun _ => .compatibilityInvariant
        .ok (.inr ⟨text,decoded,query⟩)

def migratedRow (c : Collection) (text : String) : Collection :=
  if c.queryVersion≠currentVersion ∨ c.queryPayload≠bytes text.toList then
    rewritten (bytes text.toList) c else c

def migratedTables (c : Collection) (text : String) (t : CollectionTables) : CollectionTables :=
  if c.queryVersion≠currentVersion ∨ c.queryPayload≠bytes text.toList then
    { t with collections := rewriteQuery c.id (bytes text.toList) t.collections } else t

/-- What an inspection returns and writes for what it finds. -/
def conclude (c : Collection) :
    Attention⊕Migrated → Work CollectionTables StorageError (CompatibilityInspection×Option Query)
  | .inl reason,t => (attentionInspection c reason t).map fun r => ((r.1,none),r.2)
  | .inr m,t => .ok ((⟨migratedRow c m.text,some m.decoded,
      if c.validity=.needsAttention then some .missingCriteria else none⟩,some m.query),
        migratedTables c m.text t)

section Steps

variable {env : CodecEnv} {t t' : CollectionTables} {id : ℤ}

theorem read_ok {c : Collection} : read t id=.ok c ↔ lookup (·.id) id t.collections=some c := by
  unfold read
  cases lookup (·.id) id t.collections with
  | none => exact ⟨nofun,nofun⟩
  | some c' =>
    rw [Except.ok.injEq,Option.some.injEq]

theorem read_id {c : Collection} (h : read t id=.ok c) : c.id=id := (lookup_mem (read_ok.mp h)).2

theorem inspect_steps : (inspectCollectionWithQuery env id).run t=
    (read t id >>= fun c => examine env t c >>= fun found => (conclude c found).run t) := by
  change inspectCollectionWithQuery env id t=_
  unfold inspectCollectionWithQuery
  congr 1
  funext c
  unfold examine
  cases hm : migrate env c.queryVersion c.queryPayload t.legacyId with
  | error e => cases e <;> rfl
  | ok migrated =>
    dsimp only
    cases hdecode : decode env currentVersion (bytes migrated.1.toList) zero with
    | error e => cases e <;> rfl
    | ok query =>
      dsimp only
      by_cases havailable : availableCriteria t.tags query=false
      · rw [if_pos havailable,if_pos havailable]
        rfl
      · rw [if_neg havailable,if_neg havailable]
        cases hp : payload env query with
        | error e => rfl
        | ok decoded =>
          change _=conclude c (.inr ⟨migrated.1,decoded,query⟩) t
          unfold conclude migratedRow migratedTables
          dsimp only
          by_cases hsame : c.queryVersion≠currentVersion ∨
              c.queryPayload≠bytes migrated.1.toList
          · rw [if_pos hsame,if_pos hsame,if_pos hsame]
            rfl
          · rw [if_neg hsame,if_neg hsame,if_neg hsame]
            rfl

/-- What an inspection returns for a row that it leaves as it is. -/
def outcome (c : Collection) : Attention⊕Migrated → CompatibilityInspection×Option Query
  | .inl reason => (⟨c,none,some reason⟩,none)
  | .inr m => (⟨c,some m.decoded,
      if c.validity=.needsAttention then some .missingCriteria else none⟩,some m.query)

/-- A row that an inspection leaves as it is: one that needs attention is marked, and a
migrated one stores its migrated text. -/
def Settled (env : CodecEnv) (t : CollectionTables) (c : Collection)
    (found : Attention⊕Migrated) : Prop :=
  examine env t c=.ok found ∧ match found with
  | .inl _ => c.validity=.needsAttention
  | .inr m => c.queryVersion=currentVersion ∧ c.queryPayload=bytes m.text.toList

theorem settled_inspect {c : Collection} {found : Attention⊕Migrated} (hread : read t id=.ok c)
    (h : Settled env t c found) :
    (inspectCollectionWithQuery env id).run t=.ok (outcome c found,t) := by
  obtain ⟨hfound,hsettled⟩ := h
  rw [inspect_steps,bind_of_ok hread,bind_of_ok hfound]
  cases found with
  | inl reason =>
    have hmarked : ¬c.validity=.valid := by
      rw [hsettled]
      exact nofun
    change (attentionInspection c reason t).map _=_
    rw [attentionInspection,if_neg hmarked]
    rfl
  | inr m =>
    have hstored : ¬(c.queryVersion≠currentVersion ∨ c.queryPayload≠bytes m.text.toList) := by
      rw [not_or,not_not,not_not]
      exact hsettled
    change Except.ok (((⟨migratedRow c m.text,some m.decoded,_⟩ : CompatibilityInspection),
      some m.query),migratedTables c m.text t)=_
    rw [migratedRow,if_neg hstored,migratedTables,if_neg hstored]
    rfl

/-- Tables that differ only in rows of other ids. -/
structure KeepsOthers (id : ℤ) (t t' : CollectionTables) : Prop where
  /-- Other rows are read as before. -/
  others : ∀ other, other≠id → read t' other=read t other
  /-- The rows keep their ids. -/
  ids : t'.collections.map (·.id)=t.collections.map (·.id)
  /-- The retired tag is kept. -/
  legacy : t'.legacyBrokenTag=t.legacyBrokenTag
  tags : t'.tags=t.tags
  assignments : t'.assignments=t.assignments

theorem KeepsOthers.refl (id : ℤ) (t : CollectionTables) : KeepsOthers id t t :=
  ⟨fun _ _ => rfl,rfl,rfl,rfl,rfl⟩

theorem KeepsOthers.trans {t'' : CollectionTables} (h : KeepsOthers id t t')
    (h' : KeepsOthers id t' t'') : KeepsOthers id t t'' :=
  ⟨fun other hother => (h'.others other hother).trans (h.others other hother),
    h'.ids.trans h.ids,h'.legacy.trans h.legacy,h'.tags.trans h.tags,
    h'.assignments.trans h.assignments⟩

theorem read_update {p : Collection → Bool} {f : Collection → Collection} {c : Collection}
    (hf : ∀ row, (f row).id=row.id) (hread : read t id=.ok c) (hp : p c=true) :
    read { t with collections := update p f t.collections } id=.ok (f c) := by
  rw [read_ok]
  dsimp only
  rw [lookup_update hf,read_ok.mp hread,Option.map_some,if_pos hp]

theorem keepsOthers_update {id : ℤ} {p : Collection → Bool} {f : Collection → Collection}
    (hp : ∀ row, p row=true → row.id=id) (hf : ∀ row, (f row).id=row.id) :
    KeepsOthers id t { t with collections := update p f t.collections } := by
  refine ⟨?_,update_keys hf t.collections,rfl,rfl,rfl⟩
  intro other hother
  have hlookup : lookup (·.id) other (update p f t.collections)=
      lookup (·.id) other t.collections := by
    rw [lookup_update hf]
    cases hrow : lookup (·.id) other t.collections with
    | none => rfl
    | some row =>
      have hunselected : ¬p row=true := by
        intro hselected
        exact hother ((lookup_mem hrow).2.symm.trans (hp row hselected))
      rw [Option.map_some,if_neg hunselected]
  unfold read
  dsimp only
  rw [hlookup]

/-- Examining depends on the bytes of the row, the tags and the retired tag. -/
theorem examine_congr {c c' : Collection} (hversion : c'.queryVersion=c.queryVersion)
    (hpayload : c'.queryPayload=c.queryPayload) (htags : t'.tags=t.tags)
    (hlegacy : t'.legacyBrokenTag=t.legacyBrokenTag) : examine env t' c'=examine env t c := by
  have hid : t'.legacyId=t.legacyId := by
    rw [CollectionTables.legacyId,hlegacy,CollectionTables.legacyId]
  unfold examine
  rw [hversion,hpayload,htags,hid]

theorem Settled.congr {c : Collection} {found : Attention⊕Migrated} (h : Settled env t c found)
    (htags : t'.tags=t.tags) (hlegacy : t'.legacyBrokenTag=t.legacyBrokenTag) :
    Settled env t' c found := by
  refine ⟨?_,h.2⟩
  rw [examine_congr rfl rfl htags hlegacy]
  exact h.1

theorem examine_migrated {c : Collection} {m : Migrated} (h : examine env t c=.ok (.inr m)) :
    ∃ b, migrate env c.queryVersion c.queryPayload t.legacyId=.ok (m.text,b) ∧
      decode env currentVersion (bytes m.text.toList) zero=.ok m.query ∧
      availableCriteria t.tags m.query=true ∧ payload env m.query=.ok m.decoded := by
  unfold examine at h
  cases hm : migrate env c.queryVersion c.queryPayload t.legacyId with
  | error e =>
    rw [hm] at h
    cases e <;> cases h
  | ok migrated =>
    rw [hm] at h
    dsimp only at h
    cases hdecode : decode env currentVersion (bytes migrated.1.toList) zero with
    | error e =>
      rw [hdecode] at h
      cases e <;> cases h
    | ok query =>
      rw [hdecode] at h
      dsimp only at h
      by_cases havailable : availableCriteria t.tags query=false
      · rw [if_pos havailable] at h
        cases h
      · rw [if_neg havailable] at h
        obtain ⟨decoded,hdecoded,h⟩ := exceptBind_ok.mp h
        cases h
        rw [Bool.not_eq_false] at havailable
        exact ⟨migrated.2,rfl,hdecode,havailable,mapError_ok.mp hdecoded⟩

theorem examine_returns (hd : Documented env) {c : Collection} {m : Migrated}
    (h : examine env t c=.ok (.inr m))
    (hs : ∀ q, decodePayload env c.queryVersion c.queryPayload=.ok q → Stable env.toNormalEnv q) :
    ∃ b left, Returned env.toNormalEnv m.query b ∧ validateReferences b maxNodes true=.ok left := by
  obtain ⟨b,hm,hdecode,-,-⟩ := examine_migrated h
  obtain ⟨a,left,hreturned,hleft,hagain,-⟩ := migrate_returns hd hm hs
  have hquery := hagain zero
  rw [hdecode] at hquery
  cases hquery
  exact ⟨b,left,hreturned,hleft⟩

theorem examine_rewritten (hd : Documented env) {c c' : Collection} {m : Migrated}
    (h : examine env t c=.ok (.inr m))
    (hs : ∀ q, decodePayload env c.queryVersion c.queryPayload=.ok q → Stable env.toNormalEnv q)
    (hversion : c'.queryVersion=currentVersion) (hpayload : c'.queryPayload=bytes m.text.toList)
    (htags : t'.tags=t.tags) : examine env t' c'=.ok (.inr m) := by
  obtain ⟨b,hm,hdecode,havailable,hdecoded⟩ := examine_migrated h
  obtain ⟨a,left,-,-,-,hmigrates⟩ := migrate_returns hd hm hs
  unfold examine
  rw [hversion,hpayload,hmigrates]
  dsimp only
  rw [hdecode]
  dsimp only
  rw [htags,if_neg (by rw [havailable]; exact nofun),hdecoded]
  rfl

/-- A row as an inspection leaves it: marked with its query, or with the migrated one. -/
def Left (c c' : Collection) : Attention⊕Migrated → Prop
  | .inl _ => c'.validity=.needsAttention ∧ c'.queryVersion=c.queryVersion ∧
      c'.queryPayload=c.queryPayload
  | .inr m => c'.queryVersion=currentVersion ∧ c'.queryPayload=bytes m.text.toList

theorem conclude_ok {c : Collection} {found : Attention⊕Migrated}
    {r : CompatibilityInspection×Option Query} (hread : read t id=.ok c)
    (h : (conclude c found).run t=.ok (r,t')) :
    ∃ c', read t' id=.ok c' ∧ Left c c' found ∧ r=outcome c' found ∧ KeepsOthers id t t' := by
  have hid := read_id hread
  cases found with
  | inl reason =>
    obtain ⟨⟨i,written⟩,hi,hr⟩ := exceptMap_ok.mp h
    cases hr
    unfold attentionInspection at hi
    by_cases hvalid : c.validity=.valid
    · rw [if_pos hvalid] at hi
      obtain ⟨hone,hi⟩ := checked_ok.mp hi
      cases hi
      refine ⟨{ c with validity := .needsAttention, revision := c.revision+1 },?_,
        ⟨rfl,rfl,rfl⟩,rfl,?_⟩
      · refine read_update ?_ hread ?_
        · exact fun _ => rfl
        · rw [Bool.and_eq_true]
          exact ⟨decide_eq_true rfl,decide_eq_true hvalid⟩
      · apply keepsOthers_update
        · intro row hrow
          rw [Bool.and_eq_true] at hrow
          rw [← hid]
          exact of_decide_eq_true hrow.1
        · exact fun _ => rfl
    · rw [if_neg hvalid] at hi
      cases hi
      have hmarked : c.validity=.needsAttention := by
        cases hv : c.validity with
        | valid => exact absurd hv hvalid
        | needsAttention => rfl
      exact ⟨c,hread,⟨hmarked,rfl,rfl⟩,rfl,.refl id t⟩
  | inr m =>
    cases h
    unfold migratedRow migratedTables
    by_cases hsame : c.queryVersion≠currentVersion ∨ c.queryPayload≠bytes m.text.toList
    · rw [if_pos hsame,if_pos hsame]
      refine ⟨rewritten (bytes m.text.toList) c,?_,⟨rfl,rfl⟩,rfl,?_⟩
      · refine read_update ?_ hread ?_
        · exact fun _ => rfl
        · exact decide_eq_true rfl
      · apply keepsOthers_update
        · intro row hrow
          rw [← hid]
          exact of_decide_eq_true hrow
        · exact fun _ => rfl
    · rw [if_neg hsame,if_neg hsame]
      rw [not_or,not_not,not_not] at hsame
      exact ⟨c,hread,hsame,rfl,.refl id t⟩

theorem inspect_keeps {inspection : Inspection} (h : (inspect env id).run t=.ok (inspection,t')) :
    inspection.collection.id=id ∧ KeepsOthers id t t' := by
  obtain ⟨⟨r,written⟩,hr,he⟩ := exceptMap_ok.mp h
  cases he
  change (inspectCollectionWithQuery env id).run t=_ at hr
  rw [inspect_steps] at hr
  obtain ⟨c,hread,hr⟩ := exceptBind_ok.mp hr
  obtain ⟨found,-,hr⟩ := exceptBind_ok.mp hr
  obtain ⟨c',hread',-,rfl,hkeeps⟩ := conclude_ok hread hr
  refine ⟨?_,hkeeps⟩
  rw [← read_id hread']
  cases found <;> rfl

/-- The inspection of a settled row. -/
def viewed (c : Collection) (found : Attention⊕Migrated) : Inspection :=
  ⟨(outcome c found).1.collection,(outcome c found).2,(outcome c found).1.attention⟩

theorem settled_again {c : Collection} {found : Attention⊕Migrated} (hread : read t id=.ok c)
    (h : Settled env t c found) : (inspect env id).run t=.ok (viewed c found,t) := by
  change ((inspectCollectionWithQuery env id).run t).map _=_
  rw [settled_inspect hread h]
  rfl

theorem inspect_settles (hd : Documented env) {inspection : Inspection}
    (h : (inspect env id).run t=.ok (inspection,t'))
    (hs : ∀ c, read t id=.ok c → ∀ q, decodePayload env c.queryVersion c.queryPayload=.ok q →
      Stable env.toNormalEnv q) :
    ∃ c found, read t' id=.ok c ∧ Settled env t' c found ∧ inspection=viewed c found ∧
      ∀ m, found=.inr m → ∃ b left, Returned env.toNormalEnv m.query b ∧
        validateReferences b maxNodes true=.ok left := by
  obtain ⟨⟨r,written⟩,hr,he⟩ := exceptMap_ok.mp h
  cases he
  change (inspectCollectionWithQuery env id).run t=_ at hr
  rw [inspect_steps] at hr
  obtain ⟨c,hread,hr⟩ := exceptBind_ok.mp hr
  obtain ⟨found,hfound,hr⟩ := exceptBind_ok.mp hr
  obtain ⟨c',hread',hleft,rfl,hkeeps⟩ := conclude_ok hread hr
  have hreturned : ∀ m, found=.inr m → ∃ b left, Returned env.toNormalEnv m.query b ∧
      validateReferences b maxNodes true=.ok left := by
    rintro m rfl
    exact examine_returns hd hfound (hs c hread)
  refine ⟨c',found,hread',?_,rfl,hreturned⟩
  cases found with
  | inl reason =>
    obtain ⟨hmarked,hversion,hpayload⟩ := hleft
    exact ⟨(examine_congr hversion hpayload hkeeps.tags hkeeps.legacy).trans hfound,hmarked⟩
  | inr m =>
    exact ⟨examine_rewritten hd hfound (hs c hread) hleft.1 hleft.2 hkeeps.tags,hleft⟩

end Steps

end Librairii.CollectionInspection
