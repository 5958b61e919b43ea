import Librairii.CatalogRefresh

/-!
# One refresh or one import

What a committed activation, any other committed refresh, and an import keep and change
of the stories, the catalog, and the assignments of a library whose age facet is sound.
-/

namespace Librairii.AgeSteps

open CheckedResults RowTables TagRows AgeFacets CatalogRows AgeProjection CatalogRefresh

/-- A refresh transaction or the import of a story. -/
inductive Event where
  | refresh (action : Action)
  | import (uuid sha256 : String)

def Event.action : Event → Option Action
  | .refresh action => some action
  | .import _ _ => none

def Event.candidate : Event → Option (String×String)
  | .refresh _ => none
  | .import uuid sha256 => some (uuid,sha256)

/-- The database after an event; an error rolls the transaction back. -/
def step (env : CatalogEnv) (d : CatalogDatabase) : Event → CatalogDatabase
  | .refresh action => match body env action d with
    | .ok (_,d') => d'
    | .error _ => d
  | .import uuid sha256 => match create uuid sha256 d with
    | .ok (_,d') => d'
    | .error _ => d

/-- The database after events. -/
def run (env : CatalogEnv) (d : CatalogDatabase) (events : List Event) : CatalogDatabase :=
  events.foldl (step env) d

def activated (env : CatalogEnv) (d : CatalogDatabase) (action : Action) : Option ℤ :=
  match body env action d,action with
  | .ok _,.activate id _ => some id
  | _,_ => none

def snapshotAges (c : Catalog) (snapshot : ℤ) (uuid : String) : Option Ages :=
  (storyMetadata c snapshot uuid).map fun m => ⟨m.minimumAge,m.maximumAge⟩

def bandOf (ages : Option Ages) : Option ℕ :=
  ages.bind fun a => AgeConfig.default.matchingBand a.minimum a.maximum

/-- What the schema keeps of the rows of a library. -/
structure Stored (d : CatalogDatabase) : Prop where
  ids : (d.stories.map (·.id)).Nodup
  uuids : (d.stories.map (·.uuid)).Nodup
  metadata : (d.catalog.metadata.map fun m => (m.snapshot,m.storyUuid)).Nodup
  values : (d.tags.values.map (·.id)).Nodup
  /-- An assignment references a story. -/
  stories : ∀ a ∈ d.assignments, ∃ s ∈ d.stories, s.id=a.storyId
  /-- An assignment references a definition. -/
  definitions : ∀ a ∈ d.assignments, ∃ t ∈ d.tags.definitions, t.id=a.definitionId
  derived : ∀ a ∈ d.assignments, ∀ t ∈ d.tags.definitions, t.id=a.definitionId →
    t.source=.derived → a.source=.derived

/-- A library whose age facet is found or inserted as the given rows. -/
structure Sound (definition : ℤ) (values : List ℤ) (tags : TagTables) (d : CatalogDatabase) :
    Prop where
  facets : ensureAgeFacets AgeConfig.default d.tags=.ok ((definition,values),tags)
  ids : (d.stories.map (·.id)).Nodup
  uuids : (d.stories.map (·.uuid)).Nodup
  metadata : (d.catalog.metadata.map fun m => (m.snapshot,m.storyUuid)).Nodup
  stories : ∀ a ∈ d.assignments, ∃ s ∈ d.stories, s.id=a.storyId
  derived : ∀ a ∈ d.assignments, a.definitionId=definition → a.source=.derived

variable {env : CatalogEnv} {definition : ℤ} {values : List ℤ} {tags : TagTables}

variable {d : CatalogDatabase} {snapshot : ℤ} {d' : CatalogDatabase}

theorem projectAgeSnapshot_ok {result : ProjectionResult} (hd : Sound definition values tags d)
    (h : projectAgeSnapshot snapshot AgeConfig.default d=.ok (result,d')) :
    d'={ d with
      tags := tags
      assignments := (d.assignments.filter fun a =>
          !(a.definitionId=definition && a.source=.derived))++
        projected AgeConfig.default definition values (snapshotStories d snapshot) } := by
  unfold projectAgeSnapshot at h
  obtain ⟨-,h⟩ := checked_ok.mp h
  obtain ⟨-,h⟩ := checked_ok.mp h
  rw [bind_of_ok hd.facets] at h
  obtain ⟨⟨counts,assignments⟩,hproject,h⟩ := exceptBind_ok.mp h
  obtain ⟨-,rfl⟩ := Prod.mk.inj (Except.ok.inj h)
  rw [projectStories_ok _ hproject]

theorem projectAgeSnapshot_finishes (hd : Sound definition values tags d) (hpositive : 0<snapshot)
    (hstored : d.catalog.snapshots.any (fun s => s.id=snapshot)=true) :
    ∃ result d', projectAgeSnapshot snapshot AgeConfig.default d=.ok (result,d') := by
  have hfree : ∀ a ∈ d.assignments.filter fun a =>
      !(a.definitionId=definition && a.source=.derived), a.definitionId=definition →
        a.storyId ∉ (snapshotStories d snapshot).map Prod.fst := by
    intro a ha hdefinition
    obtain ⟨ha,hkept⟩ := List.mem_filter.mp ha
    simp [hdefinition,hd.derived a ha hdefinition] at hkept
  obtain ⟨result,after,hproject⟩ := @projectStories_finishes AgeConfig.default definition values
    (snapshotStories d snapshot) ⟨definition,0,0,0⟩ _
    (snapshotStories_nodup snapshot hd.ids hd.metadata) hfree
  refine ⟨result,{ d with tags := tags, assignments := after },?_⟩
  unfold projectAgeSnapshot
  rw [if_neg (by omega),if_neg (by simp [hstored]),bind_of_ok hd.facets]
  dsimp only
  rw [bind_of_ok hproject]
  rfl

/-- The derived assignment of a story with ages, if they have a band. -/
def ageRows (definition : ℤ) (values : List ℤ) (story : ℤ) (ages : Option Ages) :
    List Assignment :=
  (ages.bind (valueOf AgeConfig.default values)).toList.map fun value =>
    ⟨story,definition,some value,.derived⟩

def New (d : CatalogDatabase) (uuid sha256 : String) : Prop :=
  d.stories.find? (fun s => s.sha256=sha256)=none ∧ d.stories.find? (fun s => s.uuid=uuid)=none

variable {sha256 : String}

theorem create_new (hd : Sound definition values tags d) {uuid : String} (hnew : New d uuid sha256)
    :
    create uuid sha256 d=.ok (.imported (newStory d uuid sha256),{ d with
      stories := d.stories++[newStory d uuid sha256]
      tags := tags
      assignments := d.assignments++ageRows definition values (newStory d uuid sha256).id
        (latestAges d.catalog uuid) }) := by
  have hpositive : ¬(newStory d uuid sha256).id≤0 := by
    have hzero : ∀ ids : List ℤ, 0 ≤ ids.foldr max 0 := by
      intro ids
      induction ids with
      | nil => exact le_refl 0
      | cons id ids ih => exact ih.trans (le_max_right _ _)
    have := hzero (d.stories.map (·.id))
    simp only [newStory,nextRowId]
    omega
  have hfree : ∀ value, insertDerived (newStory d uuid sha256).id definition value
      d.assignments=.ok (d.assignments++
        [⟨(newStory d uuid sha256).id,definition,some value,.derived⟩]) := by
    intro value
    unfold insertDerived
    rw [if_neg]
    intro htaken
    obtain ⟨a,ha,hsame⟩ := List.any_eq_true.mp htaken
    simp only [Bool.and_eq_true,decide_eq_true_eq] at hsame
    obtain ⟨s,hs,hid⟩ := hd.stories a ha
    have hbelow := lt_nextRowId (List.mem_map_of_mem (f:=fun s : Story => s.id) hs)
    have hequal : s.id=nextRowId (d.stories.map (·.id)) := hid.trans hsame.1.1
    omega
  unfold create
  rw [hnew.1,hnew.2]
  have hage : afterStoryCreateAge (newStory d uuid sha256) AgeConfig.default
      { d with stories := d.stories++[newStory d uuid sha256] }=.ok { d with
        stories := d.stories++[newStory d uuid sha256]
        tags := tags
        assignments := d.assignments++ageRows definition values (newStory d uuid sha256).id
          (latestAges d.catalog uuid) } := by
    unfold afterStoryCreateAge
    rw [if_neg hpositive,bind_of_ok hd.facets]
    dsimp only
    rw [newStory_uuid]
    cases hvalue : (latestAges d.catalog uuid).bind (valueOf AgeConfig.default values) with
    | none =>
      simp only [ageRows,hvalue,Option.toList_none,List.map_nil,List.append_nil]
      rfl
    | some value =>
      simp only [ageRows,hvalue,Option.toList_some,List.map_cons,List.map_nil]
      rw [bind_of_ok (hfree value)]
      rfl
  dsimp only
  rw [bind_of_ok hage]
  rfl

/-- Any other import changes nothing. -/
theorem create_known {uuid : String} (hknown : ¬New d uuid sha256) :
    ∃ decision, create uuid sha256 d=.ok (decision,d) := by
  unfold create
  cases hhash : d.stories.find? fun s => s.sha256=sha256 with
  | some stored => exact ⟨_,rfl⟩
  | none =>
    cases huuid : d.stories.find? fun s => s.uuid=uuid with
    | some stored => exact ⟨_,rfl⟩
    | none => exact absurd ⟨hhash,huuid⟩ hknown

/-- What every refresh transaction keeps of the stored snapshots and of the stories. -/
structure KeepsRows (d d' : CatalogDatabase) : Prop where
  stories : d'.stories=d.stories
  snapshots : ∀ id ∈ d.catalog.snapshots.map (·.id), id ∈ d'.catalog.snapshots.map (·.id)
  metadata : ∀ id ∈ d.catalog.snapshots.map (·.id),
    metadataOf d'.catalog id=metadataOf d.catalog id
  unique : (d.catalog.metadata.map fun m => (m.snapshot,m.storyUuid)).Nodup →
    (d'.catalog.metadata.map fun m => (m.snapshot,m.storyUuid)).Nodup

theorem KeepsRows.of_eq (hs : d'.stories=d.stories)
    (hids : d'.catalog.snapshots.map (·.id)=d.catalog.snapshots.map (·.id))
    (hm : d'.catalog.metadata=d.catalog.metadata) : KeepsRows d d' :=
  ⟨hs,fun id h => by rwa [hids],fun id _ => by rw [metadataOf,metadataOf,hm],
    fun h => by rwa [hm]⟩

theorem stageRecords_unique {locale : String} (records : List CatalogRecord) :
    ∀ {c c' : Catalog}, stageRecords env snapshot locale records c=.ok c' →
      (c.metadata.map fun m => (m.snapshot,m.storyUuid)).Nodup →
        (c'.metadata.map fun m => (m.snapshot,m.storyUuid)).Nodup := by
  induction records with
  | nil =>
    intro c c' h hc
    obtain rfl := Except.ok.inj h
    exact hc
  | cons r records ih =>
    intro c c' h hc
    obtain ⟨title,-,h⟩ := exceptBind_ok.mp h
    obtain ⟨s,hinsert,h⟩ := exceptBind_ok.mp h
    apply ih h
    unfold insertMetadata at hinsert
    split at hinsert
    · rename_i hchecks
      obtain rfl := Except.ok.inj hinsert
      have hfresh : c.metadata.any (fun m => m.snapshot=snapshot && m.storyUuid=r.uuid)=
          false := by
        simp only [Bool.and_eq_true,Bool.not_eq_true'] at hchecks
        exact hchecks.1.2
      rw [List.map_append,List.map_singleton]
      refine List.nodup_append.mpr ⟨hc,List.nodup_singleton _,?_⟩
      intro key hkey key' hkey' hsame
      obtain ⟨m,hm,rfl⟩ := List.mem_map.mp hkey
      rw [List.mem_singleton] at hkey'
      rw [hkey'] at hsame
      obtain ⟨hsnapshot,huuid⟩ := Prod.mk.inj hsame
      rw [List.any_eq_false] at hfresh
      exact hfresh m hm (by simp [hsnapshot,huuid,metadataRow])
    · cases hinsert

variable {c' : Catalog}

theorem stageRows_keeps {id path fetchedAt : String} {catalog : NormalizedCatalog}
    (h : stageRows env id catalog path fetchedAt d.catalog=.ok (snapshot,c')) :
    KeepsRows d { d with catalog := c' } := by
  have hok := stageRows_ok h
  obtain ⟨hnew,-,row,rows,artworks,hrow,-,-,hrows,rfl⟩ := hok
  refine ⟨rfl,?_,?_,?_⟩
  · intro id hid
    rw [List.map_append]
    exact List.mem_append_left _ hid
  · intro id hid
    have hbelow : id<snapshot := by
      rw [hnew]
      exact lt_nextRowId hid
    have hnone : rows.filter (fun m => m.snapshot=id)=[] := by
      rw [List.filter_eq_nil_iff]
      intro m hm
      have := hrows m hm
      simp only [decide_eq_true_eq]
      omega
    rw [metadataOf,metadataOf,List.filter_append,hnone,List.append_nil]
  · intro hunique
    unfold stageRows at h
    obtain ⟨-,h⟩ := checked_ok.mp h
    obtain ⟨-,h⟩ := checked_ok.mp h
    obtain ⟨artworks',-,h⟩ := exceptBind_ok.mp h
    obtain ⟨s,hrecords,h⟩ := exceptBind_ok.mp h
    obtain ⟨-,hs⟩ := Prod.mk.inj (Except.ok.inj h)
    have := stageRecords_unique _ hrecords hunique
    rwa [hs] at this

theorem update_ids {p : Snapshot → Bool} {f : Snapshot → Snapshot} (hf : ∀ s, (f s).id=s.id)
    (rows : List Snapshot) : (update p f rows).map (·.id)=rows.map (·.id) :=
  update_keys hf rows

variable {action : Action} {answer : Answer}

theorem body_keeps (h : body env action d=.ok (answer,d')) : KeepsRows d d' := by
  cases action with
  | begin id locale startedAt =>
    obtain ⟨c,hc,rfl⟩ := onCatalog_ok h
    obtain ⟨-,rfl⟩ := beginCatalogSync_ok hc
    exact .of_eq rfl rfl rfl
  | stage id catalog path fetchedAt =>
    obtain ⟨⟨snapshot,e⟩,hstage,he⟩ := exceptMap_ok.mp h
    obtain ⟨rfl,rfl⟩ := Prod.mk.inj he
    obtain ⟨⟨new,c⟩,hc,he⟩ := exceptMap_ok.mp hstage
    obtain ⟨rfl,rfl⟩ := Prod.mk.inj he
    exact stageRows_keeps hc
  | activate id activatedAt =>
    obtain ⟨⟨report,e⟩,hc,he⟩ := exceptMap_ok.mp h
    obtain ⟨rfl,rfl⟩ := Prod.mk.inj he
    obtain ⟨staged,result,middle,-,hproject,hstate,hmetadata,⟨c,hactivate,hsnapshots⟩,-⟩ :=
      activateCatalog_ok hc
    have hstories : e.stories=d.stories := by
      rw [hstate]
      exact (projectAgeSnapshot_frame hproject).2
    refine .of_eq hstories ?_ hmetadata
    unfold activateSnapshot at hactivate
    dsimp only at hactivate
    obtain ⟨-,hactivate⟩ := checked_ok.mp hactivate
    obtain rfl := Except.ok.inj hactivate
    rw [hsnapshots]
    dsimp only
    refine Eq.trans (update_ids ?_ _) (update_ids ?_ _)
    · exact fun _ => rfl
    · exact fun _ => rfl
  | fail id snapshot code finishedAt =>
    obtain ⟨c,hc,rfl⟩ := onCatalog_ok h
    obtain ⟨⟨p,hp,hsnapshots⟩,hmetadata,-⟩ := finishCatalogFailure_ok hc
    refine .of_eq rfl ?_ hmetadata
    rw [hsnapshots]
    refine update_ids ?_ _
    exact fun _ => rfl
  | reject id =>
    obtain ⟨c,hc,rfl⟩ := onCatalog_ok h
    unfold rejectCatalog at hc
    dsimp only at hc
    obtain ⟨-,hc⟩ := checked_ok.mp hc
    obtain rfl := Except.ok.inj hc
    refine .of_eq rfl (update_ids ?_ _) rfl
    exact fun _ => rfl
  | recover now =>
    obtain ⟨c,hc,rfl⟩ := onCatalog_ok (f:=fun c => .ok (recoverCatalogRefreshes now c)) h
    obtain rfl := Except.ok.inj hc
    refine .of_eq rfl (update_ids ?_ _) rfl
    exact fun _ => rfl

variable {c : Catalog}

theorem storyMetadata_kept (h : metadataOf c' snapshot=metadataOf c snapshot) (uuid : String) :
    storyMetadata c' snapshot uuid=storyMetadata c snapshot uuid := by
  have hfind : ∀ c : Catalog, storyMetadata c snapshot uuid=
      (metadataOf c snapshot).find? fun m => m.storyUuid=uuid := by
    intro c
    simp only [storyMetadata,metadataOf,List.find?_filter,decide_eq_true_eq,Bool.decide_and]
  rw [hfind,hfind,h]

theorem snapshotAges_kept (h : metadataOf c' snapshot=metadataOf c snapshot) (uuid : String) :
    snapshotAges c' snapshot uuid=snapshotAges c snapshot uuid := by
  rw [snapshotAges,snapshotAges,storyMetadata_kept h]

theorem latestAges_retained (h : Retained c c') (uuid : String) :
    latestAges c' uuid=latestAges c uuid := by
  have hsame : activeSnapshots c'=activeSnapshots c := by
    rw [activeSnapshots,activeSnapshots,h.active]
  have hfind : ∀ s ∈ activeSnapshots c,
      storyMetadata c' s.id uuid=storyMetadata c s.id uuid := by
    intro s hs
    rw [activeSnapshots,List.mem_insertionSort] at hs
    obtain ⟨hs,hactive⟩ := List.mem_filter.mp hs
    exact storyMetadata_kept (h.metadata s hs hactive) uuid
  rw [latestAges,latestAges,hsame]
  congr 1
  generalize activeSnapshots c=snapshots at hfind
  induction snapshots with
  | nil => rfl
  | cons s snapshots ih =>
    rw [List.findSome?_cons,List.findSome?_cons,hfind s List.mem_cons_self,
      ih fun s hs => hfind s (List.mem_cons_of_mem _ hs)]

theorem mem_ageRows {story : ℤ} {ages : Option Ages} {a : Assignment} :
    a ∈ ageRows definition values story ages ↔
      ∃ value, (bandOf ages).bind (fun index => values[index]?)=some value ∧
        a=⟨story,definition,some value,.derived⟩ := by
  have hvalue : ages.bind (valueOf AgeConfig.default values)=
      (bandOf ages).bind fun index => values[index]? := by
    cases ages with
    | none => rfl
    | some ages => rfl
  simp only [ageRows,hvalue,List.mem_map,Option.mem_toList,eq_comm (a:=a)]

theorem mem_projected (hunique : (d.catalog.metadata.map fun m => (m.snapshot,m.storyUuid)).Nodup)
    {a : Assignment} :
    a ∈ projected AgeConfig.default definition values (snapshotStories d snapshot) ↔
      ∃ s ∈ d.stories,
        a ∈ ageRows definition values s.id (snapshotAges d.catalog snapshot s.uuid) := by
  have hrow : ∀ story ages, (a ∈ ageRows definition values story (some ages) ↔
      (valueOf AgeConfig.default values ages).map
        (fun value => (⟨story,definition,some value,.derived⟩ : Assignment))=some a) := by
    intro story ages
    simp [ageRows]
  rw [projected,List.mem_filterMap]
  constructor
  · rintro ⟨row,hmem,hvalue⟩
    obtain ⟨m,hm,hsnapshot,s,hs,huuid,rfl⟩ := mem_snapshotStories.mp hmem
    have hfind : storyMetadata d.catalog snapshot s.uuid=some m := by
      have hlookup := lookup_of_mem hunique hm
      simp only [lookup,Prod.mk.injEq,hsnapshot,← huuid,Bool.decide_and] at hlookup
      exact hlookup
    refine ⟨s,hs,?_⟩
    rw [snapshotAges,hfind,Option.map_some]
    exact (hrow _ _).mpr hvalue
  · rintro ⟨s,hs,hrows⟩
    cases hfind : storyMetadata d.catalog snapshot s.uuid with
    | none =>
      rw [snapshotAges,hfind] at hrows
      exact absurd hrows List.not_mem_nil
    | some m =>
      have hm := List.find?_some hfind
      simp only [Bool.and_eq_true,decide_eq_true_eq] at hm
      rw [snapshotAges,hfind,Option.map_some] at hrows
      refine ⟨(s.id,⟨m.minimumAge,m.maximumAge⟩),?_,(hrow _ _).mp hrows⟩
      exact mem_snapshotStories.mpr
        ⟨m,List.mem_of_find?_eq_some hfind,hm.1,s,hs,hm.2.symm,rfl⟩

theorem refresh_other (h : activated env d action=none) :
    Untouched d (step env d (.refresh action)) ∧
      KeepsRows d (step env d (.refresh action)) := by
  simp only [step]
  cases hbody : body env action d with
  | error e => exact ⟨.refl d,.of_eq rfl rfl rfl⟩
  | ok result =>
    obtain ⟨answer,d'⟩ := result
    refine ⟨body_untouched hbody ?_,body_keeps hbody⟩
    cases action with
    | activate id activatedAt => simp [activated,hbody] at h
    | _ => rfl

theorem refresh_activated {id : ℤ} (h : activated env d action=some id)
    (hd : Sound definition values tags d) :
    id ∈ d.catalog.snapshots.map (·.id) ∧ KeepsRows d (step env d (.refresh action)) ∧
      (step env d (.refresh action)).tags=tags ∧
      (step env d (.refresh action)).assignments=(d.assignments.filter fun a =>
          !(a.definitionId=definition && a.source=.derived))++
        projected AgeConfig.default definition values (snapshotStories d id) := by
  simp only [step]
  unfold activated at h
  cases hbody : body env action d with
  | error e => simp [hbody] at h
  | ok result =>
    obtain ⟨answer,d'⟩ := result
    have hkeeps := body_keeps hbody
    cases action with
    | activate id' activatedAt =>
      simp only [hbody,Option.some.injEq] at h
      rw [h] at hbody
      obtain ⟨⟨report,e⟩,hc,he⟩ := exceptMap_ok.mp hbody
      obtain ⟨rfl,rfl⟩ := Prod.mk.inj he
      obtain ⟨staged,result,middle,hstaged,hproject,hstate,-⟩ := activateCatalog_ok hc
      obtain ⟨hm,hid,-⟩ := stagedSnapshot_some hstaged
      have hprojected := projectAgeSnapshot_ok hd hproject
      refine ⟨by rw [← hid]; exact List.mem_map_of_mem hm,hkeeps,?_,?_⟩
      · rw [hstate,hprojected]
      · rw [hstate,hprojected]
    | _ => simp [hbody] at h

theorem Sound.refresh (hd : Sound definition values tags d) (action : Action) :
    Sound definition values tags (step env d (.refresh action)) := by
  cases h : activated env d action with
  | none =>
    obtain ⟨⟨-,htags,hassignments⟩,hkeeps⟩ := refresh_other h
    exact ⟨by rw [htags]; exact hd.facets,by rw [hkeeps.stories]; exact hd.ids,
      by rw [hkeeps.stories]; exact hd.uuids,hkeeps.unique hd.metadata,
      by rw [hassignments,hkeeps.stories]; exact hd.stories,
      by rw [hassignments]; exact hd.derived⟩
  | some id =>
    obtain ⟨-,hkeeps,htags,hassignments⟩ := refresh_activated h hd
    refine ⟨by rw [htags]; exact ensureAgeFacets_again hd.facets,
      by rw [hkeeps.stories]; exact hd.ids,by rw [hkeeps.stories]; exact hd.uuids,
      hkeeps.unique hd.metadata,?_,?_⟩
    · intro a ha
      rw [hassignments] at ha
      rw [hkeeps.stories]
      rcases List.mem_append.mp ha with ha | ha
      · exact hd.stories a (List.mem_filter.mp ha).1
      · obtain ⟨s,hs,hrow⟩ := (mem_projected hd.metadata).mp ha
        obtain ⟨value,-,rfl⟩ := mem_ageRows.mp hrow
        exact ⟨s,hs,rfl⟩
    · intro a ha hdefinition
      rw [hassignments] at ha
      rcases List.mem_append.mp ha with ha | ha
      · exact hd.derived a (List.mem_filter.mp ha).1 hdefinition
      · obtain ⟨s,-,hrow⟩ := (mem_projected hd.metadata).mp ha
        obtain ⟨value,-,rfl⟩ := mem_ageRows.mp hrow
        rfl

theorem import_new (hd : Sound definition values tags d) {uuid : String} (hnew : New d uuid sha256)
    :
    step env d (.import uuid sha256)={ d with
      stories := d.stories++[newStory d uuid sha256]
      tags := tags
      assignments := d.assignments++ageRows definition values (newStory d uuid sha256).id
        (latestAges d.catalog uuid) } := by
  rw [step,create_new hd hnew]

theorem import_known {uuid : String} (hknown : ¬New d uuid sha256) :
    step env d (.import uuid sha256)=d := by
  obtain ⟨decision,h⟩ := create_known hknown
  rw [step,h]

theorem newStory_id (d : CatalogDatabase) (uuid sha256 : String) :
    ∀ s ∈ d.stories, s.id≠(newStory d uuid sha256).id := by
  intro s hs
  have hbelow := lt_nextRowId (List.mem_map_of_mem (f:=fun s : Story => s.id) hs)
  simp only [newStory]
  omega

theorem Sound.import (env : CatalogEnv) (hd : Sound definition values tags d) (uuid sha256 : String)
    :
    Sound definition values tags (step env d (.import uuid sha256)) := by
  by_cases hnew : New d uuid sha256
  · rw [import_new hd hnew]
    refine ⟨ensureAgeFacets_again hd.facets,?_,?_,hd.metadata,?_,?_⟩
    · dsimp only
      rw [List.map_append,List.map_singleton]
      refine List.nodup_append.mpr ⟨hd.ids,List.nodup_singleton _,?_⟩
      intro id hid id' hid'
      obtain ⟨s,hs,rfl⟩ := List.mem_map.mp hid
      rw [List.mem_singleton.mp hid']
      exact newStory_id d uuid sha256 s hs
    · dsimp only
      rw [List.map_append,List.map_singleton]
      refine List.nodup_append.mpr ⟨hd.uuids,List.nodup_singleton _,?_⟩
      intro u hu u' hu'
      obtain ⟨s,hs,rfl⟩ := List.mem_map.mp hu
      have hother := List.find?_eq_none.mp hnew.2 s hs
      rw [List.mem_singleton.mp hu']
      simpa using hother
    · intro a ha
      rcases List.mem_append.mp ha with ha | ha
      · obtain ⟨s,hs,hid⟩ := hd.stories a ha
        exact ⟨s,List.mem_append_left _ hs,hid⟩
      · obtain ⟨value,-,rfl⟩ := mem_ageRows.mp ha
        exact ⟨newStory d uuid sha256,by simp,rfl⟩
    · intro a ha hdefinition
      rcases List.mem_append.mp ha with ha | ha
      · exact hd.derived a ha hdefinition
      · obtain ⟨value,-,rfl⟩ := mem_ageRows.mp ha
        rfl
  · rw [import_known hnew]
    exact hd

variable {e : CatalogDatabase}

theorem onCatalog_catalog {f : Catalog → Except StorageError Catalog} (hsame : e.catalog=d.catalog)
    (h : onCatalog f d=.ok (answer,d')) :
    ∃ answer' e', onCatalog f e=.ok (answer',e') ∧ e'.catalog=d'.catalog := by
  obtain ⟨c,hc,rfl⟩ := onCatalog_ok h
  exact ⟨.unit,{ e with catalog := c },by rw [onCatalog,hsame,hc]; rfl,rfl⟩

theorem activateCatalog_catalog {id : ℤ} {activatedAt : String} {report : RefreshReport}
    (he : Sound definition values tags e)
    (hsame : e.catalog=d.catalog) (h : activateCatalog id activatedAt d=.ok (report,d')) :
    ∃ report' e', activateCatalog id activatedAt e=.ok (report',e') ∧
      e'.catalog=d'.catalog := by
  unfold activateCatalog at h
  cases hstaged : stagedSnapshot d.catalog id with
  | none => simp [hstaged] at h
  | some staged =>
    simp only [hstaged] at h
    obtain ⟨⟨result,projected⟩,hproject,h⟩ := exceptBind_ok.mp h
    obtain ⟨middle,hactivate,h⟩ := exceptBind_ok.mp h
    obtain ⟨last,hfinish,h⟩ := exceptBind_ok.mp h
    obtain ⟨-,rfl⟩ := Prod.mk.inj (Except.ok.inj h)
    have hpositive : 0 < id ∧ d.catalog.snapshots.any (fun s => s.id=id)=true := by
      unfold projectAgeSnapshot at hproject
      split at hproject
      · cases hproject
      split at hproject
      · cases hproject
      · rename_i hzero hstored
        exact ⟨by omega,by simpa using hstored⟩
    obtain ⟨result',projected',hproject'⟩ := projectAgeSnapshot_finishes he hpositive.1
      (by rw [hsame]; exact hpositive.2)
    have hcatalog := (projectAgeSnapshot_frame hproject).1
    have hcatalog' := (projectAgeSnapshot_frame hproject').1
    dsimp only at hactivate hfinish
    rw [hcatalog] at hactivate
    refine ⟨⟨staged.sync,id,result'.matchedStories,activatedAt⟩,
      { projected' with catalog := last },?_,rfl⟩
    unfold activateCatalog
    rw [hsame,hstaged]
    dsimp only
    rw [bind_of_ok hproject']
    dsimp only
    rw [hcatalog',hsame,bind_of_ok hactivate,bind_of_ok hfinish]
    rfl

/-- Whether a refresh of a sound library commits, and its catalog, depend on the catalog
only. -/
theorem body_catalog (he : Sound definition values tags e) (hsame : e.catalog=d.catalog)
    (h : body env action d=.ok (answer,d')) :
    ∃ answer' e', body env action e=.ok (answer',e') ∧ e'.catalog=d'.catalog := by
  cases action with
  | begin id locale startedAt => exact onCatalog_catalog hsame h
  | stage id catalog path fetchedAt =>
    obtain ⟨⟨snapshot,s⟩,hstage,hs⟩ := exceptMap_ok.mp h
    obtain ⟨-,rfl⟩ := Prod.mk.inj hs
    obtain ⟨⟨new,c⟩,hc,hs⟩ := exceptMap_ok.mp hstage
    obtain ⟨-,rfl⟩ := Prod.mk.inj hs
    refine ⟨.snapshot new,{ e with catalog := c },?_,rfl⟩
    simp only [body,stageCatalog,hsame,hc]
    rfl
  | activate id activatedAt =>
    obtain ⟨⟨report,s⟩,hactivate,hs⟩ := exceptMap_ok.mp h
    obtain ⟨-,rfl⟩ := Prod.mk.inj hs
    obtain ⟨report',e',he',hcatalog⟩ := activateCatalog_catalog he hsame hactivate
    refine ⟨.report report',e',?_,hcatalog⟩
    simp only [body,he']
    rfl
  | fail id snapshot code finishedAt => exact onCatalog_catalog hsame h
  | reject id => exact onCatalog_catalog hsame h
  | recover now =>
    exact onCatalog_catalog (f:=fun c => .ok (recoverCatalogRefreshes now c)) hsame h

theorem refresh_catalog (env : CatalogEnv) (hd : Sound definition values tags d)
    (he : Sound definition values tags e) (hsame : e.catalog=d.catalog) (action : Action) :
    (step env e (.refresh action)).catalog=(step env d (.refresh action)).catalog ∧
      activated env e action=activated env d action := by
  simp only [step,activated]
  cases hbody : body env action d with
  | ok result =>
    obtain ⟨answer,d'⟩ := result
    obtain ⟨answer',e',hbody',hcatalog⟩ := body_catalog he hsame hbody
    rw [hbody']
    refine ⟨hcatalog,?_⟩
    cases action <;> rfl
  | error failure =>
    cases hbody' : body env action e with
    | error failure' => exact ⟨hsame,rfl⟩
    | ok result =>
      obtain ⟨answer,e'⟩ := result
      obtain ⟨answer',d',hcommit,-⟩ := body_catalog hd hsame.symm hbody'
      rw [hbody] at hcommit
      cases hcommit

theorem import_stories (hd : Sound definition values tags d) (he : Sound definition values tags e)
    (hsame : e.stories=d.stories) (uuid sha256 : String) :
    (step env e (.import uuid sha256)).stories=(step env d (.import uuid sha256)).stories := by
  have hnew : New e uuid sha256 ↔ New d uuid sha256 := by rw [New,New,hsame]
  by_cases h : New d uuid sha256
  · rw [import_new hd h,import_new he (hnew.mpr h)]
    simp only [newStory,hsame]
  · rw [import_known h,import_known (mt hnew.mp h),hsame]

theorem step_drifted (env : CatalogEnv) {e : StorageError}
    (h : ensureAgeFacets AgeConfig.default d.tags=.error e) (event : Event) :
    (step env d event).tags=d.tags ∧ (step env d event).assignments=d.assignments ∧
      ∀ action, event=.refresh action → activated env d action=none := by
  cases event with
  | refresh action =>
    have hnone : activated env d action=none := by
      unfold activated
      split
      · rename_i id activatedAt hbody
        obtain ⟨⟨report,s⟩,hactivate,-⟩ := exceptMap_ok.mp hbody
        obtain ⟨staged,result,middle,-,hproject,-⟩ := activateCatalog_ok hactivate
        unfold projectAgeSnapshot at hproject
        obtain ⟨-,hproject⟩ := checked_ok.mp hproject
        obtain ⟨-,hproject⟩ := checked_ok.mp hproject
        rw [h] at hproject
        cases hproject
      · rfl
    obtain ⟨⟨-,htags,hassignments⟩,-⟩ := refresh_other hnone
    refine ⟨htags,hassignments,?_⟩
    intro action' hsame
    obtain rfl := Event.refresh.inj hsame
    exact hnone
  | «import» uuid sha256 =>
    have hkept : step env d (.import uuid sha256)=d := by
      by_cases hnew : New d uuid sha256
      · have hfail : ∃ e', create uuid sha256 d=.error e' := by
          unfold create
          rw [hnew.1,hnew.2]
          dsimp only
          unfold afterStoryCreateAge
          split
          · exact ⟨_,rfl⟩
          · rw [h]
            exact ⟨_,rfl⟩
        obtain ⟨e',hfail⟩ := hfail
        rw [step,hfail]
      · exact import_known hnew
    rw [hkept]
    exact ⟨rfl,rfl,fun action hother => nomatch hother⟩

theorem Stored.sound (hd : Stored d)
    (h : ensureAgeFacets AgeConfig.default d.tags=.ok ((definition,values),tags)) :
    Sound definition values tags d := by
  refine ⟨h,hd.ids,hd.uuids,hd.metadata,hd.stories,?_⟩
  intro a ha hdefinition
  obtain ⟨⟨found,hfound,hid,hage⟩,-⟩ := ensureAgeFacets_values h
  obtain ⟨owner,howner,hown⟩ := hd.definitions a ha
  rcases ensureAgeFacets_definitions h found hfound with hstored | hnew
  · apply hd.derived a ha found hstored (hid.trans hdefinition.symm)
    simp only [isAge,Bool.and_eq_true,decide_eq_true_eq] at hage
    exact hage.1.1.1.2
  · have hbelow := lt_nextRowId (List.mem_map_of_mem (f:=fun t : Definition => t.id) howner)
    have hsame : owner.id=nextRowId (d.tags.definitions.map (·.id)) := by
      rw [← hnew,hid,hown,hdefinition]
    omega

end Librairii.AgeSteps
