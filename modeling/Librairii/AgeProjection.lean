import Librairii.AgeFacets
import Librairii.CatalogRows

/-!
# Derived ages of stories

Activation projects one snapshot: it removes every derived age and assigns the band of
each story the snapshot has. The import of a story assigns the band of the latest active
snapshot that has the story, in any locale.
-/

namespace Librairii.AgeProjection

open CheckedResults RowTables TagRows AgeFacets CatalogRows

/-- A story with the checksum of its archive. -/
structure Story where
  id : ℤ
  uuid : String
  sha256 : String
  deriving DecidableEq

/-- The catalog tables with the stories and their tags. -/
structure CatalogDatabase where
  catalog : Catalog
  stories : List Story
  tags : TagTables
  assignments : List Assignment
  deriving DecidableEq

/-- The ages of an official record. -/
structure Ages where
  minimum : Option ℤ
  maximum : Option ℤ
  deriving DecidableEq

def insertDerived (story definition value : ℤ) (assignments : List Assignment) :
    Except StorageError (List Assignment) :=
  if assignments.any fun a =>
      a.storyId=story && a.definitionId=definition && a.valueId=some value then
    .error .constraintViolation
  else .ok (assignments++[⟨story,definition,some value,.derived⟩])

def valueOf (config : AgeConfig) (values : List ℤ) (ages : Ages) : Option ℤ :=
  (config.matchingBand ages.minimum ages.maximum).bind fun index => values[index]?

def snapshotStories (d : CatalogDatabase) (snapshot : ℤ) : List (ℤ×Ages) :=
  ((d.catalog.metadata.filter fun m => m.snapshot=snapshot).flatMap fun m =>
    (d.stories.filter fun s => s.uuid=m.storyUuid).map fun s =>
      (s.id,⟨m.minimumAge,m.maximumAge⟩)).insertionSort fun a b => a.1≤b.1

/-- Counts of a projection. -/
structure ProjectionResult where
  definitionId : ℤ
  matchedStories : ℕ
  assignedStories : ℕ
  unassigned : ℕ
  deriving DecidableEq

/-- Assign the band of each story in turn. -/
def projectStories (config : AgeConfig) (definition : ℤ) (values : List ℤ) :
    List (ℤ×Ages) → ProjectionResult → List Assignment →
      Except StorageError (ProjectionResult×List Assignment)
  | [],result,assignments => .ok (result,assignments)
  | (story,ages)::rows,result,assignments =>
    let result := { result with matchedStories := result.matchedStories+1 }
    match valueOf config values ages with
    | some value => do
      let assignments ← insertDerived story definition value assignments
      projectStories config definition values rows
        { result with assignedStories := result.assignedStories+1 } assignments
    | none => projectStories config definition values rows
        { result with unassigned := result.unassigned+1 } assignments

def projectAgeSnapshot (snapshot : ℤ) (config : AgeConfig) (d : CatalogDatabase) :
    Except StorageError (ProjectionResult×CatalogDatabase) := do
  if snapshot≤0 then .error (.tag .invalidProjectionConfig)
  else if !d.catalog.snapshots.any fun s => s.id=snapshot then
    .error (.tag .invalidProjectionConfig)
  else do
    let ((definition,values),tags) ← ensureAgeFacets config d.tags
    let kept := d.assignments.filter fun a =>
      !(a.definitionId=definition && a.source=.derived)
    let (result,assignments) ← projectStories config definition values
      (snapshotStories d snapshot) ⟨definition,0,0,0⟩ kept
    return (result,{ d with tags := tags, assignments := assignments })

/-- One snapshot is listed before another: activated later, or at the same time with a
larger id. -/
def laterActivated (a b : Snapshot) : Bool :=
  match a.activatedAt,b.activatedAt with
  | some ta,some tb => tb<ta || (ta=tb && b.id≤a.id)
  | some _,none => true
  | none,some _ => false
  | none,none => b.id≤a.id

def storyMetadata (c : Catalog) (snapshot : ℤ) (uuid : String) : Option Metadata :=
  c.metadata.find? fun m => m.snapshot=snapshot && m.storyUuid=uuid

def activeSnapshots (c : Catalog) : List Snapshot :=
  (c.snapshots.filter Snapshot.active).insertionSort fun a b => laterActivated a b=true

def latestAges (c : Catalog) (uuid : String) : Option Ages :=
  ((activeSnapshots c).findSome? fun s => storyMetadata c s.id uuid).map fun m =>
    ⟨m.minimumAge,m.maximumAge⟩

def afterStoryCreateAge (story : Story) (config : AgeConfig) (d : CatalogDatabase) :
    Except StorageError CatalogDatabase := do
  if story.id≤0 then .error (.tag .invalidProjectionConfig)
  else do
    let ((definition,values),tags) ← ensureAgeFacets config d.tags
    match (latestAges d.catalog story.uuid).bind (valueOf config values) with
    | some value => do
      let assignments ← insertDerived story.id definition value d.assignments
      return { d with tags := tags, assignments := assignments }
    | none => return { d with tags := tags }

/-- What an import decides. -/
inductive Decision where
  | imported (story : Story)
  | duplicate (story : Story)
  | conflict (story : Story)
  deriving DecidableEq

def newStory (d : CatalogDatabase) (uuid sha256 : String) : Story :=
  ⟨nextRowId (d.stories.map (·.id)),uuid,sha256⟩

@[simp] theorem newStory_uuid (d : CatalogDatabase) (uuid sha256 : String) :
    (newStory d uuid sha256).uuid=uuid := rfl

/-- Create the story of a candidate unless its archive or its UUID is stored. -/
def create (uuid sha256 : String) (d : CatalogDatabase) :
    Except StorageError (Decision×CatalogDatabase) :=
  match d.stories.find? fun s => s.sha256=sha256 with
  | some stored => .ok (.duplicate stored,d)
  | none => match d.stories.find? fun s => s.uuid=uuid with
    | some stored => .ok (.conflict stored,d)
    | none => do
      let story := newStory d uuid sha256
      let d ← afterStoryCreateAge story AgeConfig.default
        { d with stories := d.stories++[story] }
      return (.imported story,d)

theorem insertDerived_ok {story definition value : ℤ} {assignments after : List Assignment}
    (h : insertDerived story definition value assignments=.ok after) :
    after=assignments++[⟨story,definition,some value,.derived⟩] := by
  unfold insertDerived at h
  obtain ⟨-,h⟩ := checked_ok.mp h
  exact (Except.ok.inj h).symm

/-- The assignments a projection adds, one for each story with a band. -/
def projected (config : AgeConfig) (definition : ℤ) (values : List ℤ)
    (rows : List (ℤ×Ages)) : List Assignment :=
  rows.filterMap fun (story,ages) =>
    (valueOf config values ages).map fun value => ⟨story,definition,some value,.derived⟩

theorem projectStories_ok {config : AgeConfig} {definition : ℤ} {values : List ℤ}
    (rows : List (ℤ×Ages)) : ∀ {result result' : ProjectionResult}
    {assignments after : List Assignment},
    projectStories config definition values rows result assignments=.ok (result',after) →
      after=assignments++projected config definition values rows := by
  induction rows with
  | nil =>
    intro result result' assignments after h
    obtain ⟨-,rfl⟩ := Prod.mk.inj (Except.ok.inj h)
    simp [projected]
  | cons row rows ih =>
    intro result result' assignments after h
    obtain ⟨story,ages⟩ := row
    unfold projectStories at h
    cases hvalue : valueOf config values ages with
    | none =>
      simp only [hvalue] at h
      rw [ih h]
      simp [projected,hvalue]
    | some value =>
      simp only [hvalue] at h
      obtain ⟨inserted,hinsert,h⟩ := exceptBind_ok.mp h
      rw [ih h,insertDerived_ok hinsert]
      simp [projected,hvalue]

theorem projectStories_finishes {config : AgeConfig} {definition : ℤ} {values : List ℤ}
    (rows : List (ℤ×Ages)) : ∀ {result : ProjectionResult} {assignments : List Assignment},
    (rows.map Prod.fst).Nodup →
    (∀ a ∈ assignments, a.definitionId=definition → a.storyId ∉ rows.map Prod.fst) →
      ∃ result' after, projectStories config definition values rows result assignments=
        .ok (result',after) := by
  induction rows with
  | nil =>
    intro result assignments _ _
    exact ⟨result,assignments,rfl⟩
  | cons row rows ih =>
    intro result assignments hnodup hfree
    obtain ⟨story,ages⟩ := row
    rw [List.map_cons,List.nodup_cons] at hnodup
    have hrest : ∀ a ∈ assignments, a.definitionId=definition →
        a.storyId ∉ rows.map Prod.fst := fun a ha hd hm =>
      hfree a ha hd (List.mem_cons_of_mem _ hm)
    unfold projectStories
    cases hvalue : valueOf config values ages with
    | none => exact ih hnodup.2 hrest
    | some value =>
      have hinsert : insertDerived story definition value assignments=
          .ok (assignments++[⟨story,definition,some value,.derived⟩]) := by
        unfold insertDerived
        rw [if_neg]
        intro htaken
        obtain ⟨a,ha,hsame⟩ := List.any_eq_true.mp htaken
        simp only [Bool.and_eq_true,decide_eq_true_eq] at hsame
        exact hfree a ha hsame.1.2 (by simp [hsame.1.1])
      dsimp only
      rw [bind_of_ok hinsert]
      apply ih hnodup.2
      intro a ha hd
      rcases List.mem_append.mp ha with ha | ha
      · exact hrest a ha hd
      · rw [List.mem_singleton.mp ha]
        exact hnodup.1

theorem mem_snapshotStories {d : CatalogDatabase} {snapshot : ℤ} {row : ℤ×Ages} :
    row ∈ snapshotStories d snapshot ↔ ∃ m ∈ d.catalog.metadata, m.snapshot=snapshot ∧
      ∃ s ∈ d.stories, s.uuid=m.storyUuid ∧ row=(s.id,⟨m.minimumAge,m.maximumAge⟩) := by
  rw [snapshotStories,List.mem_insertionSort]
  constructor
  · intro h
    obtain ⟨m,hm,h⟩ := List.mem_flatMap.mp h
    obtain ⟨hm,hsnapshot⟩ := List.mem_filter.mp hm
    obtain ⟨s,hs,rfl⟩ := List.mem_map.mp h
    obtain ⟨hs,huuid⟩ := List.mem_filter.mp hs
    exact ⟨m,hm,by simpa using hsnapshot,s,hs,by simpa using huuid,rfl⟩
  · rintro ⟨m,hm,hsnapshot,s,hs,huuid,rfl⟩
    exact List.mem_flatMap.mpr ⟨m,List.mem_filter.mpr ⟨hm,by simpa using hsnapshot⟩,
      List.mem_map.mpr ⟨s,List.mem_filter.mpr ⟨hs,by simpa using huuid⟩,rfl⟩⟩

theorem snapshotStories_nodup {d : CatalogDatabase} (snapshot : ℤ)
    (hid : (d.stories.map (·.id)).Nodup)
    (hmetadata : (d.catalog.metadata.map fun m => (m.snapshot,m.storyUuid)).Nodup) :
    ((snapshotStories d snapshot).map Prod.fst).Nodup := by
  have hperm := (List.perm_insertionSort (fun a b : ℤ×Ages => a.1≤b.1)
    ((d.catalog.metadata.filter fun m => m.snapshot=snapshot).flatMap fun m =>
      (d.stories.filter fun s => s.uuid=m.storyUuid).map fun s =>
        (s.id,(⟨m.minimumAge,m.maximumAge⟩ : Ages)))).map Prod.fst
  refine hperm.nodup_iff.mpr ?_
  rw [List.map_flatMap,List.nodup_flatMap]
  constructor
  · intro m _
    rw [List.map_map]
    exact (List.filter_sublist.map _).nodup hid
  · have hpairwise : (d.catalog.metadata.filter fun m => m.snapshot=snapshot).Pairwise
        fun m m' => m.storyUuid≠m'.storyUuid := by
      have hall := List.pairwise_map.mp hmetadata
      refine List.Pairwise.imp_of_mem ?_ (hall.filter _)
      intro m m' hm hm' hne huuid
      have hs := (List.mem_filter.mp hm).2
      have hs' := (List.mem_filter.mp hm').2
      simp only [decide_eq_true_eq] at hs hs'
      exact hne (by rw [hs,hs',huuid])
    refine hpairwise.imp ?_
    intro m m' hne x hx hx'
    simp only [List.map_map,List.mem_map,List.mem_filter,decide_eq_true_eq,
      Function.comp_apply] at hx hx'
    obtain ⟨s,⟨hs,hu⟩,hxs⟩ := hx
    obtain ⟨s',⟨hs',hu'⟩,hxs'⟩ := hx'
    have hsame := List.inj_on_of_nodup_map hid hs hs' (hxs.trans hxs'.symm)
    exact hne (by rw [← hu,← hu',hsame])

end Librairii.AgeProjection
