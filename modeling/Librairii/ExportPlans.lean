import Librairii.OperationStore
import Librairii.StoryPages

/-!
# Approved export plans and the reports of their items

A plan keeps the stories of a scope beside the preview that was approved for them. Before a
story is copied its live row is compared with the plan: a story that is gone or has another
id is unavailable, and a changed archive is not copied. Every outcome of an item is a report
with a fixed code and message, which names the story the item was created for.
-/

namespace Librairii.ExportPlans

open OperationRows OperationStore StoryRows StoryPages

/-- Why a story or a whole preview cannot be exported. -/
inductive Issue where
  | storyMarkedBroken
  | storyUnavailable
  | emptyScope
  | noExportableStories
  | archiveMissing
  | archiveInvalid
  | archiveChanged
  | unsupportedExtension
  | filenameConflict
  deriving DecidableEq

def Issue.code : Issue → String
  | .storyMarkedBroken => "story_marked_broken"
  | .storyUnavailable => "story_unavailable"
  | .emptyScope => "empty_scope"
  | .noExportableStories => "no_exportable_stories"
  | .archiveMissing => "archive_missing"
  | .archiveInvalid => "archive_invalid"
  | .archiveChanged => "archive_changed"
  | .unsupportedExtension => "unsupported_extension"
  | .filenameConflict => "filename_conflict"

def issueMessage : Issue → String
  | .storyMarkedBroken => "This story is marked as broken."
  | .storyUnavailable => "This approved story is unavailable in the library."
  | .archiveMissing => "Managed archive bytes are missing."
  | .archiveInvalid => "Managed archive verification failed."
  | .archiveChanged => "Managed archive bytes no longer match the imported archive."
  | .unsupportedExtension => "The stored archive does not have a supported Lunii.QT extension."
  | _ => "Story is not eligible for export."

/-- What becomes of a story of the preview. -/
inductive Disposition where
  | ready
  | skipped (issue : Issue)
  | conflicted
  deriving DecidableEq

/-- One story of the preview. -/
structure PreviewItem where
  uuid : String
  title : String
  outputName : String
  format : String
  /-- Size of the archive. -/
  bytes : ℤ
  /-- What becomes of it. -/
  disposition : Disposition
  deriving DecidableEq

/-- The stories of a plan beside their preview, in order. -/
structure Plan where
  stories : List ExportStory
  /-- The approved preview. -/
  items : List PreviewItem
  deriving DecidableEq

/-- The live row of a story that is not being removed. -/
def currentStory (library : List Listed) (intents : List ℤ) (uuid : String) : Option Listed :=
  library.find? fun row => row.story.uuid=uuid && !intents.contains row.story.id

/-- Compare the live row of an approved story with the plan. -/
def recheck (original : ExportStory) : Option Listed → Disposition
  | none => .skipped .storyUnavailable
  | some row =>
    if row.story.id≠original.id then .skipped .storyUnavailable
    else if row.story.isBroken then .skipped .storyMarkedBroken
    else if row.archive.sha256≠original.sha256 ∨ row.archive.byteSize≠original.byteSize ∨
        row.archive.managedPath≠original.managedRelativePathBytes ∨
        row.archive.originalFilename≠original.originalFilenameBytes ∨
        row.archive.detectedFormat≠original.detectedFormat then .skipped .archiveChanged
    else match row.archive.validationState with
    | .valid => .ready
    | .missing => .skipped .archiveMissing
    | .invalid => .skipped .archiveInvalid

/-- Recheck one item of a plan; an item that was not ready keeps its disposition. -/
def checkItem (library : List Listed) (intents : List ℤ) (plan : Plan) (index : ℕ) :
    Option Disposition := do
  let preview ← plan.items[index]?
  if preview.disposition≠.ready then return preview.disposition
  let original ← plan.stories[index]?
  return recheck original (currentStory library intents original.uuid)

/-- What an executor reports of one item. -/
structure ItemReport where
  state : ItemState
  /-- Story to record, zero for none. -/
  storyId : ℤ
  completedBytes : ℤ
  /-- Code and message to record. -/
  outcome : RawOutcome
  deriving DecidableEq

def historicalStoryId (identity : StoredItemIdentity) : ℤ :=
  (identity.resolvedStoryId.or identity.storyId).getD 0

def report (work : WorkItem) (state : ItemState) (code message : String) (bytes : ℤ) :
    ItemReport where
  state := state
  storyId := historicalStoryId work.item.identity
  completedBytes := bytes
  outcome := ⟨some code,some message⟩

/-- The errors of an export that are reported apart. -/
inductive ExportFailure where
  | cancelled
  | destinationCollision
  | snapshotChanged
  | other
  deriving DecidableEq

def failed (work : WorkItem) : ExportFailure → ItemReport
  | .cancelled => report work .cancelled "cancelled" "Story export cancelled." 0
  | .destinationCollision => report work .conflicted "filename_conflict"
      "A file with this name already exists in the destination." 0
  | .snapshotChanged => report work .failed "checksum_mismatch"
      "The copied archive failed checksum verification." 0
  | .other => report work .failed "export_failed"
      "The story archive could not be exported." 0

def cancelledReport (work : WorkItem) : ItemReport :=
  report work .cancelled "cancelled" "Story export cancelled." work.item.progress.completed

/-- The report of a story that was published. -/
def exported (work : WorkItem) (story : ExportStory) : ItemReport :=
  report work .succeeded "exported" "Story archive exported." story.byteSize

def planIndex (plan : Plan) (uuid : Option String) : Option ℕ :=
  plan.stories.findIdx? fun story => some story.uuid=uuid

def plannedStory (plan : Plan) (uuid : Option String) : Option ExportStory :=
  (planIndex plan uuid).bind fun index => plan.stories[index]?

/-- The report of a story that may not be copied, or nothing for a story that may. -/
def eligibility (work : WorkItem) : Option Disposition → Option ItemReport
  | none => some (failed work .other)
  | some .ready => none
  | some (.skipped issue) => some (report work .skipped issue.code (issueMessage issue) 0)
  | some .conflicted => some (failed work .destinationCollision)

/-- A report that stops an item is terminal, copies nothing and names the historical story. -/
theorem eligibility_report {work : WorkItem} {disposition : Option Disposition}
    {r : ItemReport} (h : eligibility work disposition=some r) :
    r.state.isTerminal=true ∧ r.storyId=historicalStoryId work.item.identity ∧
      r.completedBytes=0 := by
  cases disposition with
  | none =>
    cases h
    exact ⟨rfl,rfl,rfl⟩
  | some disposition =>
    cases disposition with
    | ready => cases h
    | skipped issue =>
      cases h
      exact ⟨rfl,rfl,rfl⟩
    | conflicted =>
      cases h
      exact ⟨rfl,rfl,rfl⟩

theorem failed_report (work : WorkItem) (error : ExportFailure) :
    (failed work error).state.isTerminal=true ∧
      (failed work error).storyId=historicalStoryId work.item.identity ∧
      (failed work error).completedBytes=0 := by
  cases error <;> exact ⟨rfl,rfl,rfl⟩

end Librairii.ExportPlans
