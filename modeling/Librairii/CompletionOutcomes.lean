import Librairii.OperationTransitions

/-!
# The outcome of an operation from the outcomes of its items

Terminal items are folded in their order. An import counts a skipped item as a success and
an export counts skipped and conflicted items apart; the first failure with a code names the
failure of the operation. The folded outcome is terminal and never an interruption.
-/

namespace Librairii.CompletionOutcomes

open CheckedResults OperationRows OperationTransitions

/-- The terminal state of an operation with its texts. -/
structure TerminalResult where
  state : OperationState
  code : String
  message : String
  deriving DecidableEq

/-- The terminal items of an operation, counted by their outcome. -/
structure CompletionAggregate where
  kind : OperationKind
  /-- Items recorded of all items. -/
  counts : Counts
  /-- Succeeded items, with the skipped ones except in an export. -/
  successes : ℤ
  skipped : ℤ
  conflicted : ℤ
  /-- All other items. -/
  failures : ℤ
  cancelled : ℤ
  failureCode : String
  failureMessage : String
  deriving DecidableEq

def countsForNewWork (total : ℤ) : Except OperationPolicyError Counts :=
  if total≤0 then .error .invalidCounts else .ok ⟨0,total⟩

/-- Nothing is recorded yet. -/
def CompletionAggregate.new (kind : OperationKind) (total : ℤ) :
    Except OperationPolicyError CompletionAggregate := do
  let counts ← countsForNewWork total
  return ⟨kind,counts,0,0,0,0,0,"",""⟩

/-- Count one failure and keep the first one with a code. -/
def CompletionAggregate.fail (a : CompletionAggregate) (outcome : RawOutcome) :
    CompletionAggregate :=
  if a.failureCode="" then {a with
    failures := a.failures+1
    failureCode := outcome.code.getD ""
    failureMessage := outcome.message.getD ""}
  else {a with failures := a.failures+1}

/-- Count one terminal item under its state. -/
def CompletionAggregate.classify (a : CompletionAggregate) (outcome : RawOutcome) :
    ItemState → CompletionAggregate
  | .succeeded => {a with successes := a.successes+1}
  | .skipped =>
    if a.kind≠.export then {a with successes := a.successes+1}
    else {a with skipped := a.skipped+1}
  | .conflicted =>
    if a.kind=.export then {a with conflicted := a.conflicted+1} else a.fail outcome
  | .cancelled => {a with cancelled := a.cancelled+1}
  | _ => a.fail outcome

def CompletionAggregate.record (a : CompletionAggregate) (state : ItemState)
    (outcome : RawOutcome) : Except OperationPolicyError CompletionAggregate :=
  if !state.isTerminal then .error .invalidTransition
  else if a.counts.completed=a.counts.total then .error .invalidCounts
  else .ok {a.classify outcome state with
    counts := {a.counts with completed := a.counts.completed+1}}

/-- A failure with its own texts, else the texts of the kind. -/
def CompletionAggregate.failure (a : CompletionAggregate) (code message : String) :
    TerminalResult where
  state := .failed
  code := if a.failureCode="" then code else a.failureCode
  message := if a.failureMessage="" then message else a.failureMessage

/-- The outcome of the operation, once all its items are recorded. -/
def CompletionAggregate.terminalResult (a : CompletionAggregate) :
    Except OperationPolicyError TerminalResult :=
  if a.counts.completed≠a.counts.total then .error .incompleteOperation
  else if a.kind=.export then
    if a.failures=0 ∧ a.cancelled=0 ∧ a.skipped=0 ∧ a.conflicted=0 then
      .ok ⟨.succeeded,"",""⟩
    else if 0<a.successes then
      .ok ⟨.partiallySucceeded,"partial_export","Some stories were not exported."⟩
    else if 0<a.cancelled ∧ a.failures=0 then
      .ok ⟨.cancelled,"cancelled","The export was cancelled."⟩
    else .ok (a.failure "export_failed" "No stories were exported.")
  else if a.failures=0 ∧ a.cancelled=0 then .ok ⟨.succeeded,"",""⟩
  else if a.kind=.metadataSync then
    if a.failures=0 then
      .ok ⟨.cancelled,"catalog_cancelled","Official metadata refresh was cancelled."⟩
    else .ok (a.failure "catalog_refresh_failed" "Official metadata could not be refreshed.")
  else if 0<a.successes then
    .ok ⟨.partiallySucceeded,"partial_failure","Some files could not be imported."⟩
  else if a.failures=0 then .ok ⟨.cancelled,"cancelled","The import was cancelled."⟩
  else .ok ⟨.failed,"import_failed","No selected files were imported."⟩

/-- Fold the items of an operation in their order. -/
def terminalOutcome (kind : OperationKind) (total : ℤ) (items : List OperationItem) :
    Except OperationPolicyError TerminalResult := do
  let a ← items.foldlM (fun a row => a.record row.state row.outcome)
    (← CompletionAggregate.new kind total)
  a.terminalResult

theorem terminalResult_state {a : CompletionAggregate} {result : TerminalResult}
    (h : a.terminalResult=.ok result) :
    isTerminal result.state=true ∧ result.state≠.interrupted := by
  unfold CompletionAggregate.terminalResult at h
  split_ifs at h
  all_goals
    cases h
    exact ⟨rfl,OperationState.noConfusion⟩

theorem terminalOutcome_state {kind : OperationKind} {total : ℤ} {items : List OperationItem}
    {result : TerminalResult} (h : terminalOutcome kind total items=.ok result) :
    isTerminal result.state=true ∧ result.state≠.interrupted := by
  obtain ⟨start,-,h⟩ := exceptBind_ok.mp h
  obtain ⟨a,-,h⟩ := exceptBind_ok.mp h
  exact terminalResult_state h

end Librairii.CompletionOutcomes
