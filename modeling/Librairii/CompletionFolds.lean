import Librairii.CompletionOutcomes

/-!
# The outcome of an operation and the order of its items

What is recorded is determined by how many items there are of every kind and by the failure whose
texts are kept: the first one with a code, or the last one while none has a code. In another order
of the items the counters are the same, and so is the state of the operation.
-/

namespace Librairii.CompletionFolds

open OperationRows OperationTransitions CompletionOutcomes

/-- A terminal item with its outcome. -/
abbrev Item := ItemState×RawOutcome

/-- What an item is counted as. -/
inductive Bucket where
  | success
  | skipped
  | conflicted
  | cancelled
  | failed
  deriving DecidableEq

/-- What an item of a state is counted as. -/
def bucket (kind : OperationKind) : ItemState → Bucket
  | .succeeded => .success
  | .skipped => if kind≠.export then .success else .skipped
  | .conflicted => if kind=.export then .conflicted else .failed
  | .cancelled => .cancelled
  | _ => .failed

/-- How many items are counted so. -/
def tally (kind : OperationKind) (b : Bucket) (items : List Item) : ℕ :=
  items.countP fun item => bucket kind item.1=b

def failures (kind : OperationKind) (items : List Item) : List RawOutcome :=
  (items.filter fun item => bucket kind item.1=.failed).map Prod.snd

def texts (outcome : RawOutcome) : String×String :=
  (outcome.code.getD "",outcome.message.getD "")

/-- The texts that are kept of failures: those of the first with a code, or the message of the
last while none has a code. -/
def reported (outcomes : List RawOutcome) : String×String :=
  match outcomes.find? fun outcome => (texts outcome).1≠"" with
  | some outcome => texts outcome
  | none => ("",(outcomes.getLast?.map fun outcome => (texts outcome).2).getD "")

def aggregate (kind : OperationKind) (total : ℤ) (items : List Item) : CompletionAggregate where
  kind := kind
  counts := ⟨items.length,total⟩
  successes := tally kind .success items
  skipped := tally kind .skipped items
  conflicted := tally kind .conflicted items
  failures := tally kind .failed items
  cancelled := tally kind .cancelled items
  failureCode := (reported (failures kind items)).1
  failureMessage := (reported (failures kind items)).2

/-- Record an item in place: a refused one leaves the aggregate. -/
def offer (a : CompletionAggregate) (item : Item) : CompletionAggregate :=
  match a.record item.1 item.2 with
  | .ok b => b
  | .error _ => a

/-- The items that are recorded of those offered: the terminal ones while there is room. -/
def recorded (total : ℕ) (offered : List Item) : List Item :=
  (offered.filter fun item => item.1.isTerminal).take total

/-- One more failure replaces the kept texts while they have no code. -/
theorem reported_concat (outcomes : List RawOutcome) (outcome : RawOutcome) :
    reported (outcomes++[outcome])=
      if (reported outcomes).1="" then texts outcome else reported outcomes := by
  unfold reported
  rw [List.find?_append]
  cases hfind : outcomes.find? fun outcome => (texts outcome).1≠"" with
  | some first =>
    have hcode : (texts first).1≠"" := by simpa using List.find?_some hfind
    simp only [Option.some_or]
    rw [if_neg hcode]
  | none =>
    simp only [Option.none_or,if_true]
    by_cases hcode : (texts outcome).1=""
    · have hnone : [outcome].find? (fun outcome => (texts outcome).1≠"")=none := by
        rw [List.find?_singleton]
        exact if_neg (by simpa using hcode)
      rw [hnone,List.getLast?_concat]
      exact Prod.ext hcode.symm rfl
    · have hsome : [outcome].find? (fun outcome => (texts outcome).1≠"")=some outcome := by
        rw [List.find?_singleton]
        exact if_pos (by simpa using hcode)
      rw [hsome]

/-- One more item in a count. -/
theorem tally_concat (kind : OperationKind) (b : Bucket) (items : List Item) (item : Item) :
    tally kind b (items++[item])=tally kind b items+if bucket kind item.1=b then 1 else 0 := by
  rw [tally,List.countP_append,List.countP_singleton]
  simp only [decide_eq_true_eq]
  rfl

theorem failures_concat (kind : OperationKind) (items : List Item) (item : Item) :
    failures kind (items++[item])=
      failures kind items++if bucket kind item.1=.failed then [item.2] else [] := by
  rw [failures,List.filter_append,List.map_append]
  by_cases hfailed : bucket kind item.1=.failed
  · simp [failures,hfailed]
  · simp [failures,hfailed]

theorem aggregate_concat_passed {kind : OperationKind} {items : List Item} {item : Item}
    (h : bucket kind item.1≠.failed) : failures kind (items++[item])=failures kind items := by
  rw [failures_concat,if_neg h,List.append_nil]

theorem classify_aggregate (kind : OperationKind) (total : ℤ) (items : List Item) (item : Item)
    (h : item.1.isTerminal=true) :
    {(aggregate kind total items).classify item.2 item.1 with
      counts := ⟨items.length+1,total⟩}=aggregate kind total (items++[item]) := by
  obtain ⟨state,outcome⟩ := item
  have hfail : bucket kind state=.failed →
      {(aggregate kind total items).fail outcome with counts := ⟨items.length+1,total⟩}=
        aggregate kind total (items++[(state,outcome)]) := by
    intro hb
    have hreported := reported_concat (failures kind items) outcome
    unfold aggregate CompletionAggregate.fail
    simp only [tally_concat,failures_concat,hb,if_true,hreported,List.length_append,
      List.length_singleton]
    by_cases hcode : (reported (failures kind items)).1=""
    · simp [hcode,texts]
    · simp [hcode]
  have hpass : ∀ b, bucket kind state=b → b≠.failed →
      failures kind (items++[(state,outcome)])=failures kind items := by
    intro b hb hne
    exact aggregate_concat_passed (by rw [hb]; exact hne)
  cases state with
  | pending => cases h
  | running => cases h
  | failed => exact hfail rfl
  | succeeded =>
    unfold aggregate
    simp [CompletionAggregate.classify,tally_concat,bucket,hpass .success rfl (by decide)]
  | cancelled =>
    unfold aggregate
    simp [CompletionAggregate.classify,tally_concat,bucket,hpass .cancelled rfl (by decide)]
  | skipped =>
    by_cases hkind : kind=.export
    · subst hkind
      unfold aggregate
      simp [CompletionAggregate.classify,tally_concat,bucket,hpass .skipped rfl (by decide)]
    · have hb : bucket kind .skipped=.success := if_pos hkind
      have hclassify : (aggregate kind total items).classify outcome .skipped=
          {aggregate kind total items with
            successes := (aggregate kind total items).successes+1} := if_pos hkind
      rw [hclassify]
      unfold aggregate
      simp [tally_concat,hb,hpass _ hb (by decide)]
  | conflicted =>
    by_cases hkind : kind=.export
    · subst hkind
      unfold aggregate
      simp [CompletionAggregate.classify,tally_concat,bucket,hpass .conflicted rfl (by decide)]
    · have hclassify : (aggregate kind total items).classify outcome .conflicted=
          (aggregate kind total items).fail outcome := if_neg hkind
      simp only [hclassify]
      exact hfail (if_neg hkind)

theorem record_aggregate (kind : OperationKind) (total : ℤ) (items : List Item) (item : Item) :
    (aggregate kind total items).record item.1 item.2=
      if !item.1.isTerminal then .error .invalidTransition
      else if (items.length : ℤ)=total then .error .invalidCounts
      else .ok (aggregate kind total (items++[item])) := by
  rw [CompletionAggregate.record]
  by_cases hterminal : item.1.isTerminal=true
  · have hclassify := classify_aggregate kind total items item hterminal
    simp only [hterminal,Bool.not_true,Bool.false_eq_true,if_false]
    rw [←hclassify]
    rfl
  · have hfalse : item.1.isTerminal=false := by simpa using hterminal
    simp only [hfalse,Bool.not_false,if_true]

theorem offers_after (kind : OperationKind) (total : ℕ) (offered items : List Item)
    (h : items.length≤total) :
    offered.foldl offer (aggregate kind total items)=
      aggregate kind total (items++recorded (total-items.length) offered) := by
  induction offered generalizing items with
  | nil =>
    rw [recorded,List.filter_nil,List.take_nil,List.append_nil]
    rfl
  | cons item offered ih =>
    have hrecord := record_aggregate kind total items item
    rw [List.foldl_cons,offer,hrecord,recorded]
    by_cases hterminal : item.1.isTerminal=true
    · rw [List.filter_cons_of_pos (p:=fun item : Item => item.1.isTerminal) hterminal]
      simp only [hterminal,Bool.not_true,Bool.false_eq_true,if_false]
      by_cases hfull : items.length=total
      · rw [if_pos (by exact_mod_cast hfull)]
        have hnothing := ih items h
        rw [recorded] at hnothing
        rw [hnothing,hfull,Nat.sub_self,List.take_zero,List.take_zero]
      · rw [if_neg (by exact_mod_cast hfull)]
        have hroom : (items++[item]).length≤total := by
          rw [List.length_append,List.length_singleton]
          omega
        have hleft : total-items.length=(total-(items++[item]).length)+1 := by
          rw [List.length_append,List.length_singleton]
          omega
        have hrest := ih (items++[item]) hroom
        simp only
        rw [hrest,hleft,List.take_succ_cons,List.append_assoc]
        rfl
    · rw [List.filter_cons_of_neg (p:=fun item : Item => item.1.isTerminal) hterminal]
      have hfalse : item.1.isTerminal=false := by simpa using hterminal
      simp only [hfalse,Bool.not_false,if_true]
      exact ih items h

theorem offers_start (kind : OperationKind) (total : ℕ) (offered : List Item) :
    offered.foldl offer (aggregate kind total [])=
      aggregate kind total (recorded total offered) := by
  have h := offers_after kind total offered [] (Nat.zero_le _)
  rw [List.nil_append,List.length_nil,Nat.sub_zero] at h
  exact h

theorem new_aggregate (kind : OperationKind) (n : ℕ) :
    CompletionAggregate.new kind (n+1 : ℕ)=.ok (aggregate kind (n+1 : ℕ) []) := by
  have hpositive : ¬((n+1 : ℕ) : ℤ)≤0 := by omega
  rw [CompletionAggregate.new,countsForNewWork,if_neg hpositive]
  rfl

/-- Every item is counted once. -/
theorem tally_sum (kind : OperationKind) (items : List Item) :
    tally kind .success items+tally kind .skipped items+tally kind .conflicted items+
      tally kind .failed items+tally kind .cancelled items=items.length := by
  induction items with
  | nil => rfl
  | cons item items ih =>
    simp only [tally,List.countP_cons,List.length_cons] at ih ⊢
    cases hb : bucket kind item.1 with
    | success => simp; omega
    | skipped => simp; omega
    | conflicted => simp; omega
    | cancelled => simp; omega
    | failed => simp; omega

/-- Another order of the items changes only the texts that are kept. -/
theorem aggregate_perm (kind : OperationKind) (total : ℤ) {items others : List Item}
    (h : items.Perm others) :
    aggregate kind total others={aggregate kind total items with
      failureCode := (reported (failures kind others)).1
      failureMessage := (reported (failures kind others)).2} := by
  have htally : ∀ b, tally kind b others=tally kind b items := fun b => (h.countP_eq _).symm
  unfold aggregate
  simp only [htally,h.length_eq]

theorem terminalResult_texts (a : CompletionAggregate) (code message : String) :
    (CompletionAggregate.terminalResult
      {a with failureCode := code,failureMessage := message}).map TerminalResult.state=
        a.terminalResult.map TerminalResult.state := by
  unfold CompletionAggregate.terminalResult CompletionAggregate.failure
  dsimp only
  split_ifs
  all_goals rfl

/-- There is an outcome exactly when everything is recorded. -/
theorem terminalResult_iff (a : CompletionAggregate) :
    (∃ result, a.terminalResult=.ok result) ↔ a.counts.completed=a.counts.total := by
  unfold CompletionAggregate.terminalResult
  by_cases hdone : a.counts.completed=a.counts.total
  · rw [if_neg (not_not.mpr hdone)]
    refine ⟨fun _ => hdone,fun _ => ?_⟩
    split_ifs
    all_goals exact ⟨_,rfl⟩
  · rw [if_pos hdone]
    refine ⟨fun ⟨result,h⟩ => ?_,fun h => absurd h hdone⟩
    cases h

/-- Whatever is offered, every recorded item is counted once, extra and unfinished items change
nothing, there is an outcome exactly when all items are recorded, and in another order of the
items its state is the same and so are its texts as long as the same failure is kept. -/
theorem outcome_by_items (kind : OperationKind) (n : ℕ) :
    ∃ start, CompletionAggregate.new kind (n+1 : ℕ)=.ok start ∧
      (∀ offered : List Item,
        let a := offered.foldl offer start
        a.successes+a.skipped+a.conflicted+a.failures+a.cancelled=a.counts.completed ∧
        a.counts.completed=(recorded (n+1) offered).length ∧
        a.counts.completed≤a.counts.total ∧ a.counts.total=(n+1 : ℕ) ∧
        ((∃ result, a.terminalResult=.ok result) ↔ (recorded (n+1) offered).length=n+1) ∧
        ∀ item : Item, item.1.isTerminal=false ∨ a.counts.completed=a.counts.total →
          (∃ e, a.record item.1 item.2=.error e) ∧ offer a item=a) ∧
      ∀ items others : List Item, items.Perm others →
        (∀ item ∈ items, item.1.isTerminal=true) → items.length=n+1 →
        ∃ result other, (items.foldl offer start).terminalResult=.ok result ∧
          (others.foldl offer start).terminalResult=.ok other ∧ result.state=other.state ∧
          (reported (failures kind items)=reported (failures kind others) → result=other) := by
  refine ⟨_,new_aggregate kind n,fun offered => ?_,?_⟩
  · rw [offers_start kind (n+1) offered]
    have hsum := tally_sum kind (recorded (n+1) offered)
    have hroom : (recorded (n+1) offered).length≤n+1 := List.length_take_le _ _
    refine ⟨?_,rfl,?_,rfl,?_,?_⟩
    · simp only [aggregate]
      exact_mod_cast hsum
    · change ((recorded (n+1) offered).length : ℤ)≤(n+1 : ℕ)
      exact_mod_cast hroom
    · rw [terminalResult_iff]
      change ((recorded (n+1) offered).length : ℤ)=(n+1 : ℕ) ↔ _
      exact_mod_cast Iff.rfl
    · intro item hrefused
      have hrecord := record_aggregate kind (n+1 : ℕ) (recorded (n+1) offered) item
      have herror : ∃ e, (aggregate kind (n+1 : ℕ) (recorded (n+1) offered)).record
          item.1 item.2=.error e := by
        rw [hrecord]
        by_cases hterminal : item.1.isTerminal=true
        · cases hrefused with
          | inl hfalse => rw [hterminal] at hfalse; cases hfalse
          | inr hfull =>
            simp only [hterminal,Bool.not_true,Bool.false_eq_true,if_false]
            exact ⟨_,if_pos hfull⟩
        · have hfalse : item.1.isTerminal=false := by simpa using hterminal
          simp only [hfalse,Bool.not_false,if_true]
          exact ⟨_,rfl⟩
      obtain ⟨e,he⟩ := herror
      refine ⟨⟨e,he⟩,?_⟩
      rw [offer,he]
  · intro items others hperm hall hlength
    have hrecorded : ∀ list : List Item, (∀ item ∈ list, item.1.isTerminal=true) →
        list.length=n+1 → recorded (n+1) list=list := by
      intro list hterminal hlist
      rw [recorded,List.filter_eq_self.mpr hterminal,List.take_of_length_le (by omega)]
    have hothers : ∀ item ∈ others, item.1.isTerminal=true :=
      fun item hm => hall item (hperm.mem_iff.mpr hm)
    rw [offers_start,offers_start,hrecorded items hall hlength,
      hrecorded others hothers (hperm.length_eq.symm.trans hlength)]
    have hfull : (items.length : ℤ)=(n+1 : ℕ) := by exact_mod_cast hlength
    obtain ⟨result,hresult⟩ := (terminalResult_iff (aggregate kind (n+1 : ℕ) items)).mpr hfull
    have hchanged := aggregate_perm kind (n+1 : ℕ) hperm
    have hstates := terminalResult_texts (aggregate kind (n+1 : ℕ) items)
      (reported (failures kind others)).1 (reported (failures kind others)).2
    rw [←hchanged,hresult] at hstates
    obtain ⟨other,hother,hsame⟩ := CheckedResults.exceptMap_ok.mp hstates
    refine ⟨result,other,hresult,hother,hsame.symm,fun hkept => ?_⟩
    have heq : aggregate kind (n+1 : ℕ) others=aggregate kind (n+1 : ℕ) items := by
      rw [hchanged,←hkept]
      rfl
    rw [heq,hresult] at hother
    exact Except.ok.inj hother

/-- A failure without a code and with a message. -/
def uncoded (message : String) : Item := (.failed,⟨none,some message⟩)

/-- Where no failure has a code the message is that of the last one, not of the first. -/
theorem message_of_last_uncoded :
    let items := [uncoded "a",uncoded "b",uncoded "c"]
    let others := [uncoded "a",uncoded "c",uncoded "b"]
    items.Perm others ∧
    (failures .export items).find? (fun outcome => texts outcome≠("",""))=
      (failures .export others).find? (fun outcome => texts outcome≠("","")) ∧
    (failures .export items).find? (fun outcome => (texts outcome).1≠"")=
      (failures .export others).find? (fun outcome => (texts outcome).1≠"") ∧
    ∃ start result other, CompletionAggregate.new .export 3=.ok start ∧
      (items.foldl offer start).terminalResult=.ok result ∧
      (others.foldl offer start).terminalResult=.ok other ∧
      result.message="c" ∧ other.message="b" := by
  exact ⟨List.Perm.cons _ (List.Perm.swap _ _ _),by decide,by decide,_,_,_,rfl,rfl,rfl,rfl,rfl⟩

end Librairii.CompletionFolds
