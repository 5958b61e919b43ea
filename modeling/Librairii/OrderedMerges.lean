import Mathlib

/-!
# Merging ordered cursors

Several ordered cursors are merged through a heap that holds the next element of each of them.
The elements that are popped are those of all cursors in their order, whichever cursors share
elements or run out. Counting the changes of an ordered sequence counts its distinct elements, and
the sizes of finite sets add up to the size of their union exactly when they are disjoint.
-/

namespace Librairii.OrderedMerges

section Merge

variable {α : Type} [LinearOrder α]

/-- Take the next element of a source into the heap, which is kept in order. -/
def pushNext (heap : List (α ×ₗ ℕ)) (cursors : List (List α)) (source : ℕ) :
    List (α ×ₗ ℕ)×List (List α) :=
  match cursors[source]? with
  | some (a::rest) => (heap.orderedInsert (·≤·) (toLex (a,source)),cursors.set source rest)
  | _ => (heap,cursors)

theorem pushNext_some {heap : List (α ×ₗ ℕ)} {cursors : List (List α)} {source : ℕ} {a : α}
    {rest : List α} (h : cursors[source]?=some (a::rest)) : pushNext heap cursors source=
      (heap.orderedInsert (·≤·) (toLex (a,source)),cursors.set source rest) := by
  rw [pushNext,h]

/-- A source without elements gives nothing. -/
theorem pushNext_none {heap : List (α ×ₗ ℕ)} {cursors : List (List α)} {source : ℕ}
    (h : ∀ a rest, cursors[source]?≠some (a::rest)) :
    pushNext heap cursors source=(heap,cursors) := by
  unfold pushNext
  split
  · rename_i a rest hsome
    exact absurd hsome (h a rest)
  · rfl

omit [LinearOrder α] in
/-- A source that is advanced leaves all elements but its next one. -/
theorem flatten_set {cursors : List (List α)} {source : ℕ} {a : α} {rest : List α}
    (h : cursors[source]?=some (a::rest)) :
    cursors.flatten.Perm (a::(cursors.set source rest).flatten) := by
  induction cursors generalizing source with
  | nil => exact absurd h (by simp)
  | cons cursor cursors ih =>
    cases source with
    | zero =>
      cases h
      rfl
    | succ source =>
      rw [List.flatten_cons,List.set_cons_succ,List.flatten_cons]
      exact ((ih h).append_left cursor).trans List.perm_middle

def elements (heap : List (α ×ₗ ℕ)) (cursors : List (List α)) : List α :=
  heap.map (fun entry => (ofLex entry).1)++cursors.flatten

theorem elements_pushNext (heap : List (α ×ₗ ℕ)) (cursors : List (List α)) (source : ℕ) :
    (elements (pushNext heap cursors source).1 (pushNext heap cursors source).2).Perm
      (elements heap cursors) := by
  by_cases h : ∃ a rest, cursors[source]?=some (a::rest)
  · obtain ⟨a,rest,h⟩ := h
    rw [pushNext_some h,elements,elements]
    have hheap := (List.perm_orderedInsert (·≤·) (toLex (a,source)) heap).map
      fun entry : α ×ₗ ℕ => (ofLex entry).1
    refine (hheap.append_right _).trans ?_
    exact List.perm_middle.symm.trans ((flatten_set h).symm.append_left _)
  · rw [pushNext_none fun a rest he => h ⟨a,rest,he⟩]

/-- The number of elements in the heap and behind it. -/
theorem length_pushNext (heap : List (α ×ₗ ℕ)) (cursors : List (List α)) (source : ℕ) :
    (pushNext heap cursors source).1.length+(pushNext heap cursors source).2.flatten.length=
      heap.length+cursors.flatten.length := by
  have hlength := (elements_pushNext heap cursors source).length_eq
  rwa [elements,elements,List.length_append,List.length_append,List.length_map,
    List.length_map] at hlength

/-- Pop the least entry and advance its source, until nothing is left. -/
def pops : List (α ×ₗ ℕ) → List (List α) → List α
  | [],_ => []
  | entry::heap,cursors =>
    (ofLex entry).1::pops (pushNext heap cursors (ofLex entry).2).1
      (pushNext heap cursors (ofLex entry).2).2
termination_by heap cursors => heap.length+cursors.flatten.length
decreasing_by
  rw [length_pushNext,List.length_cons]
  omega

/-- The heap with the next elements of the first sources, and what is behind it. -/
def loadFirst (cursors : List (List α)) : ℕ → List (α ×ₗ ℕ)×List (List α)
  | 0 => ([],cursors)
  | source+1 =>
    let state := loadFirst cursors source
    pushNext state.1 state.2 source

/-- The heap with the first element of every cursor, and what is behind it. -/
def load (cursors : List (List α)) : List (α ×ₗ ℕ)×List (List α) :=
  loadFirst cursors cursors.length

/-- Every source below a bound that has elements has an entry in the heap. -/
def Ready (bound : ℕ) (heap : List (α ×ₗ ℕ)) (cursors : List (List α)) : Prop :=
  ∀ source<bound, ∀ a rest, cursors[source]?=some (a::rest) →
    ∃ entry ∈ heap, (ofLex entry).2=source

theorem Ready.pushNext {bound bound' : ℕ} {heap heap' : List (α ×ₗ ℕ)} {cursors : List (List α)}
    {source : ℕ} (h : Ready bound heap' cursors)
    (hheap : ∀ entry ∈ heap', (ofLex entry).2=source ∨ entry ∈ heap)
    (hbound : ∀ other<bound', other=source ∨ other<bound) :
    Ready bound' (OrderedMerges.pushNext heap cursors source).1
      (OrderedMerges.pushNext heap cursors source).2 := by
  intro other hother b rest' hcursor
  by_cases hsource : ∃ a rest, cursors[source]?=some (a::rest)
  · obtain ⟨a,rest,hsource⟩ := hsource
    rw [pushNext_some hsource] at hcursor ⊢
    by_cases he : other=source
    · exact ⟨toLex (a,source),(List.mem_orderedInsert _).mpr (.inl rfl),he.symm⟩
    · rw [List.getElem?_set_ne (Ne.symm he)] at hcursor
      obtain ⟨entry,hentry,hown⟩ :=
        h other ((hbound other hother).resolve_left he) b rest' hcursor
      have hkept := (hheap entry hentry).resolve_left fun hs => he (hown.symm.trans hs)
      exact ⟨entry,(List.mem_orderedInsert _).mpr (.inr hkept),hown⟩
  · have hnone : ∀ a rest, cursors[source]?≠some (a::rest) := fun a rest he => hsource ⟨a,rest,he⟩
    rw [pushNext_none hnone] at hcursor ⊢
    have he : other≠source := fun he => hnone b rest' (he ▸ hcursor)
    obtain ⟨entry,hentry,hown⟩ := h other ((hbound other hother).resolve_left he) b rest' hcursor
    exact ⟨entry,(hheap entry hentry).resolve_left fun hs => he (hown.symm.trans hs),hown⟩

/-- The heap is in order, cursors are in order, and entries are below what follows them. -/
structure Ordered (heap : List (α ×ₗ ℕ)) (cursors : List (List α)) : Prop where
  /-- The heap is in order. -/
  entries : heap.Pairwise (·≤·)
  /-- Each cursor is in order. -/
  sources : ∀ cursor ∈ cursors, cursor.Pairwise (·≤·)
  below : ∀ entry ∈ heap, ∀ cursor, cursors[(ofLex entry).2]?=some cursor →
    ∀ a ∈ cursor, (ofLex entry).1≤a

theorem Ordered.pushNext {heap : List (α ×ₗ ℕ)} {cursors : List (List α)}
    (h : Ordered heap cursors) (source : ℕ) :
    Ordered (OrderedMerges.pushNext heap cursors source).1
      (OrderedMerges.pushNext heap cursors source).2 := by
  by_cases hsource : ∃ a rest, cursors[source]?=some (a::rest)
  · obtain ⟨a,rest,hsource⟩ := hsource
    have hcursor := h.sources _ (List.mem_of_getElem? hsource)
    rw [List.pairwise_cons] at hcursor
    rw [pushNext_some hsource]
    constructor
    case entries => exact h.entries.orderedInsert _ _
    case sources =>
      intro cursor hmem
      cases List.mem_or_eq_of_mem_set hmem with
      | inl hold => exact h.sources cursor hold
      | inr hnew => exact hnew ▸ hcursor.2
    case below =>
      intro entry hentry cursor hget b hb
      by_cases he : (ofLex entry).2=source
      · have hrest : cursor=rest := by
          have hlt := (List.getElem?_eq_some_iff.mp hsource).1
          rw [he,List.getElem?_set_self hlt] at hget
          exact (Option.some.inj hget).symm
        rw [hrest] at hb
        cases (List.mem_orderedInsert _).mp hentry with
        | inl hnew => exact hnew ▸ hcursor.1 b hb
        | inr hold => exact h.below entry hold _ (he ▸ hsource) b (List.mem_cons_of_mem _ hb)
      · rw [List.getElem?_set_ne (Ne.symm he)] at hget
        cases (List.mem_orderedInsert _).mp hentry with
        | inl hnew => exact absurd (hnew ▸ rfl) he
        | inr hold => exact h.below entry hold cursor hget b hb
  · rw [pushNext_none fun a rest he => hsource ⟨a,rest,he⟩]
    exact h

theorem Ordered.least {entry : α ×ₗ ℕ} {heap : List (α ×ₗ ℕ)} {cursors : List (List α)}
    (h : Ordered (entry::heap) cursors) (hready : Ready cursors.length (entry::heap) cursors)
    {a : α} (ha : a ∈ elements (entry::heap) cursors) : (ofLex entry).1≤a := by
  have hentries : ∀ other ∈ entry::heap, (ofLex entry).1≤(ofLex other).1 := by
    intro other hother
    cases List.mem_cons.mp hother with
    | inl he => exact he ▸ le_rfl
    | inr hrest =>
      have hle := (List.pairwise_cons.mp h.entries).1 other hrest
      cases (Prod.Lex.le_iff).mp hle with
      | inl hlt => exact hlt.le
      | inr heq => exact heq.1.le
  cases List.mem_append.mp ha with
  | inl hheap =>
    obtain ⟨other,hother,rfl⟩ := List.mem_map.mp hheap
    exact hentries other hother
  | inr hbehind =>
    obtain ⟨cursor,hcursor,ha⟩ := List.mem_flatten.mp hbehind
    obtain ⟨source,hlt,hget⟩ := List.getElem_of_mem hcursor
    have hget : cursors[source]?=some cursor := hget ▸ List.getElem?_eq_getElem hlt
    cases cursor with
    | nil => exact absurd ha List.not_mem_nil
    | cons b rest =>
      obtain ⟨other,hother,hown⟩ := hready source hlt b rest hget
      exact (hentries other hother).trans (h.below other hother _ (hown ▸ hget) a ha)

theorem length_cursors (heap : List (α ×ₗ ℕ)) (cursors : List (List α)) (source : ℕ) :
    (pushNext heap cursors source).2.length=cursors.length := by
  unfold pushNext
  split
  · exact List.length_set
  · rfl

variable {cursors : List (List α)}

theorem Ordered.popped {entry : α ×ₗ ℕ} {heap : List (α ×ₗ ℕ)} (h : Ordered (entry::heap) cursors) :
    Ordered heap cursors :=
  ⟨(List.pairwise_cons.mp h.entries).2,h.sources,
    fun other hother => h.below other (List.mem_cons_of_mem _ hother)⟩

theorem pops_ordered (heap : List (α ×ₗ ℕ)) (cursors : List (List α))
    (h : Ordered heap cursors) (hready : Ready cursors.length heap cursors) :
    (pops heap cursors).Perm (elements heap cursors) ∧ (pops heap cursors).Pairwise (·≤·) := by
  induction heap, cursors using pops.induct with
  | case1 cursors =>
    have hnone : cursors.flatten=[] := by
      rw [List.flatten_eq_nil_iff]
      intro cursor hcursor
      obtain ⟨source,hlt,hget⟩ := List.getElem_of_mem hcursor
      cases cursor with
      | nil => rfl
      | cons a rest =>
        obtain ⟨entry,hentry,-⟩ :=
          hready source hlt a rest (hget ▸ List.getElem?_eq_getElem hlt)
        exact absurd hentry List.not_mem_nil
    rw [pops,elements,hnone]
    exact ⟨List.Perm.refl _,List.Pairwise.nil⟩
  | case2 entry heap cursors ih =>
    have hordered := h.popped.pushNext (ofLex entry).2
    have hnext : Ready (pushNext heap cursors (ofLex entry).2).2.length
        (pushNext heap cursors (ofLex entry).2).1 (pushNext heap cursors (ofLex entry).2).2 := by
      rw [length_cursors]
      refine hready.pushNext (fun other hother => ?_) fun other hother => .inr hother
      cases List.mem_cons.mp hother with
      | inl he => exact .inl (congrArg (fun entry => (ofLex entry).2) he)
      | inr hrest => exact .inr hrest
    obtain ⟨hperm,hsorted⟩ := ih hordered hnext
    have hall := hperm.trans (elements_pushNext heap cursors (ofLex entry).2)
    rw [pops]
    refine ⟨hall.cons _,List.pairwise_cons.mpr ⟨fun a ha => ?_,hsorted⟩⟩
    exact h.least hready (List.mem_cons_of_mem _ (hall.mem_iff.mp ha))

theorem loadFirst_ready (h : ∀ cursor ∈ cursors, cursor.Pairwise (·≤·)) (bound : ℕ) :
    Ordered (loadFirst cursors bound).1 (loadFirst cursors bound).2 ∧
      Ready bound (loadFirst cursors bound).1 (loadFirst cursors bound).2 ∧
      (elements (loadFirst cursors bound).1 (loadFirst cursors bound).2).Perm cursors.flatten ∧
      (loadFirst cursors bound).2.length=cursors.length := by
  induction bound with
  | zero =>
    refine ⟨⟨List.Pairwise.nil,h,fun entry hentry => absurd hentry List.not_mem_nil⟩,?_,?_,rfl⟩
    · exact fun source hsource => absurd hsource (Nat.not_lt_zero _)
    · exact List.Perm.refl _
  | succ bound ih =>
    obtain ⟨hordered,hready,hperm,hlength⟩ := ih
    refine ⟨hordered.pushNext bound,?_,(elements_pushNext _ _ bound).trans hperm,?_⟩
    · exact hready.pushNext (fun entry hentry => .inr hentry) fun other hother => by omega
    · exact (length_cursors _ _ bound).trans hlength

/-- The elements of ordered cursors are popped in order. -/
theorem pops_load (h : ∀ cursor ∈ cursors, cursor.Pairwise (·≤·)) :
    (pops (load cursors).1 (load cursors).2).Perm cursors.flatten ∧
      (pops (load cursors).1 (load cursors).2).Pairwise (·≤·) := by
  obtain ⟨hordered,hready,hperm,hlength⟩ := loadFirst_ready h cursors.length
  have hready : Ready (load cursors).2.length (load cursors).1 (load cursors).2 := by
    change Ready (loadFirst cursors cursors.length).2.length _ _
    rw [hlength]
    exact hready
  obtain ⟨hpops,hsorted⟩ := pops_ordered _ _ hordered hready
  exact ⟨hpops.trans hperm,hsorted⟩

def changes (previous : Option α) : List α → ℕ
  | [] => 0
  | a::rest => (if previous=some a then 0 else 1)+changes (some a) rest

theorem changes_ordered {values : List α} {previous : Option α} (h : values.Pairwise (·≤·))
    (hprevious : ∀ p ∈ previous, ∀ a ∈ values, p≤a) :
    changes previous values=(values.toFinset.filter fun a => previous≠some a).card := by
  induction values generalizing previous with
  | nil => rfl
  | cons a rest ih =>
    rw [List.pairwise_cons] at h
    have hnext := @ih (some a) h.2 fun p hp => Option.some.inj hp ▸ h.1
    have hothers : (rest.toFinset.filter fun b => some a≠some b)=rest.toFinset.erase a := by
      ext b
      simp only [Finset.mem_filter,Finset.mem_erase,ne_eq,Option.some.injEq]
      exact ⟨fun hb => ⟨fun he => hb.2 he.symm,hb.1⟩,fun hb => ⟨hb.2,fun he => hb.1 he.symm⟩⟩
    rw [changes,hnext,hothers,List.toFinset_cons]
    by_cases he : previous=some a
    · rw [if_pos he,Nat.zero_add]
      congr 1
      ext b
      simp only [he,Finset.mem_filter,Finset.mem_erase,Finset.mem_insert,ne_eq,Option.some.injEq]
      constructor
      · exact fun hb => ⟨.inr hb.2,fun heq => hb.1 heq.symm⟩
      · exact fun hb => ⟨fun heq => hb.2 heq.symm,hb.1.resolve_left fun heq => hb.2 heq.symm⟩
    · rw [if_neg he]
      have hnone : ((insert a rest.toFinset).filter fun b => previous≠some b)=
          insert a rest.toFinset := by
        refine Finset.filter_true_of_mem fun b hb hp => he ?_
        have hle := hprevious b hp a List.mem_cons_self
        cases Finset.mem_insert.mp hb with
        | inl heq => exact heq ▸ hp
        | inr hmem =>
          have hge := h.1 b (List.mem_toFinset.mp hmem)
          exact le_antisymm hge hle ▸ hp
      rw [hnone,←Finset.insert_erase (Finset.mem_insert_self a rest.toFinset),
        Finset.card_insert_of_notMem (Finset.notMem_erase _ _),Finset.erase_insert_eq_erase,
        Nat.add_comm]

end Merge

section Unions

variable {α : Type} [DecidableEq α]

def unionOf (sets : List (Finset α)) : Finset α := sets.foldr (·∪·) ∅

theorem mem_unionOf {sets : List (Finset α)} {a : α} : a ∈ unionOf sets ↔ ∃ s ∈ sets, a ∈ s := by
  induction sets with
  | nil => simp [unionOf]
  | cons s sets ih =>
    change a ∈ s∪unionOf sets ↔ _
    rw [Finset.mem_union,ih]
    simp

theorem card_unionOf (sets : List (Finset α)) :
    (unionOf sets).card≤(sets.map Finset.card).sum ∧
      ((unionOf sets).card=(sets.map Finset.card).sum ↔ sets.Pairwise Disjoint) := by
  induction sets with
  | nil => exact ⟨le_rfl,fun _ => List.Pairwise.nil,fun _ => rfl⟩
  | cons s sets ih =>
    obtain ⟨hle,hiff⟩ := ih
    have hshared := Finset.card_union_add_card_inter s (unionOf sets)
    have hdisjoint : (s∩unionOf sets).card=0 ↔ ∀ other ∈ sets, Disjoint s other := by
      rw [Finset.card_eq_zero,←Finset.disjoint_iff_inter_eq_empty,Finset.disjoint_left]
      constructor
      · intro hnone other hother
        exact Finset.disjoint_left.mpr fun a ha hb => hnone ha (mem_unionOf.mpr ⟨other,hother,hb⟩)
      · intro hall a ha hb
        obtain ⟨other,hother,hb⟩ := mem_unionOf.mp hb
        exact Finset.disjoint_left.mp (hall other hother) ha hb
    change (s∪unionOf sets).card≤((s::sets).map Finset.card).sum ∧
      ((s∪unionOf sets).card=((s::sets).map Finset.card).sum ↔ _)
    rw [List.map_cons,List.sum_cons,List.pairwise_cons,←hdisjoint,←hiff]
    omega

end Unions

end Librairii.OrderedMerges
