import Mathlib

/-!
# Segments of a decomposed text

A text is decomposed character by character into a segment of 32 slots, where runes are
ordered by their combining classes. A segment is written out before every starter. When
more than thirty nonstarters would follow one another a grapheme joiner is put between
them, and this alone keeps every segment within its slots.
-/

namespace Librairii.SegmentNormalization

/-- Why a normalization stops; `overflow` is an addition that exceeds a byte. -/
inductive NormalizeError where
  | inputLimit
  | frozenData
  | overflow
  deriving DecidableEq

/-- The bounds of the buffers in bytes. -/
structure BufferBounds where
  folded : ℕ
  normalized : ℕ
  runtime : Bool

def BufferBounds.outputLimitError (bounds : BufferBounds) : NormalizeError :=
  if bounds.runtime then .inputLimit else .frozenData

/-- The frozen properties of a character. -/
structure Properties where
  ccc : ℕ
  /-- Nonstarters at the start of its decomposition. -/
  leading : ℕ
  /-- Nonstarters at the end of its decomposition. -/
  trailing : ℕ
  /-- It may combine with what comes before it. -/
  backward : Bool
  decomposition : Option (List Char)

/-- The most nonstarters in a row. -/
def nonStarters : ℕ := 30

/-- The grapheme joiner. -/
def cgj : Char := '\u034f'

/-- A character in a slot, with its combining class. -/
structure Rune where
  character : Char
  ccc : ℕ
  deriving DecidableEq

/-- The slot of a rune: past the runes before it of greater class. -/
def position (runes : List Rune) (ccc : ℕ) : ℕ → ℕ
  | 0 => 0
  | p+1 => if runes[p]?.any (ccc<·.ccc) then position runes ccc p else p+1

/-- Put a rune into its slot and move the later ones on. -/
def place (runes : List Rune) (rune : Rune) : List Rune :=
  let p := if rune.ccc≠0 then position runes rune.ccc runes.length else runes.length
  runes.take p++rune::runes.drop p

theorem length_place (runes : List Rune) (rune : Rune) :
    (place runes rune).length=runes.length+1 := by
  simp only [place,List.length_append,List.length_cons,List.length_take,List.length_drop]
  omega

/-- A segment of 32 slots. -/
structure Segment where
  runes : List Rune
  bounded : runes.length≤32

def Segment.new : Segment := ⟨[],Nat.zero_le _⟩

def Segment.insert (segment : Segment) (rune : Rune) : Except NormalizeError Segment :=
  if h : segment.runes.length=32 then .error .frozenData
  else .ok ⟨place segment.runes rune,by
    rw [length_place]
    have := segment.bounded
    omega⟩

/-- The bytes of a text. -/
def byteSize (text : List Char) : ℕ := (text.map (·.utf8Size)).sum

/-- What a normalization has written, its segment and its nonstarters in a row. -/
structure State where
  output : List Char
  segment : Segment
  nonstarters : ℕ

/-- Write the segment out and bound the output. -/
def flush (bounds : BufferBounds) (s : State) : Except NormalizeError State :=
  let output := s.output++s.segment.runes.map (·.character)
  if bounds.normalized<byteSize output then .error bounds.outputLimitError
  else .ok { s with output := output, segment := .new }

/-- A decomposed rune, and whether the segment is written out before it. -/
structure Generated where
  rune : Rune
  boundary : Bool

section Code

variable (table : Char → Properties) (bounds : BufferBounds)

/-- The runes of a character: the parts of a syllable, its decomposition or itself. -/
def generated (character : Char) : List Generated :=
  let rune := character.toNat
  if 0xac00≤rune ∧ rune<0xd7a4 then
    let syllable := rune-0xac00
    let parts := [0x1100+syllable/588,0x1161+syllable%588/28]++
      if syllable%28≠0 then [0x11a7+syllable%28] else []
    parts.map fun code => ⟨⟨Char.ofNat code,0⟩,false⟩
  else match (table character).decomposition with
    | some decomposition => decomposition.map fun decomposed =>
      let next := table decomposed
      ⟨⟨decomposed,next.ccc⟩,next.ccc=0 && !next.backward⟩
    | none => [⟨⟨character,(table character).ccc⟩,false⟩]

def insertRunes : List Generated → State → Except NormalizeError State
  | [],s => .ok s
  | g::rest,s => do
    let s ← if g.boundary then flush bounds s else .ok s
    let segment ← s.segment.insert g.rune
    insertRunes rest { s with segment := segment }

/-- An addition of bytes. -/
def addByte (a b : ℕ) : Except NormalizeError ℕ :=
  if a+b<256 then .ok (a+b) else .error .overflow

/-- Write the segment and a joiner out when there would be too many nonstarters. -/
def join (s : State) (character : Char) : Except NormalizeError State := do
  let total ← addByte s.nonstarters (table character).leading
  if nonStarters<total then
    let s ← flush bounds s
    .ok { s with output := s.output++[cgj], nonstarters := 0 }
  else .ok s

/-- Count the nonstarters, and write the segment out before a starter. -/
def count (s : State) (character : Char) : Except NormalizeError State := do
  let p := table character
  let total ← addByte s.nonstarters p.leading
  if p.leading=0 then flush bounds { s with nonstarters := p.trailing }
  else .ok { s with nonstarters := total }

def step (s : State) (character : Char) : Except NormalizeError State := do
  let s ← join table bounds s character
  let s ← count table bounds s character
  insertRunes bounds (generated table character) s

def nfkdWithBounds (value : List Char) : Except NormalizeError (List Char) :=
  if bounds.folded<byteSize value then .error .inputLimit
  else do
    let s ← value.foldlM (step table bounds) ⟨[],.new,0⟩
    let s ← flush bounds s
    .ok s.output

end Code

/-- What happens to the segment. -/
inductive Event where
  | flush
  | joiner
  | rune (rune : Rune)

def Event.characters : Event → List Char
  | .flush => []
  | .joiner => [cgj]
  | .rune x => [x.character]

/-- The order of runes inserted one after the other. -/
def reordered (runes : List Rune) : List Rune := runes.foldl place []

def text (runes : List Rune) : List Char := (reordered runes).map (·.character)

/-- The output and the inserted runes after an event. -/
def advance : List Char×List Rune → Event → List Char×List Rune
  | (output,runes),.flush => (output++text runes,[])
  | (output,runes),.joiner => (output++text runes++[cgj],[])
  | (output,runes),.rune rune => (output,runes++[rune])

/-- The output of events. -/
def written (events : List Event) : List Char :=
  let last := events.foldl advance ([],[])
  last.1++text last.2

def Generated.events (g : Generated) : List Event :=
  if g.boundary then [.flush,.rune g.rune] else [.rune g.rune]

section Events

variable (table : Char → Properties)

/-- The events of a character besides a joiner. -/
def body (character : Char) : List Event :=
  (if (table character).leading=0 then [.flush] else [])++
    (generated table character).flatMap (·.events)

def decomposed (value : List Char) : List Char :=
  value.flatMap fun c => (generated table c).map (·.rune.character)

/-- The nonstarters in a row after a character, of so many before it. -/
def next (n : ℕ) (character : Char) : ℕ :=
  if (table character).leading=0 then (table character).trailing else n+(table character).leading

/-- The nonstarters at the end of a text. -/
def run (characters : List Char) : ℕ := characters.foldl (next table) 0

/-- The joiner before a character after nonstarters. -/
def opening (n : ℕ) (character : Char) : List Event :=
  if nonStarters<next table n character then [.joiner] else []

/-- The nonstarters in a row before a character, of so many before a joiner. -/
def carried (n : ℕ) (character : Char) : ℕ :=
  if nonStarters<next table n character then 0 else n

/-- The events of a text after nonstarters. -/
def eventsFrom : ℕ → List Char → List Event
  | _,[] => []
  | n,c::rest => opening table n c++body table c++eventsFrom (next table (carried table n c) c) rest

/-- The events of texts with joiners between them. -/
def separate (first : List Char) (rest : List (List Char)) : List Event :=
  first.flatMap (body table)++rest.flatMap fun chunk => .joiner::chunk.flatMap (body table)

/-- Texts between joiners: nonstarters in a row stay within the limit in each of them, and
exceed it with the first character of the next. -/
structure Joined (chunks : List (List Char)) : Prop where
  within : ∀ chunk ∈ chunks, ∀ p, p <+: chunk → run table p ≤ nonStarters
  exceed : chunks.IsChain fun a b => ∃ c, b.head? =some c ∧ nonStarters<run table (a++[c])

/-- The runes since the last boundary, when there were some before. -/
def stretch : List Generated → ℕ → ℕ
  | [],k => k
  | g::rest,k => stretch rest (if g.boundary then 1 else k+1)

/-- The characters decompose into as many runes as their properties state: the counts are two
bits, a starter ends in a starter and its trailing nonstarters, and a nonstarter is no more
than its leading ones. -/
structure Stated : Prop where
  counts : ∀ c, (table c).leading≤3 ∧ (table c).trailing≤3
  few : ∀ c, (generated table c).length≤32
  starter : ∀ c, (table c).leading=0 → stretch (generated table c) 0≤(table c).trailing+1
  nonstarter : ∀ c, (table c).leading≠0 → (generated table c).length≤(table c).leading

end Events

section Placing

variable {runes : List Rune} {rune : Rune}

theorem position_split (ccc : ℕ) : ∀ p, p ≤ runes.length → position runes ccc p ≤ p ∧
    (∀ x ∈ (runes.take p).drop (position runes ccc p), ccc<x.ccc) ∧
    ∀ x, (runes.take (position runes ccc p)).getLast? =some x → x.ccc≤ccc := by
  intro p
  induction p with
  | zero =>
    intro _
    simp [position]
  | succ p ih =>
    intro hp
    obtain ⟨hle,hgreater,hlast⟩ := ih (by omega)
    have htake : runes.take (p+1)=runes.take p++[runes[p]] := by simp
    rw [position]
    by_cases h : (runes[p]?.any (ccc<·.ccc))=true
    · rw [if_pos h]
      have hx : ccc<runes[p].ccc := by simpa [List.getElem?_eq_getElem (l:=runes) hp] using h
      refine ⟨by omega,?_,hlast⟩
      rw [htake,List.drop_append_of_le_length (by rw [List.length_take]; omega)]
      simp only [List.mem_append,List.mem_singleton]
      rintro x (hm | rfl)
      · exact hgreater x hm
      · exact hx
    · rw [if_neg h]
      have hx : runes[p].ccc≤ccc := by simpa [List.getElem?_eq_getElem (l:=runes) hp] using h
      refine ⟨le_refl _,by simp,?_⟩
      rw [htake,List.getLast?_concat]
      rintro x ⟨⟩
      exact hx

/-- A rune is put past greater nonstarters only, and not past a starter. -/
theorem place_split (runes : List Rune) (rune : Rune) : ∃ front back, runes=front++back ∧
    place runes rune=front++rune::back ∧ (∀ x ∈ back, 0<rune.ccc ∧ rune.ccc<x.ccc) ∧
    (rune.ccc≠0 → ∀ x, front.getLast? =some x → x.ccc≤rune.ccc) := by
  unfold place
  by_cases h : rune.ccc≠0
  · obtain ⟨-,hgreater,hlast⟩ := @position_split runes rune.ccc runes.length (le_refl _)
    rw [List.take_length] at hgreater
    refine ⟨_,_,(List.take_append_drop (position runes rune.ccc runes.length) runes).symm,?_,
      fun x hx => ⟨by omega,hgreater x hx⟩,fun _ => hlast⟩
    simp only [if_pos h]
  · refine ⟨runes,[],(List.append_nil _).symm,?_,by simp,fun hne => absurd hne h⟩
    simp only [if_neg h,List.take_length,List.drop_length]

/-- Runes in the order of another list: the same ones, the starters in their places, those of
one class in their order among the starters, and classes that do not decrease between them. -/
structure Ordered (runes ordered : List Rune) : Prop where
  perm : ordered.Perm runes
  starters : ordered.map (fun x => decide (x.ccc=0))=runes.map (fun x => decide (x.ccc=0))
  classes : ∀ k, ordered.filter (fun x => x.ccc=0 || x.ccc=k)=
    runes.filter (fun x => x.ccc=0 || x.ccc=k)
  increasing : ordered.IsChain fun a b => b.ccc=0 ∨ a.ccc≤b.ccc

theorem ordered_reordered (runes : List Rune) : Ordered runes (reordered runes) := by
  induction runes using List.reverseRecOn with
  | nil => exact ⟨.refl _,rfl,fun _ => rfl,.nil⟩
  | append_singleton runes rune ih =>
    obtain ⟨hperm,hstarters,hclasses,hincreasing⟩ := ih
    have hfold : reordered (runes++[rune])=place (reordered runes) rune := by
      simp [reordered]
    obtain ⟨front,back,hsplit,hplace,hback,hfront⟩ := place_split (reordered runes) rune
    rw [hsplit] at hperm hstarters hclasses hincreasing
    rw [hfold,hplace]
    have hnone : 0<rune.ccc ∨ back=[] := by
      cases back with
      | nil => exact .inr rfl
      | cons x back => exact .inl (hback x List.mem_cons_self).1
    constructor
    · have hmove : (front++rune::back).Perm ((front++back)++[rune]) := by
        rw [List.append_assoc]
        exact (List.perm_append_singleton rune back).symm.append_left front
      exact hmove.trans (hperm.append_right _)
    · rw [@List.map_append _ _ _ runes,←hstarters]
      obtain hpositive | rfl := hnone
      · have hfalse : back.map (fun x => decide (x.ccc=0))=List.replicate back.length false := by
          refine List.map_eq_replicate_iff.mpr fun x hx => decide_eq_false ?_
          have := hback x hx
          omega
        have hrune : decide (rune.ccc=0)=false := decide_eq_false (by omega)
        simp only [List.map_append,List.map_cons,List.map_nil,hfalse,hrune,List.append_assoc,
          List.append_cancel_left_eq]
        rw [←List.replicate_succ,List.replicate_succ']
      · simp
    · intro k
      rw [List.filter_append runes,←hclasses]
      by_cases hkept : (rune.ccc=0 || rune.ccc=k)=true
      · have hempty : back.filter (fun x => x.ccc=0 || x.ccc=k)=[] := by
          rw [List.filter_eq_nil_iff]
          intro x hx
          have := hback x hx
          simp only [Bool.or_eq_true,decide_eq_true_eq] at hkept ⊢
          omega
        simp [hempty,hkept]
      · simp [List.filter_cons_of_neg (p:=fun x : Rune => x.ccc=0 || x.ccc=k) hkept]
    · rw [List.isChain_append] at hincreasing ⊢
      obtain ⟨hchain,hchain',hmeet⟩ := hincreasing
      refine ⟨hchain,?_,?_⟩
      · cases back with
        | nil => exact .singleton _
        | cons x back => exact .cons_cons (.inr (hback x List.mem_cons_self).2.le) hchain'
      · intro x hx y hy
        cases hy
        by_cases hzero : rune.ccc=0
        · exact .inl hzero
        · exact .inr (hfront hzero x hx)

end Placing

section Following

variable {table : Char → Properties} {bounds : BufferBounds}

/-- A state that holds an output and the inserted runes in order. -/
structure Follows (s : State) (a : List Char×List Rune) (n : ℕ) : Prop where
  output : s.output=a.1
  runes : s.segment.runes=reordered a.2
  nonstarters : s.nonstarters=n

/-- A state that follows, unless the output is over its bound. -/
def Reaches (bounds : BufferBounds) (r : Except NormalizeError State)
    (a : List Char×List Rune) (n : ℕ) : Prop :=
  (∃ s, r=.ok s ∧ Follows s a n) ∨
    (r=.error bounds.outputLimitError ∧ bounds.normalized<byteSize a.1)

theorem length_reordered (runes : List Rune) : (reordered runes).length=runes.length :=
  (ordered_reordered runes).perm.length_eq

theorem byteSize_append (xs ys : List Char) : byteSize (xs++ys)=byteSize xs+byteSize ys := by
  simp [byteSize]

theorem advance_grows (events : List Event) (a : List Char×List Rune) :
    byteSize a.1 ≤ byteSize (events.foldl advance a).1 := by
  induction events generalizing a with
  | nil => exact le_refl _
  | cons event events ih =>
    refine le_trans ?_ (ih (advance a event))
    cases event with
    | rune rune => exact le_refl _
    | _ =>
      simp only [advance,byteSize_append]
      omega

/-- What follows one result after another. -/
theorem reaches_bind {r : Except NormalizeError State} {a : List Char×List Rune} {n n' : ℕ}
    {f : State → Except NormalizeError State} (events : List Event) (h : Reaches bounds r a n)
    (hf : ∀ s, Follows s a n → Reaches bounds (f s) (events.foldl advance a) n') :
    Reaches bounds (r >>= f) (events.foldl advance a) n' := by
  obtain ⟨s,rfl,hs⟩ | ⟨rfl,hlimit⟩ := h
  · exact hf s hs
  · exact .inr ⟨rfl,lt_of_lt_of_le hlimit (advance_grows events a)⟩

variable {s : State} {a : List Char×List Rune} {n : ℕ}

theorem flush_reaches (h : Follows s a n) :
    Reaches bounds (flush bounds s) (advance a .flush) n := by
  obtain ⟨output,runes,nonstarters⟩ := h
  unfold flush
  simp only [runes,output]
  by_cases hlimit : bounds.normalized<byteSize (a.1++text a.2)
  · exact .inr ⟨if_pos hlimit,hlimit⟩
  · exact .inl ⟨_,if_neg hlimit,⟨rfl,rfl,nonstarters⟩⟩

theorem insert_follows (rune : Rune) (h : Follows s a n) (hroom : a.2.length<32) :
    ∃ segment, s.segment.insert rune=.ok segment ∧
      Follows { s with segment := segment } (advance a (.rune rune)) n := by
  obtain ⟨output,runes,nonstarters⟩ := h
  have hlength : s.segment.runes.length≠32 := by
    rw [runes,length_reordered]
    omega
  unfold Segment.insert
  rw [dif_neg hlength]
  refine ⟨_,rfl,output,?_,nonstarters⟩
  simp [advance,reordered,runes]

theorem insertRunes_reaches (gs : List Generated) (h : Follows s a n)
    (hroom : a.2.length+gs.length≤32) : Reaches bounds (insertRunes bounds gs s)
      ((gs.flatMap (·.events)).foldl advance a) n := by
  induction gs generalizing s a with
  | nil => exact .inl ⟨s,rfl,h⟩
  | cons g gs ih =>
    rw [List.length_cons] at hroom
    have hinsert : ∀ {s : State} {a : List Char×List Rune}, Follows s a n →
        a.2.length+gs.length+1≤32 → Reaches bounds (do
          let segment ← s.segment.insert g.rune
          insertRunes bounds gs { s with segment := segment })
          ((gs.flatMap (·.events)).foldl advance (advance a (.rune g.rune))) n := by
      intro s a hs hlength
      obtain ⟨segment,hok,hsegment⟩ := insert_follows g.rune hs (by omega)
      rw [hok]
      refine ih hsegment ?_
      simp only [advance,List.length_append,List.length_singleton]
      omega
    rw [List.flatMap_cons,List.foldl_append,insertRunes]
    by_cases hboundary : g.boundary=true
    · rw [if_pos hboundary,Generated.events,if_pos hboundary]
      refine reaches_bind (.rune g.rune::gs.flatMap (·.events)) (flush_reaches h) fun s hs => ?_
      exact hinsert hs (by simp only [advance,List.length_nil]; omega)
    · rw [if_neg hboundary,Generated.events,if_neg hboundary]
      exact hinsert h (by omega)

theorem join_reaches (stated : Stated table) (c : Char) (h : Follows s a n) (hn : n≤30) :
    Reaches bounds (join table bounds s c) ((opening table n c).foldl advance a)
      (carried table n c) := by
  have hleading := (stated.counts c).1
  have htrailing := (stated.counts c).2
  have hadd : addByte s.nonstarters (table c).leading=.ok (n+(table c).leading) := by
    rw [h.nonstarters,addByte,if_pos (by omega)]
  have hjoin : nonStarters<n+(table c).leading ↔ nonStarters<next table n c := by
    unfold next nonStarters
    split <;> omega
  unfold join opening carried
  rw [hadd]
  by_cases hover : nonStarters<next table n c
  · rw [if_pos hover,if_pos hover]
    change Reaches bounds (if _ then _ else _) _ _
    rw [if_pos (hjoin.mpr hover)]
    obtain ⟨s,hs,hfollows⟩ | ⟨hs,hlimit⟩ := @flush_reaches bounds s a n h
    · rw [hs]
      exact .inl ⟨_,rfl,congrArg (·++[cgj]) hfollows.output,hfollows.runes,rfl⟩
    · rw [hs]
      refine .inr ⟨rfl,lt_of_lt_of_le hlimit ?_⟩
      simp [advance,byteSize]
  · rw [if_neg hover,if_neg hover]
    change Reaches bounds (if _ then _ else _) _ _
    rw [if_neg (hover ∘ hjoin.mp)]
    exact .inl ⟨s,rfl,h⟩

theorem count_reaches (stated : Stated table) (c : Char) (h : Follows s a n) (hn : n≤30) :
    Reaches bounds (count table bounds s c)
      ((if (table c).leading=0 then [Event.flush] else []).foldl advance a) (next table n c) := by
  have hleading := (stated.counts c).1
  have hadd : addByte s.nonstarters (table c).leading=.ok (n+(table c).leading) := by
    rw [h.nonstarters,addByte,if_pos (by omega)]
  obtain ⟨output,runes,nonstarters⟩ := h
  unfold count next
  dsimp only
  rw [hadd]
  change Reaches bounds (if _ then _ else _) _ _
  by_cases hstarter : (table c).leading=0
  · simp only [if_pos hstarter]
    exact flush_reaches ⟨output,runes,rfl⟩
  · simp only [if_neg hstarter]
    exact .inl ⟨_,rfl,output,runes,rfl⟩

theorem length_runes (gs : List Generated) (a : List Char×List Rune) :
    ((gs.flatMap (·.events)).foldl advance a).2.length=stretch gs a.2.length := by
  induction gs generalizing a with
  | nil => rfl
  | cons g gs ih =>
    rw [List.flatMap_cons,List.foldl_append,ih,stretch,Generated.events]
    cases g.boundary <;> simp [advance]

theorem stretch_le (gs : List Generated) (k : ℕ) : stretch gs k ≤ k+gs.length := by
  induction gs generalizing k with
  | nil => exact le_refl _
  | cons g gs ih =>
    rw [stretch,List.length_cons]
    refine le_trans (ih _) ?_
    split <;> omega

/-- A segment holds one rune more than the nonstarters in a row at most. -/
theorem step_reaches (stated : Stated table) (c : Char) (h : Follows s a n) (hn : n≤30)
    (hlength : a.2.length≤n+1) : let n' := next table (carried table n c) c
    let events := opening table n c++body table c
    Reaches bounds (step table bounds s c) (events.foldl advance a) n' ∧ n'≤30 ∧
      (events.foldl advance a).2.length≤n'+1 := by
  intro n' events
  have hleading := (stated.counts c).1
  have htrailing := (stated.counts c).2
  have hcarried : carried table n c≤30 ∧ ((opening table n c).foldl advance a).2.length≤
      carried table n c+1 ∧ n'≤30 := by
    unfold n' carried opening
    split
    · refine ⟨by omega,Nat.zero_le _,?_⟩
      unfold next
      split <;> omega
    · exact ⟨hn,hlength,by unfold nonStarters at *; omega⟩
  obtain ⟨hn',hopened,hnext⟩ := hcarried
  let b := (if (table c).leading=0 then [Event.flush] else []).foldl advance
    ((opening table n c).foldl advance a)
  have hroom : b.2.length+(generated table c).length≤32 ∧
      stretch (generated table c) b.2.length≤n'+1 := by
    unfold b n' next at *
    by_cases hstarter : (table c).leading=0
    · simp only [if_pos hstarter] at *
      have hfew := stated.few c
      have hstretch := stated.starter c hstarter
      exact ⟨by simpa [advance] using hfew,hstretch⟩
    · simp only [if_neg hstarter] at *
      have hfew := stated.nonstarter c hstarter
      have hstretch := stretch_le (generated table c)
        ((opening table n c).foldl advance a).2.length
      exact ⟨by simp only [List.foldl_nil]; omega,by simp only [List.foldl_nil]; omega⟩
  have hevents : events.foldl advance a=
      ((generated table c).flatMap (·.events)).foldl advance b := by
    unfold events body b
    simp only [List.foldl_append]
  refine ⟨?_,hnext,?_⟩
  · unfold step
    have hsplit : events=opening table n c++body table c := rfl
    rw [hsplit,List.foldl_append]
    refine reaches_bind (body table c) (join_reaches stated c h hn) fun s hs => ?_
    unfold body
    rw [List.foldl_append]
    refine reaches_bind _ (count_reaches stated c hs hn') fun s hs => ?_
    exact insertRunes_reaches (generated table c) hs hroom.1
  · rw [hevents,length_runes]
    exact hroom.2

theorem fold_reaches (stated : Stated table) (value : List Char) (h : Follows s a n) (hn : n≤30)
    (hlength : a.2.length≤n+1) : ∃ n', Reaches bounds (value.foldlM (step table bounds) s)
      ((eventsFrom table n value).foldl advance a) n' := by
  induction value generalizing s a n with
  | nil => exact ⟨n,.inl ⟨s,rfl,h⟩⟩
  | cons c rest ih =>
    obtain ⟨hstep,hn',hlength'⟩ := @step_reaches table bounds s a n stated c h hn hlength
    rw [eventsFrom,List.foldlM_cons,List.foldl_append]
    obtain ⟨s,hs,hfollows⟩ | ⟨hs,hlimit⟩ := hstep
    · rw [hs]
      exact ih hfollows hn' hlength'
    · rw [hs]
      exact ⟨0,.inr ⟨rfl,lt_of_lt_of_le hlimit (advance_grows _ _)⟩⟩

theorem nfkd_written (stated : Stated table) (bounds : BufferBounds) (value : List Char) :
    nfkdWithBounds table bounds value=
      if bounds.folded<byteSize value then .error .inputLimit
      else if bounds.normalized<byteSize (written (eventsFrom table 0 value)) then
        .error bounds.outputLimitError
      else .ok (written (eventsFrom table 0 value)) := by
  have hempty : Follows ⟨[],.new,0⟩ ([],[]) 0 := ⟨rfl,rfl,rfl⟩
  obtain ⟨n,hfold⟩ := @fold_reaches table bounds _ _ 0 stated value hempty (by omega) (by simp)
  unfold nfkdWithBounds written
  by_cases hfolded : bounds.folded<byteSize value
  · rw [if_pos hfolded,if_pos hfolded]
  · rw [if_neg hfolded,if_neg hfolded]
    obtain ⟨s,hs,output,runes,-⟩ | ⟨hs,hlimit⟩ := hfold
    · rw [hs]
      change (flush bounds s >>= fun s => .ok s.output)=_
      unfold flush
      simp only [output,runes]
      by_cases hlimit : bounds.normalized<byteSize (((eventsFrom table 0 value).foldl advance
          ([],[])).1++text ((eventsFrom table 0 value).foldl advance ([],[])).2)
      · rw [if_pos hlimit]
        exact congrArg (· >>= _) (if_pos hlimit)
      · rw [if_neg hlimit]
        exact congrArg (· >>= _) (if_neg hlimit)
    · rw [hs]
      have hlast : bounds.normalized<byteSize (((eventsFrom table 0 value).foldl advance
          ([],[])).1++text ((eventsFrom table 0 value).foldl advance ([],[])).2) := by
        rw [byteSize_append]
        omega
      exact (if_pos hlast).symm

theorem text_concat (runes : List Rune) (rune : Rune) :
    (text (runes++[rune])).Perm (text runes++[rune.character]) := by
  have hleft := (ordered_reordered (runes++[rune])).perm.map (·.character)
  have hright := (ordered_reordered runes).perm.map (·.character)
  rw [List.map_append] at hleft
  exact hleft.trans (hright.symm.append_right _)

/-- Events write every character of theirs once. -/
theorem written_perm (events : List Event) (a : List Char×List Rune) :
    ((events.foldl advance a).1++text (events.foldl advance a).2).Perm
      (a.1++text a.2++events.flatMap (·.characters)) := by
  induction events generalizing a with
  | nil => simp
  | cons event events ih =>
    refine (ih (advance a event)).trans ?_
    rw [List.flatMap_cons,←List.append_assoc]
    refine List.Perm.append_right _ ?_
    cases event with
    | rune rune =>
      rw [advance,Event.characters,List.append_assoc]
      exact (text_concat a.2 rune).append_left a.1
    | _ => simp [advance,Event.characters,text,reordered]

theorem body_characters (value : List Char) :
    (value.flatMap (body table)).flatMap (·.characters)=decomposed table value := by
  rw [List.flatMap_assoc,decomposed]
  refine List.flatMap_congr fun c _ => ?_
  have hevents : ∀ gs : List Generated, (gs.flatMap (·.events)).flatMap (·.characters)=
      gs.map (·.rune.character) := by
    intro gs
    induction gs with
    | nil => rfl
    | cons g gs ih =>
      rw [List.flatMap_cons,List.flatMap_append,ih,Generated.events]
      cases g.boundary <;> rfl
  rw [body,List.flatMap_append,hevents]
  split <;> rfl

theorem separate_characters (first : List Char) (rest : List (List Char)) :
    ((separate table first rest).flatMap (·.characters)).Perm
      (decomposed table (first++rest.flatten)++List.replicate rest.length cgj) := by
  induction rest generalizing first with
  | nil => simp [separate,body_characters]
  | cons chunk rest ih =>
    have hsplit : separate table first (chunk::rest)=
        first.flatMap (body table)++.joiner::separate table chunk rest := by
      simp [separate]
    rw [hsplit,List.flatMap_append,List.flatMap_cons,body_characters,List.flatten_cons,
      List.length_cons,List.replicate_succ]
    have hdecomposed : decomposed table (first++(chunk++rest.flatten))=
        decomposed table first++decomposed table (chunk++rest.flatten) := by
      simp only [decomposed,List.flatMap_append]
    rw [hdecomposed,List.append_assoc]
    exact (((ih chunk).cons cgj).trans List.perm_middle.symm).append_left _

/-- A joiner is put exactly before the character that would exceed the limit. -/
theorem events_separate (stated : Stated table) (value front : List Char)
    (hfront : ∀ p, p <+: front → run table p ≤ nonStarters) :
    ∃ first rest, value=first++rest.flatten ∧
      eventsFrom table (run table front) value=separate table first rest ∧
      Joined table ((front++first)::rest) := by
  have hsnoc : ∀ front c, run table (front++[c])=next table (run table front) c := by
    simp [run]
  induction value generalizing front with
  | nil => exact ⟨[],[],rfl,rfl,by simpa using hfront,.singleton _⟩
  | cons c value ih =>
    rw [eventsFrom,opening,carried]
    by_cases hover : nonStarters<next table (run table front) c
    · have hone : ∀ p, p <+: [c] → run table p ≤ nonStarters := by
        intro p hp
        have hleading := (stated.counts c).1
        have htrailing := (stated.counts c).2
        obtain rfl | rfl : p=[] ∨ p=[c] := by
          cases p with
          | nil => exact .inl rfl
          | cons x p =>
            rw [List.cons_prefix_cons,List.prefix_nil] at hp
            exact .inr (by rw [hp.1,hp.2])
        · exact Nat.zero_le _
        · simp only [run,List.foldl_cons,List.foldl_nil,next,nonStarters]
          split <;> omega
      obtain ⟨first,rest,hvalue,hevents,hjoined⟩ := ih [c] hone
      refine ⟨[],(c::first)::rest,by simp [hvalue],?_,?_,?_⟩
      · have hstart : run table [c]=next table 0 c := rfl
        rw [if_pos hover,if_pos hover,←hstart,hevents]
        simp [separate]
      · rw [List.append_nil]
        exact List.forall_mem_cons.mpr ⟨hfront,hjoined.within⟩
      · refine .cons_cons ⟨c,rfl,?_⟩ hjoined.exceed
        rwa [List.append_nil,hsnoc]
    · have hnext : ∀ p, p <+: front++[c] → run table p ≤ nonStarters := by
        intro p hp
        obtain rfl | hp := List.prefix_concat_iff.mp hp
        · rw [hsnoc]
          omega
        · exact hfront p hp
      obtain ⟨first,rest,hvalue,hevents,hjoined⟩ := ih (front++[c]) hnext
      refine ⟨c::first,rest,by simp [hvalue],?_,by simpa using hjoined⟩
      rw [if_neg hover,if_neg hover,←hsnoc,hevents]
      simp [separate]

end Following

/-- A text is cut before each character that would follow too many nonstarters. A joiner is
written at every cut, the runes of every character once, and within a segment in the order of
their classes. Only the bounds of the buffers are ever exceeded: a segment has a slot for each
of its runes, and the nonstarters in a row fit into a byte. -/
theorem segments_safe (table : Char → Properties) (stated : Stated table)
    (bounds : BufferBounds) (value : List Char) :
    (∃ first rest, value=first++rest.flatten ∧ Joined table (first::rest) ∧
      (written (separate table first rest)).Perm
        (decomposed table value++List.replicate rest.length cgj) ∧
      nfkdWithBounds table bounds value=
        if bounds.folded<byteSize value then .error .inputLimit
        else if bounds.normalized<byteSize (written (separate table first rest)) then
          .error bounds.outputLimitError
        else .ok (written (separate table first rest))) ∧
    ∀ runes, Ordered runes (reordered runes) := by
  refine ⟨?_,ordered_reordered⟩
  obtain ⟨first,rest,hvalue,hevents,hjoined⟩ :=
    events_separate stated value [] fun p hp => by simp [List.prefix_nil.mp hp,run]
  have hstart : run table []=0 := rfl
  rw [hstart] at hevents
  refine ⟨first,rest,hvalue,hjoined,?_,?_⟩
  · have hperm := (written_perm (separate table first rest) ([],[])).trans
      (separate_characters first rest)
    rwa [←hvalue] at hperm
  · rw [←hevents]
    exact nfkd_written stated bounds value

/-- Accents and syllables as their properties state them. -/
def accents (character : Char) : Properties :=
  if character= '\u0301' then ⟨230,1,1,true,none⟩
  else if 0xac00≤character.toNat ∧ character.toNat<0xd7a4 then ⟨0,0,2,false,none⟩
  else ⟨0,0,0,false,none⟩

theorem accents_stated : Stated accents := by
  have hstated : ∀ c, (accents c).leading≤3 ∧ (accents c).trailing≤3 ∧
      (generated accents c).length≤(accents c).trailing+1 ∧
      ((accents c).leading≠0 → (generated accents c).length≤(accents c).leading) := by
    intro c
    by_cases hsyllable : 0xac00≤c.toNat ∧ c.toNat<0xd7a4
    · have hc : c≠ '\u0301' := by
        rintro rfl
        exact absurd hsyllable (by decide)
      simp only [generated,accents,if_neg hc,if_pos hsyllable]
      split <;> simp
    · simp only [generated,accents,if_neg hsyllable]
      by_cases hc : c= '\u0301' <;> simp [hc]
  constructor
  · exact fun c => ⟨(hstated c).1,(hstated c).2.1⟩
  · intro c
    have := hstated c
    omega
  · exact fun c _ => le_trans (stretch_le _ 0) (by simpa using (hstated c).2.2.1)
  · exact fun c => (hstated c).2.2.2

/-- A joiner precedes the thirty-first accent. -/
theorem segments_safe_accents :
    nfkdWithBounds accents ⟨300,3000,false⟩ (List.replicate 31 '\u0301')=
      .ok (List.replicate 30 '\u0301'++[cgj, '\u0301']) ∧
    ∃ first rest, List.replicate 31 '\u0301'=first++rest.flatten ∧
      Joined accents (first::rest) := by
  refine ⟨rfl,?_⟩
  obtain ⟨⟨first,rest,hvalue,hjoined,-⟩,-⟩ :=
    segments_safe accents accents_stated ⟨300,3000,false⟩ (List.replicate 31 '\u0301')
  exact ⟨first,rest,hvalue,hjoined⟩

end Librairii.SegmentNormalization
