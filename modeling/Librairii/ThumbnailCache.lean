import Librairii.RecentEntries

/-!
# The thumbnail cache

Threads decode artwork to thumbnails beside one cache. The cache is locked twice, to look up and
to store, and between them an image is decoded in one of two slots. Invalidation begins a new
generation and clears the cache; what was requested under an older one is neither stored nor
returned afterwards.
-/

namespace Librairii.ThumbnailCache

open RecentEntries hiding insert

/-- What artwork is refused for. -/
inductive MetadataError where
  | tooLarge
  | invalidArtwork
  | busy
  deriving DecidableEq

/-- Types of images. -/
inductive MediaType where
  | png
  | jpeg
  | webp
  deriving DecidableEq

/-- Checksums. -/
abbrev Checksum := List UInt8

/-- Artwork with its type and checksum. -/
structure ArtworkAsset where
  bytes : List UInt8
  media : MediaType
  checksum : Checksum

/-- A decoded thumbnail. -/
structure Thumbnail where
  width : ℕ
  height : ℕ
  rgba : List UInt8
  deriving DecidableEq

/-- Where artwork comes from. -/
inductive ArtworkSource where
  | official
  | embedded
  deriving DecidableEq

/-- What is shown for artwork. -/
inductive ArtworkModel where
  | ready (thumbnail : Thumbnail) (source : ArtworkSource)
  | placeholder
  | stale

def thumbnailEdge : ℕ := 256

/-- The largest total of thumbnails. -/
def cacheBytes : ℕ := 32*1024*1024

/-- The largest number of thumbnails. -/
def cacheEntries : ℕ := 128

def maxArtworkBytes : ℕ := 10*1024*1024

/-- The digest and the decoder of images. -/
structure ArtworkEnv where
  digest : List UInt8 → Checksum
  decodeBounded : ArtworkAsset → Except MetadataError Thumbnail
  /-- A thumbnail has at most its edge in both directions. -/
  bounded : ∀ asset thumbnail, decodeBounded asset=.ok thumbnail →
    thumbnail.rgba.length≤thumbnailEdge*thumbnailEdge*4

/-- The type of an image from its first bytes. -/
def sniff (bytes : List UInt8) : Option MediaType :=
  if bytes.take 8=[0x89,0x50,0x4e,0x47,0x0d,0x0a,0x1a,0x0a] then some .png
  else if bytes.take 3=[0xff,0xd8,0xff] then some .jpeg
  else if 14≤bytes.length ∧ bytes.take 4=[0x52,0x49,0x46,0x46] ∧
      (bytes.drop 8).take 6=[0x57,0x45,0x42,0x50,0x56,0x50] then some .webp
  else none

def validateArtwork (bytes : List UInt8) (media : MediaType) : Except MetadataError Unit :=
  if bytes=[] ∨ maxArtworkBytes<bytes.length then .error .tooLarge
  else if sniff bytes≠some media then .error .invalidArtwork
  else .ok ()

/-- The bytes of a thumbnail. -/
def weight (thumbnail : Thumbnail) : ℕ := thumbnail.rgba.length

/-- The locked state of the cache. -/
structure State where
  generation : ℕ
  kept : Kept Checksum Thumbnail

/-- What looking up finds. -/
inductive Looked where
  /-- The generation is over. -/
  | stale
  /-- A thumbnail, which is used. -/
  | hit (thumbnail : Thumbnail) (state : State)
  /-- Nothing. -/
  | miss

/-- The first locked section of `decode`. -/
def lookup (state : State) (generation : ℕ) (checksum : Checksum) : Looked :=
  if generation≠state.generation then .stale
  else
    match touch checksum state.kept.entries with
    | some (thumbnail,entries) => .hit thumbnail {state with kept := ⟨entries,state.kept.bytes⟩}
    | none => .miss

/-- What storing does. -/
inductive Stored where
  /-- The generation is over. -/
  | stale
  | stored (state : State)
  | underflow

/-- The second locked section of `decode`. -/
def store (state : State) (generation : ℕ) (checksum : Checksum) (thumbnail : Thumbnail) :
    Stored :=
  if generation≠state.generation then .stale
  else
    match RecentEntries.insert weight cacheEntries cacheBytes checksum thumbnail state.kept with
    | some kept => .stored {state with kept := kept}
    | none => .underflow

/-- Who waits for a decoding. -/
inductive Caller where
  | decode
  /-- A call of `resolve` for one source, with the sources after it. -/
  | resolve (source : ArtworkSource) (later : List (ArtworkSource×ArtworkAsset))

/-- A decoding. -/
structure Job where
  generation : ℕ
  asset : ArtworkAsset
  caller : Caller

/-- The answer of a call. -/
inductive Reply where
  | decoded (answer : Except MetadataError (Option Thumbnail))
  | resolved (answer : Except MetadataError ArtworkModel)

/-- Where a thread stands. -/
inductive Phase where
  /-- It has no call; the last one had an answer. -/
  | idle (reply : Option Reply)
  /-- It is to look up. -/
  | lookup (job : Job)
  /-- It is to take a slot. -/
  | claiming (job : Job)
  | decoding (job : Job)
  /-- It is to store, still in its slot. -/
  | storing (job : Job) (thumbnail : Thumbnail)
  /-- It is to release its slot. -/
  | releasing (job : Job) (answer : Except MetadataError (Option Thumbnail))
  /-- No source had a thumbnail; it is to check the generation. -/
  | checking (generation : ℕ)

/-- A thread has a slot. -/
def Phase.holds : Phase → Bool
  | .decoding _ | .storing _ _ | .releasing _ _ => true
  | _ => false

/-- A thumbnail is used: found or stored. -/
structure Use where
  generation : ℕ
  checksum : Checksum
  thumbnail : Thumbnail

/-- The cache and its threads. -/
structure World (Thread : Type) where
  state : State
  /-- The slots that are taken. -/
  decoders : ℕ
  threads : Thread → Phase
  next : ℕ
  /-- The thumbnails that decode steps returned, in order. -/
  uses : List Use
  /-- A subtraction underflowed. -/
  faulted : Bool

/-- What happens. -/
inductive Event (Thread : Type) where
  | decode (thread : Thread) (generation : ℕ) (asset : ArtworkAsset)
  | resolve (thread : Thread) (generation : ℕ) (official embedded : Option ArtworkAsset)
  /-- A thread takes its next step. -/
  | advance (thread : Thread)
  /-- The cache is invalidated. -/
  | invalidate
  /-- Another cache takes the identity of a token. -/
  | elsewhere

section Steps

variable {Thread : Type} [DecidableEq Thread] (env : ArtworkEnv)

/-- A thread goes on. -/
def World.enter (w : World Thread) (thread : Thread) (phase : Phase) : World Thread :=
  {w with threads := Function.update w.threads thread phase}

/-- A thread returns a thumbnail from the cache. -/
def World.serve (w : World Thread) (thread : Thread) (job : Job) (thumbnail : Thumbnail)
    (state : State) (phase : Phase) : World Thread :=
  {w with state := state
          uses := w.uses++[⟨job.generation,job.asset.checksum,thumbnail⟩]
          threads := Function.update w.threads thread phase}

def checkAsset (asset : ArtworkAsset) : Except MetadataError Unit := do
  validateArtwork asset.bytes asset.media
  if env.digest asset.bytes≠asset.checksum then .error .invalidArtwork else .ok ()

def tryNext (generation : ℕ) : List (ArtworkSource×ArtworkAsset) → Phase
  | [] => .checking generation
  | (source,asset)::later =>
    match checkAsset env asset with
    | .ok _ => .lookup ⟨generation,asset,.resolve source later⟩
    | .error .busy => .idle (some (.resolved (.error .busy)))
    | .error _ => tryNext generation later

/-- What follows from the answer of a decoding. -/
def afterwards (job : Job) (answer : Except MetadataError (Option Thumbnail)) : Phase :=
  match job.caller,answer with
  | .decode,_ => .idle (some (.decoded answer))
  | .resolve source _,.ok (some thumbnail) =>
    .idle (some (.resolved (.ok (.ready thumbnail source))))
  | .resolve _ _,.ok none => .idle (some (.resolved (.ok .stale)))
  | .resolve _ _,.error .busy => .idle (some (.resolved (.error .busy)))
  | .resolve _ later,.error _ => tryNext env job.generation later

/-- The next step of a thread. -/
def World.advance (w : World Thread) (thread : Thread) : World Thread :=
  match w.threads thread with
  | .idle _ => w
  | .lookup job =>
    match lookup w.state job.generation job.asset.checksum with
    | .stale => w.enter thread (afterwards env job (.ok none))
    | .hit thumbnail state =>
      w.serve thread job thumbnail state (afterwards env job (.ok (some thumbnail)))
    | .miss => w.enter thread (.claiming job)
  | .claiming job =>
    if w.decoders<2 then
      ({w with decoders := w.decoders+1} : World Thread).enter thread (.decoding job)
    else w.enter thread (afterwards env job (.error .busy))
  | .decoding job =>
    match env.decodeBounded job.asset with
    | .error e => w.enter thread (.releasing job (.error e))
    | .ok thumbnail => w.enter thread (.storing job thumbnail)
  | .storing job thumbnail =>
    match store w.state job.generation job.asset.checksum thumbnail with
    | .stale => w.enter thread (.releasing job (.ok none))
    | .stored state =>
      w.serve thread job thumbnail state (.releasing job (.ok (some thumbnail)))
    | .underflow => {w with faulted := true}
  | .releasing job answer =>
    match less w.decoders 1 with
    | none => {w with faulted := true}
    | some decoders =>
      ({w with decoders := decoders} : World Thread).enter thread (afterwards env job answer)
  | .checking generation =>
    w.enter thread (.idle (some (.resolved (.ok
      (if generation≠w.state.generation then .stale else .placeholder)))))

def World.begin (w : World Thread) (thread : Thread) (generation : ℕ) (phase : Phase) :
    World Thread :=
  match w.threads thread with
  | .idle _ => if generation<w.next then w.enter thread phase else w
  | _ => w

def sources (official embedded : Option ArtworkAsset) : List (ArtworkSource×ArtworkAsset) :=
  (official.map fun asset => (ArtworkSource.official,asset)).toList++
    (embedded.map fun asset => (ArtworkSource.embedded,asset)).toList

def World.step (w : World Thread) : Event Thread → World Thread
  | .decode thread generation asset =>
    w.begin thread generation (match checkAsset env asset with
      | .ok _ => .lookup ⟨generation,asset,.decode⟩
      | .error e => .idle (some (.decoded (.error e))))
  | .resolve thread generation official embedded =>
    w.begin thread generation (tryNext env generation (sources official embedded))
  | .advance thread => w.advance env thread
  | .invalidate => {w with state := ⟨w.next,⟨[],0⟩⟩,next := w.next+1}
  | .elsewhere => {w with next := w.next+1}

/-- Events one after the other. -/
def World.run (w : World Thread) (events : List (Event Thread)) : World Thread :=
  events.foldl (fun w event => w.step env event) w

/-- A new cache whose token is the next identity. -/
def World.new (next : ℕ) : World Thread :=
  ⟨⟨next,⟨[],0⟩⟩,0,fun _ => .idle none,next+1,[],false⟩

end Steps

/-- A thumbnail is used in a state of its generation: it becomes the most recent, and old ones
leave from the front, no more than needed. -/
structure Served (state : State) (generation : ℕ) (checksum : Checksum) (thumbnail : Thumbnail)
    (after : State) : Prop where
  current : generation=state.generation
  /-- The generation goes on. -/
  same : after.generation=state.generation
  /-- What leaves, and what is left. -/
  moved : ∃ gone left, others checksum state.kept.entries=gone++left ∧
    after.kept.entries=left++[(checksum,thumbnail)] ∧
    ∀ last, last≠[] → last <:+ gone → cacheEntries≤(last++left).length ∨
      cacheBytes<total weight (last++left)+weight thumbnail
  /-- The bounds are kept. -/
  sound : Sound weight cacheEntries cacheBytes after.kept

variable {thumbnail : Thumbnail} {state after : State}

/-- A thumbnail that is found is used. -/
theorem lookup_hit (hs : Sound weight cacheEntries cacheBytes state.kept) {generation : ℕ}
    {checksum : Checksum} (h : lookup state generation checksum=.hit thumbnail after) :
    Served state generation checksum thumbnail after ∧
      (checksum,thumbnail) ∈ state.kept.entries := by
  rw [lookup] at h
  by_cases hg : generation≠state.generation
  · rw [if_pos hg] at h
    cases h
  · rw [if_neg hg] at h
    cases htouch : touch checksum state.kept.entries with
    | none => simp [htouch] at h
    | some found =>
      obtain ⟨value,entries⟩ := found
      simp only [htouch,Looked.hit.injEq] at h
      obtain ⟨rfl,rfl⟩ := h
      obtain ⟨hused,hm,hsound⟩ := touch_some hs htouch
      refine ⟨⟨not_not.mp hg,rfl,⟨[],_,rfl,hused,?_⟩,hsound⟩,hm⟩
      exact fun last hne hsuffix => absurd (List.suffix_nil.mp hsuffix) hne

/-- Storing does not underflow: the generation is over, or the thumbnail is used. -/
theorem store_cases (hs : Sound weight cacheEntries cacheBytes state.kept) (generation : ℕ)
    (checksum : Checksum) (hsmall : weight thumbnail≤thumbnailEdge*thumbnailEdge*4) :
    store state generation checksum thumbnail=.stale ∨
      ∃ after, store state generation checksum thumbnail=.stored after ∧
        Served state generation checksum thumbnail after := by
  rw [store]
  by_cases hg : generation≠state.generation
  · exact Or.inl (if_pos hg)
  · have hfits : weight thumbnail≤cacheBytes := by
      have hbound : thumbnailEdge*thumbnailEdge*4≤cacheBytes := by decide
      omega
    obtain ⟨gone,left,after,hinsert,hsound,hothers,hentries,hneeded⟩ :=
      insert_some hs checksum (by decide) hfits
    rw [if_neg hg,hinsert]
    exact Or.inr ⟨_,rfl,not_not.mp hg,rfl,⟨gone,left,hothers,hentries,hneeded⟩,hsound⟩

/-- The cache and the uses of its generation. -/
structure Cached (state : State) (next : ℕ) (uses : List Use) : Prop where
  /-- The bounds are kept. -/
  sound : Sound weight cacheEntries cacheBytes state.kept
  /-- The token of the generation exists. -/
  current : state.generation<next
  /-- The tokens of uses exist. -/
  issued : ∀ use ∈ uses, use.generation<next
  /-- The entries are those that the generation used last, in this order. -/
  recent : state.kept.entries.map Prod.fst <:+
    ((uses.filter fun use => use.generation=state.generation).map Use.checksum).dedup
  /-- Every entry was used in the generation. -/
  origin : ∀ entry ∈ state.kept.entries, ∃ use ∈ uses, use.generation=state.generation ∧
    use.checksum=entry.1 ∧ use.thumbnail=entry.2

variable {uses : List Use} {next : ℕ}

/-- A use keeps the cache. -/
theorem Cached.serve (hc : Cached state next uses) {generation : ℕ} {checksum : Checksum}
    (h : Served state generation checksum thumbnail after) :
    Cached after next (uses++[⟨generation,checksum,thumbnail⟩]) := by
  obtain ⟨gone,left,hothers,hentries,_⟩ := h.moved
  have hcurrent := hc.current
  refine ⟨h.sound,?_,?_,?_,?_⟩
  · rw [h.same]
    exact hcurrent
  · intro use hm
    cases List.mem_append.mp hm with
    | inl hold => exact hc.issued use hold
    | inr hnew =>
      rw [List.mem_singleton.mp hnew,h.current]
      exact hcurrent
  · have hkept : List.filter (fun use : Use => use.generation=state.generation)
        [⟨generation,checksum,thumbnail⟩]=[⟨generation,checksum,thumbnail⟩] := by
      rw [List.filter_eq_self]
      intro use hm
      rw [List.mem_singleton.mp hm]
      exact decide_eq_true h.current
    have huses : ((uses++[(⟨generation,checksum,thumbnail⟩ : Use)]).filter fun use =>
        use.generation=state.generation).map Use.checksum=
          (uses.filter fun use => use.generation=state.generation).map Use.checksum++
            [checksum] := by
      rw [List.filter_append,List.map_append,hkept]
      rfl
    rw [h.same,hentries,huses]
    exact recent_use hc.recent hothers
  · intro entry hm
    rw [hentries] at hm
    rw [h.same]
    cases List.mem_append.mp hm with
    | inl hold =>
      have hother : entry ∈ others checksum state.kept.entries := by
        rw [hothers]
        exact List.mem_append_right _ hold
      obtain ⟨use,huse,hsame⟩ := hc.origin entry (List.mem_filter.mp hother).1
      exact ⟨use,List.mem_append_left _ huse,hsame⟩
    | inr hnew =>
      rw [List.mem_singleton.mp hnew]
      exact ⟨_,List.mem_append_right _ (List.mem_singleton_self _),h.current,rfl,rfl⟩

/-- Invalidation clears the cache under a token that no use had. -/
theorem Cached.invalidate (hc : Cached state next uses) : Cached ⟨next,⟨[],0⟩⟩ (next+1) uses := by
  refine ⟨sound_empty weight cacheEntries cacheBytes,Nat.lt_succ_self next,?_,List.nil_suffix,?_⟩
  · exact fun use hm => Nat.lt_succ_of_lt (hc.issued use hm)
  · exact fun entry hm => absurd hm List.not_mem_nil

/-- Another token does not matter. -/
theorem Cached.elsewhere (hc : Cached state next uses) : Cached state (next+1) uses :=
  ⟨hc.sound,Nat.lt_succ_of_lt hc.current,
    fun use hm => Nat.lt_succ_of_lt (hc.issued use hm),hc.recent,hc.origin⟩

section Runs

variable {Thread : Type} [DecidableEq Thread] (env : ArtworkEnv)

/-- The slots that are taken are those that threads have. -/
def Occupied (threads : Thread → Phase) (decoders : ℕ) : Prop :=
  ∃ holders : Finset Thread, (∀ t, t ∈ holders ↔ (threads t).holds=true) ∧
    holders.card=decoders

/-- The cache and its threads are as they should be. -/
structure Healthy (w : World Thread) : Prop where
  /-- The cache is. -/
  cached : Cached w.state w.next w.uses
  /-- Slots are counted. -/
  occupied : Occupied w.threads w.decoders
  /-- There are two slots. -/
  room : w.decoders≤2
  small : ∀ t job thumbnail, w.threads t=.storing job thumbnail →
    weight thumbnail≤thumbnailEdge*thumbnailEdge*4
  /-- Nothing underflowed. -/
  unfaulted : w.faulted=false

variable {thread : Thread} {phase : Phase} {threads : Thread → Phase} {decoders : ℕ}

theorem Occupied.keep (h : Occupied threads decoders) (hsame : phase.holds=(threads thread).holds) :
    Occupied (Function.update threads thread phase) decoders := by
  obtain ⟨holders,hholders,hcard⟩ := h
  refine ⟨holders,fun t => ?_,hcard⟩
  rw [hholders]
  by_cases ht : t=thread
  · rw [ht,Function.update_self,hsame]
  · rw [Function.update_of_ne ht]

/-- A thread that takes a slot is counted. -/
theorem Occupied.claim (h : Occupied threads decoders) (hfree : (threads thread).holds=false)
    (hholds : phase.holds=true) : Occupied (Function.update threads thread phase) (decoders+1) := by
  obtain ⟨holders,hholders,hcard⟩ := h
  have hout : thread ∉ holders := by
    rw [hholders,hfree]
    exact Bool.false_ne_true
  refine ⟨insert thread holders,fun t => ?_,?_⟩
  · rw [Finset.mem_insert,hholders]
    by_cases ht : t=thread
    · rw [ht,Function.update_self]
      simp only [true_or,hholds]
    · rw [Function.update_of_ne ht]
      simp only [ht,false_or]
  · rw [Finset.card_insert_of_notMem hout,hcard]

/-- A thread that has a slot is counted, and no longer when it has released it. -/
theorem Occupied.release (h : Occupied threads decoders) (hholds : (threads thread).holds=true)
    (hfree : phase.holds=false) :
    ∃ left, decoders=left+1 ∧ Occupied (Function.update threads thread phase) left := by
  obtain ⟨holders,hholders,hcard⟩ := h
  have hin : thread ∈ holders := (hholders thread).mpr hholds
  refine ⟨(holders.erase thread).card,?_,holders.erase thread,fun t => ?_,rfl⟩
  · rw [Finset.card_erase_add_one hin,hcard]
  · rw [Finset.mem_erase,hholders]
    by_cases ht : t=thread
    · rw [ht,Function.update_self,hfree]
      simp only [ne_eq,not_true_eq_false,false_and,Bool.false_eq_true]
    · rw [Function.update_of_ne ht]
      simp only [ne_eq,ht,not_false_eq_true,true_and]

theorem tryNext_holds (generation : ℕ) (later : List (ArtworkSource×ArtworkAsset)) :
    (tryNext env generation later).holds=false := by
  induction later with
  | nil => rfl
  | cons first later ih =>
    obtain ⟨source,asset⟩ := first
    rw [tryNext]
    split
    · rfl
    · rfl
    · exact ih

/-- After an answer no slot is held. -/
theorem afterwards_holds (job : Job) (answer : Except MetadataError (Option Thumbnail)) :
    (afterwards env job answer).holds=false := by
  unfold afterwards
  split
  · rfl
  · rfl
  · rfl
  · rfl
  · exact tryNext_holds env _ _

def Small (phase : Phase) : Prop := ∀ job thumbnail, phase=.storing job thumbnail →
  weight thumbnail≤thumbnailEdge*thumbnailEdge*4

/-- A thread without a slot stores nothing. -/
theorem small_free (h : phase.holds=false) : Small phase := by
  intro job thumbnail hp
  rw [hp] at h
  cases h

theorem small_update (h : ∀ t, Small (threads t)) (hp : Small phase) (t : Thread) :
    Small (Function.update threads thread phase t) := by
  by_cases ht : t=thread
  · rw [ht,Function.update_self]
    exact hp
  · rw [Function.update_of_ne ht]
    exact h t

variable {w : World Thread}

/-- A thread goes on without taking or releasing a slot. -/
theorem Healthy.enter (h : Healthy w) (hsame : phase.holds=(w.threads thread).holds)
    (hsmall : Small phase) : Healthy (w.enter thread phase) :=
  ⟨h.cached,h.occupied.keep hsame,h.room,small_update h.small hsmall,h.unfaulted⟩

variable {job : Job}

theorem Healthy.serve (h : Healthy w)
    (hserved : Served w.state job.generation job.asset.checksum thumbnail after)
    (hsame : phase.holds=(w.threads thread).holds) (hsmall : Small phase) :
    Healthy (w.serve thread job thumbnail after phase) :=
  ⟨h.cached.serve hserved,h.occupied.keep hsame,h.room,small_update h.small hsmall,h.unfaulted⟩

/-- What a step does to the cache: nothing, or a thumbnail of its generation is used. -/
def Touched (w after : World Thread) : Prop :=
  after.next=w.next ∧ (after.state=w.state ∧ after.uses=w.uses ∨
    ∃ checksum thumbnail, Served w.state w.state.generation checksum thumbnail after.state ∧
      after.uses=w.uses++[⟨w.state.generation,checksum,thumbnail⟩])

/-- Going on leaves the cache. -/
theorem touched_enter (w : World Thread) (thread : Thread) (phase : Phase) :
    Touched w (w.enter thread phase) := ⟨rfl,Or.inl ⟨rfl,rfl⟩⟩

/-- Returning a thumbnail uses it. -/
theorem touched_serve (phase : Phase)
    (h : Served w.state job.generation job.asset.checksum thumbnail after) :
    Touched w (w.serve thread job thumbnail after phase) := by
  refine ⟨rfl,Or.inr ⟨job.asset.checksum,thumbnail,?_,?_⟩⟩
  · rw [←h.current]
    exact h
  · rw [←h.current]
    rfl

/-- A step of a thread keeps the cache and its threads as they should be. -/
theorem advance_healthy (h : Healthy w) (thread : Thread) :
    Healthy (w.advance env thread) ∧ Touched w (w.advance env thread) := by
  have hfree : ∀ {phase : Phase}, phase.holds=false → (w.threads thread).holds=false →
      Healthy (w.enter thread phase) ∧ Touched w (w.enter thread phase) := by
    intro phase hphase hthread
    exact ⟨h.enter (hphase.trans hthread.symm) (small_free hphase),touched_enter w thread phase⟩
  rw [World.advance]
  cases hphase : w.threads thread with
  | idle reply => exact ⟨h,rfl,Or.inl ⟨rfl,rfl⟩⟩
  | lookup job =>
    have hthread : (w.threads thread).holds=false := by
      rw [hphase]
      rfl
    simp only
    cases hlook : lookup w.state job.generation job.asset.checksum with
    | stale => exact hfree (afterwards_holds env _ _) hthread
    | miss => exact hfree rfl hthread
    | hit thumbnail state =>
      obtain ⟨hserved,_⟩ := lookup_hit h.cached.sound hlook
      have hafter := afterwards_holds env job (.ok (some thumbnail))
      exact ⟨h.serve hserved (hafter.trans hthread.symm) (small_free hafter),
        touched_serve _ hserved⟩
  | claiming job =>
    have hthread : (w.threads thread).holds=false := by
      rw [hphase]
      rfl
    simp only
    by_cases hroom : w.decoders<2
    · rw [if_pos hroom]
      have hsmall : Small (Phase.decoding job) := by
        intro other thumbnail hother
        cases hother
      exact ⟨⟨h.cached,h.occupied.claim hthread rfl,hroom,small_update h.small hsmall,
        h.unfaulted⟩,rfl,Or.inl ⟨rfl,rfl⟩⟩
    · rw [if_neg hroom]
      exact hfree (afterwards_holds env _ _) hthread
  | decoding job =>
    have hthread : (w.threads thread).holds=true := by
      rw [hphase]
      rfl
    simp only
    cases hdecode : env.decodeBounded job.asset with
    | error e =>
      refine ⟨h.enter hthread.symm ?_,touched_enter _ _ _⟩
      intro other thumbnail hother
      cases hother
    | ok thumbnail =>
      refine ⟨h.enter hthread.symm ?_,touched_enter _ _ _⟩
      intro other decoded hother
      cases hother
      exact env.bounded _ _ hdecode
  | storing job thumbnail =>
    have hthread : (w.threads thread).holds=true := by
      rw [hphase]
      rfl
    have hsmall : ∀ answer, Small (Phase.releasing job answer) := by
      intro answer other decoded hother
      cases hother
    simp only
    cases store_cases h.cached.sound job.generation job.asset.checksum
        (h.small thread job thumbnail hphase) with
    | inl hstale =>
      rw [hstale]
      exact ⟨h.enter hthread.symm (hsmall _),touched_enter _ _ _⟩
    | inr hstored =>
      obtain ⟨after,hstored,hserved⟩ := hstored
      rw [hstored]
      exact ⟨h.serve hserved hthread.symm (hsmall _),touched_serve _ hserved⟩
  | releasing job answer =>
    have hthread : (w.threads thread).holds=true := by
      rw [hphase]
      rfl
    have hafter := afterwards_holds env job answer
    obtain ⟨left,hdecoders,hoccupied⟩ := h.occupied.release hthread hafter
    have hroom := h.room
    simp only
    rw [hdecoders,less_add]
    exact ⟨⟨h.cached,hoccupied,by
      change left≤2
      omega,small_update h.small (small_free hafter),h.unfaulted⟩,rfl,Or.inl ⟨rfl,rfl⟩⟩
  | checking generation =>
    have hthread : (w.threads thread).holds=false := by
      rw [hphase]
      rfl
    exact hfree rfl hthread

theorem begin_healthy (h : Healthy w) (thread : Thread) (generation : ℕ) (hp : phase.holds=false) :
    Healthy (w.begin thread generation phase) ∧ Touched w (w.begin thread generation phase) := by
  rw [World.begin]
  split
  · rename_i reply hidle
    split
    · refine ⟨h.enter ?_ (small_free hp),touched_enter _ _ _⟩
      rw [hp,hidle]
      rfl
    · exact ⟨h,rfl,Or.inl ⟨rfl,rfl⟩⟩
  · exact ⟨h,rfl,Or.inl ⟨rfl,rfl⟩⟩

/-- Every event but an invalidation or another token leaves the cache or uses a thumbnail. -/
theorem step_healthy (h : Healthy w) (event : Event Thread) :
    Healthy (w.step env event) ∧ (Touched w (w.step env event) ∨
      (w.step env event).uses=w.uses ∧ (w.step env event).next=w.next+1 ∧
        ((w.step env event).state=w.state ∨ (w.step env event).state=⟨w.next,⟨[],0⟩⟩)) := by
  cases event with
  | decode thread generation asset =>
    have hp : (match checkAsset env asset with
      | .ok _ => Phase.lookup ⟨generation,asset,.decode⟩
      | .error e => .idle (some (.decoded (.error e)))).holds=false := by
      split
      · rfl
      · rfl
    have hbegin := begin_healthy h thread generation hp
    exact ⟨hbegin.1,Or.inl hbegin.2⟩
  | resolve thread generation official embedded =>
    have hbegin := begin_healthy h thread generation
      (tryNext_holds env generation (sources official embedded))
    exact ⟨hbegin.1,Or.inl hbegin.2⟩
  | advance thread =>
    have hadvance := advance_healthy env h thread
    exact ⟨hadvance.1,Or.inl hadvance.2⟩
  | invalidate =>
    exact ⟨⟨h.cached.invalidate,h.occupied,h.room,h.small,h.unfaulted⟩,
      Or.inr ⟨rfl,rfl,Or.inr rfl⟩⟩
  | elsewhere =>
    exact ⟨⟨h.cached.elsewhere,h.occupied,h.room,h.small,h.unfaulted⟩,
      Or.inr ⟨rfl,rfl,Or.inl rfl⟩⟩

omit [DecidableEq Thread] in
theorem new_healthy (first : ℕ) : Healthy (World.new first : World Thread) := by
  refine ⟨⟨sound_empty _ _ _,Nat.lt_succ_self first,?_,List.nil_suffix,?_⟩,⟨∅,?_,rfl⟩,
    Nat.zero_le 2,?_,rfl⟩
  · exact fun use hm => absurd hm List.not_mem_nil
  · exact fun entry hm => absurd hm List.not_mem_nil
  · intro t
    simp only [Finset.notMem_empty,World.new,Phase.holds,Bool.false_eq_true]
  · intro t job thumbnail hp
    cases hp

theorem run_healthy (h : Healthy w) (events : List (Event Thread)) :
    Healthy (w.run env events) := by
  induction events generalizing w with
  | nil => exact h
  | cons event events ih => exact ih (step_healthy env h event).1

/-- Once a generation has begun, only thumbnails of it or later ones are used. -/
theorem run_newer (h : Healthy w) {cut : ℕ} (hcut : cut≤w.state.generation)
    (events : List (Event Thread)) :
    cut≤(w.run env events).state.generation ∧ ∃ newer, (w.run env events).uses=w.uses++newer ∧
      ∀ use ∈ newer, cut≤use.generation := by
  induction events generalizing w with
  | nil => exact ⟨hcut,[],(List.append_nil _).symm,fun use hm => absurd hm List.not_mem_nil⟩
  | cons event events ih =>
    obtain ⟨hnext,hstep⟩ := step_healthy env h event
    have hcurrent := h.cached.current
    have hlater : cut≤(w.step env event).state.generation ∧ ∃ newer,
        (w.step env event).uses=w.uses++newer ∧ ∀ use ∈ newer, cut≤use.generation := by
      cases hstep with
      | inl htouched =>
        obtain ⟨_,hsame | ⟨checksum,thumbnail,hserved,huses⟩⟩ := htouched
        · rw [hsame.1,hsame.2]
          exact ⟨hcut,[],(List.append_nil _).symm,fun use hm => absurd hm List.not_mem_nil⟩
        · rw [hserved.same,huses]
          refine ⟨hcut,_,rfl,fun use hm => ?_⟩
          rw [List.mem_singleton.mp hm]
          exact hcut
      | inr hother =>
        obtain ⟨huses,_,hstate⟩ := hother
        refine ⟨?_,[],by rw [huses,List.append_nil],fun use hm => absurd hm List.not_mem_nil⟩
        cases hstate with
        | inl hsame => rw [hsame]; exact hcut
        | inr hnew => rw [hnew]; exact hcut.trans hcurrent.le
    obtain ⟨hgeneration,newer,huses,hnewer⟩ := hlater
    obtain ⟨hlast,newest,hnewest,hall⟩ := ih hnext hgeneration
    refine ⟨hlast,newer++newest,?_,?_⟩
    · change ((w.step env event).run env events).uses=_
      rw [hnewest,huses,List.append_assoc]
    · intro use hm
      cases List.mem_append.mp hm with
      | inl hfirst => exact hnewer use hfirst
      | inr hsecond => exact hall use hsecond

/-- A slot is free again. -/
def Released (w after : World Thread) (thread : Thread) : Prop :=
  (after.threads thread).holds=false ∧ after.decoders+1=w.decoders

/-- A thread that is to release its slot does so. -/
theorem advance_releasing (h : Healthy w) {answer : Except MetadataError (Option Thumbnail)}
    (hphase : w.threads thread=.releasing job answer) :
    Released w (w.advance env thread) thread := by
  have hthread : (w.threads thread).holds=true := by
    rw [hphase]
    rfl
  have hafter := afterwards_holds env job answer
  obtain ⟨left,hdecoders,_⟩ := h.occupied.release hthread hafter
  rw [World.advance,hphase]
  simp only
  rw [hdecoders,less_add]
  refine ⟨?_,hdecoders.symm⟩
  change (Function.update w.threads thread (afterwards env job answer) thread).holds=false
  rw [Function.update_self]
  exact hafter

theorem advance_storing (h : Healthy w) (hphase : w.threads thread=.storing job thumbnail) :
    Released w ((w.advance env thread).advance env thread) thread := by
  have hnext := (advance_healthy env h thread).1
  obtain ⟨answer,hreleasing,hdecoders⟩ : ∃ answer,
      (w.advance env thread).threads thread=.releasing job answer ∧
        (w.advance env thread).decoders=w.decoders := by
    rw [World.advance,hphase]
    simp only
    cases store_cases h.cached.sound job.generation job.asset.checksum
        (h.small thread job thumbnail hphase) with
    | inl hstale =>
      rw [hstale]
      exact ⟨_,Function.update_self _ _ _,rfl⟩
    | inr hstored =>
      obtain ⟨after,hstored,_⟩ := hstored
      rw [hstored]
      exact ⟨_,Function.update_self _ _ _,rfl⟩
  obtain ⟨hfree,hcount⟩ := advance_releasing env hnext hreleasing
  exact ⟨hfree,hcount.trans hdecoders⟩

/-- A thread that has a slot releases it within three steps of its own, however decoding and
storing end. -/
theorem slot_released (h : Healthy w) (hholds : (w.threads thread).holds=true) :
    ∃ n≤3, Released w ((fun w => w.advance env thread)^[n] w) thread := by
  cases hphase : w.threads thread with
  | releasing job answer => exact ⟨1,by decide,advance_releasing env h hphase⟩
  | storing job thumbnail => exact ⟨2,by decide,advance_storing env h hphase⟩
  | decoding job =>
    have hnext := (advance_healthy env h thread).1
    cases hdecode : env.decodeBounded job.asset with
    | error e =>
      have hadvance : w.advance env thread=w.enter thread (.releasing job (.error e)) := by
        rw [World.advance,hphase]
        simp only [hdecode]
      have hreleasing : (w.advance env thread).threads thread=.releasing job (.error e) := by
        rw [hadvance]
        exact Function.update_self _ _ _
      obtain ⟨hfree,hcount⟩ := advance_releasing env hnext hreleasing
      refine ⟨2,by decide,hfree,hcount.trans ?_⟩
      rw [hadvance]
      rfl
    | ok thumbnail =>
      have hadvance : w.advance env thread=w.enter thread (.storing job thumbnail) := by
        rw [World.advance,hphase]
        simp only [hdecode]
      have hstoring : (w.advance env thread).threads thread=.storing job thumbnail := by
        rw [hadvance]
        exact Function.update_self _ _ _
      obtain ⟨hfree,hcount⟩ := advance_storing env hnext hstoring
      refine ⟨3,by decide,hfree,hcount.trans ?_⟩
      rw [hadvance]
      rfl
  | idle reply => rw [hphase] at hholds; cases hholds
  | lookup job => rw [hphase] at hholds; cases hholds
  | claiming job => rw [hphase] at hholds; cases hholds
  | checking generation => rw [hphase] at hholds; cases hholds

end Runs

/-- In every interleaving the cache keeps its bounds, a thumbnail that is found or stored becomes
the most recent and only the least recent ones leave, at most two threads decode and each
releases its slot, and what was requested before an invalidation is afterwards neither stored nor
returned. -/
theorem thumbnails_bounded {Thread : Type} [DecidableEq Thread] (env : ArtworkEnv) (first : ℕ)
    (events : List (Event Thread)) : let w := (World.new first : World Thread).run env events
    (Sound weight cacheEntries cacheBytes w.state.kept ∧ w.faulted=false) ∧
    (w.state.kept.entries.map Prod.fst <:+
        ((w.uses.filter fun use => use.generation=w.state.generation).map Use.checksum).dedup ∧
      ∀ thread, Touched w (w.advance env thread)) ∧
    (w.decoders≤2 ∧ Occupied w.threads w.decoders ∧
      ∀ thread, (w.threads thread).holds=true →
        ∃ n≤3, Released w ((fun w => w.advance env thread)^[n] w) thread) ∧
    ∀ later : List (Event Thread),
      ∃ newer, ((w.step env .invalidate).run env later).uses=w.uses++newer ∧
        (∀ use ∈ newer, w.next≤use.generation) ∧
        ∀ entry ∈ ((w.step env .invalidate).run env later).state.kept.entries,
          ∃ use ∈ newer, use.checksum=entry.1 ∧ use.thumbnail=entry.2 := by
  have h : Healthy ((World.new first : World Thread).run env events) :=
    run_healthy env (new_healthy first) events
  refine ⟨⟨h.cached.sound,h.unfaulted⟩,
    ⟨h.cached.recent,fun thread => (advance_healthy env h thread).2⟩,
    ⟨h.room,h.occupied,fun thread hholds => slot_released env h hholds⟩,fun later => ?_⟩
  have hcut := (step_healthy env h .invalidate).1
  obtain ⟨hgeneration,newer,huses,hnewer⟩ := run_newer env hcut (Nat.le_refl _) later
  refine ⟨newer,huses,hnewer,fun entry hentry => ?_⟩
  obtain ⟨use,hm,huse,hsame⟩ := (run_healthy env hcut later).cached.origin entry hentry
  rw [huses] at hm
  cases List.mem_append.mp hm with
  | inr hnew => exact ⟨use,hnew,hsame⟩
  | inl hold =>
    have hissued := h.cached.issued use hold
    rw [huse] at hissued
    exact absurd hissued (Nat.not_lt.mpr hgeneration)

end Librairii.ThumbnailCache
