import Librairii.ArchiveInventory
import Librairii.ChunkedReads
import Librairii.DisplayNames
import Librairii.MeasuredLoops

/-!
# Bounded reading of archive payloads

An entry is read into memory under a ceiling of its own, and every file of a ZIP archive is
read to its end under the ceiling of the whole. Each read asks for one byte more than is
allowed, so that what is too long shows itself, however the readers split their bytes.
-/

namespace Librairii.PayloadReading

open ArchiveInventory CheckedResults ChunkedReads JsonText MeasuredLoops SortedMaps

/-- Why reading stops. -/
inductive Halt (ε : Type) where
  | validation (error : ε)
  | cancelled
  /-- A subtraction below zero. -/
  | underflow
  deriving DecidableEq

/-- What reading meets. -/
structure Surroundings (σ : Type) where
  /-- The answer of a reader to a buffer of some size. -/
  read : σ → ℕ → Option (List UInt8×σ)
  /-- Whether the run is cancelled, by the number of earlier checks. -/
  isCancelled : ℕ → Bool
  /-- Whether memory for so many bytes is granted. -/
  tryReserve : ℕ → Bool

variable {σ ε : Type} (env : Surroundings σ)

/-- Stop a cancelled run. -/
def checkpoint (polls : ℕ) : Except (Halt ε) Unit :=
  if env.isCancelled polls then .error .cancelled else .ok ()

/-- Addition in 64 bits, up to the greatest value. -/
def saturatingAdd (a b : ℕ) : ℕ := min (a+b) (2^64-1)

def subtract (a b : ℕ) : Except (Halt ε) ℕ := if b≤a then .ok (a-b) else .error .underflow

/-- An entry that is being read into memory. -/
structure Keeping (σ : Type) where
  reader : σ
  /-- The bytes that are kept. -/
  result : List UInt8
  /-- Checks of cancellation so far. -/
  polls : ℕ

/-- One turn of reading into memory: the whole result, or the next state. -/
def limitedStep (limit : ℕ) (error : ε) (k : Keeping σ) :
    Except (Halt ε) (List UInt8⊕Keeping σ) := do
  checkpoint env k.polls
  let available := min (saturatingAdd (limit-k.result.length) 1) (32*1024)
  match env.read k.reader available with
  | none => .error (.validation error)
  | some (chunk,reader) =>
    if chunk=[] then .ok (.inl k.result)
    else do
      let left ← subtract limit k.result.length
      if left<chunk.length then .error (.validation error)
      else if env.tryReserve (k.result.length+chunk.length)=false then .error (.validation error)
      else .ok (.inr ⟨reader,k.result++chunk,k.polls+1⟩)

theorem limitedStep_next {limit : ℕ} {error : ε} {k next : Keeping σ}
    (h : limitedStep env limit error k=.ok (.inr next)) :
    k.result.length<next.result.length ∧ next.result.length≤limit := by
  unfold limitedStep checkpoint at h
  by_cases hcancel : env.isCancelled k.polls=true
  · rw [if_pos hcancel] at h
    cases h
  rw [if_neg hcancel] at h
  simp only [bind,Except.bind] at h
  split at h
  · cases h
  · next chunk reader _ =>
    by_cases hchunk : chunk=[]
    · rw [if_pos hchunk] at h
      cases h
    rw [if_neg hchunk,subtract] at h
    by_cases hle : k.result.length≤limit
    · rw [if_pos hle] at h
      dsimp only at h
      by_cases hlong : limit-k.result.length<chunk.length
      · rw [if_pos hlong] at h
        cases h
      rw [if_neg hlong] at h
      by_cases hroom : env.tryReserve (k.result.length+chunk.length)=false
      · rw [if_pos hroom] at h
        cases h
      rw [if_neg hroom] at h
      cases h
      have hpos := List.length_pos_iff.mpr hchunk
      rw [List.length_append]
      omega
    · rw [if_neg hle] at h
      cases h

theorem limitedStep_down {limit : ℕ} {error : ε} {k next : Keeping σ}
    (h : Goes (limitedStep env limit error) k next) :
    limit-next.result.length<limit-k.result.length := by
  have hnext := limitedStep_next env h
  omega

/-- Read into memory until the end, or until something refuses. -/
def limitedLoop (limit : ℕ) (error : ε) (k : Keeping σ) : Except (Halt ε) (List UInt8) :=
  loopDown (limitedStep env limit error) (limit-·.result.length) (limitedStep_down env) k

/-- Reading into memory is its first turn, and the rest. -/
theorem limitedLoop_turn {limit : ℕ} {error : ε} {k : Keeping σ} :
    limitedLoop env limit error k=
      match limitedStep env limit error k with
      | .error halt => .error halt
      | .ok (.inl result) => .ok result
      | .ok (.inr next) => limitedLoop env limit error next := by
  have hloop := @loopDown_eq _ _ _ (limitedStep env limit error) _ (limitedStep_down env) k
  unfold limitedLoop
  rw [hloop]
  cases limitedStep env limit error k with
  | error halt => rfl
  | ok turn => cases turn <;> rfl

/-- Read an entry into memory, up to a limit. -/
def limited (limit : ℕ) (error : ε) (reader : σ) : Except (Halt ε) (List UInt8) :=
  limitedLoop env limit error ⟨reader,[],0⟩

/-- How a member of a ZIP archive is compressed. -/
inductive CompressionMethod where
  | store
  | deflate
  | other
  deriving DecidableEq

/-- A member of a ZIP archive. -/
structure ZipMember (Location : Type) where
  location : Location
  method : CompressionMethod
  encrypted : Bool

/-- What opens members: the container and the decoder. -/
structure ZipCodec (Location Entry Decoder σ : Type) where
  getEntry : Location → Option Entry
  stored : Entry → Decoder
  /-- The inflated bytes of an entry. -/
  deflateDecoder : Entry → Decoder
  /-- A reader that verifies size and checksum at its end. -/
  verifyingReader : Entry → Decoder → σ

variable {Location Entry Decoder : Type} (codec : ZipCodec Location Entry Decoder σ)

def zipReader (member : ZipMember Location) : Option σ :=
  if member.encrypted then none
  else
    match codec.getEntry member.location,member.method with
    | some entry,.store => some (codec.verifyingReader entry (codec.stored entry))
    | some entry,.deflate => some (codec.verifyingReader entry (codec.deflateDecoder entry))
    | _,_ => none

/-- A member that is being read to its end. -/
structure Draining (σ : Type) where
  reader : σ
  /-- Bytes that are still allowed. -/
  remaining : ℕ
  /-- Checks of cancellation so far. -/
  polls : ℕ
  /-- The bytes of the member that passed the buffer. -/
  passed : List UInt8

/-- The refusal of a container. -/
def invalid : ValidationError := .whole .invalidContainer

def sizeRefusal (name : String) : ValidationError := .at .expandedSizeLimit (bytes name.toList)

/-- One turn of reading a member to its end: it is finished, or the next state. -/
def drainStep (name : String) (d : Draining σ) :
    Except (Halt ValidationError) (Draining σ⊕Draining σ) := do
  checkpoint env d.polls
  let available := min (saturatingAdd d.remaining 1) (64*1024)
  match env.read d.reader available with
  | none => .error (.validation invalid)
  | some (chunk,reader) =>
    if chunk=[] then .ok (.inl ⟨reader,d.remaining,d.polls+1,d.passed⟩)
    else if d.remaining<chunk.length then .error (.validation (sizeRefusal name))
    else do
      let remaining ← subtract d.remaining chunk.length
      .ok (.inr ⟨reader,remaining,d.polls+1,d.passed++chunk⟩)

variable {name : String} {d : Draining σ}

/-- What goes on leaves less. -/
theorem drainStep_next {next : Draining σ} (h : drainStep env name d=.ok (.inr next)) :
    next.remaining<d.remaining := by
  unfold drainStep checkpoint at h
  by_cases hcancel : env.isCancelled d.polls=true
  · rw [if_pos hcancel] at h
    cases h
  rw [if_neg hcancel] at h
  simp only [bind,Except.bind] at h
  split at h
  · cases h
  · next chunk reader _ =>
    by_cases hchunk : chunk=[]
    · rw [if_pos hchunk] at h
      cases h
    rw [if_neg hchunk] at h
    by_cases hlong : d.remaining<chunk.length
    · rw [if_pos hlong] at h
      cases h
    rw [if_neg hlong,subtract,if_pos (Nat.le_of_not_lt hlong)] at h
    cases h
    have hpos := List.length_pos_iff.mpr hchunk
    dsimp only
    omega

/-- Read a member to its end, or until something refuses. -/
def drainLoop (name : String) (d : Draining σ) : Except (Halt ValidationError) (Draining σ) :=
  loopDown (drainStep env name) Draining.remaining (drainStep_next env) d

theorem drainLoop_turn :
    drainLoop env name d=
      match drainStep env name d with
      | .error halt => .error halt
      | .ok (.inl done) => .ok done
      | .ok (.inr next) => drainLoop env name next := by
  have hloop := @loopDown_eq _ _ _ (drainStep env name) _ (drainStep_next env) d
  unfold drainLoop
  rw [hloop]
  cases drainStep env name d with
  | error halt => rfl
  | ok turn => cases turn <;> rfl

/-- The reading of an archive so far. -/
structure Verifying where
  /-- Bytes that are still allowed. -/
  remaining : ℕ
  /-- Checks of cancellation so far. -/
  polls : ℕ
  /-- The files that were read to their end, with their bytes. -/
  reads : List (String×List UInt8)

/-- Read files one after the other. -/
def verifyMembers (members : SortedMap String (ZipMember Location)) :
    List String → Verifying → Except (Halt ValidationError) Verifying
  | [],v => .ok v
  | name::names,v =>
    match (members.get name).bind (zipReader codec) with
    | none => .error (.validation invalid)
    | some reader => do
      let d ← drainLoop env name ⟨reader,v.remaining,v.polls,[]⟩
      verifyMembers members names ⟨d.remaining,d.polls,v.reads++[(name,d.passed)]⟩

def Inventory.fileNames (inventory : Inventory) : List String :=
  (inventory.entries.entries.filter fun entry => !entry.2.isDirectory).map Prod.fst

/-- The reader of an archive. -/
inductive Reader (Location : Type) where
  | zip (members : SortedMap String (ZipMember Location))
  | seven

/-- An open archive. -/
structure Archive (Location : Type) where
  reader : Reader Location
  inventory : Inventory
  limits : Limits
  valid : limits.validate=.ok ()

/-- A signed number as an unsigned one of 64 bits. -/
def asU64 (n : I64) : ℕ := (n.val%2^64).toNat

/-- Read every file of a ZIP archive through its verification. -/
def verifyPayloads (archive : Archive Location) :
    Except (Halt ValidationError) (List (String×List UInt8)) :=
  match archive.reader with
  | .seven => do
    checkpoint env 0
    return []
  | .zip members => do
    let v ← verifyMembers env codec members (Inventory.fileNames archive.inventory)
      ⟨asU64 archive.limits.maxExpandedBytes,0,[]⟩
    checkpoint env v.polls
    return v.reads

/-- Nothing cancels the run. -/
def Surroundings.Quiet : Prop := ∀ n, env.isCancelled n=false

variable {env} {codec}

/-- A turn on a reader that delivers a payload, in a run that is not cancelled. -/
theorem limitedStep_cases {limit : ℕ} {error : ε} {k : Keeping σ} {p : Payload UInt8}
    (hquiet : env.Quiet) (hk : k.result.length≤limit) (h : Delivers env.read k.reader p)
    (hroom : ∀ n≤k.result.length+p.content.length, env.tryReserve n=true) :
    (p.content=[] ∧ p.fails=false ∧ limitedStep env limit error k=.ok (.inl k.result)) ∨
    (p.content=[] ∧ p.fails=true ∧ limitedStep env limit error k=.error (.validation error)) ∨
    (∃ chunk rest next, chunk≠[] ∧ p.content=chunk++rest ∧ Delivers env.read next ⟨rest,p.fails⟩ ∧
      limitedStep env limit error k=
        if limit<k.result.length+chunk.length then .error (.validation error)
        else .ok (.inr ⟨next,k.result++chunk,k.polls+1⟩)) := by
  have hpos : 0 < min (saturatingAdd (limit-k.result.length) 1) (32*1024) := by
    unfold saturatingAdd
    omega
  have hcancel : checkpoint (ε:=ε) env k.polls=.ok () := by
    unfold checkpoint
    rw [hquiet k.polls]
    rfl
  unfold limitedStep
  rw [hcancel]
  simp only [bind,Except.bind]
  rcases h.cases hpos with ⟨hnil,hok,next,hread⟩ | ⟨hnil,hbad,hread⟩ |
      ⟨chunk,rest,next,hread,hchunk,hlength,hsplit,hnext⟩
  · left
    rw [hread]
    exact ⟨hnil,hok,rfl⟩
  · right
    left
    rw [hread]
    exact ⟨hnil,hbad,rfl⟩
  · right
    right
    refine ⟨chunk,rest,next,hchunk,hsplit,hnext,?_⟩
    have hgranted : env.tryReserve (k.result.length+chunk.length)=true := by
      refine hroom _ ?_
      rw [hsplit,List.length_append]
      omega
    rw [hread]
    dsimp only
    rw [if_neg hchunk,subtract,if_pos hk,hgranted]
    dsimp only
    by_cases hlong : limit<k.result.length+chunk.length
    · rw [if_pos hlong,if_pos (by omega)]
    · rw [if_neg hlong,if_neg (by omega),if_neg Bool.noConfusion]

/-- Reading into memory gives the whole content, when it ends within the limit. -/
theorem limitedLoop_eq {limit : ℕ} {error : ε} {k : Keeping σ} {p : Payload UInt8}
    (hquiet : env.Quiet) (hk : k.result.length≤limit) (h : Delivers env.read k.reader p)
    (hroom : ∀ n≤k.result.length+p.content.length, env.tryReserve n=true) :
    limitedLoop env limit error k=
      if p.fails=false ∧ k.result.length+p.content.length≤limit then
        .ok (k.result++p.content) else .error (.validation error) := by
  induction hsize : p.content.length using Nat.strong_induction_on generalizing k p with
  | _ size ih =>
    rw [limitedLoop_turn]
    rcases @limitedStep_cases σ ε env limit error k p hquiet hk h hroom with
      ⟨hnil,hok,hstep⟩ | ⟨-,hbad,hstep⟩ | ⟨chunk,rest,next,hchunk,hsplit,hnext,hstep⟩
    · have hzero : size=0 := by rw [←hsize,hnil,List.length_nil]
      rw [hstep,if_pos ⟨hok,by omega⟩,hnil,List.append_nil]
    · rw [hstep,if_neg fun hboth => by rw [hbad] at hboth; cases hboth.1]
    · have hpos := List.length_pos_iff.mpr hchunk
      have hlength : p.content.length=chunk.length+rest.length := by
        rw [hsplit,List.length_append]
      have hkept : (k.result++chunk).length=k.result.length+chunk.length := List.length_append
      rw [hstep]
      by_cases hlong : limit<k.result.length+chunk.length
      · rw [if_pos hlong,if_neg]
        omega
      · rw [if_neg hlong]
        have hrest := ih rest.length (by omega) (k:=⟨next,k.result++chunk,k.polls+1⟩)
          (by dsimp only; omega) hnext (by
            intro n hn
            dsimp only at hn
            exact hroom n (by omega)) rfl
        dsimp only at hrest ⊢
        rw [hrest,hsplit,hkept,List.append_assoc]
        have htotal : k.result.length+chunk.length+rest.length=k.result.length+size := by omega
        rw [htotal]

theorem limitedStep_sound {limit : ℕ} {error : ε} {k : Keeping σ} (hk : k.result.length≤limit) :
    limitedStep env limit error k≠.error .underflow := by
  unfold limitedStep checkpoint
  by_cases hcancel : env.isCancelled k.polls=true
  · rw [if_pos hcancel]
    exact nofun
  rw [if_neg hcancel]
  simp only [bind,Except.bind]
  split
  · exact nofun
  · next chunk reader _ =>
    rw [subtract,if_pos hk]
    split
    · exact nofun
    dsimp only
    split
    · exact nofun
    split
    · exact nofun
    · exact nofun

/-- A turn on the reader of a member, in a run that is not cancelled. -/
theorem drainStep_cases {p : Payload UInt8} (hquiet : env.Quiet) (h : Delivers env.read d.reader p)
    :
    (p.content=[] ∧ p.fails=false ∧ ∃ reader,
      drainStep env name d=.ok (.inl ⟨reader,d.remaining,d.polls+1,d.passed⟩)) ∨
    (p.content=[] ∧ p.fails=true ∧ drainStep env name d=.error (.validation invalid)) ∨
    (∃ chunk rest next, chunk≠[] ∧ p.content=chunk++rest ∧ Delivers env.read next ⟨rest,p.fails⟩ ∧
      drainStep env name d=
        if d.remaining<chunk.length then .error (.validation (sizeRefusal name))
        else .ok (.inr ⟨next,d.remaining-chunk.length,d.polls+1,d.passed++chunk⟩)) := by
  have hpos : 0 < min (saturatingAdd d.remaining 1) (64*1024) := by
    unfold saturatingAdd
    omega
  have hcancel : checkpoint (ε:=ValidationError) env d.polls=.ok () := by
    unfold checkpoint
    rw [hquiet d.polls]
    rfl
  unfold drainStep
  rw [hcancel]
  simp only [bind,Except.bind]
  rcases h.cases hpos with ⟨hnil,hok,next,hread⟩ | ⟨hnil,hbad,hread⟩ |
      ⟨chunk,rest,next,hread,hchunk,hlength,hsplit,hnext⟩
  · left
    rw [hread]
    exact ⟨hnil,hok,next,rfl⟩
  · right
    left
    rw [hread]
    exact ⟨hnil,hbad,rfl⟩
  · right
    right
    refine ⟨chunk,rest,next,hchunk,hsplit,hnext,?_⟩
    rw [hread]
    dsimp only
    rw [if_neg hchunk]
    by_cases hlong : d.remaining<chunk.length
    · rw [if_pos hlong,if_pos hlong]
    · rw [if_neg hlong,if_neg hlong,subtract,if_pos (Nat.le_of_not_lt hlong)]

/-- The verdict on a member: too long, damaged, or read to its end. -/
theorem drainLoop_eq {p : Payload UInt8} (hquiet : env.Quiet) (h : Delivers env.read d.reader p) :
    ∃ reader polls, drainLoop env name d=
      if d.remaining<p.content.length then .error (.validation (sizeRefusal name))
      else if p.fails then .error (.validation invalid)
      else .ok ⟨reader,d.remaining-p.content.length,polls,d.passed++p.content⟩ := by
  induction hsize : p.content.length using Nat.strong_induction_on generalizing d p with
  | _ size ih =>
    rw [drainLoop_turn]
    rcases @drainStep_cases σ env name d p hquiet h with
      ⟨hnil,hok,reader,hstep⟩ | ⟨hnil,hbad,hstep⟩ | ⟨chunk,rest,next,hchunk,hsplit,hnext,hstep⟩
    · have hzero : size=0 := by rw [←hsize,hnil,List.length_nil]
      refine ⟨reader,d.polls+1,?_⟩
      rw [hstep,if_neg (by omega),hok,if_neg Bool.false_ne_true,hnil,List.append_nil,hzero]
      rfl
    · have hzero : size=0 := by rw [←hsize,hnil,List.length_nil]
      refine ⟨d.reader,0,?_⟩
      rw [hstep,if_neg (by omega),if_pos hbad]
    · have hpos := List.length_pos_iff.mpr hchunk
      have hlength : p.content.length=chunk.length+rest.length := by
        rw [hsplit,List.length_append]
      rw [hstep]
      by_cases hlong : d.remaining<chunk.length
      · refine ⟨d.reader,0,?_⟩
        rw [if_pos hlong,if_pos (by omega)]
      · obtain ⟨reader,polls,hrest⟩ := ih rest.length (by omega)
          (d:=⟨next,d.remaining-chunk.length,d.polls+1,d.passed++chunk⟩) hnext rfl
        refine ⟨reader,polls,?_⟩
        rw [if_neg hlong]
        dsimp only at hrest ⊢
        rw [hrest,hsplit,List.append_assoc]
        have hleft : d.remaining-chunk.length-rest.length=d.remaining-size := by omega
        rw [hleft]
        by_cases hrefused : d.remaining<size
        · rw [if_pos hrefused,if_pos (by omega)]
        · rw [if_neg hrefused,if_neg (by omega)]

/-- What the members of an archive have: nothing for one that does not open. -/
def Contains (env : Surroundings σ) (codec : ZipCodec Location Entry Decoder σ)
    (members : SortedMap String (ZipMember Location)) (contents : String → Option (Payload UInt8))
    (name : String) : Prop :=
  match (members.get name).bind (zipReader codec),contents name with
  | none,none => True
  | some reader,some p => Delivers env.read reader p
  | _,_ => False

/-- The verdict on files by their contents alone: the first that does not open, is too long for
what is left, or is damaged. -/
def verdict (contents : String → Option (Payload UInt8)) :
    List String → ℕ → Except (Halt ValidationError) (List (String×List UInt8))
  | [],_ => .ok []
  | name::names,left =>
    match contents name with
    | none => .error (.validation invalid)
    | some p =>
      if left<p.content.length then .error (.validation (sizeRefusal name))
      else if p.fails then .error (.validation invalid)
      else (verdict contents names (left-p.content.length)).map ((name,p.content)::·)

/-- Reading files comes to the verdict on their contents. -/
theorem verifyMembers_eq {members : SortedMap String (ZipMember Location)}
    {contents : String → Option (Payload UInt8)} (hquiet : env.Quiet) {names : List String}
    (h : ∀ name ∈ names, Contains env codec members contents name) (v : Verifying) :
    (verifyMembers env codec members names v).map Verifying.reads=
      (verdict contents names v.remaining).map (v.reads++·) := by
  induction names generalizing v with
  | nil => simp [verifyMembers,verdict,Except.map]
  | cons name names ih =>
    have hname := h name List.mem_cons_self
    unfold Contains at hname
    rw [verifyMembers,verdict]
    cases hopen : (members.get name).bind (zipReader codec) with
    | none =>
      rw [hopen] at hname
      cases hcontent : contents name with
      | none => rfl
      | some p =>
        rw [hcontent] at hname
        exact hname.elim
    | some reader =>
      rw [hopen] at hname
      cases hcontent : contents name with
      | none =>
        rw [hcontent] at hname
        exact hname.elim
      | some p =>
        rw [hcontent] at hname
        obtain ⟨left,polls,hdrain⟩ := @drainLoop_eq σ env name
          ⟨reader,v.remaining,v.polls,[]⟩ p hquiet hname
        dsimp only at hdrain ⊢
        rw [hdrain]
        by_cases hlong : v.remaining<p.content.length
        · rw [if_pos hlong,if_pos hlong]
          rfl
        rw [if_neg hlong,if_neg hlong]
        by_cases hbad : p.fails=true
        · rw [if_pos hbad,if_pos hbad]
          rfl
        rw [if_neg hbad,if_neg hbad]
        have hrest := ih (fun n hn => h n (List.mem_cons_of_mem name hn))
          ⟨v.remaining-p.content.length,polls,v.reads++[(name,p.content)]⟩
        simp only [bind,Except.bind,List.nil_append]
        rw [hrest]
        cases verdict contents names (v.remaining-p.content.length) with
        | error halt => rfl
        | ok reads => simp [Except.map]

/-- The bytes of a file. -/
def contentOf (contents : String → Option (Payload UInt8)) (name : String) : List UInt8 :=
  ((contents name).map Payload.content).getD []

/-- A file opens and ends without an error. -/
def Readable (contents : String → Option (Payload UInt8)) (name : String) : Prop :=
  ∃ p, contents name=some p ∧ p.fails=false

def totalLength (contents : String → Option (Payload UInt8)) (names : List String) : ℕ :=
  (names.map fun name => (contentOf contents name).length).sum

/-- A file is the first at which the running sum exceeds a limit; those before it are readable. -/
def FirstOver (contents : String → Option (Payload UInt8)) (names : List String) (limit : ℕ)
    (name : String) : Prop :=
  ∃ before after p, names=before++name::after ∧ (∀ n ∈ before, Readable contents n) ∧
    totalLength contents before≤limit ∧ contents name=some p ∧
    limit<totalLength contents before+p.content.length

/-- The verdict is a success exactly when every file is readable and the sum within the limit. -/
theorem verdict_ok {contents : String → Option (Payload UInt8)} {names : List String} {left : ℕ}
    {reads : List (String×List UInt8)} :
    verdict contents names left=.ok reads ↔ (∀ name ∈ names, Readable contents name) ∧
      totalLength contents names≤left ∧
      reads=names.map fun name => (name,contentOf contents name) := by
  induction names generalizing left reads with
  | nil => simp [verdict,totalLength,eq_comm]
  | cons name names ih =>
    rw [verdict]
    cases hcontent : contents name with
    | none =>
      refine ⟨nofun,fun h => ?_⟩
      obtain ⟨p,hp,-⟩ := h.1 name List.mem_cons_self
      rw [hcontent] at hp
      cases hp
    | some p =>
      have hown : contentOf contents name=p.content := by
        rw [contentOf,hcontent]
        rfl
      have htotal : totalLength contents (name::names)=
          p.content.length+totalLength contents names := by
        rw [totalLength,List.map_cons,List.sum_cons,hown]
        rfl
      dsimp only
      rw [htotal,List.map_cons,hown]
      by_cases hlong : left<p.content.length
      · rw [if_pos hlong]
        refine ⟨nofun,fun h => ?_⟩
        omega
      rw [if_neg hlong]
      by_cases hbad : p.fails=true
      · rw [if_pos hbad]
        refine ⟨nofun,fun h => ?_⟩
        obtain ⟨q,hq,hok⟩ := h.1 name List.mem_cons_self
        rw [hcontent] at hq
        cases hq
        rw [hok] at hbad
        cases hbad
      rw [if_neg hbad,exceptMap_ok]
      constructor
      · rintro ⟨rest,hrest,rfl⟩
        obtain ⟨hall,hsum,rfl⟩ := ih.mp hrest
        refine ⟨fun n hn => ?_,by omega,rfl⟩
        rcases List.mem_cons.mp hn with rfl | hn
        · exact ⟨p,hcontent,by simpa using hbad⟩
        · exact hall n hn
      · rintro ⟨hall,hsum,rfl⟩
        exact ⟨_,ih.mpr ⟨fun n hn => hall n (List.mem_cons_of_mem name hn),by omega,rfl⟩,rfl⟩

theorem sizeRefusal_inj {a b : String} (h : sizeRefusal a=sizeRefusal b) : a=b := by
  have hentry := congrArg ValidationError.entry h
  exact String.toList_inj.mp (DisplayNames.bytes_inj (Option.some.inj hentry))

theorem firstOver_cons {contents : String → Option (Payload UInt8)} {names : List String}
    {left : ℕ} {first : String} : FirstOver contents (first::names) left name ↔
      ∃ p, contents first=some p ∧
        if left<p.content.length then first=name
        else p.fails=false ∧ FirstOver contents names (left-p.content.length) name := by
  have htotal : ∀ {p : Payload UInt8} {before : List String}, contents first=some p →
      totalLength contents (first::before)=p.content.length+totalLength contents before := by
    intro p before hp
    rw [totalLength,List.map_cons,List.sum_cons,contentOf,hp]
    rfl
  constructor
  · rintro ⟨before,after,p,hnames,hall,hsum,hp,hover⟩
    cases before with
    | nil =>
      obtain ⟨rfl,-⟩ := List.cons.inj hnames
      have hlong : left<p.content.length := by
        rw [totalLength,List.map_nil,List.sum_nil,Nat.zero_add] at hover
        exact hover
      exact ⟨p,hp,by rw [if_pos hlong]⟩
    | cons n before =>
      obtain ⟨rfl,hrest⟩ := List.cons.inj hnames
      obtain ⟨q,hq,hok⟩ := hall first List.mem_cons_self
      rw [htotal hq] at hsum hover
      refine ⟨q,hq,?_⟩
      rw [if_neg (by omega)]
      exact ⟨hok,before,after,p,hrest,fun m hm => hall m (List.mem_cons_of_mem first hm),
        by omega,hp,by omega⟩
  · rintro ⟨p,hp,h⟩
    by_cases hlong : left<p.content.length
    · rw [if_pos hlong] at h
      subst h
      refine ⟨[],names,p,rfl,(fun _ hn => nomatch hn),Nat.zero_le _,hp,?_⟩
      rw [totalLength,List.map_nil,List.sum_nil,Nat.zero_add]
      exact hlong
    · rw [if_neg hlong] at h
      obtain ⟨hok,before,after,q,rfl,hall,hsum,hq,hover⟩ := h
      refine ⟨first::before,after,q,rfl,?_,?_,hq,?_⟩
      · intro n hn
        rcases List.mem_cons.mp hn with rfl | hn
        · exact ⟨p,hp,hok⟩
        · exact hall n hn
      · rw [htotal hp]
        omega
      · rw [htotal hp]
        omega

theorem verdict_size {contents : String → Option (Payload UInt8)} {names : List String}
    {left : ℕ} {name : String} :
    verdict contents names left=.error (.validation (sizeRefusal name)) ↔
      FirstOver contents names left name := by
  have hinvalid : (Except.error (.validation invalid) :
      Except (Halt ValidationError) (List (String×List UInt8)))≠
        .error (.validation (sizeRefusal name)) := by
    intro he
    cases he
  induction names generalizing left with
  | nil =>
    refine ⟨nofun,?_⟩
    rintro ⟨before,after,p,hnames,-⟩
    exact absurd hnames (by simp)
  | cons first names ih =>
    rw [verdict,firstOver_cons]
    cases hcontent : contents first with
    | none => exact ⟨fun h => absurd h hinvalid,nofun⟩
    | some p =>
      dsimp only
      constructor
      · intro h
        refine ⟨p,rfl,?_⟩
        by_cases hlong : left<p.content.length
        · rw [if_pos hlong] at h ⊢
          exact sizeRefusal_inj (by injection h with h; injection h)
        rw [if_neg hlong] at h ⊢
        by_cases hbad : p.fails=true
        · rw [if_pos hbad] at h
          exact absurd h hinvalid
        rw [if_neg hbad] at h
        refine ⟨by simpa using hbad,ih.mp ?_⟩
        cases hrest : verdict contents names (left-p.content.length) with
        | error halt =>
          rw [hrest] at h
          exact h
        | ok reads =>
          rw [hrest] at h
          cases h
      · rintro ⟨q,hq,h⟩
        cases hq
        by_cases hlong : left<p.content.length
        · rw [if_pos hlong] at h ⊢
          rw [h]
        rw [if_neg hlong] at h ⊢
        rw [h.1,if_neg Bool.false_ne_true,ih.mpr h.2]
        rfl

theorem validate_expanded {limits : Limits} (h : limits.validate=.ok ()) :
    0 < limits.maxExpandedBytes.val := by
  by_contra hneg
  rw [Limits.validate,if_pos (by simp [not_lt.mp hneg])] at h
  cases h

theorem verifyPayloads_eq {archive : Archive Location}
    {members : SortedMap String (ZipMember Location)} {contents : String → Option (Payload UInt8)}
    (hquiet : env.Quiet) (hzip : archive.reader=.zip members)
    (h : ∀ name ∈ Inventory.fileNames archive.inventory, Contains env codec members contents name) :
    verifyPayloads env codec archive=verdict contents (Inventory.fileNames archive.inventory)
      archive.limits.maxExpandedBytes.val.toNat := by
  have hpos := validate_expanded archive.valid
  have hfits := archive.limits.maxExpandedBytes.property.2
  have hlimit : asU64 archive.limits.maxExpandedBytes=
      archive.limits.maxExpandedBytes.val.toNat := by
    unfold asU64
    omega
  have hread := verifyMembers_eq hquiet h ⟨asU64 archive.limits.maxExpandedBytes,0,[]⟩
  unfold verifyPayloads
  rw [hzip]
  dsimp only at hread ⊢
  rw [hlimit] at hread ⊢
  cases hrun : verifyMembers env codec members (Inventory.fileNames archive.inventory)
      ⟨archive.limits.maxExpandedBytes.val.toNat,0,[]⟩ with
  | error halt =>
    rw [hrun] at hread
    cases hverdict : verdict contents (Inventory.fileNames archive.inventory)
        archive.limits.maxExpandedBytes.val.toNat with
    | error other =>
      rw [hverdict] at hread
      cases hread
      rfl
    | ok reads =>
      rw [hverdict] at hread
      cases hread
  | ok v =>
    rw [hrun] at hread
    have hcheck : checkpoint (ε:=ValidationError) env v.polls=.ok () := by
      unfold checkpoint
      rw [hquiet v.polls]
      rfl
    simp only [bind,Except.bind,hcheck]
    cases hverdict : verdict contents (Inventory.fileNames archive.inventory)
        archive.limits.maxExpandedBytes.val.toNat with
    | error other =>
      rw [hverdict] at hread
      cases hread
    | ok reads =>
      rw [hverdict] at hread
      injection hread with hreads
      rw [hreads]
      rfl

/-- However the readers split their bytes: an entry is read as a whole exactly when it ends within
its limit, with no more than the limit kept and nothing subtracted below zero. The files of a ZIP
archive are accepted exactly when all are readable and their sum is within the limit, each is then
read once and as a whole, and a refusal for size names the first file over the limit. -/
theorem reading_bounded {ε : Type} (hquiet : env.Quiet) :
    (∀ (limit : ℕ) (error : ε) (reader : σ) (stream : List UInt8),
      Delivers env.read reader ⟨stream,false⟩ → (∀ n ≤ stream.length, env.tryReserve n=true) →
      limited env limit error reader=
        if stream.length≤limit then .ok stream else .error (.validation error)) ∧
    (∀ (limit : ℕ) (error : ε) (reader : σ) (k : Keeping σ),
      Relation.ReflTransGen (Goes (limitedStep env limit error)) ⟨reader,[],0⟩ k →
      k.result.length≤limit ∧ limitedStep env limit error k≠.error .underflow) ∧
    ∀ (archive : Archive Location) (members : SortedMap String (ZipMember Location))
      (contents : String → Option (Payload UInt8)), archive.reader=.zip members →
      (∀ name ∈ Inventory.fileNames archive.inventory,
        Contains env codec members contents name) →
      ((∃ reads, verifyPayloads env codec archive=.ok reads) ↔
        (∀ name ∈ Inventory.fileNames archive.inventory, Readable contents name) ∧
        (totalLength contents (Inventory.fileNames archive.inventory) : ℤ)≤
          archive.limits.maxExpandedBytes.val) ∧
      (∀ reads, verifyPayloads env codec archive=.ok reads →
        (reads.map Prod.fst).Nodup ∧ reads=(Inventory.fileNames archive.inventory).map
          fun name => (name,contentOf contents name)) ∧
      ∀ name, verifyPayloads env codec archive=.error (.validation (sizeRefusal name)) ↔
        FirstOver contents (Inventory.fileNames archive.inventory)
          archive.limits.maxExpandedBytes.val.toNat name := by
  refine ⟨?_,?_,?_⟩
  · intro limit error reader stream h hroom
    have hloop := @limitedLoop_eq σ ε env limit error ⟨reader,[],0⟩ ⟨stream,false⟩ hquiet
      (Nat.zero_le limit) h (by
        intro n hn
        dsimp only [List.length_nil] at hn
        exact hroom n (by omega))
    simp only [List.length_nil,Nat.zero_add,List.nil_append,true_and] at hloop
    exact hloop
  · intro limit error reader k h
    have hkept : k.result.length≤limit :=
      visited_keeps (P:=fun k => k.result.length≤limit) (Nat.zero_le limit)
        (fun _ hgo => (limitedStep_next env hgo).2) h
    exact ⟨hkept,limitedStep_sound hkept⟩
  · intro archive members contents hzip h
    have hpos := validate_expanded archive.valid
    have hnodup : (Inventory.fileNames archive.inventory).Nodup :=
      archive.inventory.entries.nodup_keys.sublist (List.filter_sublist.map Prod.fst)
    rw [verifyPayloads_eq hquiet hzip h]
    refine ⟨?_,?_,fun name => verdict_size⟩
    · constructor
      · rintro ⟨reads,hreads⟩
        obtain ⟨hall,hsum,-⟩ := verdict_ok.mp hreads
        exact ⟨hall,by omega⟩
      · rintro ⟨hall,hsum⟩
        exact ⟨_,verdict_ok.mpr ⟨hall,by omega,rfl⟩⟩
    · intro reads hreads
      obtain ⟨-,-,rfl⟩ := verdict_ok.mp hreads
      refine ⟨?_,rfl⟩
      have hnames : ((Inventory.fileNames archive.inventory).map
          fun name => (name,contentOf contents name)).map Prod.fst=
          Inventory.fileNames archive.inventory := by
        rw [List.map_map]
        exact List.map_id _
      rw [hnames]
      exact hnodup

namespace Example

/-- Readers that give at most two bytes at once. -/
def surroundings : Surroundings (Payload UInt8) where
  read := slowRead 2
  isCancelled := fun _ => false
  tryReserve := fun _ => true

/-- Entries are found at their contents; the members are stored. -/
def storedCodec : ZipCodec (Payload UInt8) (Payload UInt8) (Payload UInt8) (Payload UInt8) where
  getEntry := some
  stored := id
  deflateDecoder := id
  verifyingReader := fun _ decoder => decoder

/-- What the two files have. -/
def contents (name : String) : Option (Payload UInt8) :=
  if name="a" then some ⟨[1,2,3],false⟩ else if name="b" then some ⟨[4,5],false⟩ else none

def members : SortedMap String (ZipMember (Payload UInt8)) :=
  (SortedMap.empty.insert "a" ⟨⟨[1,2,3],false⟩,.store,false⟩).insert "b"
    ⟨⟨[4,5],false⟩,.store,false⟩

def record : EntryRecord := ⟨[],⟨0,by decide⟩,⟨0,by decide⟩,false⟩

/-- An archive of the two files under a limit of four bytes. -/
def archive : Archive (Payload UInt8) where
  reader := .zip members
  inventory := ⟨(SortedMap.empty.insert "a" record).insert "b" record,⟨2,0,0⟩⟩
  limits := ⟨1024,64,100,⟨4,by decide⟩,true,fun _ _ => false,thousand,thousand⟩
  valid := by decide

end Example

open Example

/-- Two files of five bytes are refused under a limit of four, by the name of the second, however
the readers split them, and three bytes are read whole under a limit of three. -/
theorem reading_refused :
    limited surroundings 3 () ⟨[1,2,3],false⟩=.ok [1,2,3] ∧
    verifyPayloads surroundings storedCodec archive=.error (.validation (sizeRefusal "b")) := by
  have hread := @reading_bounded _ surroundings _ _ _ storedCodec Unit fun _ => rfl
  have hfiles : Inventory.fileNames archive.inventory=["a","b"] := by decide +kernel
  have hkeys : members.get "a"=some ⟨⟨[1,2,3],false⟩,.store,false⟩ ∧
      members.get "b"=some ⟨⟨[4,5],false⟩,.store,false⟩ := by
    simp [members]
  constructor
  · exact hread.1 3 () _ [1,2,3] (slowRead_delivers (by decide) _) (fun _ _ => rfl)
  · refine ((hread.2.2 archive members contents rfl ?_).2.2 "b").mpr ?_
    · intro name hname
      rw [hfiles] at hname
      rcases List.mem_cons.mp hname with rfl | hname
      · unfold Contains
        rw [hkeys.1]
        exact slowRead_delivers (by decide) _
      · rw [List.mem_singleton.mp hname]
        unfold Contains
        rw [hkeys.2]
        exact slowRead_delivers (by decide) _
    · rw [hfiles]
      refine ⟨["a"],[],⟨[4,5],false⟩,rfl,?_,by decide,rfl,by decide⟩
      intro n hn
      rw [List.mem_singleton.mp hn]
      exact ⟨_,rfl,rfl⟩

end Librairii.PayloadReading
