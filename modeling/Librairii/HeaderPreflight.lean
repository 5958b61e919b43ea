import Librairii.MeasuredLoops
import Librairii.PrefixReaders

/-!
# The preflight of encoded headers

Before a decoder of a 7z archive is made, its encoded header is read up to the methods of its
coders. The reading follows the layout of the container: numbers of one to nine bytes, sizes,
digests with their bits, one folder and its coders.
-/

namespace Librairii.HeaderPreflight

open MeasuredLoops PrefixReaders

/-- Why the preflight ends. -/
inductive Stop where
  | invalid
  /-- A byte outside what was read is looked at. -/
  | outside
  deriving DecidableEq

/-- Readers of the header. -/
abbrev Header (β : Type) := Reads UInt8 Stop β

def Header.take (count : ℕ) : Header (List UInt8) := fun s =>
  if count ≤ s.length then .ok (s.take count,s.drop count) else .error .invalid

def Header.byte : Header UInt8 := do
  let bytes ← Header.take 1
  match bytes[0]? with
  | some b => pure b
  | none => throw .outside

/-- The bit of a byte, counted from the highest. -/
def mask (n : ℕ) : UInt8 := 0x80>>>UInt8.ofNat n

/-- Read the rest of a number behind its first byte, with some bytes read and others left. -/
def numberFrom (first : UInt8) (value n : ℕ) : ℕ → Header ℕ
  | 0 => pure value
  | left+1 =>
    if first &&& mask n=0 then pure (value ||| (first &&& (mask n-1)).toNat<<<(8*n))
    else do
      let b ← Header.byte
      numberFrom first (value ||| b.toNat<<<(8*n)) (n+1) left

def Header.number : Header ℕ := do
  let first ← Header.byte
  numberFrom first 0 0 8

def refuseIf (refused : Bool) : Header Unit := if refused then throw .invalid else pure ()

/-- Read a number up to a ceiling. -/
def Header.count (ceiling : ℕ) : Header ℕ := do
  let n ← Header.number
  refuseIf (ceiling<n)
  pure n

/-- Read a given byte. -/
def Header.expect (byte : UInt8) : Header Unit := do
  let b ← Header.byte
  refuseIf (b≠byte)

def baselineMethod (id : List UInt8) : Bool :=
  !(id=[0x03,0x03,0x04,0x01] || id=[0x03,0x03,0x07,0x01] || id=[0x0b])

def definedCount (flags : List UInt8) (packs : ℕ) : Header ℕ :=
  match (List.range packs).mapM fun i => (flags[i/8]?).map (·&&&mask (i%8)) with
  | some bits => pure (bits.countP (·≠0))
  | none => throw .outside

def digests (packs : ℕ) (all : UInt8) : Header ℕ :=
  if all≠0 then pure packs
  else do
    let flags ← Header.take ((packs+7)/8)
    definedCount flags packs

def record (packs : ℕ) (kind : UInt8) : Header Bool :=
  if kind=0x00 then pure true
  else if kind=0x09 then do
    times Header.number packs
    pure false
  else if kind=0x0a then do
    let all ← Header.byte
    let defined ← digests packs all
    refuseIf (2^64≤defined*4)
    let _ ← Header.take (defined*4)
    pure false
  else throw .invalid

def recordTurn (packs : ℕ) (s : List UInt8) : Except Stop (List UInt8⊕List UInt8) :=
  match (Header.byte >>= record packs).run s with
  | .error stop => .error stop
  | .ok (true,rest) => .ok (.inl rest)
  | .ok (false,rest) => .ok (.inr rest)

theorem take_leaves (count : ℕ) : LeavesEnd (Header.take count) := by
  intro s b rest h
  change (if count ≤ s.length then _ else _)=_ at h
  split at h
  · cases h
    exact List.drop_suffix count s
  · cases h

theorem byte_run {s rest : List UInt8} {b : UInt8} :
    Header.byte.run s=.ok (b,rest) ↔ s=b::rest := by
  cases s with
  | nil => exact ⟨nofun,nofun⟩
  | cons c s =>
    have hrun : Header.byte.run (c::s)=.ok (c,s) := rfl
    rw [hrun]
    constructor
    · intro h
      cases h
      rfl
    · intro h
      cases h
      rfl

theorem byte_leaves : LeavesEnd Header.byte := by
  intro s b rest h
  rw [byte_run.mp h]
  exact List.suffix_cons b rest

theorem number_leaves : LeavesEnd Header.number := by
  refine byte_leaves.bind fun first => ?_
  have hfrom : ∀ (left value n : ℕ), LeavesEnd (numberFrom first value n left) := by
    intro left
    induction left with
    | zero => exact fun value n => LeavesEnd.pure value
    | succ left ih =>
      intro value n
      rw [numberFrom]
      split
      · exact LeavesEnd.pure _
      · exact byte_leaves.bind fun b => ih _ _
  exact hfrom 8 0 0

theorem refuseIf_leaves (refused : Bool) : LeavesEnd (refuseIf refused) := by
  unfold refuseIf
  split
  · exact LeavesEnd.throw _
  · exact LeavesEnd.pure _

theorem definedCount_leaves (flags : List UInt8) (packs : ℕ) :
    LeavesEnd (definedCount flags packs) := by
  unfold definedCount
  split
  · exact LeavesEnd.pure _
  · exact LeavesEnd.throw _

theorem record_leaves (packs : ℕ) (kind : UInt8) : LeavesEnd (record packs kind) := by
  unfold record
  split
  · exact LeavesEnd.pure _
  split
  · exact (number_leaves.times packs).bind fun _ => LeavesEnd.pure _
  split
  · refine byte_leaves.bind fun all => ?_
    have hdigests : LeavesEnd (digests packs all) := by
      unfold digests
      split
      · exact LeavesEnd.pure _
      · exact (take_leaves _).bind fun flags => definedCount_leaves flags packs
    exact hdigests.bind fun defined => (refuseIf_leaves _).bind fun _ =>
      (take_leaves _).bind fun _ => LeavesEnd.pure _
  · exact LeavesEnd.throw _

theorem recordTurn_down {packs : ℕ} {s rest : List UInt8} (h : Goes (recordTurn packs) s rest) :
    rest.length<s.length := by
  unfold Goes recordTurn at h
  cases hbyte : Header.byte.run s with
  | error stop =>
    rw [run_bind_error hbyte] at h
    cases h
  | ok answer =>
    obtain ⟨b,mid⟩ := answer
    rw [run_bind_ok hbyte] at h
    have hfirst := byte_run.mp hbyte
    cases hrecord : (record packs b).run mid with
    | error stop =>
      rw [hrecord] at h
      cases h
    | ok answer =>
      obtain ⟨last,left⟩ := answer
      have hend := (record_leaves packs b mid last left hrecord).length_le
      rw [hrecord] at h
      cases last with
      | true => cases h
      | false =>
        cases h
        rw [hfirst,List.length_cons]
        omega

def records (packs : ℕ) : Header Unit := fun s =>
  (loopDown (recordTurn packs) List.length recordTurn_down s).map ((),·)

def coderStreams (flags : UInt8) : Header Unit :=
  if flags &&& 0x10≠0 then do
    let _ ← Header.count 8
    let _ ← Header.count 8
    pure ()
  else pure ()

def coderProperties (length : ℕ) (flags : UInt8) : Header Unit :=
  if flags &&& 0x20≠0 then do
    let n ← Header.count length
    let _ ← Header.take n
    pure ()
  else pure ()

/-- Read a coder, unless its method is not decoded. -/
def coder (length : ℕ) : Header Unit := do
  let flags ← Header.byte
  refuseIf (flags &&& 0xc0≠0)
  let id ← Header.take (flags &&& 15).toNat
  refuseIf (!baselineMethod id)
  coderStreams flags
  coderProperties length flags

def folder (length : ℕ) : Header Unit := do
  Header.expect 0x07
  Header.expect 0x0b
  let folders ← Header.number
  refuseIf (folders≠1)
  Header.expect 0
  let coders ← Header.count 8
  times (coder length) coders

/-- Read an encoded header up to its coders; another header is left alone. -/
def preflight (length : ℕ) : Header Unit := do
  let kind ← Header.byte
  if kind≠0x17 then pure ()
  else do
    Header.expect 0x06
    let _ ← Header.number
    let packs ← Header.count 10000
    records packs
    folder length

/-- A source that can be sought in, with what was done with it. -/
structure Source where
  bytes : List UInt8
  position : ℕ
  operations : ℕ
  /-- The reads that were asked for: where, and how many bytes. -/
  reads : List (ℕ×ℕ)
  /-- Bytes of memory that were asked for. -/
  allocated : ℕ

/-- What the preflight meets. -/
structure Surroundings where
  /-- Whether an operation on the source fails, by the number of earlier ones. -/
  fails : ℕ → Bool
  /-- Whether memory for so many bytes is granted. -/
  tryReserve : ℕ → Bool

variable (env : Surroundings)

/-- Go to a position. -/
def Source.seek (source : Source) (position : ℕ) : Bool×Source :=
  if env.fails source.operations then (false,{source with operations := source.operations+1})
  else (true,{source with operations := source.operations+1, position := position})

def Source.readExact (source : Source) (count : ℕ) : Option (List UInt8)×Source :=
  let asked := {source with
    operations := source.operations+1
    reads := source.reads++[(source.position,count)]}
  if env.fails source.operations || source.bytes.length<source.position+count then (none,asked)
  else (some ((source.bytes.drop source.position).take count),
    {asked with position := source.position+count})

def leValue (bytes : List UInt8) : ℕ := bytes.foldr (fun b value => b.toNat+256*value) 0

def signature : List UInt8 := [0x37,0x7a,0xbc,0xaf,0x27,0x1c]

/-- Addition within 64 bits. -/
def checkedAdd (a b : ℕ) : Option ℕ := if a+b<2^64 then some (a+b) else none

def check (source : Source) (size headerBytes : ℕ) : Except Stop Unit×Source :=
  match source.seek env 0 with
  | (false,source) => (.error .invalid,source)
  | (true,source) =>
    match source.readExact env 32 with
    | (none,source) => (.error .invalid,source)
    | (some start,source) =>
      if start.take 6≠signature then (.error .invalid,source)
      else
        let offset := leValue ((start.drop 12).take 8)
        let count := leValue ((start.drop 20).take 8)
        match checkedAdd 32 offset with
        | none => (.error .invalid,source)
        | some position =>
          if headerBytes<count || (checkedAdd position count).all (size<·) then
            (.error .invalid,source)
          else
            match source.seek env position with
            | (false,source) => (.error .invalid,source)
            | (true,source) =>
              if env.tryReserve count=false then (.error .invalid,source)
              else
                let source := {source with allocated := source.allocated+count}
                match source.readExact env count with
                | (none,source) => (.error .invalid,source)
                | (some bytes,source) =>
                  match source.seek env 0 with
                  | (false,source) => (.error .invalid,source)
                  | (true,source) =>
                    (((preflight bytes.length).run bytes).map fun _ => (),source)

/-- A number in one of its forms: how many bytes follow the first, and its value. -/
structure NumberForm where
  extra : ℕ
  value : ℕ
  extra_le : extra≤8
  /-- What is above the following bytes fits into the first. -/
  fits : value/256^extra<2^(7-extra)

/-- The bytes of a number: as many leading ones as bytes follow, and the highest bits. -/
def NumberForm.written (number : NumberForm) : List UInt8 :=
  UInt8.ofNat (256-2^(8-number.extra)+number.value/256^number.extra)::
    (List.range number.extra).map fun i => UInt8.ofNat (number.value/256^i)

def byteOf (bits : ℕ → Bool) : UInt8 :=
  (List.range 8).foldl (fun byte i => if bits i then byte ||| mask i else byte) 0

/-- The bytes of bits, filled up with zeros. -/
def writtenBits (bits : List Bool) : List UInt8 :=
  (List.range ((bits.length+7)/8)).map fun j => byteOf fun i => bits.getD (8*j+i) false

/-- A record about some number of packs. -/
inductive Record (packs : ℕ) where
  /-- The size of every pack. -/
  | sizes (numbers : List NumberForm) (length : numbers.length=packs)
  /-- The digest of every pack, of four bytes each. -/
  | allDigests (flag : UInt8) (values : List UInt8) (set : flag≠0)
      (length : values.length=packs*4)
  | digests (defined : List Bool) (values : List UInt8) (packed : defined.length=packs)
      (length : values.length=defined.countP (·)*4)

def Record.written {packs : ℕ} : Record packs → List UInt8
  | .sizes numbers _ => 0x09::(numbers.map NumberForm.written).flatten
  | .allDigests flag values _ _ => 0x0a::flag::values
  | .digests defined values _ _ => 0x0a::0::(writtenBits defined++values)

/-- A coder of the folder. -/
structure Coder where
  /-- The method, of up to fifteen bytes. -/
  id : List UInt8
  /-- The numbers of input and output streams, where they are given. -/
  streams : Option (NumberForm×NumberForm)
  /-- The properties with the form of their length, where they are given. -/
  properties : Option (NumberForm×List UInt8)
  id_length : id.length≤15
  streams_le : ∀ pair ∈ streams, pair.1.value≤8 ∧ pair.2.value≤8
  properties_length : ∀ pair ∈ properties, pair.1.value=pair.2.length

def Coder.flags (coder : Coder) : UInt8 :=
  UInt8.ofNat (coder.id.length+(if coder.streams.isSome then 16 else 0)+
    if coder.properties.isSome then 32 else 0)

def Coder.writtenStreams (coder : Coder) : List UInt8 :=
  match coder.streams with
  | some (inputs,outputs) => inputs.written++outputs.written
  | none => []

def Coder.writtenProperties (coder : Coder) : List UInt8 :=
  match coder.properties with
  | some (length,bytes) => length.written++bytes
  | none => []

def Coder.written (coder : Coder) : List UInt8 :=
  coder.flags::(coder.id++(coder.writtenStreams++coder.writtenProperties))

/-- An encoded header up to its coders. -/
structure EncodedHeader where
  packPosition : NumberForm
  packs : NumberForm
  records : List (Record packs.value)
  folders : NumberForm
  coderCount : NumberForm
  coders : List Coder
  packs_le : packs.value≤10000
  one_folder : folders.value=1
  coders_le : coders.length≤8
  counted : coderCount.value=coders.length

def EncodedHeader.written (header : EncodedHeader) : List UInt8 :=
  0x17::0x06::(header.packPosition.written++(header.packs.written++
    ((header.records.map Record.written).flatten++0x00::0x07::0x0b::(header.folders.written++
      0x00::(header.coderCount.written++(header.coders.map Coder.written).flatten)))))

/-- The eight bytes of a number, the lowest first. -/
def le8 (n : ℕ) : List UInt8 := (List.range 8).map fun i => UInt8.ofNat (n/256^i)

/-- A file with an encoded header that its start header points at. -/
structure Layout where
  header : EncodedHeader
  /-- What follows the coders. -/
  behind : List UInt8
  /-- The version and the digest of the start header. -/
  version : List UInt8
  digest : List UInt8
  before : List UInt8
  after : List UInt8
  version_length : version.length=6
  digest_length : digest.length=4

def Layout.headerBytes (layout : Layout) : List UInt8 := layout.header.written++layout.behind

def Layout.file (layout : Layout) : List UInt8 :=
  signature++(layout.version++(le8 layout.before.length++(le8 layout.headerBytes.length++
    (layout.digest++(layout.before++(layout.headerBytes++layout.after))))))

/-- Written bytes are taken. -/
theorem take_consumes (w : List UInt8) {count : ℕ} (h : w.length=count) :
    Consumes (Header.take count) w w := by
  subst h
  intro rest
  change (if w.length≤(w++rest).length then _ else _)=_
  rw [if_pos (by rw [List.length_append]; omega),List.take_left,List.drop_left]

theorem byte_consumes (b : UInt8) : Consumes Header.byte [b] b := fun _ => byte_run.mpr rfl

theorem first_bits {extra high : ℕ} (he : extra≤8) (hh : high<2^(7-extra)) :
    (∀ n<extra, UInt8.ofNat (256-2^(8-extra)+high) &&& mask n≠0) ∧
    (extra<8 → UInt8.ofNat (256-2^(8-extra)+high) &&& mask extra=0 ∧
      (UInt8.ofNat (256-2^(8-extra)+high) &&& (mask extra-1)).toNat=high) := by
  have hones : ∀ extra : Fin 9, ∀ high : Fin 128, high.val<2^(7-extra.val) → ∀ n : Fin 8,
      n.val<extra.val → UInt8.ofNat (256-2^(8-extra.val)+high.val) &&& mask n.val≠0 := by
    decide +kernel
  have hlast : ∀ extra : Fin 8, ∀ high : Fin 128, high.val<2^(7-extra.val) →
      UInt8.ofNat (256-2^(8-extra.val)+high.val) &&& mask extra.val=0 ∧
      (UInt8.ofNat (256-2^(8-extra.val)+high.val) &&& (mask extra.val-1)).toNat=high.val := by
    decide +kernel
  have hsmall : 2^(7-extra)≤2^7 := Nat.pow_le_pow_right (by decide) (by omega)
  constructor
  · intro n hn
    exact hones ⟨extra,by omega⟩ ⟨high,by omega⟩ hh ⟨n,by omega⟩ hn
  · intro hlt
    exact hlast ⟨extra,hlt⟩ ⟨high,by omega⟩ hh

theorem or_above {value high n : ℕ} (h : value<256^n) :
    value ||| high<<<(8*n)=value+256^n*high := by
  have hpow : 256^n=2^(8*n) := by
    rw [Nat.pow_mul]
  rw [hpow] at h ⊢
  rw [Nat.or_comm,←Nat.shiftLeft_add_eq_or_of_lt h,Nat.shiftLeft_eq,Nat.mul_comm,Nat.add_comm]

theorem numberFrom_consumes (number : NumberForm) : ∀ (left n : ℕ), n+left=8 → n≤number.extra →
    Consumes (numberFrom (UInt8.ofNat (256-2^(8-number.extra)+number.value/256^number.extra))
      (number.value%256^n) n left)
      ((List.range' n (number.extra-n)).map fun i => UInt8.ofNat (number.value/256^i))
      number.value := by
  have hbits := first_bits number.extra_le number.fits
  have hextra := number.extra_le
  intro left
  induction left with
  | zero =>
    intro n hn hle
    have he : number.extra=8 := by omega
    have hfits := number.fits
    have hsmall : number.value<256^8 := by
      rw [he] at hfits
      omega
    have hnone : number.extra-n=0 := by omega
    rw [hnone,show n=8 by omega,Nat.mod_eq_of_lt hsmall]
    exact Consumes.pure _
  | succ left ih =>
    intro n hn hle
    rw [numberFrom]
    have hpos : 0 < 256^n := Nat.pow_pos (by decide)
    by_cases hmore : n<number.extra
    · rw [if_neg (hbits.1 n hmore)]
      have hlist : List.range' n (number.extra-n)=n::List.range' (n+1) (number.extra-(n+1)) := by
        rw [show number.extra-n=number.extra-(n+1)+1 by omega,List.range'_succ]
      have hvalue : number.value%256^n ||| (UInt8.ofNat (number.value/256^n)).toNat<<<(8*n)=
          number.value%256^(n+1) := by
        rw [or_above (Nat.mod_lt _ hpos),UInt8.toNat_ofNat',@Nat.mod_pow_succ number.value 256 n]
      rw [hlist,List.map_cons]
      refine (byte_consumes (UInt8.ofNat (number.value/256^n))).bind ?_
      rw [hvalue]
      exact ih (n+1) (by omega) (by omega)
    · have he : n=number.extra := by omega
      have hlast := hbits.2 (by omega)
      rw [he,if_pos hlast.1,hlast.2,or_above (Nat.mod_lt _ (he ▸ hpos)),Nat.sub_self,
        Nat.mod_add_div]
      exact Consumes.pure _

theorem number_consumes (number : NumberForm) :
    Consumes Header.number number.written number.value := by
  have hfrom := numberFrom_consumes number 8 0 rfl (Nat.zero_le _)
  rw [Nat.pow_zero,Nat.mod_one,Nat.sub_zero,←List.range_eq_range'] at hfrom
  exact (byte_consumes _).bind hfrom

theorem refuseIf_consumes {refused : Bool} (h : refused=false) : Consumes (refuseIf refused) []
    () := by
  rw [h]
  exact Consumes.pure ()

theorem count_consumes {number : NumberForm} {ceiling : ℕ} (h : number.value≤ceiling) :
    Consumes (Header.count ceiling) number.written number.value := by
  have hguard := refuseIf_consumes (decide_eq_false (Nat.not_lt.mpr h))
  have hall := (number_consumes number).bind (f:=fun n => do
    refuseIf (ceiling<n)
    pure n) (hguard.bind (f:=fun _ => pure number.value) (Consumes.pure number.value))
  rw [List.append_nil,List.append_nil] at hall
  exact hall

theorem expect_consumes (b : UInt8) : Consumes (Header.expect b) [b] () := by
  have hguard : Consumes (refuseIf (decide (b≠b))) [] () := refuseIf_consumes (by simp)
  exact (byte_consumes b).bind hguard

theorem byteOf_bit (bits : ℕ → Bool) {n : ℕ} (h : n<8) :
    (byteOf bits &&& mask n≠0) ↔ bits n=true := by
  have hall : ∀ b0 b1 b2 b3 b4 b5 b6 b7 : Bool, ∀ n : Fin 8,
      ([b0,b1,b2,b3,b4,b5,b6,b7].zipIdx.foldl
        (fun byte p => if p.1 then byte ||| mask p.2 else byte) 0 &&& mask n.val≠0) ↔
      [b0,b1,b2,b3,b4,b5,b6,b7].getD n.val false=true := by
    decide +kernel
  have hbits := hall (bits 0) (bits 1) (bits 2) (bits 3) (bits 4) (bits 5) (bits 6) (bits 7) ⟨n,h⟩
  have hbyte : byteOf bits=[bits 0,bits 1,bits 2,bits 3,bits 4,bits 5,bits 6,bits 7].zipIdx.foldl
      (fun byte p => if p.1 then byte ||| mask p.2 else byte) 0 := rfl
  have hbit : [bits 0,bits 1,bits 2,bits 3,bits 4,bits 5,bits 6,bits 7].getD n false=bits n := by
    interval_cases n <;> rfl
  rw [hbyte,←hbit]
  exact hbits

/-- Looking up everything that is there gives everything. -/
theorem mapM_some {α β : Type} {f : α → Option β} {g : α → β} {xs : List α}
    (h : ∀ x ∈ xs, f x=some (g x)) : xs.mapM f=some (xs.map g) := by
  induction xs with
  | nil => rfl
  | cons x xs ih =>
    rw [List.mapM_cons,h x List.mem_cons_self,ih fun y hy => h y (List.mem_cons_of_mem x hy)]
    rfl

theorem definedCount_written (defined : List Bool) :
    definedCount (writtenBits defined) defined.length=pure (defined.countP (·)) := by
  have hlook : ∀ i<defined.length, ((writtenBits defined)[i/8]?).map (·&&&mask (i%8))=
      some (byteOf (fun k => defined.getD (8*(i/8)+k) false) &&& mask (i%8)) := by
    intro i hi
    have hin : i/8<(defined.length+7)/8 := by omega
    rw [writtenBits,List.getElem?_map,List.getElem?_range hin]
    rfl
  have hbit : ∀ i, (byteOf (fun k => defined.getD (8*(i/8)+k) false) &&& mask (i%8)≠0) ↔
      defined.getD i false=true := by
    intro i
    rw [byteOf_bit _ (Nat.mod_lt i (by decide)),Nat.div_add_mod]
  have hdefined : defined=(List.range defined.length).map fun i => defined.getD i false := by
    refine List.ext_getElem (by simp) fun i hi _ => ?_
    simp [List.getD_eq_getElem?_getD,List.getElem?_eq_getElem hi]
  unfold definedCount
  rw [mapM_some fun i hi => hlook i (List.mem_range.mp hi)]
  dsimp only
  conv_rhs => rw [hdefined]
  rw [List.countP_map,List.countP_map]
  congr 1
  refine List.countP_congr fun i _ => ?_
  have hi := hbit i
  simpa using hi

/-- The digests of so many packs are read. -/
theorem values_consumes {defined : ℕ} {values : List UInt8} (hdefined : defined≤10000)
    (h : values.length=defined*4) :
    Consumes (do
      refuseIf (2^64≤defined*4)
      let _ ← Header.take (defined*4)
      (pure false : Header Bool)) values false := by
  have hguard : Consumes (refuseIf (decide (2^64≤defined*4))) [] () :=
    refuseIf_consumes (decide_eq_false (by omega))
  have htake := (take_consumes values h).bind (f:=fun _ => (pure false : Header Bool))
    (Consumes.pure false)
  rw [List.append_nil] at htake
  exact hguard.bind htake

theorem record_consumes {packs : ℕ} (packs_le : packs≤10000) (r : Record packs) :
    Consumes (Header.byte >>= record packs) r.written false := by
  cases r with
  | sizes numbers length =>
    have htimes : Consumes (times Header.number packs) (numbers.map NumberForm.written).flatten
      () := by
      have hall := @Consumes.times UInt8 Stop ℕ Header.number (numbers.map NumberForm.written) (by
        intro w hw
        obtain ⟨number,-,rfl⟩ := List.mem_map.mp hw
        exact ⟨number.value,number_consumes number⟩)
      rw [List.length_map,length] at hall
      exact hall
    have hrecord : Consumes (record packs 0x09) (numbers.map NumberForm.written).flatten false := by
      have hdone := htimes.bind (f:=fun _ => pure false) (Consumes.pure false)
      rw [List.append_nil] at hdone
      exact hdone
    exact (byte_consumes 0x09).bind hrecord
  | allDigests flag values set length =>
    have hall : digests packs flag=pure packs := if_pos set
    have hrecord : Consumes (record packs 0x0a) (flag::values) false := by
      refine (byte_consumes flag).bind ?_
      rw [hall]
      exact (Consumes.pure packs).bind (values_consumes packs_le length)
    exact (byte_consumes 0x0a).bind hrecord
  | digests defined values packed length =>
    have hcount : defined.countP (·)≤10000 := by
      have hle := List.countP_le_length (p:=(·)) (l:=defined)
      omega
    have hflags : (writtenBits defined).length=(packs+7)/8 := by
      rw [writtenBits,List.length_map,List.length_range,packed]
    have hbits : Consumes (definedCount (writtenBits defined) packs) [] (defined.countP (·)) := by
      rw [←packed,definedCount_written]
      exact Consumes.pure _
    have hsome : Consumes (digests packs 0) (writtenBits defined) (defined.countP (·)) := by
      have hdone := (take_consumes (writtenBits defined) hflags).bind
        (f:=fun flags => definedCount flags packs) hbits
      rw [List.append_nil] at hdone
      exact hdone
    have hrecord : Consumes (record packs 0x0a) (0::(writtenBits defined++values)) false :=
      (byte_consumes 0).bind (hsome.bind (values_consumes hcount length))
    exact (byte_consumes 0x0a).bind hrecord

theorem records_consumes {packs : ℕ} (packs_le : packs≤10000) (rs : List (Record packs)) :
    Consumes (records packs) ((rs.map Record.written).flatten++[0x00]) () := by
  induction rs with
  | nil =>
    intro rest
    have hend : (Header.byte >>= record packs).run (0x00::rest)=.ok (true,rest) := by
      have hdone : Consumes (record packs 0x00) [] true := Consumes.pure true
      have hbyte := (byte_consumes 0x00).bind (f:=record packs) hdone
      exact hbyte rest
    change (loopDown (recordTurn packs) List.length recordTurn_down (0x00::rest)).map ((),·)=_
    rw [loopDown_eq,recordTurn,hend]
    rfl
  | cons r rs ih =>
    intro rest
    have hturn := record_consumes packs_le r ((rs.map Record.written).flatten++[0x00]++rest)
    have hrest := ih rest
    change (loopDown (recordTurn packs) List.length recordTurn_down _).map ((),·)=_ at hrest ⊢
    rw [List.map_cons,List.flatten_cons,List.append_assoc,List.append_assoc,
      ←List.append_assoc (rs.map Record.written).flatten,loopDown_eq,recordTurn,hturn]
    exact hrest

theorem flags_bits (coder : Coder) : coder.flags &&& 0xc0=0 ∧
    (coder.flags &&& 15).toNat=coder.id.length ∧
    (coder.flags &&& 0x10≠0 ↔ coder.streams.isSome=true) ∧
    (coder.flags &&& 0x20≠0 ↔ coder.properties.isSome=true) := by
  have hall : ∀ n : Fin 16, ∀ streams properties : Bool,
      let flags := UInt8.ofNat (n.val+(if streams then 16 else 0)+if properties then 32 else 0)
      flags &&& 0xc0=0 ∧ (flags &&& 15).toNat=n.val ∧ (flags &&& 0x10≠0 ↔ streams=true) ∧
        (flags &&& 0x20≠0 ↔ properties=true) := by
    decide +kernel
  have hlength := coder.id_length
  exact hall ⟨coder.id.length,by omega⟩ coder.streams.isSome coder.properties.isSome

theorem streams_consumes (coder : Coder) :
    Consumes (coderStreams coder.flags) coder.writtenStreams () := by
  have hflag := (flags_bits coder).2.2.1
  unfold coderStreams Coder.writtenStreams
  cases hstreams : coder.streams with
  | none =>
    rw [hstreams] at hflag
    rw [if_neg fun hset => Bool.false_ne_true (hflag.mp hset)]
    exact Consumes.pure ()
  | some pair =>
    obtain ⟨inputs,outputs⟩ := pair
    have hle := coder.streams_le _ hstreams
    rw [hstreams] at hflag
    rw [if_pos (hflag.mpr rfl)]
    have hout := (count_consumes hle.2).bind (f:=fun _ => pure ()) (Consumes.pure ())
    rw [List.append_nil] at hout
    exact (count_consumes hle.1).bind hout

theorem properties_consumes (coder : Coder) {length : ℕ}
    (h : coder.writtenProperties.length≤length) :
    Consumes (coderProperties length coder.flags) coder.writtenProperties () := by
  have hflag := (flags_bits coder).2.2.2
  unfold coderProperties
  unfold Coder.writtenProperties at h ⊢
  cases hproperties : coder.properties with
  | none =>
    rw [hproperties] at hflag
    rw [if_neg fun hset => Bool.false_ne_true (hflag.mp hset)]
    exact Consumes.pure ()
  | some pair =>
    obtain ⟨form,bytes⟩ := pair
    have hlength : form.value=bytes.length := coder.properties_length _ hproperties
    rw [hproperties] at hflag h
    rw [if_pos (hflag.mpr rfl)]
    dsimp only at h ⊢
    rw [List.length_append] at h
    have htake := (take_consumes bytes hlength.symm).bind (f:=fun _ => pure ()) (Consumes.pure ())
    rw [List.append_nil] at htake
    exact (count_consumes (by omega)).bind htake

theorem coder_consumes (c : Coder) {length : ℕ} (h : c.written.length≤length)
    (hmethod : baselineMethod c.id=true) : Consumes (coder length) c.written () := by
  obtain ⟨hreserved,hid,-,-⟩ := flags_bits c
  have hproperties : c.writtenProperties.length≤length := by
    rw [Coder.written,List.length_cons,List.length_append,List.length_append] at h
    omega
  have hfirst : Consumes (refuseIf (decide (c.flags &&& 0xc0≠0))) [] () :=
    refuseIf_consumes (by simp [hreserved])
  have hsecond : Consumes (refuseIf (!baselineMethod c.id)) [] () :=
    refuseIf_consumes (by rw [hmethod]; rfl)
  exact (byte_consumes c.flags).bind (hfirst.bind ((take_consumes c.id hid.symm).bind
    (hsecond.bind ((streams_consumes c).bind (properties_consumes c hproperties)))))

theorem coder_rejects (c : Coder) (length : ℕ) (hmethod : baselineMethod c.id=false) :
    Rejects (coder length) c.written := by
  obtain ⟨hreserved,hid,-,-⟩ := flags_bits c
  have hfirst : Consumes (refuseIf (decide (c.flags &&& 0xc0≠0))) [] () :=
    refuseIf_consumes (by simp [hreserved])
  have hsecond : Rejects (refuseIf (!baselineMethod c.id)) [] := by
    intro rest
    rw [hmethod]
    exact ⟨.invalid,rfl⟩
  have hrest := hsecond.bind (f:=fun _ => do
    coderStreams c.flags
    coderProperties length c.flags) (c.writtenStreams++c.writtenProperties)
  rw [List.nil_append] at hrest
  exact (byte_consumes c.flags).rejects (hfirst.rejects ((take_consumes c.id hid.symm).rejects
    hrest))

theorem coders_read {coders : List Coder} {length : ℕ}
    (h : (coders.map Coder.written).flatten.length≤length) :
    ((∀ c ∈ coders, baselineMethod c.id=true) →
      Consumes (times (coder length) coders.length) (coders.map Coder.written).flatten ()) ∧
    ((∃ c ∈ coders, baselineMethod c.id=false) →
      Rejects (times (coder length) coders.length) (coders.map Coder.written).flatten) := by
  have hlength : ∀ c ∈ coders, c.written.length≤length := fun c hc =>
    ((List.sublist_flatten_of_mem (List.mem_map_of_mem hc)).length_le).trans h
  constructor
  · intro hall
    have hread := @Consumes.times UInt8 Stop Unit (coder length) (coders.map Coder.written) (by
      intro w hw
      obtain ⟨c,hc,rfl⟩ := List.mem_map.mp hw
      exact ⟨(),coder_consumes c (hlength c hc) (hall c hc)⟩)
    rw [List.length_map] at hread
    exact hread
  · intro hbad
    obtain ⟨before,c,after,rfl,hbefore,hc⟩ : ∃ before c after, coders=before++c::after ∧
        (∀ d ∈ before, baselineMethod d.id=true) ∧ baselineMethod c.id=false := by
      clear h hlength
      induction coders with
      | nil =>
        obtain ⟨c,hc,-⟩ := hbad
        cases hc
      | cons first rest ih =>
        by_cases hfirst : baselineMethod first.id=true
        · obtain ⟨c,hc,hno⟩ := hbad
          have hrest : ∃ c ∈ rest, baselineMethod c.id=false := by
            rcases List.mem_cons.mp hc with rfl | hc
            · rw [hfirst] at hno
              cases hno
            · exact ⟨c,hc,hno⟩
          obtain ⟨before,d,after,rfl,hbefore,hd⟩ := ih hrest
          refine ⟨first::before,d,after,rfl,fun e he => ?_,hd⟩
          rcases List.mem_cons.mp he with rfl | he
          · exact hfirst
          · exact hbefore e he
        · exact ⟨[],first,rest,rfl,(fun _ he => nomatch he),by simpa using hfirst⟩
    have hread := @Rejects.times UInt8 Stop Unit (coder length) (before.map Coder.written)
      (after.map Coder.written) c.written (by
        intro w hw
        obtain ⟨d,hd,rfl⟩ := List.mem_map.mp hw
        exact ⟨(),coder_consumes d (hlength d (List.mem_append_left _ hd)) (hbefore d hd)⟩)
      (coder_rejects c length hc)
    rw [←List.map_cons,←List.map_append,List.length_map] at hread
    exact hread

/-- The encoded header is read to the end of its coders when the methods of all are decoded, and
rejected otherwise, whatever follows. -/
theorem preflight_read (header : EncodedHeader) {length : ℕ} (h : header.written.length≤length) :
    ((∀ c ∈ header.coders, baselineMethod c.id=true) →
      Consumes (preflight length) header.written ()) ∧
    ((∃ c ∈ header.coders, baselineMethod c.id=false) →
      Rejects (preflight length) header.written) := by
  have hcoders : (header.coders.map Coder.written).flatten.length≤length := by
    unfold EncodedHeader.written at h
    simp only [List.length_cons,List.length_append] at h
    omega
  obtain ⟨hgood,hbad⟩ := coders_read hcoders
  have hcount : Consumes (Header.count 8) header.coderCount.written header.coders.length := by
    rw [←header.counted]
    exact count_consumes (header.counted ▸ header.coders_le)
  have hfolders : Consumes Header.number header.folders.written 1 :=
    header.one_folder ▸ number_consumes header.folders
  have hone : Consumes (refuseIf (decide ((1 : ℕ)≠1))) [] () := refuseIf_consumes (by decide)
  have hrecords := records_consumes header.packs_le header.records
  have hpacks := count_consumes header.packs_le
  have hposition := number_consumes header.packPosition
  have hsplit : header.written=[0x17]++([0x06]++(header.packPosition.written++
      (header.packs.written++(((header.records.map Record.written).flatten++[0x00])++
        ([0x07]++([0x0b]++(header.folders.written++([]++([0x00]++(header.coderCount.written++
          (header.coders.map Coder.written).flatten)))))))))) := by
    simp [EncodedHeader.written]
  rw [hsplit]
  constructor
  · intro hall
    exact (byte_consumes 0x17).bind ((expect_consumes 0x06).bind (hposition.bind (hpacks.bind
      (hrecords.bind ((expect_consumes 0x07).bind ((expect_consumes 0x0b).bind (hfolders.bind
        (hone.bind ((expect_consumes 0).bind (hcount.bind (hgood hall)))))))))))
  · intro hsome
    exact (byte_consumes 0x17).rejects ((expect_consumes 0x06).rejects (hposition.rejects
      (hpacks.rejects (hrecords.rejects ((expect_consumes 0x07).rejects
        ((expect_consumes 0x0b).rejects (hfolders.rejects (hone.rejects
          ((expect_consumes 0).rejects (hcount.rejects (hbad hsome)))))))))))

/-- Readers that only refuse the header. -/
abbrev Refusing {β : Type} (p : Header β) : Prop := FailsOnly (·=Stop.invalid) p

theorem take_refusing (count : ℕ) : Refusing (Header.take count) := by
  intro s e h
  change (if count ≤ s.length then _ else _)=_ at h
  split at h
  · cases h
  · cases h
    rfl

theorem byte_refusing : Refusing Header.byte := by
  intro s e h
  cases s with
  | nil =>
    cases h
    rfl
  | cons b s => cases h

theorem refuseIf_refusing (refused : Bool) : Refusing (refuseIf refused) := by
  unfold refuseIf
  split
  · exact FailsOnly.throw rfl
  · exact FailsOnly.pure _

theorem number_refusing : Refusing Header.number := by
  refine byte_refusing.bind fun {_ first _} _ => ?_
  have hfrom : ∀ (left value n : ℕ), Refusing (numberFrom first value n left) := by
    intro left
    induction left with
    | zero => exact fun value n => FailsOnly.pure value
    | succ left ih =>
      intro value n
      rw [numberFrom]
      split
      · exact FailsOnly.pure _
      · exact byte_refusing.bind fun _ => ih _ _
  exact hfrom 8 0 0

theorem count_refusing (ceiling : ℕ) : Refusing (Header.count ceiling) :=
  number_refusing.bind fun _ => (refuseIf_refusing _).bind fun _ => FailsOnly.pure _

theorem expect_refusing (b : UInt8) : Refusing (Header.expect b) :=
  byte_refusing.bind fun _ => refuseIf_refusing _

/-- The bits of as many bytes as the packs need are all there. -/
theorem definedCount_refusing {flags : List UInt8} {packs : ℕ} (h : flags.length=(packs+7)/8) :
    Refusing (definedCount flags packs) := by
  have hlook : ∀ i ∈ List.range packs, (flags[i/8]?).map (·&&&mask (i%8))=
      some (flags.getD (i/8) 0 &&& mask (i%8)) := by
    intro i hi
    have hi' := List.mem_range.mp hi
    have hin : i/8<flags.length := by omega
    rw [List.getElem?_eq_getElem hin,List.getD_eq_getElem?_getD,List.getElem?_eq_getElem hin]
    rfl
  unfold definedCount
  rw [mapM_some hlook]
  exact FailsOnly.pure _

theorem take_length {count : ℕ} {s bytes rest : List UInt8}
    (h : (Header.take count).run s=.ok (bytes,rest)) : bytes.length=count := by
  change (if count ≤ s.length then _ else _)=_ at h
  split at h
  · cases h
    rw [List.length_take]
    omega
  · cases h

theorem record_refusing (packs : ℕ) (kind : UInt8) : Refusing (record packs kind) := by
  have hdigests : ∀ all, Refusing (digests packs all) := by
    intro all
    unfold digests
    split
    · exact FailsOnly.pure _
    · exact (take_refusing _).bind fun htake => definedCount_refusing (take_length htake)
  unfold record
  split
  · exact FailsOnly.pure _
  split
  · exact (number_refusing.times packs).bind fun _ => FailsOnly.pure _
  split
  · exact byte_refusing.bind fun _ => (hdigests _).bind fun _ => (refuseIf_refusing _).bind fun _ =>
      (take_refusing _).bind fun _ => FailsOnly.pure _
  · exact FailsOnly.throw rfl

theorem records_refusing (packs : ℕ) : Refusing (records packs) := by
  intro s e h
  change (loopDown (recordTurn packs) List.length recordTurn_down s).map ((),·)=_ at h
  cases hloop : loopDown (recordTurn packs) List.length recordTurn_down s with
  | ok rest =>
    rw [hloop] at h
    cases h
  | error stop =>
    rw [hloop] at h
    cases h
    obtain ⟨at_,hturn⟩ := loopDown_error hloop
    unfold recordTurn at hturn
    split at hturn
    · next stop' hrun =>
      cases hturn
      have hrecord : Refusing (Header.byte >>= record packs) :=
        byte_refusing.bind fun _ => record_refusing packs _
      exact hrecord at_ _ hrun
    · cases hturn
    · cases hturn

theorem coder_refusing (length : ℕ) : Refusing (coder length) := by
  have hstreams : ∀ flags, Refusing (coderStreams flags) := by
    intro flags
    unfold coderStreams
    split
    · exact (count_refusing 8).bind fun _ => (count_refusing 8).bind fun _ => FailsOnly.pure _
    · exact FailsOnly.pure _
  have hproperties : ∀ flags, Refusing (coderProperties length flags) := by
    intro flags
    unfold coderProperties
    split
    · exact (count_refusing length).bind fun _ => (take_refusing _).bind fun _ => FailsOnly.pure _
    · exact FailsOnly.pure _
  exact byte_refusing.bind fun _ => (refuseIf_refusing _).bind fun _ => (take_refusing _).bind
    fun _ => (refuseIf_refusing _).bind fun _ => (hstreams _).bind fun _ => hproperties _

theorem preflight_refusing (length : ℕ) : Refusing (preflight length) := by
  have hfolder : Refusing (folder length) :=
    (expect_refusing 0x07).bind fun _ => (expect_refusing 0x0b).bind fun _ =>
      number_refusing.bind fun _ => (refuseIf_refusing _).bind fun _ =>
        (expect_refusing 0).bind fun _ => (count_refusing 8).bind fun _ =>
          (coder_refusing length).times _
  refine byte_refusing.bind fun {_ kind _} _ => ?_
  by_cases hkind : kind≠0x17
  · rw [if_pos hkind]
    exact FailsOnly.pure _
  · rw [if_neg hkind]
    exact (expect_refusing 0x06).bind fun _ => number_refusing.bind fun _ =>
      (count_refusing 10000).bind fun _ => (records_refusing _).bind fun _ => hfolder

theorem leValue_written (n k : ℕ) :
    leValue ((List.range k).map fun i => UInt8.ofNat (n/256^i))=n%256^k := by
  induction k generalizing n with
  | zero => simp [leValue,Nat.mod_one]
  | succ k ih =>
    have hrest : (List.range k).map ((fun i => UInt8.ofNat (n/256^i)) ∘ Nat.succ)=
        (List.range k).map fun i => UInt8.ofNat (n/256/256^i) := by
      refine List.map_congr_left fun i _ => ?_
      change UInt8.ofNat (n/256^(i+1))=_
      rw [Nat.div_div_eq_div_mul,Nat.pow_succ']
    have hvalue : leValue (UInt8.ofNat n::(List.range k).map fun i => UInt8.ofNat (n/256/256^i))=
        (UInt8.ofNat n).toNat+256*(n/256%256^k) := by
      rw [←ih (n/256)]
      rfl
    have hpow : 256^(k+1)=256*256^k := Nat.pow_succ'
    rw [List.range_succ_eq_map,List.map_cons,List.map_map,hrest,Nat.pow_zero,Nat.div_one,hvalue,
      hpow,Nat.mod_mul,UInt8.toNat_ofNat']

/-- A number of 64 bits is read back from its eight bytes. -/
theorem leValue_le8 {n : ℕ} (h : n<2^64) : leValue (le8 n)=n := by
  have hpow : 256^8=2^64 := rfl
  rw [le8,leValue_written,hpow,Nat.mod_eq_of_lt h]

def Layout.start (layout : Layout) : List UInt8 :=
  signature++(layout.version++(le8 layout.before.length++(le8 layout.headerBytes.length++
    layout.digest)))

/-- A file is its start header, what stands before the header, the header and what follows. -/
theorem Layout.file_split (layout : Layout) :
    layout.file=layout.start++(layout.before++(layout.headerBytes++layout.after)) := by
  simp [Layout.file,Layout.start]

theorem Layout.start_fields (layout : Layout) (h : layout.file.length<2^64) :
    layout.start.length=32 ∧ layout.start.take 6=signature ∧
    leValue ((layout.start.drop 12).take 8)=layout.before.length ∧
    leValue ((layout.start.drop 20).take 8)=layout.headerBytes.length := by
  have hv := layout.version_length
  have hd := layout.digest_length
  have h8 : ∀ n, (le8 n).length=8 := by simp [le8]
  have hsig : signature.length=6 := rfl
  have hfile := layout.file_split
  have hlength : layout.start.length=32 := by
    simp only [Layout.start,List.length_append,hv,hd,h8,hsig]
  have htotal : layout.file.length=
      32+(layout.before.length+(layout.headerBytes.length+layout.after.length)) := by
    rw [hfile]
    simp only [List.length_append,hlength]
  have hoffset : layout.start.drop 12=le8 layout.before.length++(le8 layout.headerBytes.length++
      layout.digest) := by
    rw [Layout.start,←List.append_assoc]
    exact List.drop_left' (by rw [List.length_append,hsig,hv])
  have hcount : layout.start.drop 20=le8 layout.headerBytes.length++layout.digest := by
    have hdrop : layout.start.drop 20=(layout.start.drop 12).drop 8 := by rw [List.drop_drop]
    rw [hdrop,hoffset]
    exact List.drop_left' (h8 _)
  refine ⟨hlength,?_,?_,?_⟩
  · exact List.take_left' hsig
  · rw [hoffset,List.take_left' (h8 _),leValue_le8 (by omega)]
  · rw [hcount,List.take_left' (h8 _),leValue_le8 (by omega)]

/-- No operation fails. -/
def Surroundings.Quiet : Prop := ∀ n, env.fails n=false

variable {env}

theorem readExact_there {source : Source} {count : ℕ} (hquiet : env.Quiet)
    (h : source.position+count ≤ source.bytes.length) :
    source.readExact env count=(some ((source.bytes.drop source.position).take count),
      {source with
        operations := source.operations+1
        reads := source.reads++[(source.position,count)]
        position := source.position+count}) := by
  unfold Source.readExact
  rw [hquiet,Bool.false_or,decide_eq_false (Nat.not_lt.mpr h)]
  rfl

/-- The check of a laid out file is the preflight of its header, and leaves the source at its
start. -/
theorem check_layout (layout : Layout) {source : Source} {headerBytes : ℕ} (hquiet : env.Quiet)
    (hbytes : source.bytes=layout.file) (hsize : layout.file.length<2^64)
    (hlimit : layout.headerBytes.length≤headerBytes)
    (hroom : env.tryReserve layout.headerBytes.length=true) :
    ∃ left, check env source layout.file.length headerBytes=
      (((preflight layout.headerBytes.length).run layout.headerBytes).map fun _ => (),left) ∧
      left.position=0 := by
  obtain ⟨hstart,hsignature,hoffset,hcount⟩ := layout.start_fields hsize
  have hfile := layout.file_split
  have htotal : layout.file.length=
      32+(layout.before.length+(layout.headerBytes.length+layout.after.length)) := by
    rw [hfile]
    simp only [List.length_append,hstart]
  have hfirst : (layout.file.drop 0).take 32=layout.start := by
    rw [List.drop_zero,hfile,List.take_left' hstart]
  have hposition : checkedAdd 32 layout.before.length=some (32+layout.before.length) :=
    if_pos (by omega)
  have hend : checkedAdd (32+layout.before.length) layout.headerBytes.length=
      some (32+layout.before.length+layout.headerBytes.length) := if_pos (by omega)
  have hheader : (layout.file.drop (32+layout.before.length)).take layout.headerBytes.length=
      layout.headerBytes := by
    rw [hfile,←List.append_assoc,List.drop_left' (by rw [List.length_append,hstart]),
      List.take_left' rfl]
  have hguard : (decide (headerBytes<layout.headerBytes.length) ||
      (some (32+layout.before.length+layout.headerBytes.length)).all
        fun e => decide (layout.file.length<e))=false := by
    simp only [Option.all_some,Bool.or_eq_false_iff,decide_eq_false_iff_not]
    omega
  unfold check
  simp only [Source.seek,hquiet _,Bool.false_eq_true,if_false]
  rw [readExact_there hquiet (by dsimp only; rw [hbytes]; omega)]
  dsimp only
  rw [hbytes,hfirst,if_neg (not_not.mpr hsignature),hoffset,hcount,hposition]
  dsimp only
  rw [hend,hguard,if_neg Bool.false_ne_true,hroom,if_neg Bool.noConfusion,
    readExact_there hquiet (by dsimp only; omega)]
  dsimp only
  rw [hheader]
  exact ⟨_,rfl,rfl⟩

/-- Going to a position reads nothing and asks for no memory. -/
theorem seek_frame {source left : Source} {position : ℕ} {done : Bool}
    (h : source.seek env position=(done,left)) :
    left.reads=source.reads ∧ left.allocated=source.allocated ∧
      (done=true → left.position=position) := by
  unfold Source.seek at h
  split at h
  · cases h
    exact ⟨rfl,rfl,nofun⟩
  · cases h
    exact ⟨rfl,rfl,fun _ => rfl⟩

theorem readExact_frame {source left : Source} {count : ℕ} {bytes : Option (List UInt8)}
    (h : source.readExact env count=(bytes,left)) :
    left.reads=source.reads++[(source.position,count)] ∧ left.allocated=source.allocated := by
  unfold Source.readExact at h
  dsimp only at h
  split at h
  · cases h
    exact ⟨rfl,rfl⟩
  · cases h
    exact ⟨rfl,rfl⟩

/-- What a check leaves: a success or a refusal, within the memory and the bytes it may use. -/
structure Bounded (source : Source) (size headerBytes : ℕ) (out : Except Stop Unit×Source) :
    Prop where
  ends : out.1=.ok () ∨ out.1=.error .invalid
  memory : out.2.allocated ≤ source.allocated+headerBytes
  reads : ∀ r ∈ out.2.reads, r ∈ source.reads ∨ r=(0,32) ∨ (r.1+r.2 ≤ size ∧ r.2≤headerBytes)

theorem mem_reads {reads : List (ℕ×ℕ)} {r one : ℕ×ℕ} (h : r ∈ reads++[one]) :
    r ∈ reads ∨ r=one := by
  rcases List.mem_append.mp h with h | h
  · exact .inl h
  · exact .inr (List.mem_singleton.mp h)

theorem check_bounded (source : Source) (size headerBytes : ℕ) :
    Bounded source size headerBytes (check env source size headerBytes) := by
  unfold check
  split
  · next s1 h1 =>
    obtain ⟨hr1,ha1,-⟩ := seek_frame h1
    exact ⟨.inr rfl,by dsimp only; omega,fun r hr => .inl (hr1 ▸ hr)⟩
  next s1 h1 =>
  obtain ⟨hr1,ha1,hp1⟩ := seek_frame h1
  have hzero := hp1 rfl
  split
  · next s2 h2 =>
    obtain ⟨hr2,ha2⟩ := readExact_frame h2
    rw [hr1,hzero] at hr2
    refine ⟨.inr rfl,by dsimp only; omega,fun r hr => ?_⟩
    exact (mem_reads (hr2 ▸ hr)).imp_right .inl
  next start s2 h2 =>
  obtain ⟨hr2,ha2⟩ := readExact_frame h2
  rw [hr1,hzero] at hr2
  have hstop : Bounded source size headerBytes (.error .invalid,s2) :=
    ⟨.inr rfl,by dsimp only; omega,fun r hr => (mem_reads (hr2 ▸ hr)).imp_right .inl⟩
  split
  · exact hstop
  dsimp only
  split
  · exact hstop
  next position hposition =>
  split
  · exact hstop
  next hguard =>
  have hfits : leValue ((start.drop 20).take 8)≤headerBytes ∧
      position+leValue ((start.drop 20).take 8) ≤ size := by
    rw [Bool.or_eq_true,not_or,decide_eq_true_eq] at hguard
    obtain ⟨hcount,hend⟩ := hguard
    unfold checkedAdd at hend
    split at hend
    · rw [Option.all_some,decide_eq_true_eq] at hend
      omega
    · exact absurd rfl hend
  split
  · next s3 h3 =>
    obtain ⟨hr3,ha3,-⟩ := seek_frame h3
    refine ⟨.inr rfl,by dsimp only; omega,fun r hr => ?_⟩
    exact hstop.reads r (hr3 ▸ hr)
  next s3 h3 =>
  obtain ⟨hr3,ha3,hp3⟩ := seek_frame h3
  have hat := hp3 rfl
  split
  · refine ⟨.inr rfl,by dsimp only; omega,fun r hr => ?_⟩
    exact hstop.reads r (hr3 ▸ hr)
  have hlater : ∀ {left : Source}, left.reads=s3.reads++[(position,leValue
    ((start.drop 20).take 8))] →
      ∀ r ∈ left.reads, r ∈ source.reads ∨ r=(0,32) ∨ (r.1+r.2 ≤ size ∧ r.2≤headerBytes) := by
    intro left hleft r hr
    rcases mem_reads (hleft ▸ hr) with hr | rfl
    · exact hstop.reads r (hr3 ▸ hr)
    · exact .inr (.inr ⟨hfits.2,hfits.1⟩)
  split
  · next s4 h4 =>
    obtain ⟨hr4,ha4⟩ := readExact_frame h4
    dsimp only at hr4 ha4
    rw [hat] at hr4
    exact ⟨.inr rfl,by dsimp only; omega,hlater hr4⟩
  next bytes s4 h4 =>
  obtain ⟨hr4,ha4⟩ := readExact_frame h4
  dsimp only at hr4 ha4
  rw [hat] at hr4
  split
  · next s5 h5 =>
    obtain ⟨hr5,ha5,-⟩ := seek_frame h5
    exact ⟨.inr rfl,by dsimp only; omega,hlater (hr5.trans hr4)⟩
  · next s5 h5 =>
    obtain ⟨hr5,ha5,-⟩ := seek_frame h5
    refine ⟨?_,by dsimp only; omega,hlater (hr5.trans hr4)⟩
    cases hrun : (preflight bytes.length).run bytes with
    | ok answer => exact .inl rfl
    | error stop =>
      rw [preflight_refusing bytes.length _ _ hrun]
      exact .inr rfl

/-- The check of a written header, placed anywhere in a file whose start header points at it,
succeeds exactly when the methods of all coders are decoded; it has then read the header to the
end of its coders, and the source is back at its start. Every check of any bytes succeeds or
refuses, within the memory and the bytes it may use. -/
theorem preflight_enforced :
    (∀ (layout : Layout) (source : Source) (headerBytes : ℕ), env.Quiet →
      source.bytes=layout.file → layout.file.length<2^64 →
      layout.headerBytes.length≤headerBytes → env.tryReserve layout.headerBytes.length=true →
      ((check env source layout.file.length headerBytes).1=.ok () ↔
        ∀ c ∈ layout.header.coders, baselineMethod c.id=true) ∧
      ((check env source layout.file.length headerBytes).1=.ok () →
        (preflight layout.headerBytes.length).run layout.headerBytes=.ok ((),layout.behind) ∧
        (check env source layout.file.length headerBytes).2.position=0)) ∧
    ∀ (source : Source) (size headerBytes : ℕ),
      Bounded source size headerBytes (check env source size headerBytes) := by
  refine ⟨?_,fun source size headerBytes => check_bounded source size headerBytes⟩
  intro layout source headerBytes hquiet hbytes hsize hlimit hroom
  obtain ⟨left,hcheck,hposition⟩ := check_layout layout hquiet hbytes hsize hlimit hroom
  have hlength : layout.header.written.length≤layout.headerBytes.length := by
    rw [Layout.headerBytes,List.length_append]
    omega
  obtain ⟨hgood,hbad⟩ := preflight_read layout.header hlength
  have hiff : (check env source layout.file.length headerBytes).1=.ok () ↔
      ∀ c ∈ layout.header.coders, baselineMethod c.id=true := by
    rw [hcheck]
    constructor
    · intro h
      by_contra hsome
      push Not at hsome
      obtain ⟨c,hc,hno⟩ := hsome
      obtain ⟨e,he⟩ := hbad ⟨c,hc,by simpa using hno⟩ layout.behind
      change (preflight layout.headerBytes.length).run layout.headerBytes=_ at he
      rw [he] at h
      cases h
    · intro hall
      have hread := hgood hall layout.behind
      change (preflight layout.headerBytes.length).run layout.headerBytes=_ at hread
      rw [hread]
      rfl
  refine ⟨hiff,fun h => ⟨hgood (hiff.mp h) layout.behind,?_⟩⟩
  rw [hcheck]
  exact hposition

namespace Example

/-- A number in its shortest form, of one byte. -/
def short (value : ℕ) (h : value<128) : NumberForm :=
  ⟨0,value,Nat.zero_le 8,by rw [Nat.pow_zero,Nat.div_one]; exact h⟩

/-- A coder of some method, without streams and properties. -/
def plainCoder (id : List UInt8) (h : id.length≤15) : Coder where
  id := id
  streams := none
  properties := none
  id_length := h
  streams_le := nofun
  properties_length := nofun

/-- A header of two packs with their sizes, one digest and two coders, the first an LZMA2
decoder. -/
def header (second : List UInt8) (h : second.length≤15) : EncodedHeader where
  packPosition := ⟨8,2^64-1,by decide,by decide⟩
  packs := short 2 (by decide)
  records := [.sizes [short 5 (by decide),⟨1,300,by decide,by decide⟩] rfl,
    .digests [false,true] [1,2,3,4] rfl rfl]
  folders := ⟨2,1,by decide,by decide⟩
  coderCount := short 2 (by decide)
  coders := [plainCoder [0x21] (by decide),plainCoder second h]
  packs_le := by decide
  one_folder := rfl
  coders_le := Nat.le_of_ble_eq_true rfl
  counted := rfl

/-- A file with the header behind three other bytes. -/
def layout (second : List UInt8) (h : second.length≤15) : Layout where
  header := header second h
  behind := [0x0c,7,0]
  version := [0,4,0,0,0,0]
  digest := [0,0,0,0]
  before := [9,9,9]
  after := [8]
  version_length := rfl
  digest_length := rfl

def surroundings : Surroundings := ⟨fun _ => false,fun _ => true⟩

end Example

open Example

/-- A header whose second coder copies is accepted, one whose second coder is excluded is not. -/
theorem header_decided :
    (check surroundings ⟨(layout [0x00] (by decide)).file,5,0,[],0⟩
      (layout [0x00] (by decide)).file.length 64).1=.ok () ∧
    (check surroundings ⟨(layout [0x0b] (by decide)).file,5,0,[],0⟩
      (layout [0x0b] (by decide)).file.length 64).1≠.ok () := by
  have hlength : ∀ (second : List UInt8) (h : second.length≤15), second.length=1 →
      (layout second h).file.length=74 ∧ (layout second h).headerBytes.length=38 := by
    intro second h hone
    obtain ⟨b,rfl⟩ := List.length_eq_one_iff.mp hone
    exact ⟨rfl,rfl⟩
  constructor
  · obtain ⟨hfile,hheader⟩ := hlength [0x00] (by decide) rfl
    exact ((@preflight_enforced surroundings).1 (layout [0x00] (by decide)) _ 64
      (fun _ => rfl) rfl (by rw [hfile]; decide) (by rw [hheader]; decide) rfl).1.mpr (by decide)
  · obtain ⟨hfile,hheader⟩ := hlength [0x0b] (by decide) rfl
    intro h
    exact absurd (((@preflight_enforced surroundings).1 (layout [0x0b] (by decide)) _ 64
      (fun _ => rfl) rfl (by rw [hfile]; decide) (by rw [hheader]; decide) rfl).1.mp h) (by decide)

end Librairii.HeaderPreflight
