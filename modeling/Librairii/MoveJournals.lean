import Librairii.ExportPreparation
import Librairii.JsonGrammar

/-!
# Journals of library moves

A move is recorded in one file: the canonical JSON text of its intent, and behind it
a receipt that the controls of the source may be retired. The receipt is written over
whatever an interrupted attempt left of it. The reader splits the file at its first
line break, writes the intent again and compares both parts.
-/

namespace Librairii.MoveJournals

open FrozenText JsonGrammar ExportPreparation
open JsonText (bytes)

/-- The errors of journals and intents. -/
inductive JournalError where
  /-- The journal is not one this library can recover from. -/
  | recoveryBindingRequired
  /-- A record is too long. -/
  | hashSizeLimit
  /-- The manifest names an impossible entry. -/
  | settingsDestination
  /-- A name is not one plain component. -/
  | invalidManagedPath
  | invalidIdentity
  /-- A call of the operating system failed. -/
  | io
  deriving DecidableEq

def maxManifestBytes : ℕ := 64*1024*1024

def maxEntries : ℕ := maxManifestBytes/128

def maxJournal : ℕ := maxManifestBytes

/-- The device and the number of a file. -/
structure FileIdentity where
  device : ℕ
  /-- Number of the file on its device. -/
  inode : ℕ
  deriving DecidableEq

/-- One entry of a moved tree. -/
structure MoveEntry where
  /-- Names from the root down. -/
  path : List (List UInt8)
  directory : Bool
  /-- Size of a file. -/
  bytes : ℕ
  /-- Digest of a file. -/
  sha256 : Option String
  /-- The entry itself. -/
  identity : FileIdentity
  /-- Times of the entry. -/
  modified : ℤ×ℤ×ℤ×ℤ
  deriving DecidableEq

/-- The whole tree of a move. -/
structure RelocationManifest where
  /-- Entries in the order they were found. -/
  entries : List MoveEntry
  deriving DecidableEq

/-- What a move is about to do. -/
structure Intent where
  format : String
  version : ℕ
  /-- Identity of the move. -/
  id : String
  rawId : String
  profileSha256 : String
  /-- Root that is left. -/
  source : String
  /-- Root that is entered. -/
  target : String
  /-- Directory the copy is made in. -/
  workspace : String
  selectedWorkspace : Bool
  /-- The root that is left. -/
  sourceDirectory : FileIdentity
  workspaceDirectory : FileIdentity
  emptyTargetDirectory : Option FileIdentity
  /-- Digest of the source's record. -/
  sourceStateSha256 : String
  manifestSha256 : String
  copiedEpoch : ℕ
  /-- The moved tree. -/
  manifest : RelocationManifest
  deriving DecidableEq

/-- The serializer, the parsers, the hash and the look at the file system. -/
structure JournalEnv where
  /-- Write the JSON text of an intent. -/
  toVec : Intent → Option (List UInt8)
  /-- Read the JSON text of an intent. -/
  fromSlice : List UInt8 → Option Intent
  /-- Write the JSON text of a manifest. -/
  manifestToVec : RelocationManifest → Option (List UInt8)
  sha256 : List UInt8 → Checksum
  parsesUuid : String → Bool
  /-- Whether two roots overlap on disk, or the error of the look. -/
  physicalOverlap : String → String → Except JournalError Bool

/-- A plain name: not empty, without separators and zero bytes, and no dots. -/
def entryName (name : List UInt8) : Bool :=
  !name.contains 0 && !name.contains 0x2f && name≠[] && name≠[0x2e] && name≠[0x2e,0x2e]

def MoveEntry.names (entry : MoveEntry) : Except JournalError Unit :=
  if entry.path=[] then .error .settingsDestination
  else if entry.path.all entryName then .ok ()
  else .error .invalidManagedPath

def parsesChecksum (value : String) : Bool :=
  value.utf8ByteSize=64 && (bytes value.toList).all isHexDigit

/-- Check the entries in order, with the paths seen before. -/
def validateEntries : List MoveEntry → List (List (List UInt8)) → Except JournalError Unit
  | [],_ => .ok ()
  | entry::entries,seen =>
    match entry.names with
    | .error error => .error error
    | .ok () =>
      if seen.contains entry.path then .error .settingsDestination
      else if entry.directory then
        if entry.bytes≠0 || entry.sha256.isSome then .error .settingsDestination
        else validateEntries entries (entry.path::seen)
      else if !entry.sha256.any parsesChecksum then .error .settingsDestination
      else validateEntries entries (entry.path::seen)

def RelocationManifest.validate (manifest : RelocationManifest) : Except JournalError Unit :=
  if maxEntries < manifest.entries.length then .error .hashSizeLimit
  else validateEntries manifest.entries []

def RelocationManifest.bytes (env : JournalEnv) (manifest : RelocationManifest) :
    Except JournalError (List UInt8) :=
  match manifest.validate with
  | .error error => .error error
  | .ok () =>
    match env.manifestToVec manifest with
    | none => .error .settingsDestination
    | some text => if maxManifestBytes<text.length then .error .hashSizeLimit else .ok text

def digest (env : JournalEnv) (text : List UInt8) : String := (env.sha256 text).display

/-- The spelling of a library identity; a form of 38 bytes carries the identity
between two delimiters. -/
def rawIdentity (env : JournalEnv) (raw : String) : Bool :=
  let spelling := tagTrim raw
  if spelling.utf8ByteSize=38 then
    match fromUtf8 (((bytes spelling.toList).drop 1).take 36) with
    | none => false
    | some uuid => env.parsesUuid uuid
  else env.parsesUuid spelling

/-- The components of a path, without empty ones and dots. -/
def components (path : String) : List (List Char) :=
  (path.toList.splitOn '/').filter fun part => part≠[] && part≠['.']

/-- An absolute path that never goes up. -/
def plainPath (path : String) : Bool :=
  path.toList.head?=some '/' && !(components path).contains ['.','.']

def parent (path : String) : Option (List (List Char)) :=
  if components path=[] then none else some (components path).dropLast

def fileName (path : String) : Option (List Char) := (components path).getLast?

/-- The workspace is the selected target, or a sibling of it named after the move. -/
def Intent.workspaceFits (intent : Intent) : Bool :=
  if intent.selectedWorkspace then components intent.target=components intent.workspace
  else parent intent.target=parent intent.workspace &&
    fileName intent.workspace=some (".librairii-native-move-"++intent.id).toList

def Intent.validate (env : JournalEnv) (intent : Intent) : Except JournalError Unit :=
  if !env.parsesUuid intent.id then .error .recoveryBindingRequired
  else if !rawIdentity env intent.rawId then .error .invalidIdentity
  else if intent.format≠"librairii.native-relocation" || intent.version≠1 ||
      intent.copiedEpoch=0 then .error .recoveryBindingRequired
  else match intent.manifest.bytes env with
  | .error error => .error error
  | .ok text =>
    if digest env text≠intent.manifestSha256 then .error .recoveryBindingRequired
    else if ! [intent.profileSha256,intent.sourceStateSha256,intent.manifestSha256].all
        parsesChecksum then .error .recoveryBindingRequired
    else if ! [intent.source,intent.target,intent.workspace].all plainPath then
      .error .recoveryBindingRequired
    else if !intent.workspaceFits then .error .recoveryBindingRequired
    else match env.physicalOverlap intent.source intent.target with
    | .error error => .error error
    | .ok true => .error .recoveryBindingRequired
    | .ok false => .ok ()

def Intent.bytes (env : JournalEnv) (intent : Intent) : Except JournalError (List UInt8) :=
  match intent.validate env with
  | .error error => .error error
  | .ok () =>
    match env.toVec intent with
    | none => .error .recoveryBindingRequired
    | some text => if maxJournal<text.length then .error .hashSizeLimit else .ok text

/-- The receipt of a text. -/
def footer (env : JournalEnv) (text : List UInt8) : List UInt8 :=
  JsonText.bytes ("\nretired:"++digest env text++"\n").toList

def decodeJournal (env : JournalEnv) (journal : List UInt8) : Except JournalError (Intent×Bool) :=
  if maxJournal<journal.length then .error .recoveryBindingRequired
  else
    let stop := journal.idxOf 0x0a
    match env.fromSlice (journal.take stop) with
    | none => .error .recoveryBindingRequired
    | some intent =>
      match intent.bytes env with
      | .error error => .error error
      | .ok canonical =>
        if canonical≠journal.take stop then .error .recoveryBindingRequired
        else
          let tail := journal.drop stop
          if !tail.isPrefixOf (footer env canonical) then .error .recoveryBindingRequired
          else .ok (intent,tail≠[] && tail=footer env canonical)

/-- What a store retains of the journal it wrote or admitted. -/
structure JournalWitness where
  /-- The bytes the file holds, or is about to hold. -/
  bytes : List UInt8
  /-- Whether they are known to be written. -/
  initialized : Bool
  deriving DecidableEq

/-- The journal file of a profile and the witness of the running store. -/
structure JournalStore where
  file : Option (List UInt8)
  witness : Option JournalWitness
  deriving DecidableEq

/-- What becomes of one write with its flush. -/
inductive WriteFate where
  /-- All bytes are written and flushed. -/
  | complete
  /-- It fails after some bytes were written. -/
  | torn (written : ℕ)

/-- The bytes a write puts into the file. -/
def WriteFate.written (fate : WriteFate) (data : List UInt8) : List UInt8 :=
  match fate with
  | .complete => data
  | .torn n => data.take n

/-- Put bytes at a place inside a file. -/
def writeAt (file : List UInt8) (place : ℕ) (data : List UInt8) : List UInt8 :=
  file.take place++(data++file.drop (place+data.length))

def readMoveJournal (s : JournalStore) : Except JournalError (Option (List UInt8)) :=
  match s.file with
  | none => .ok none
  | some file => if maxJournal<file.length then .error .recoveryBindingRequired else .ok (some file)

/-- Compare the file with the witness. -/
def revalidateMoveJournal (s : JournalStore) : Except JournalError Unit :=
  match s.witness,s.file with
  | none,_ => .error .recoveryBindingRequired
  | some _,none => .error .io
  | some witness,some file =>
    let read := file.take (maxJournal+1)
    if witness.initialized then
      if read=witness.bytes then .ok () else .error .recoveryBindingRequired
    else if read.isPrefixOf witness.bytes then .ok () else .error .recoveryBindingRequired

/-- Retain the named journal when it holds the expected bytes. -/
def admitMoveJournal (expected : List UInt8) (s : JournalStore) :
    Except JournalError Unit×JournalStore :=
  match readMoveJournal s with
  | .error error => (.error error,s)
  | .ok none => (.error .recoveryBindingRequired,s)
  | .ok (some file) =>
    if file≠expected then (.error .recoveryBindingRequired,s)
    else
      let next := {s with witness := some ⟨expected,true⟩}
      (revalidateMoveJournal next,next)

/-- Write the receipt of an intent behind its text. -/
def acknowledgeMoveRetirement (env : JournalEnv) (intent : List UInt8) (fate : WriteFate)
    (s : JournalStore) : Except JournalError Unit×JournalStore :=
  match revalidateMoveJournal s with
  | .error error => (.error error,s)
  | .ok () =>
    match s.witness,s.file with
    | some witness,some file =>
      if !intent.isPrefixOf witness.bytes ||
          !(witness.bytes.drop intent.length).isPrefixOf (footer env intent) then
        (.error .recoveryBindingRequired,s)
      else
        let file := writeAt file intent.length (fate.written (footer env intent))
        match fate with
        | .torn _ => (.error .io,⟨some file,some ⟨intent++footer env intent,false⟩⟩)
        | .complete =>
          let next := ⟨some file,some ⟨intent++footer env intent,true⟩⟩
          (revalidateMoveJournal next,next)
    | _,_ => (.error .recoveryBindingRequired,s)

/-- What serialization promises of the texts of intents. -/
structure Written (env : JournalEnv) : Prop where
  /-- A written intent is read again. -/
  reads : ∀ i text, env.toVec i=some text → env.fromSlice text=some i
  line : ∀ i text, env.toVec i=some text → 0x0a ∉ text
  /-- No proper beginning of a text is a text. -/
  whole : ∀ i text front, env.toVec i=some text → front<+:text → front≠text →
    env.fromSlice front=none

def journal (env : JournalEnv) (text : List UInt8) : List UInt8 := text++footer env text

theorem footer_cons (env : JournalEnv) (text : List UInt8) :
    ∃ rest, footer env text=0x0a::rest := by
  rw [footer,String.toList_append,String.toList_append,List.append_assoc]
  exact ⟨_,rfl⟩

theorem footer_length (env : JournalEnv) (text : List UInt8) : (footer env text).length=74 := by
  have hvalid := Checksum.display_valid (env.sha256 text)
  rw [OperationCreation.validHash,Bool.and_eq_true,decide_eq_true_eq] at hvalid
  have hsize := hvalid.1
  rw [DisplayNames.utf8ByteSize_eq] at hsize
  have hfirst : (bytes "\nretired:".toList).length=9 := by decide +kernel
  have hlast : (bytes "\n".toList).length=1 := by decide +kernel
  rw [footer,String.toList_append,String.toList_append,JsonText.bytes_append,
    JsonText.bytes_append,List.length_append,List.length_append,hfirst,hlast,digest,hsize]

variable {text : List UInt8} {env : JournalEnv} {i : Intent}

theorem Intent.bytes_ok (h : i.bytes env=.ok text) :
    env.toVec i=some text ∧ text.length ≤ maxJournal := by
  unfold Intent.bytes at h
  split at h
  · cases h
  · split at h
    · cases h
    · next hvec =>
      split at h
      · cases h
      · next hsize =>
        cases h
        exact ⟨hvec,not_lt.mp hsize⟩

variable {tail : List UInt8}

theorem idxOf_journal {receipt : List UInt8} (hline : 0x0a ∉ text)
    (hreceipt : ∃ rest, receipt=0x0a::rest) (htail : tail<+:receipt) :
    (text++tail).idxOf 0x0a=text.length := by
  rw [List.idxOf_append_of_notMem hline]
  obtain ⟨rest,hrest⟩ := hreceipt
  cases tail with
  | nil => rfl
  | cons b tail =>
    have hhead : b=0x0a := by
      rw [hrest] at htail
      exact (List.cons_prefix_cons.mp htail).1
    rw [hhead,List.idxOf_cons_self]
    rfl

/-- Exactly the texts of intents are decoded, with a beginning of their receipt. -/
theorem decodeJournal_iff (hw : Written env) {bytes : List UInt8} {retired : Bool} :
    decodeJournal env bytes=.ok (i,retired) ↔
      ∃ text tail, i.bytes env=.ok text ∧ bytes=text++tail ∧ tail<+:footer env text ∧
        bytes.length ≤ maxJournal ∧ retired=decide (tail=footer env text) := by
  constructor
  · intro h
    unfold decodeJournal at h
    split at h
    · cases h
    · next hsize =>
      dsimp only at h
      split at h
      · cases h
      · split at h
        · cases h
        · next canonical hcanonical =>
          split at h
          · cases h
          · next hsame =>
            split at h
            · cases h
            · next hprefix =>
              simp only [Except.ok.injEq,Prod.mk.injEq] at h
              have hsplit : bytes=canonical++bytes.drop (bytes.idxOf 0x0a) := by
                rw [not_not.mp hsame,List.take_append_drop]
              refine ⟨canonical,bytes.drop (bytes.idxOf 0x0a),h.1 ▸ hcanonical,hsplit,
                by simpa using hprefix,not_lt.mp hsize,?_⟩
              rw [←h.2]
              obtain ⟨rest,hrest⟩ := footer_cons env canonical
              by_cases hfull : bytes.drop (bytes.idxOf 0x0a)=footer env canonical
              · rw [hfull,hrest]
                simp
              · simp [hfull]
  · rintro ⟨text,tail,hbytes,rfl,htail,hsize,rfl⟩
    obtain ⟨hvec,-⟩ := Intent.bytes_ok hbytes
    have hstop := idxOf_journal (hw.line i text hvec) (footer_cons env text) htail
    have hread := hw.reads i text hvec
    obtain ⟨rest,hrest⟩ := footer_cons env text
    unfold decodeJournal
    rw [if_neg (not_lt.mpr hsize)]
    dsimp only
    rw [hstop,List.take_left,List.drop_left,hread]
    dsimp only
    rw [hbytes]
    dsimp only
    rw [if_neg (not_not.mpr rfl),if_neg (by simpa using htail)]
    by_cases hfull : tail=footer env text
    · rw [hfull,hrest]
      simp
    · simp [hfull]

theorem exists_error {α : Type} {result : Except JournalError α}
    (h : ∀ a, result≠.ok a) : ∃ e, result=.error e := by
  cases result with
  | error e => exact ⟨e,rfl⟩
  | ok a => exact absurd rfl (h a)

variable {front : List UInt8}

theorem decodeJournal_torn (hw : Written env) (htext : i.bytes env=.ok text) (hfront : front<+:text)
    (hshort : front.length<text.length) : ∃ e, decodeJournal env front=.error e := by
  obtain ⟨hvec,-⟩ := Intent.bytes_ok htext
  refine exists_error ?_
  rintro ⟨i',retired⟩ h
  obtain ⟨text',tail,htext',hsplit,htail,-,-⟩ := (decodeJournal_iff hw).mp h
  obtain ⟨hvec',-⟩ := Intent.bytes_ok htext'
  have hline : 0x0a ∉ front := fun hmem => hw.line i text hvec (hfront.subset hmem)
  have hnil : tail=[] := by
    cases tail with
    | nil => rfl
    | cons b tail =>
      obtain ⟨rest,hrest⟩ := footer_cons env text'
      rw [hrest] at htail
      have hb := (List.cons_prefix_cons.mp htail).1
      rw [hsplit,hb] at hline
      exact absurd (List.mem_append_right text' List.mem_cons_self) hline
  rw [hnil,List.append_nil] at hsplit
  have hne : front≠text := by
    intro heq
    rw [heq] at hshort
    omega
  have hnone := hw.whole i text front hvec hfront hne
  rw [hsplit,hw.reads i' text' hvec'] at hnone
  cases hnone

/-- A beginning of a journal that holds the whole text is a text with a beginning of
its receipt. -/
theorem split_journal (hfront : front<+:journal env text) (hlong : text.length≤front.length) :
    ∃ tail, front=text++tail ∧ tail<+:footer env text := by
  have htext : text<+:front :=
    List.prefix_of_prefix_length_le (List.prefix_append text (footer env text)) hfront hlong
  obtain ⟨tail,rfl⟩ := htext
  exact ⟨tail,rfl,(List.prefix_append_right_inj text).mp hfront⟩

theorem journal_length (h : text.length ≤ maxJournal-80) :
    (journal env text).length ≤ maxJournal := by
  have hsmall : 80 ≤ maxJournal := by decide
  rw [journal,List.length_append,footer_length]
  omega

theorem decodeJournal_front (hw : Written env) (htext : i.bytes env=.ok text)
    (hsize : text.length ≤ maxJournal-80) (hfront : front<+:journal env text)
    (hlong : text.length≤front.length) :
    decodeJournal env front=.ok (i,decide (front=journal env text)) := by
  obtain ⟨tail,hsplit,htail⟩ := split_journal hfront hlong
  refine (decodeJournal_iff hw).mpr ⟨text,tail,htext,hsplit,htail,
    hfront.length_le.trans (journal_length hsize),?_⟩
  rw [hsplit,journal]
  simp

theorem other_not_prefix (hw : Written env) {i' : Intent} {text' held : List UInt8}
    (htext : i.bytes env=.ok text) (htext' : i'.bytes env=.ok text')
    (hne : i'≠i) (hheld : held<+:journal env text) : ¬text'<+:held := by
  intro hpre
  obtain ⟨hvec,-⟩ := Intent.bytes_ok htext
  obtain ⟨hvec',-⟩ := Intent.bytes_ok htext'
  have hread := hw.reads i text hvec
  have hread' := hw.reads i' text' hvec'
  have hjournal := hpre.trans hheld
  by_cases hshort : text'.length≤text.length
  · have hfront : text'<+:text :=
      List.prefix_of_prefix_length_le hjournal (List.prefix_append text (footer env text)) hshort
    by_cases heq : text'=text
    · rw [heq,hread] at hread'
      exact hne (Option.some.inj hread').symm
    · have hnone := hw.whole i text text' hvec hfront heq
      rw [hread'] at hnone
      cases hnone
  · obtain ⟨tail,hsplit,htail⟩ := split_journal hjournal (by omega)
    cases tail with
    | nil =>
      rw [List.append_nil] at hsplit
      rw [hsplit] at hshort
      exact hshort le_rfl
    | cons b tail =>
      obtain ⟨rest,hrest⟩ := footer_cons env text
      rw [hrest] at htail
      refine hw.line i' text' hvec' ?_
      rw [hsplit,(List.cons_prefix_cons.mp htail).1]
      exact List.mem_append_right text List.mem_cons_self

/-- Writing a beginning of a text over another beginning of it leaves a beginning. -/
theorem overwrite_front {full : List UInt8} (h : tail<+:full) (n : ℕ) :
    full.take n++tail.drop (full.take n).length<+:full := by
  rw [List.prefix_iff_eq_take.mp h]
  by_cases hn : (full.take n).length≤tail.length
  · have hstart : full.take n<+:full.take tail.length := by
      rw [List.prefix_take_iff]
      exact ⟨List.take_prefix n full,hn⟩
    obtain ⟨rest,hrest⟩ := hstart
    rw [←hrest,List.drop_left,hrest]
    exact List.take_prefix tail.length full
  · rw [List.drop_of_length_le,List.append_nil]
    · exact List.take_prefix n full
    · rw [List.length_take]
      omega

/-- The file holds the text and a beginning of its receipt; what the store retains
agrees with it. -/
structure Held (env : JournalEnv) (text : List UInt8) (s : JournalStore) : Prop where
  /-- The file is a beginning of the journal that holds the text. -/
  named : ∃ tail, s.file=some (text++tail) ∧ tail<+:footer env text
  /-- A witness known to be written is the file, another one the whole journal. -/
  retained : ∀ witness, s.witness=some witness →
    if witness.initialized=true then s.file=some witness.bytes
    else witness.bytes=journal env text

theorem Held.witness {env : JournalEnv} {text : List UInt8} {s : JournalStore}
    (h : Held env text s) {witness : JournalWitness} (hs : s.witness=some witness) :
    ∃ tail, witness.bytes=text++tail ∧ tail<+:footer env text := by
  have hadopt := h.retained witness hs
  by_cases hinit : witness.initialized=true
  · rw [if_pos hinit] at hadopt
    obtain ⟨tail,hfile,htail⟩ := h.named
    rw [hfile] at hadopt
    exact ⟨tail,(Option.some.inj hadopt).symm,htail⟩
  · rw [if_neg hinit] at hadopt
    exact ⟨footer env text,hadopt,List.prefix_rfl⟩

theorem Held.length (hsize : text.length ≤ maxJournal-80) (htail : tail<+:footer env text) :
    (text++tail).length ≤ maxJournal := by
  have hlength := htail.length_le
  have hsmall : 80 ≤ maxJournal := by decide
  rw [footer_length] at hlength
  rw [List.length_append]
  omega

variable {s : JournalStore}

theorem Held.revalidates (h : Held env text s) (hsize : text.length ≤ maxJournal-80)
    {witness : JournalWitness} (hs : s.witness=some witness) : revalidateMoveJournal s=.ok () := by
  obtain ⟨tail,hfile,htail⟩ := h.named
  have hadopt := h.retained witness hs
  have hfits := Held.length hsize htail
  have hwhole : (text++tail).take (maxJournal+1)=text++tail :=
    List.take_of_length_le (by omega)
  unfold revalidateMoveJournal
  rw [hs,hfile]
  dsimp only
  rw [hwhole]
  by_cases hinit : witness.initialized=true
  · rw [if_pos hinit,hfile] at hadopt
    rw [if_pos hinit,if_pos (Option.some.inj hadopt)]
  · rw [if_neg hinit] at hadopt
    rw [if_neg hinit,hadopt,if_pos]
    simpa [journal] using htail

theorem writeAt_append (text tail data : List UInt8) :
    writeAt (text++tail) text.length data=text++(data++tail.drop data.length) := by
  rw [writeAt,List.take_left,List.drop_append,List.drop_of_length_le (by omega),List.nil_append,
    Nat.add_sub_cancel_left]

/-- The retired intent passes the checks before its receipt is written. -/
theorem Held.checks {env : JournalEnv} {text : List UInt8} {s : JournalStore}
    (h : Held env text s) {witness : JournalWitness} (hs : s.witness=some witness) :
    ¬(!text.isPrefixOf witness.bytes ||
      !(witness.bytes.drop text.length).isPrefixOf (footer env text))=true := by
  obtain ⟨tail,hbytes,htail⟩ := h.witness hs
  have hfront : text.isPrefixOf (text++tail)=true := by simp
  have hrest : tail.isPrefixOf (footer env text)=true := by simpa using htail
  rw [hbytes,List.drop_left,hfront,hrest]
  decide

theorem Held.adopt (h : Held env text s) (hsize : text.length ≤ maxJournal-80)
    (hfile : s.file=some (text++tail)) (htail : tail<+:footer env text) :
    admitMoveJournal (text++tail) s=(.ok (),⟨s.file,some ⟨text++tail,true⟩⟩) ∧
      Held env text ⟨s.file,some ⟨text++tail,true⟩⟩ := by
  have hfits := Held.length hsize htail
  have hnext : Held env text ⟨s.file,some ⟨text++tail,true⟩⟩ := by
    refine ⟨h.named,?_⟩
    intro witness hwitness
    rw [←Option.some.inj hwitness,if_pos rfl]
    exact hfile
  have hread : readMoveJournal s=.ok (some (text++tail)) := by
    rw [readMoveJournal,hfile]
    dsimp only
    rw [if_neg (not_lt.mpr hfits)]
  refine ⟨?_,hnext⟩
  rw [admitMoveJournal,hread]
  dsimp only
  rw [if_neg (not_not.mpr rfl),hnext.revalidates hsize rfl]

/-- An acknowledgement of the retained intent that is written out completes the
journal. -/
theorem Held.acknowledge (h : Held env text s) (hsize : text.length ≤ maxJournal-80)
    {witness : JournalWitness} (hs : s.witness=some witness) :
    acknowledgeMoveRetirement env text .complete s=
      (.ok (),⟨some (journal env text),some ⟨journal env text,true⟩⟩) := by
  obtain ⟨tail,hfile,htail⟩ := h.named
  have hfull : (footer env text)++tail.drop (footer env text).length=footer env text := by
    rw [List.drop_of_length_le htail.length_le,List.append_nil]
  have hnext : Held env text ⟨some (journal env text),some ⟨journal env text,true⟩⟩ := by
    refine ⟨⟨footer env text,rfl,List.prefix_rfl⟩,?_⟩
    intro witness hwitness
    rw [←Option.some.inj hwitness,if_pos rfl]
  have hchecks := h.checks hs
  unfold acknowledgeMoveRetirement
  rw [h.revalidates hsize hs]
  dsimp only
  rw [hs,hfile]
  dsimp only
  rw [if_neg hchecks,WriteFate.written,writeAt_append,hfull]
  exact Prod.ext (hnext.revalidates hsize rfl) rfl

theorem Held.acknowledge_held (h : Held env text s) (hsize : text.length ≤ maxJournal-80)
    (fate : WriteFate) : Held env text (acknowledgeMoveRetirement env text fate s).2 := by
  cases hs : s.witness with
  | none =>
    have hrefused :
        acknowledgeMoveRetirement env text fate s=(.error .recoveryBindingRequired,s) := by
      unfold acknowledgeMoveRetirement revalidateMoveJournal
      rw [hs]
    rw [hrefused]
    exact h
  | some witness =>
    cases fate with
    | complete =>
      rw [h.acknowledge hsize hs]
      refine ⟨⟨footer env text,rfl,List.prefix_rfl⟩,?_⟩
      intro witness hwitness
      rw [←Option.some.inj hwitness,if_pos rfl]
    | torn n =>
      obtain ⟨tail,hfile,htail⟩ := h.named
      have hchecks := h.checks hs
      unfold acknowledgeMoveRetirement
      rw [h.revalidates hsize hs]
      dsimp only
      rw [hs,hfile]
      dsimp only
      rw [if_neg hchecks,WriteFate.written,writeAt_append]
      refine ⟨⟨_,rfl,overwrite_front htail n⟩,?_⟩
      intro witness hwitness
      rw [←Option.some.inj hwitness]
      rfl

/-- An acknowledgement of another intent changes nothing. -/
theorem Held.other {env : JournalEnv} (hw : Written env) {i i' : Intent}
    {text text' : List UInt8} {s : JournalStore} (h : Held env text s)
    (htext : i.bytes env=.ok text) (htext' : i'.bytes env=.ok text') (hne : i'≠i)
    (hsize : text.length ≤ maxJournal-80) (fate : WriteFate) :
    acknowledgeMoveRetirement env text' fate s=(.error .recoveryBindingRequired,s) := by
  cases hs : s.witness with
  | none =>
    unfold acknowledgeMoveRetirement revalidateMoveJournal
    rw [hs]
  | some witness =>
    obtain ⟨tail,hfile,-⟩ := h.named
    obtain ⟨tail',hbytes,htail'⟩ := h.witness hs
    have hheld : witness.bytes<+:journal env text := by
      rw [hbytes,journal,List.prefix_append_right_inj]
      exact htail'
    have hnot := other_not_prefix hw htext htext' hne hheld
    unfold acknowledgeMoveRetirement
    rw [h.revalidates hsize hs]
    dsimp only
    rw [hs,hfile]
    dsimp only
    rw [if_pos]
    have hfalse : text'.isPrefixOf witness.bytes=false := by
      rw [Bool.eq_false_iff]
      intro hpre
      exact hnot (List.isPrefixOf_iff_prefix.mp hpre)
    rw [hfalse]
    rfl

/-- What happens to a journal before it is retired. -/
inductive Attempt where
  /-- Recovery admits the bytes it read. -/
  | adopt
  /-- The receipt is written, perhaps in part. -/
  | acknowledge (fate : WriteFate)
  /-- The process ends; nothing is retained. -/
  | restart

def attempt (env : JournalEnv) (text : List UInt8) (s : JournalStore) : Attempt → JournalStore
  | .adopt =>
    match s.file with
    | none => s
    | some file => (admitMoveJournal file s).2
  | .acknowledge fate => (acknowledgeMoveRetirement env text fate s).2
  | .restart => {s with witness := none}

def attempts (env : JournalEnv) (text : List UInt8) (list : List Attempt) (s : JournalStore) :
    JournalStore := list.foldl (attempt env text) s

theorem Held.attempt (h : Held env text s) (hsize : text.length ≤ maxJournal-80) (a : Attempt) :
    Held env text (attempt env text s a) := by
  cases a with
  | adopt =>
    obtain ⟨tail,hfile,htail⟩ := h.named
    have hadopt := h.adopt hsize hfile htail
    rw [MoveJournals.attempt,hfile]
    dsimp only
    rw [hadopt.1]
    exact hadopt.2
  | acknowledge fate => exact h.acknowledge_held hsize fate
  | restart => exact ⟨h.named,fun _ hwitness => nomatch hwitness⟩

theorem Held.attempts (hsize : text.length ≤ maxJournal-80) (list : List Attempt)
    (h : Held env text s) : Held env text (attempts env text list s) := by
  induction list generalizing s with
  | nil => exact h
  | cons a list ih => exact ih (h.attempt hsize a)

/-- The journal of an intent that can be created is classified at every length: a
beginning without the whole text is refused, one with it is the unretired intent, and
the whole journal the retired one. Whatever attempts were made, admitting the file and
acknowledging the intent completes the journal, and acknowledging another intent
changes nothing. Nothing is accepted but the text of an intent with a beginning of its
own receipt. -/
theorem journals_classified (env : JournalEnv) (hw : Written env) :
    (∀ i text, i.bytes env=.ok text → text.length ≤ maxJournal-80 →
      ∀ front, front<+:journal env text →
        (front.length<text.length → ∃ e, decodeJournal env front=.error e) ∧
        (text.length≤front.length → front.length<(journal env text).length →
          decodeJournal env front=.ok (i,false)) ∧
        (front=journal env text → decodeJournal env front=.ok (i,true)) ∧
        (text.length≤front.length → ∀ list : List Attempt,
          ∃ file, (attempts env text list ⟨some front,none⟩).file=some file ∧
            (∃ retired, decodeJournal env file=.ok (i,retired)) ∧
            ∃ s, admitMoveJournal file (attempts env text list ⟨some front,none⟩)=(.ok (),s) ∧
              (∃ s', acknowledgeMoveRetirement env text .complete s=(.ok (),s') ∧
                s'.file=some (journal env text)) ∧
              ∀ i' text', i'≠i → i'.bytes env=.ok text' → ∀ fate,
                acknowledgeMoveRetirement env text' fate s=(.error .recoveryBindingRequired,s))) ∧
    ∀ bytes i retired, decodeJournal env bytes=.ok (i,retired) ↔
      ∃ text tail, i.bytes env=.ok text ∧ bytes=text++tail ∧ tail<+:footer env text ∧
        bytes.length ≤ maxJournal ∧ retired=decide (tail=footer env text) := by
  refine ⟨?_,fun bytes i retired => decodeJournal_iff hw⟩
  intro i text htext hsize front hfront
  have hdecode := decodeJournal_front hw htext hsize hfront
  refine ⟨?_,?_,?_,?_⟩
  · intro hshort
    refine decodeJournal_torn hw htext ?_ hshort
    exact List.prefix_of_prefix_length_le hfront (List.prefix_append text (footer env text))
      hshort.le
  · intro hlong hopen
    have hne : front≠journal env text := by
      intro heq
      rw [heq] at hopen
      omega
    rw [hdecode hlong,decide_eq_false hne]
  · intro hfull
    rw [hdecode (by rw [hfull,journal,List.length_append]; omega),decide_eq_true hfull]
  · intro hlong list
    obtain ⟨tail,hsplit,htail⟩ := split_journal hfront hlong
    have hstart : Held env text ⟨some front,none⟩ :=
      ⟨⟨tail,congrArg some hsplit,htail⟩,fun _ hwitness => nomatch hwitness⟩
    have hheld := Held.attempts hsize list hstart
    obtain ⟨tail',hfile,htail'⟩ := hheld.named
    have hadopt := hheld.adopt hsize hfile htail'
    refine ⟨text++tail',hfile,⟨_,decodeJournal_front hw htext hsize ?_ (by simp)⟩,_,hadopt.1,
      ⟨_,hadopt.2.acknowledge hsize rfl,rfl⟩,?_⟩
    · exact (List.prefix_append_right_inj text).mpr htail'
    · intro i' text' hne htext' fate
      exact hadopt.2.other hw htext htext' hne hsize fate

section Sample

/-- A move of an empty library. -/
def sampleIntent : Intent where
  format := "librairii.native-relocation"
  version := 1
  id := "0b6f4f0e-1c1d-4a5e-8f3a-2d1c0b9a8f7e"
  rawId := "5d2f7a10-9c4b-4f6e-b1a2-3c4d5e6f7a8b"
  profileSha256 := "1900eab6c028483d7126599ee6f50de0d27907b5c65fa90524580b4b0f9852b0"
  source := "/old"
  target := "/new/library"
  workspace := "/new/.librairii-native-move-0b6f4f0e-1c1d-4a5e-8f3a-2d1c0b9a8f7e"
  selectedWorkspace := false
  sourceDirectory := ⟨1,2⟩
  workspaceDirectory := ⟨1,3⟩
  emptyTargetDirectory := none
  sourceStateSha256 := "4ba69735ca53765ed6a709edb56c6ea236b7193a3b29a6b390c346f0f4340e4e"
  manifestSha256 := "d801aa1fb7ddcc330a5e3173372ea6af4a3d08ec58074478e85aa5603e926658"
  copiedEpoch := 4
  manifest := ⟨[]⟩

/-- One member of an object with a text as its value, and the comma after it. -/
def member (name value : String) : List Char :=
  ['"']++name.toList++"\":\"".toList++value.toList++"\",".toList

def sampleText : List UInt8 := bytes ("\x7b".toList++
  member "format" sampleIntent.format++"\"version\":1,".toList++
  member "id" sampleIntent.id++member "raw_id" sampleIntent.rawId++
  member "profile_sha256" sampleIntent.profileSha256++
  member "source" sampleIntent.source++member "target" sampleIntent.target++
  member "workspace" sampleIntent.workspace++
  "\"selected_workspace\":false,".toList++
  "\"source_directory\":".toList++"\x7b\"device\":1,\"inode\":2\x7d,".toList++
  "\"workspace_directory\":".toList++"\x7b\"device\":1,\"inode\":3\x7d,".toList++
  member "source_state_sha256" sampleIntent.sourceStateSha256++
  member "manifest_sha256" sampleIntent.manifestSha256++
  "\"copied_epoch\":4,".toList++"\"manifest\":\x7b\"entries\":[]\x7d\x7d".toList)

def sampleManifest : List UInt8 := bytes "\x7b\"entries\":[]\x7d".toList

def sampleManifestDigest : Checksum :=
  ⟨[216,1,170,31,183,221,204,51,10,94,49,115,55,46,166,175,
    74,61,8,236,88,7,68,120,232,90,165,96,62,146,102,88],rfl⟩

def sampleDigest : Checksum :=
  ⟨[213,241,105,160,236,130,75,40,92,37,161,146,249,219,26,36,
    172,108,211,113,92,126,50,170,213,242,165,160,144,85,64,90],rfl⟩

/-- Serialization, parsing and hashing of this one move. -/
def sampleEnv : JournalEnv where
  toVec i := if i=sampleIntent then some sampleText else none
  fromSlice text := if text=sampleText then some sampleIntent else none
  manifestToVec m := if m.entries=[] then some sampleManifest else none
  sha256 text := if text=sampleManifest then sampleManifestDigest else sampleDigest
  parsesUuid text := text=sampleIntent.id || text=sampleIntent.rawId
  physicalOverlap _ _ := .ok false

theorem sampleText_line : (10 : UInt8)∉sampleText := by decide +kernel

/-- The text of the move is read again, has no line break and no beginning that is read. -/
theorem sampleEnv_written : Written sampleEnv := by
  have htext : ∀ {i text}, sampleEnv.toVec i=some text → i=sampleIntent ∧ text=sampleText := by
    intro i text h
    simp only [sampleEnv] at h
    split at h
    · next hi => exact ⟨hi,(Option.some.inj h).symm⟩
    · cases h
  constructor
  · intro i text h
    have hi := htext h
    rw [hi.1,hi.2]
    simp only [sampleEnv,if_true]
  · intro i text h
    rw [(htext h).2]
    exact sampleText_line
  · intro i text front h _ hne
    have ht := (htext h).2
    rw [ht] at hne
    simp only [sampleEnv,hne,if_false]

/-- The whole journal of the move is the retired move. -/
theorem journals_classified_sample :
    decodeJournal sampleEnv (journal sampleEnv sampleText)=.ok (sampleIntent,true) :=
  ((journals_classified sampleEnv sampleEnv_written).1 sampleIntent sampleText
    (by decide +kernel) (by decide +kernel) (journal sampleEnv sampleText)
    List.prefix_rfl).2.2.1 rfl

end Sample

end Librairii.MoveJournals
