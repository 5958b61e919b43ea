import Librairii.ArchiveInventory
import Librairii.DisplayNames
import Librairii.LexicalPaths
import Librairii.StudioStrings

/-!
# Cleaned names of entries

The key of an entry is the lexically cleaned name, without a way out of its directory, and is
its own key. Only the drive letter is looked for in the name as it was given, so that one can
come to the front of the key.
-/

namespace Librairii.EntryNames

open ArchiveInventory CheckedResults JsonText LexicalPaths
open FrozenText (fromUtf8)

/-- Begin with an ASCII letter and a colon. -/
def drivePrefixed (name : List UInt8) : Bool :=
  name.head?.any isAsciiAlphabetic && name[1]?=some 0x3a

def nameParts (name : List UInt8) : List (List UInt8) := name.splitOn 0x2f

/-- Of the components of a name, the one that stays at its front, with the number of those that
stay: a name behind a parent that leaves nothing comes to the front. -/
def frontStep (front : ℕ×Option (List UInt8)) (part : List UInt8) : ℕ×Option (List UInt8) :=
  if part=[] ∨ part=[0x2e] then front
  else if part=[0x2e,0x2e] then (front.1-1,if front.1≤1 then none else front.2)
  else (front.1+1,if front.1=0 then some part else front.2)

def frontPart (name : List UInt8) : Option (List UInt8) :=
  ((nameParts name).foldl frontStep (0,none)).2

/-- What the key of a name is meant to be. -/
structure CleanKey (name : List UInt8) (limits : Limits) (key : String) : Prop where
  lexical : bytes key.toList=pathClean 0x2f 0x2e name
  nonempty : key≠""
  relative : key.toList.head?≠some '/'
  /-- No component is empty, current or a parent. -/
  components : ∀ part ∈ nameParts (bytes key.toList),
    part≠[] ∧ part≠[0x2e] ∧ part≠[0x2e,0x2e]
  noNul : 0 ∉ bytes key.toList
  noBackslash : 0x5c ∉ bytes key.toList
  noDrive : drivePrefixed (bytes key.toList)=false
  depth : (nameParts (bytes key.toList)).length≤limits.maxPathDepth
  length : (bytes key.toList).length≤limits.maxPathBytes
  /-- It is its own key. -/
  again : validateEntryName (bytes key.toList) limits=.ok key

/-- The bytes of other characters are no separators. -/
theorem encode_plain {c : Char} (h : c ≠ '/') : 0x2f ∉ String.utf8EncodeChar c := by
  intro hmem
  by_cases hwide : 128≤c.toNat
  · have hhigh := StudioStrings.encode_high hwide 0x2f hmem
    exact absurd hhigh (by decide)
  · rw [encode_ascii (by omega),List.mem_singleton] at hmem
    refine h ?_
    have hnat : (0x2f : UInt8).toNat=(UInt8.ofNat c.toNat).toNat := congrArg UInt8.toNat hmem
    rw [UInt8.toNat_ofNat'] at hnat
    have hc : c.toNat=47 := by
      change 47=c.toNat%256 at hnat
      omega
    rw [←Char.ofNat_toNat c,hc]

theorem split_behind {front : List UInt8} (h : 0x2f ∉ front) (rest : List UInt8) :
    (front++rest).splitOn 0x2f=(rest.splitOn 0x2f).modifyHead (front++·) := by
  induction front with
  | nil =>
    rw [List.nil_append]
    cases rest.splitOn 0x2f <;> rfl
  | cons b front ih =>
    have hb : (b==0x2f)=false := beq_eq_false_iff_ne.mpr fun he => h (he ▸ List.mem_cons_self)
    rw [List.cons_append,List.splitOn_cons_eq_if_modifyHead,hb,if_neg Bool.false_ne_true,
      ih fun hmem => h (List.mem_cons_of_mem b hmem)]
    cases rest.splitOn 0x2f <;> rfl

theorem nameParts_bytes (text : List Char) :
    nameParts (bytes text)=(text.splitOn '/').map bytes := by
  unfold nameParts
  induction text with
  | nil => rfl
  | cons c text ih =>
    rw [bytes_cons,List.splitOn_cons_eq_if_modifyHead]
    by_cases hc : c = '/'
    · have hencode : String.utf8EncodeChar c=[0x2f] := by
        rw [hc]
        rfl
      rw [hencode,if_pos (beq_iff_eq.mpr hc),List.singleton_append,split_slash,ih]
      rfl
    · rw [split_behind (encode_plain hc),if_neg (by simpa using hc),ih]
      cases hsplit : text.splitOn '/' with
      | nil => rfl
      | cons first rest => rfl

theorem cleanComponents_bytes (parts : List (List Char)) :
    (cleanComponents parts).map bytes=cleanParts 0x2e (parts.map bytes) := by
  have hnil : ∀ part : List Char, bytes part=[] ↔ part=[] := fun part =>
    ⟨fun he => DisplayNames.bytes_inj (b:=[]) he,fun he => by rw [he]; rfl⟩
  have hdot : ∀ part : List Char, bytes part=[0x2e] ↔ part=['.'] := fun part =>
    ⟨fun he => DisplayNames.bytes_inj (b:=['.']) he,fun he => by rw [he]; rfl⟩
  have hup : ∀ part : List Char, bytes part=[0x2e,0x2e] ↔ part=['.','.'] := fun part =>
    ⟨fun he => DisplayNames.bytes_inj (b:=['.','.']) he,fun he => by rw [he]; rfl⟩
  have hfold : ∀ front : List (List Char),
      (parts.foldl (fun components part =>
        if part=[] || part=['.'] then components
        else if part=['.','.'] && components.getLast?.any (·≠['.','.']) then components.dropLast
        else components++[part]) front).map bytes=
      (parts.map bytes).foldl (cleanStep 0x2e) (front.map bytes) := by
    induction parts with
    | nil => exact fun front => rfl
    | cons part parts ih =>
      intro front
      rw [List.foldl_cons,List.map_cons,List.foldl_cons,ih]
      congr 1
      have hlast : (front.map bytes).getLast?.any (fun p => decide (p≠[0x2e,0x2e]))=
          front.getLast?.any (fun p => decide (p≠['.','.'])) := by
        rw [List.getLast?_map]
        cases front.getLast? with
        | none => rfl
        | some last => simp only [Option.map_some,Option.any_some,ne_eq,hup]
      unfold cleanStep
      rw [hlast]
      simp only [hnil,hdot,hup,Bool.or_eq_true,Bool.and_eq_true,decide_eq_true_eq]
      split
      · rfl
      split
      · exact List.map_dropLast
      · exact List.map_append
  exact hfold []

theorem bytes_joined (parts : List (List Char)) :
    bytes (List.intercalate ['/'] parts)=joinParts 0x2f (parts.map bytes) := by
  induction parts using List.reverseRecOn with
  | nil => rfl
  | append_singleton parts part ih =>
    have hjoin := @joinParts_concat Char '/' parts part
    unfold joinParts at hjoin
    rw [hjoin,List.map_append,List.map_singleton,joinParts_concat,←ih]
    by_cases hp : parts=[]
    · rw [if_pos hp,if_pos (by rw [hp]; rfl)]
    · rw [if_neg hp,if_neg (by simpa using hp),bytes_append]
      rfl

/-- What of a name decides whether it is accepted. -/
structure Admitted (name : List UInt8) (limits : Limits) : Prop where
  valid : limits.validate=.ok ()
  nonempty : name≠[]
  length : name.length≤limits.maxPathBytes
  noNul : 0 ∉ name
  noBackslash : 0x5c ∉ name
  relative : name.head?≠some 0x2f
  noDrive : drivePrefixed name=false
  /-- Something is left of the name, not out of its directory and not too deep. -/
  left : cleanParts 0x2e (nameParts name)≠[]
  inside : (cleanParts 0x2e (nameParts name)).head?≠some [0x2e,0x2e]
  depth : (cleanParts 0x2e (nameParts name)).length≤limits.maxPathDepth

theorem head_slash (text : List Char) : (bytes text).head?=some 0x2f ↔ text.head?=some '/' := by
  cases text with
  | nil => simp [bytes]
  | cons c text =>
    rw [bytes_cons,List.head?_cons]
    constructor
    · intro h
      by_contra hne
      have hmem : (0x2f : UInt8) ∈ String.utf8EncodeChar c := by
        obtain ⟨b,tail,hb⟩ := List.exists_cons_of_ne_nil (DisplayNames.encode_ne_nil c)
        rw [hb,List.cons_append,List.head?_cons] at h
        rw [hb,Option.some.inj h]
        exact List.mem_cons_self
      exact encode_plain (fun he => hne (congrArg some he)) hmem
    · intro h
      rw [Option.some.inj h]
      rfl

theorem drivePrefixed_long (name : List UInt8) :
    (decide (2≤name.length) && name.head?.any isAsciiAlphabetic &&
      decide (name[1]?=some 0x3a))=drivePrefixed name := by
  cases name with
  | nil => rfl
  | cons a name =>
    cases name with
    | nil => simp [drivePrefixed]
    | cons b name => simp [drivePrefixed]

/-- The names that are accepted, and their keys. -/
theorem validate_iff {text : List Char} {limits : Limits} {key : String} :
    validateEntryName (bytes text) limits=.ok key ↔
      Admitted (bytes text) limits ∧
        bytes key.toList=joinParts 0x2f (cleanParts 0x2e (nameParts (bytes text))) := by
  have hparts := cleanComponents_bytes (text.splitOn '/')
  rw [←nameParts_bytes] at hparts
  have hdecode : String.fromUTF8? (bytes text).toByteArray=some (String.ofList text) :=
    dif_pos (ByteArray.isValidUTF8_utf8Encode (l:=text))
  have hleft : cleanComponents (text.splitOn '/')=[] ↔
      cleanParts 0x2e (nameParts (bytes text))=[] := by
    rw [←hparts,List.map_eq_nil_iff]
  have hinside : (cleanComponents (text.splitOn '/')).head?=some ['.', '.'] ↔
      (cleanParts 0x2e (nameParts (bytes text))).head?=some [0x2e,0x2e] := by
    rw [←hparts,List.head?_map]
    cases (cleanComponents (text.splitOn '/')).head? with
    | none => exact ⟨nofun,nofun⟩
    | some first =>
      rw [Option.map_some,Option.some.injEq,Option.some.injEq]
      exact ⟨fun he => he ▸ rfl,fun he => DisplayNames.bytes_inj (b:=['.', '.']) he⟩
  have hdepth : (cleanComponents (text.splitOn '/')).length=
      (cleanParts 0x2e (nameParts (bytes text))).length := by
    rw [←hparts,List.length_map]
  have hkey : key=String.ofList (List.intercalate ['/'] (cleanComponents (text.splitOn '/'))) ↔
      bytes key.toList=joinParts 0x2f (cleanParts 0x2e (nameParts (bytes text))) := by
    rw [←hparts,←bytes_joined]
    constructor
    · intro he
      rw [he,String.toList_ofList]
    · intro he
      rw [←DisplayNames.bytes_inj he,String.ofList_toList]
  have hrun : validateEntryName (bytes text) limits=.ok key ↔ limits.validate=.ok () ∧
      ¬(bytes text=[] ∨ limits.maxPathBytes<(bytes text).length ∨ 0 ∈ bytes text ∨
        0x5c ∈ bytes text) ∧
      ¬((bytes text).head?=some 0x2f ∨ drivePrefixed (bytes text)=true) ∧
      ¬(cleanParts 0x2e (nameParts (bytes text))=[] ∨
        (cleanParts 0x2e (nameParts (bytes text))).head?=some [0x2e,0x2e] ∨
        limits.maxPathDepth<(cleanParts 0x2e (nameParts (bytes text))).length) ∧
      bytes key.toList=joinParts 0x2f (cleanParts 0x2e (nameParts (bytes text))) := by
    rw [←hkey,←hleft,←hinside,←hdepth,head_slash,←drivePrefixed_long,validateEntryName,
      exceptBind_ok,hdecode]
    simp only [String.toList_ofList,refused_ok,Bool.or_eq_true,decide_eq_true_eq,
      List.contains_iff_mem,or_assoc]
    constructor
    · rintro ⟨⟨⟩,hvalid,hname,hfront,hparts,hpure⟩
      cases hpure
      exact ⟨hvalid,hname,hfront,hparts,rfl⟩
    · rintro ⟨hvalid,hname,hfront,hparts,rfl⟩
      exact ⟨(),hvalid,hname,hfront,hparts,rfl⟩
  rw [hrun]
  constructor
  · rintro ⟨hvalid,hname,hfront,hparts,hkey⟩
    simp only [not_or,Nat.not_lt,Bool.not_eq_true] at hname hfront hparts
    exact ⟨⟨hvalid,hname.1,hname.2.1,hname.2.2.1,hname.2.2.2,hfront.1,hfront.2,hparts.1,
      hparts.2.1,hparts.2.2⟩,hkey⟩
  · rintro ⟨h,hkey⟩
    simp only [not_or,Nat.not_lt,Bool.not_eq_true]
    exact ⟨h.valid,⟨h.nonempty,h.length,h.noNul,h.noBackslash⟩,⟨h.relative,h.noDrive⟩,
      ⟨h.left,h.inside,h.depth⟩,hkey⟩

theorem validate_text {name : List UInt8} {limits : Limits} {key : String}
    (h : validateEntryName name limits=.ok key) : ∃ text, name=bytes text := by
  rw [validateEntryName,exceptBind_ok] at h
  obtain ⟨_,_,h⟩ := h
  rw [refused_ok] at h
  cases hdecode : String.fromUTF8? name.toByteArray with
  | none =>
    rw [hdecode] at h
    cases h.2
  | some text => exact ⟨text.toList,(DisplayNames.bytes_of_fromUtf8 hdecode).symm⟩

/-- The components of a path of components without separators. -/
theorem nameParts_joined {parts : List (List UInt8)} (hplain : ∀ part ∈ parts, 0x2f ∉ part)
    (hne : parts≠[]) : nameParts (joinParts 0x2f parts)=parts :=
  List.splitOn_intercalate 0x2f hplain hne

theorem joined_nameParts (name : List UInt8) : joinParts 0x2f (nameParts name)=name :=
  List.intercalate_splitOn 0x2f

/-- Of cleaned names without a parent at their front, the one that stays there is the first. -/
theorem front_first {parts front : List (List UInt8)} (hnames : ∀ part ∈ front, part≠[0x2e,0x2e])
    (hhead : (parts.foldl (cleanStep 0x2e) front).head?≠some [0x2e,0x2e]) :
    parts.foldl frontStep (front.length,front.head?)=
      ((parts.foldl (cleanStep 0x2e) front).length,
        (parts.foldl (cleanStep 0x2e) front).head?) := by
  induction parts generalizing front with
  | nil => rfl
  | cons part parts ih =>
    rw [List.foldl_cons] at hhead ⊢
    rw [List.foldl_cons]
    by_cases hplain : part=[] ∨ part=[0x2e]
    · rw [frontStep,if_pos hplain]
      rw [cleanStep,if_pos hplain] at hhead ⊢
      exact ih hnames hhead
    by_cases hup : part=[0x2e,0x2e]
    · cases front using List.reverseRecOn with
      | nil =>
        have hstep : cleanStep 0x2e [] part=[[0x2e,0x2e]] := by
          rw [hup]
          rfl
        rw [hstep] at hhead
        exact absurd (parent_stays 0x2e parts []) hhead
      | append_singleton front last =>
        have hlast : part=[0x2e,0x2e] ∧
            (front++[last]).getLast?.any (·≠[0x2e,0x2e])=true := by
          rw [List.getLast?_concat,Option.any_some]
          exact ⟨hup,decide_eq_true (hnames last (by simp))⟩
        have hclean : cleanStep 0x2e (front++[last]) part=front := by
          rw [cleanStep,if_neg hplain,if_pos hlast,List.dropLast_concat]
        have hstep : frontStep ((front++[last]).length,(front++[last]).head?) part=
            (front.length,front.head?) := by
          rw [frontStep,if_neg hplain,if_pos hup]
          cases front with
          | nil => rfl
          | cons first front => simp
        rw [hclean] at hhead ⊢
        rw [hstep]
        exact ih (fun p hp => hnames p (List.mem_append_left _ hp)) hhead
    · have hclean : cleanStep 0x2e front part=front++[part] := by
        rw [cleanStep,if_neg hplain,if_neg fun hd => hup hd.1]
      have hstep : frontStep (front.length,front.head?) part=
          ((front++[part]).length,(front++[part]).head?) := by
        rw [frontStep,if_neg hplain,if_neg hup]
        cases front with
        | nil => rfl
        | cons first front => simp
      rw [hclean] at hhead ⊢
      rw [hstep]
      refine ih (fun p hp => ?_) hhead
      rcases List.mem_append.mp hp with hp | hp
      · exact hnames p hp
      · rw [List.mem_singleton.mp hp]
        exact hup

theorem drivePrefixed_joined (first : List UInt8) (rest : List (List UInt8)) (h : first≠[]) :
    drivePrefixed (joinParts 0x2f (first::rest))=drivePrefixed first := by
  rw [joinParts_cons]
  cases first with
  | nil => exact absurd rfl h
  | cons a first =>
    cases first with
    | cons b first => simp [drivePrefixed]
    | nil =>
      by_cases hrest : rest=[]
      · rw [if_pos hrest,List.append_nil]
      · rw [if_neg hrest]
        simp [drivePrefixed]

theorem frontPart_first {name : List UInt8}
    (hinside : (cleanParts 0x2e (nameParts name)).head?≠some [0x2e,0x2e]) :
    frontPart name=(cleanParts 0x2e (nameParts name)).head? := by
  have hfirst := @front_first (nameParts name) [] (fun _ hp => nomatch hp) hinside
  unfold frontPart
  rw [List.length_nil,List.head?_nil] at hfirst
  rw [hfirst]
  rfl

theorem mem_cleaned {name : List UInt8} {b : UInt8}
    (h : b ∈ joinParts 0x2f (cleanParts 0x2e (nameParts name))) : b=0x2f ∨ b ∈ name := by
  rcases mem_joinParts h with h | ⟨part,hpart,hb⟩
  · exact .inl h
  · have hmem := cleanParts_subset 0x2e (nameParts name) part hpart
    have hname := joined_nameParts name
    have hpath : ∀ parts : List (List UInt8), part ∈ parts → b ∈ joinParts 0x2f parts := by
      intro parts
      induction parts with
      | nil => exact fun hp => nomatch hp
      | cons first rest ih =>
        intro hp
        rw [joinParts_cons]
        rcases List.mem_cons.mp hp with rfl | hp
        · exact List.mem_append_left _ hb
        · rw [if_neg (List.ne_nil_of_mem hp)]
          exact List.mem_append_right _ (List.mem_cons_of_mem _ (ih hp))
    rw [←hname]
    exact .inr (hpath _ hmem)

/-- The key of an accepted name is the cleaned name, safe, and its own key, exactly when the
component that stays at the front of the name does not begin with a drive letter. -/
theorem clean_name_iff {name : List UInt8} {limits : Limits} {key : String}
    (h : validateEntryName name limits=.ok key) :
    CleanKey name limits key ↔ (frontPart name).any drivePrefixed=false := by
  obtain ⟨text,rfl⟩ := validate_text h
  obtain ⟨hname,hkey⟩ := validate_iff.mp h
  have hplain : ∀ part ∈ nameParts (bytes text), 0x2f ∉ part := split_plain (bytes text)
  obtain ⟨kept,hcleaned⟩ := foldl_cleaned hplain (@cleaned_nil UInt8 0x2f 0x2e)
  have hclean : Cleaned 0x2f 0x2e kept (cleanParts 0x2e (nameParts (bytes text))) := hcleaned
  have hfront := frontPart_first hname.inside
  have hlexical : bytes key.toList=pathClean 0x2f 0x2e (bytes text) := by
    rw [pathClean_parts hname.relative]
    change _=if cleanParts 0x2e (nameParts (bytes text))=[] then _
      else joinParts 0x2f (cleanParts 0x2e (nameParts (bytes text)))
    rw [if_neg hname.left,hkey]
  have hmem : ∀ b ∈ bytes key.toList, b=0x2f ∨ b ∈ bytes text := by
    intro b hb
    rw [hkey] at hb
    exact mem_cleaned hb
  have hlength : (bytes key.toList).length≤limits.maxPathBytes := by
    have hsum := cleanParts_length 0x2e (nameParts (bytes text))
    have hne : nameParts (bytes text)≠[] := List.splitOn_ne_nil _ _
    rw [←@joinParts_length UInt8 0x2f _ hname.left,←@joinParts_length UInt8 0x2f _ hne,
      joined_nameParts,←hkey] at hsum
    have hlimit := hname.length
    omega
  have hnames := hclean.names hname.inside
  have hparts := nameParts_joined (fun p hp => (hclean.plain p hp).2.2) hname.left
  have hself := cleanParts_self hnames
  obtain ⟨first,rest,hfirst⟩ := List.exists_cons_of_ne_nil hname.left
  have hplainFirst := hclean.plain first (by rw [hfirst]; exact List.mem_cons_self)
  rw [←hkey] at hparts
  have hnonempty : bytes key.toList≠[] := by
    rw [hkey,hfirst,joinParts_cons]
    exact List.append_ne_nil_of_left_ne_nil hplainFirst.1 _
  have hrelative : (bytes key.toList).head?≠some 0x2f := by
    rw [hkey,hfirst,joinParts_cons]
    obtain ⟨b,tail,hb⟩ := List.exists_cons_of_ne_nil hplainFirst.1
    rw [hb,List.cons_append,List.head?_cons]
    intro he
    refine hplainFirst.2.2 ?_
    rw [hb,Option.some.inj he]
    exact List.mem_cons_self
  have hnul : 0 ∉ bytes key.toList := by
    intro hin
    rcases hmem 0 hin with hb | hb
    · exact absurd hb (by decide)
    · exact hname.noNul hb
  have hbackslash : 0x5c ∉ bytes key.toList := by
    intro hin
    rcases hmem 0x5c hin with hb | hb
    · exact absurd hb (by decide)
    · exact hname.noBackslash hb
  have hdrive : drivePrefixed (bytes key.toList)=(frontPart (bytes text)).any drivePrefixed := by
    rw [hfront,hkey,hfirst,drivePrefixed_joined first rest hplainFirst.1]
    rfl
  rw [←hdrive]
  constructor
  · exact CleanKey.noDrive
  · intro hfree
    have hadmitted : Admitted (bytes key.toList) limits := by
      refine ⟨hname.valid,hnonempty,hlength,hnul,hbackslash,hrelative,hfree,?_,?_,?_⟩
      · rw [hparts,hself]
        exact hname.left
      · rw [hparts,hself]
        exact hname.inside
      · rw [hparts,hself]
        exact hname.depth
    refine ⟨hlexical,?_,?_,?_,hnul,hbackslash,hfree,?_,hlength,?_⟩
    · intro he
      rw [he] at hnonempty
      exact hnonempty rfl
    · exact fun he => hrelative ((head_slash _).mpr he)
    · rw [hparts]
      exact hnames
    · rw [hparts]
      exact hname.depth
    · refine validate_iff.mpr ⟨hadmitted,?_⟩
      rw [hparts,hself]
      exact hkey

namespace Example

def limits : Limits where
  maxPathBytes := 1024
  maxPathDepth := 64
  maxEntries := 100
  maxExpandedBytes := ⟨1000000,by decide⟩
  ratioValid := true
  ratioExceeded := fun _ _ => false
  maxMetadataBytes := thousand
  maxArtworkBytes := thousand

/-- The name `a/../.ni`. -/
def detour : List UInt8 := bytes ['a', '/', '.', '.', '/', '.', 'n', 'i']

/-- The name `./C:ni`. -/
def behindCurrent : List UInt8 := bytes ['.', '/', 'C', ':', 'n', 'i']

end Example

open Example

/-- A name that goes through another directory is cleaned. -/
theorem detour_clean : CleanKey detour limits (String.ofList ['.', 'n', 'i']) :=
  (clean_name_iff (by
    refine validate_iff.mpr ⟨⟨by decide,by decide,by decide,by decide,by decide,by decide,
      by decide,by decide,by decide,by decide⟩,by decide⟩)).mpr (by decide)

theorem behindCurrent_drive : validateEntryName behindCurrent limits=.ok (String.ofList
    ['C', ':', 'n', 'i']) ∧
    drivePrefixed (bytes ['C', ':', 'n', 'i'])=true ∧
    ¬CleanKey behindCurrent limits (String.ofList ['C', ':', 'n', 'i']) := by
  have haccepted : validateEntryName behindCurrent limits=.ok (String.ofList
    ['C', ':', 'n', 'i']) :=
    validate_iff.mpr ⟨⟨by decide,by decide,by decide,by decide,by decide,by decide,
      by decide,by decide,by decide,by decide⟩,by decide⟩
  refine ⟨haccepted,by decide,fun h => ?_⟩
  have hdrive := h.noDrive
  rw [String.toList_ofList] at hdrive
  exact absurd hdrive (by decide)

end Librairii.EntryNames
