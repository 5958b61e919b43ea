import Librairii.LinkedTrees

/-!
# Exclusion paths

An exclusion is a path that a new library must not touch. It is projected through links even when
their targets are absent, and then resolved to the directory that exists and the missing names
behind it. Two locations overlap when one contains the other, by name or by identity.
-/

namespace Librairii.ExclusionPaths

open LinkedTrees

/-- A file name. -/
abbrev OsString := List UInt8

/-- Failures of a resolution. -/
inductive StorageError where
  | settingsDestination
  /-- A call fails. -/
  | io (action : String) (error : Errno)
  deriving DecidableEq

/-- A volume, and what calls into its kernel rest on. -/
structure FileSystem (Id : Type) extends Volume OsString Id where
  links : ℕ
  /-- The targets of links are C strings. -/
  plain : ∀ loc target, node loc=some (.link target) → ∀ name, .normal name ∈ target → 0 ∉ name

variable {Id : Type} (fs : FileSystem Id)

def canonicalize (path : List OsString) : Except Errno (List OsString) :=
  fs.walk fs.links [] (pathOf path)

def metadata (path : List OsString) : Except Errno (Node OsString Id) :=
  match fs.walk fs.links [] (pathOf path) with
  | .error e => .error e
  | .ok loc =>
    match fs.node loc with
    | none => .error .notFound
    | some node => .ok node

def symlinkMetadata : List OsString → Except Errno (Node OsString Id)
  | [] => metadata fs []
  | name::parent =>
    match fs.walk fs.links [] (pathOf parent) with
    | .error e => .error e
    | .ok loc => fs.enter loc name

/-- Whether it is a directory. -/
def isDir : Node OsString Id → Bool
  | .directory _ => true
  | _ => false

def isAbsolute (path : List (Component OsString)) : Bool := path.head?=some .rootDir

/-- Whether a name of the path has a zero byte. -/
def hasNul (path : List (Component OsString)) : Bool :=
  path.any fun
    | .normal name => name.contains 0
    | _ => false

/-- Project a path through links, with the links that remain afterwards. -/
def project (remaining : ℕ) (projected : List OsString) : List (Component OsString) →
    Except StorageError {x : List OsString×ℕ // x.2≤remaining}
  | [] => .ok ⟨(projected,remaining),le_rfl⟩
  | .rootDir::path => project remaining [] path
  | .curDir::path => project remaining projected path
  | .parentDir::path => project remaining projected.tail path
  | .normal name::path =>
    match symlinkMetadata fs (name::projected) with
    | .ok (.link target) =>
      match remaining with
      | 0 => .error .settingsDestination
      | remaining+1 =>
        let target := if isAbsolute target then target else pathOf projected++target
        match project remaining [] target with
        | .error e => .error e
        | .ok ⟨(projected,left),hleft⟩ =>
          match project left projected path with
          | .error e => .error e
          | .ok ⟨x,hx⟩ => .ok ⟨x,hx.trans (hleft.trans (Nat.le_succ remaining))⟩
    | .ok _ => project remaining (name::projected) path
    | .error .notFound => project remaining (name::projected) path
    | .error e => .error (.io "inspect excluded namespace" e)
termination_by path => (remaining,path.length)
decreasing_by
  all_goals simp_wf
  all_goals omega

/-- One round of the loop of `resolve`, before it takes the last name away. -/
def resolveRound (missing cursor : List OsString)
    (pop : Except StorageError (List OsString×List OsString×List OsString)) :
    Except StorageError (List OsString×List OsString×List OsString) :=
  match canonicalize fs cursor with
  | .ok ancestor =>
    match metadata fs ancestor with
    | .error e => .error (.io "inspect target ancestor" e)
    | .ok node =>
      if !isDir node then .error .settingsDestination
      else .ok (missing.reverse.foldl (fun path name => name::path) ancestor,ancestor,
        missing.reverse)
  | .error .notFound =>
    match symlinkMetadata fs cursor with
    | .error .notFound => pop
    | _ => .error .settingsDestination
  | .error e => .error (.io "resolve selected target" e)

/-- Resolve through existing ancestors while retaining a missing tail. -/
def resolveLoop (missing : List OsString) :
    List OsString → Except StorageError (List OsString×List OsString×List OsString)
  | [] => resolveRound fs missing [] (.error .settingsDestination)
  | name::parent =>
    resolveRound fs missing (name::parent) (resolveLoop (missing++[name]) parent)

/-- The names of a path without parent components, the last first. -/
def namesOf (path : List (Component OsString)) : List OsString :=
  (path.filterMap fun
    | .normal name => some name
    | _ => none).reverse

def resolve (path : List (Component OsString)) (rejectFinalAlias : Bool) :
    Except StorageError (List OsString×List OsString×List OsString) :=
  if !isAbsolute path || path.contains .parentDir || hasNul path then .error .settingsDestination
  else
    let cursor := namesOf path
    if rejectFinalAlias then
      match symlinkMetadata fs cursor with
      | .ok node => if isDir node then resolveLoop fs [] cursor else .error .settingsDestination
      | .error .notFound => resolveLoop fs [] cursor
      | .error e => .error (.io "inspect selected target" e)
    else resolveLoop fs [] cursor

def maxLinks : ℕ := 40

def resolveExclusion (path : List (Component OsString)) :
    Except StorageError (List OsString×List OsString×List OsString) :=
  if !isAbsolute path || hasNul path then .error .settingsDestination
  else
    match project fs maxLinks [] path with
    | .error e => .error e
    | .ok ⟨(projected,_),_⟩ =>
      let file := match symlinkMetadata fs projected with
        | .ok node => !isDir node
        | .error _ => false
      if file then
        match projected with
        | [] => .error .settingsDestination
        | name::parent =>
          match resolve fs (pathOf parent) false with
          | .error e => .error e
          | .ok (parent,_,_) => .ok (name::parent,parent,[name])
      else resolve fs (pathOf projected) false

variable [DecidableEq Id]

def identity : Node OsString Id → Option Id
  | .directory id => some id
  | .file id => some id
  | .link _ => none

/-- One round of the comparison of ancestors, before it goes up. -/
def ancestryRound (root : Node OsString Id) (ancestor : List OsString)
    (pop : Except StorageError Bool) : Except StorageError Bool :=
  match metadata fs ancestor with
  | .error e => .error (.io "inspect target ancestry identity" e)
  | .ok node => if identity node=identity root then .ok true else pop

/-- Compare the identity of every ancestor with a root's. -/
def ancestryLoop (root : Node OsString Id) : List OsString → Except StorageError Bool
  | [] => ancestryRound fs root [] (.ok false)
  | name::parent => ancestryRound fs root (name::parent) (ancestryLoop root parent)

def physicalContains (root descendant : List OsString) : Except StorageError Bool :=
  if root <:+ descendant then .ok true
  else
    match metadata fs root with
    | .error .notFound => .ok false
    | .error e => .error (.io "inspect excluded root identity" e)
    | .ok node =>
      match resolveExclusion fs (pathOf descendant) with
      | .error e => .error e
      | .ok (_,ancestor,_) => ancestryLoop fs node ancestor

/-- Whether one of two locations contains the other. -/
def physicalOverlap (a b : List OsString) : Except StorageError Bool :=
  match physicalContains fs a b with
  | .error e => .error e
  | .ok true => .ok true
  | .ok false => physicalContains fs b a

variable {fs} {loc : List OsString}

omit [DecidableEq Id] in
theorem canonicalize_settled (h : fs.Settled loc) : canonicalize fs loc=
    match fs.node loc with
    | none => .error .notFound
    | some _ => .ok loc := by
  rw [canonicalize,←List.append_nil (pathOf loc),h.walk]
  cases fs.node loc with
  | none => rfl
  | some node => rw [Volume.walk]

omit [DecidableEq Id] in
theorem metadata_settled (h : fs.Settled loc) : metadata fs loc=
    match fs.node loc with
    | none => .error .notFound
    | some node => .ok node := by
  have hcanonical := canonicalize_settled h
  rw [canonicalize] at hcanonical
  rw [metadata,hcanonical]
  cases hn : fs.node loc with
  | none => rfl
  | some node => simp only [hn]

omit [DecidableEq Id] in
theorem symlinkMetadata_cons {name : OsString} (h : fs.Settled loc) :
    symlinkMetadata fs (name::loc)=fs.enter loc name := by
  have hcanonical := canonicalize_settled h
  rw [canonicalize] at hcanonical
  rw [symlinkMetadata,hcanonical]
  cases hn : fs.node loc with
  | none => simp only [Volume.enter,hn]
  | some node => rfl

omit [DecidableEq Id] in
theorem symlinkMetadata_settled (h : fs.Settled loc) : symlinkMetadata fs loc=metadata fs loc := by
  cases loc with
  | nil => rfl
  | cons name loc =>
    rw [symlinkMetadata_cons h.2.2,h.enter,metadata_settled h]
    cases fs.node (name::loc) with
    | none => rfl
    | some node => rfl

variable {goal : List OsString} {k : ℕ}

omit [DecidableEq Id] in
theorem target_denotes {target : List (Component OsString)} (h : fs.Settled loc) :
    fs.Denotes k [] (if isAbsolute target then target else pathOf loc++target) goal ↔
      fs.Denotes k loc target goal := by
  by_cases ha : isAbsolute target
  · rw [if_pos ha]
    cases target with
    | nil => cases ha
    | cons c target =>
      have hc : c=.rootDir := by
        rw [isAbsolute,List.head?_cons,decide_eq_true_iff] at ha
        exact Option.some.inj ha
      rw [hc,denotes_root_iff,denotes_root_iff]
  · rw [if_neg ha]
    exact h.denotes_iff

variable {path : List (Component OsString)}

omit [DecidableEq Id] in
theorem project_link {remaining : ℕ} {name : OsString} {target : List (Component OsString)}
    {left : ℕ} (hs : fs.Settled loc) (he : fs.enter loc name=.ok (.link target)) :
    (∃ h, project fs (remaining+1) loc (.normal name::path)=.ok ⟨(goal,left),h⟩) ↔
      ∃ mid rest, (∃ h, project fs remaining []
        (if isAbsolute target then target else pathOf loc++target)=.ok ⟨(mid,rest),h⟩) ∧
        ∃ h, project fs rest mid path=.ok ⟨(goal,left),h⟩ := by
  rw [project,symlinkMetadata_cons hs]
  simp only [he]
  cases hfirst : project fs remaining []
      (if isAbsolute target then target else pathOf loc++target) with
  | error e =>
    constructor
    · rintro ⟨_,hk⟩
      cases hk
    · rintro ⟨mid,rest,⟨_,hk⟩,_⟩
      cases hk
  | ok first =>
    obtain ⟨⟨mid,rest⟩,hrest⟩ := first
    simp only
    constructor
    · rintro ⟨h,hk⟩
      refine ⟨mid,rest,⟨hrest,rfl⟩,?_⟩
      cases hsecond : project fs rest mid path with
      | error e => simp [hsecond] at hk
      | ok second =>
        obtain ⟨x,hx⟩ := second
        simp only [hsecond,Except.ok.injEq,Subtype.mk.injEq] at hk
        subst hk
        exact ⟨hx,rfl⟩
    · rintro ⟨mid',rest',⟨_,hk⟩,h,hsecond⟩
      cases hk
      simp only [hsecond]
      have hle : left≤rest := h
      have hmid : rest≤remaining := hrest
      have hgoal : left≤remaining+1 := by omega
      exact ⟨hgoal,trivial⟩

omit [DecidableEq Id] in
/-- A projection ends at a location exactly when the path denotes it within the links that may
still be followed. -/
theorem project_iff (remaining : ℕ) (path : List (Component OsString)) {left : ℕ} :
    ∀ {loc}, fs.Settled loc →
      ((∃ h, project fs remaining loc path=.ok ⟨(goal,left),h⟩) ↔
        ∃ k, fs.Denotes k loc path goal ∧ k+left=remaining) := by
  induction remaining using Nat.strong_induction_on generalizing path goal left with
  | _ remaining ihr =>
    induction path with
    | nil =>
      intro loc hs
      rw [project]
      constructor
      · rintro ⟨h,he⟩
        cases he
        exact ⟨0,.done _,Nat.zero_add _⟩
      · rintro ⟨k,hd,hk⟩
        cases hd
        rw [Nat.zero_add] at hk
        subst hk
        exact ⟨le_rfl,rfl⟩
    | cons c path ih =>
      intro loc hs
      cases c with
      | rootDir =>
        have hroot : fs.Settled [] := trivial
        rw [project,ih hroot]
        simp only [denotes_root_iff]
      | curDir =>
        rw [project,ih hs]
        simp only [denotes_current_iff]
      | parentDir =>
        rw [project,ih hs.tail]
        simp only [denotes_parent_iff]
      | normal name =>
        have hplain : (∀ id, fs.node loc≠some (.file id)) →
            (∀ target, fs.node (name::loc)≠some (.link target)) →
            ((∃ h, project fs remaining (name::loc) path=.ok ⟨(goal,left),h⟩) ↔
              ∃ k, fs.Denotes k loc (.normal name::path) goal ∧ k+left=remaining) := by
          intro hfile hlink
          have hname : fs.Settled (name::loc) := ⟨hfile,hlink,hs⟩
          rw [ih hname]
          simp only [denotes_name_iff hfile hlink]
        cases he : fs.enter loc name with
        | error e =>
          rw [project,symlinkMetadata_cons hs,he]
          cases e with
          | notFound =>
            obtain ⟨hfile,hnone⟩ := enter_notFound he
            exact hplain hfile fun target ht => by
              rw [hnone] at ht
              cases ht
          | notDirectory =>
            obtain ⟨id,hid⟩ := hs.enter_error he Errno.noConfusion
            constructor
            · rintro ⟨_,hk⟩
              cases hk
            · rintro ⟨_,hd,_⟩
              exact absurd hd (denotes_below_file hid)
          | tooManyLinks =>
            obtain ⟨id,hid⟩ := hs.enter_error he Errno.noConfusion
            constructor
            · rintro ⟨_,hk⟩
              cases hk
            · rintro ⟨_,hd,_⟩
              exact absurd hd (denotes_below_file hid)
        | ok node =>
          have hn := enter_ok he
          cases node with
          | directory id =>
            rw [project,symlinkMetadata_cons hs,he]
            exact hplain (not_below_file hn) fun target ht => by
              rw [hn] at ht
              cases ht
          | file id =>
            rw [project,symlinkMetadata_cons hs,he]
            exact hplain (not_below_file hn) fun target ht => by
              rw [hn] at ht
              cases ht
          | link target =>
            simp only [denotes_link_iff hn]
            cases remaining with
            | zero =>
              rw [project,symlinkMetadata_cons hs]
              simp only [he]
              constructor
              · rintro ⟨_,hk⟩
                cases hk
              · rintro ⟨k,⟨j,hj,_⟩,hk⟩
                omega
            | succ remaining =>
              have hroot : fs.Settled [] := trivial
              rw [project_link hs he]
              constructor
              · rintro ⟨mid,rest,hfirst,hsecond⟩
                obtain ⟨i,hi,hrest⟩ := (ihr remaining (Nat.lt_succ_self _) _ hroot).mp hfirst
                have hi := (target_denotes hs).mp hi
                obtain ⟨j,hj,hleft⟩ := (ihr rest (by omega) path (hi.settled hs)).mp hsecond
                exact ⟨i+j+1,⟨i+j,rfl,hi.append hj⟩,by omega⟩
              · rintro ⟨k,⟨_,rfl,hd⟩,hk⟩
                obtain ⟨i,j,mid,hij,hi,hj⟩ := hd.split
                refine ⟨mid,j+left,?_,?_⟩
                · exact (ihr remaining (Nat.lt_succ_self _) _ hroot).mpr
                    ⟨i,(target_denotes hs).mpr hi,by omega⟩
                · exact (ihr (j+left) (by omega) path (hi.settled hs)).mpr ⟨j,hj,rfl⟩

omit [DecidableEq Id] in
/-- What a projection goes through names no zero byte. -/
theorem plain_denotes (hd : fs.Denotes k loc path goal) (hloc : ∀ name ∈ loc, 0 ∉ name)
    (hpath : ∀ name, .normal name ∈ path → 0 ∉ name) : ∀ name ∈ goal, 0 ∉ name := by
  induction hd with
  | done loc => exact hloc
  | root _ ih => exact ih (by simp) fun name hin => hpath name (List.mem_cons_of_mem _ hin)
  | current _ ih => exact ih hloc fun name hin => hpath name (List.mem_cons_of_mem _ hin)
  | parent _ ih =>
    exact ih (fun name hin => hloc name (List.mem_of_mem_tail hin))
      fun name hin => hpath name (List.mem_cons_of_mem _ hin)
  | @name k name loc goal rest hfile hlink _ ih =>
    refine ih (fun other hin => ?_) fun name hin => hpath name (List.mem_cons_of_mem _ hin)
    cases List.mem_cons.mp hin with
    | inl he =>
      rw [he]
      exact hpath name List.mem_cons_self
    | inr hin => exact hloc other hin
  | @link k name loc goal target rest ht _ ih =>
    refine ih hloc fun other hin => ?_
    cases List.mem_append.mp hin with
    | inl hin => exact fs.plain _ _ ht other hin
    | inr hin => exact hpath other (List.mem_cons_of_mem _ hin)

omit [DecidableEq Id] in
/-- A path has no zero byte when none of its names has one. -/
theorem hasNul_false_iff :
    hasNul path=false ↔ ∀ name, .normal name ∈ path → 0 ∉ name := by
  rw [hasNul,List.any_eq_false]
  constructor
  · intro h name hin
    simpa using h _ hin
  · intro h c hin
    cases c with
    | normal name => simpa using h name hin
    | rootDir => exact Bool.false_ne_true
    | curDir => exact Bool.false_ne_true
    | parentDir => exact Bool.false_ne_true

omit [DecidableEq Id] in
theorem namesOf_pathOf (loc : List OsString) : namesOf (pathOf loc)=loc := by
  have hmap : ∀ names : List OsString, (names.map (Component.normal)).filterMap (fun
      | .normal name => some name
      | _ => none)=names := by
    intro names
    induction names with
    | nil => rfl
    | cons name names ih => simp only [List.map_cons,List.filterMap_cons,ih]
  rw [namesOf,pathOf,List.filterMap_cons_none rfl,hmap,List.reverse_reverse]

omit [DecidableEq Id] in
theorem resolve_pathOf (hplain : ∀ name ∈ loc, 0 ∉ name) :
    resolve fs (pathOf loc) false=resolveLoop fs [] loc := by
  have habsolute : isAbsolute (pathOf loc)=true := by
    rw [isAbsolute,pathOf,List.head?_cons]
    exact decide_eq_true rfl
  have hparent : (pathOf loc).contains .parentDir=false := by
    rw [Bool.eq_false_iff,Ne,List.contains_iff_mem]
    simp [pathOf]
  have hnul : hasNul (pathOf loc)=false := by
    rw [hasNul_false_iff]
    intro name hin
    apply hplain
    simpa [pathOf] using hin
  rw [resolve,habsolute,hparent,hnul]
  simp [namesOf_pathOf]

variable {missing : List OsString}

omit [DecidableEq Id] in
theorem resolveRound_directory {id : Id}
    {pop : Except StorageError (List OsString×List OsString×List OsString)}
    (hs : fs.Settled loc) (hid : fs.node loc=some (.directory id)) :
    resolveRound fs missing loc pop=.ok (missing++loc,loc,missing.reverse) := by
  rw [resolveRound,canonicalize_settled hs,hid]
  simp only
  rw [metadata_settled hs,hid]
  simp [isDir]

omit [DecidableEq Id] in
theorem resolveLoop_settled (hs : fs.Settled loc) (hfile : ∀ id, fs.node loc≠some (.file id))
    (missing : List OsString) : ∃ ancestor names, ancestor <:+ loc ∧
      (∃ id, fs.node ancestor=some (.directory id)) ∧
      resolveLoop fs missing loc=.ok (missing++loc,ancestor,names) := by
  induction loc generalizing missing with
  | nil =>
    obtain ⟨id,hid⟩ := fs.root
    exact ⟨[],missing.reverse,List.suffix_refl _,⟨id,hid⟩,resolveRound_directory hs hid⟩
  | cons name loc ih =>
    cases hn : fs.node (name::loc) with
    | none =>
      obtain ⟨ancestor,names,hsuffix,hdir,hloop⟩ := ih hs.2.2 hs.1 (missing++[name])
      refine ⟨ancestor,names,hsuffix.trans (List.suffix_cons name loc),hdir,?_⟩
      rw [resolveLoop,resolveRound,canonicalize_settled hs,hn]
      simp only
      rw [symlinkMetadata_settled hs,metadata_settled hs,hn]
      simp only
      rw [hloop,List.append_assoc,List.singleton_append]
    | some node =>
      cases node with
      | directory id => exact ⟨name::loc,missing.reverse,List.suffix_refl _,⟨id,hn⟩,
        resolveRound_directory hs hn⟩
      | file id => exact absurd hn (hfile id)
      | link target => exact absurd hn (hs.2.1 target)

omit [DecidableEq Id] in
/-- An exclusion whose path denotes a location within the links that are followed resolves to it,
behind a directory. -/
theorem resolveExclusion_denotes (habsolute : isAbsolute path=true) (hnul : hasNul path=false)
    (hk : k ≤ maxLinks) (hd : fs.Denotes k [] path loc) : ∃ ancestor names, ancestor <:+ loc ∧
      (∃ id, fs.node ancestor=some (.directory id)) ∧
      resolveExclusion fs path=.ok (loc,ancestor,names) := by
  have hroot : fs.Settled [] := trivial
  have hs := hd.settled hroot
  have hplain := plain_denotes hd (by simp) (hasNul_false_iff.mp hnul)
  obtain ⟨hleft,hproject⟩ := (project_iff maxLinks path hroot).mpr ⟨k,hd,Nat.add_sub_of_le hk⟩
  rw [resolveExclusion,habsolute,hnul]
  simp only [Bool.not_true,Bool.or_self,Bool.false_eq_true,if_false]
  rw [hproject]
  simp only
  rw [symlinkMetadata_settled hs,metadata_settled hs]
  have hrest : (∀ id, fs.node loc≠some (.file id)) → ∃ ancestor names, ancestor <:+ loc ∧
      (∃ id, fs.node ancestor=some (.directory id)) ∧
      resolve fs (pathOf loc) false=.ok (loc,ancestor,names) := by
    intro hfile
    rw [resolve_pathOf hplain]
    exact resolveLoop_settled hs hfile []
  cases hn : fs.node loc with
  | none =>
    rw [hn] at hrest
    exact hrest fun _ he => nomatch he
  | some node =>
    rw [hn] at hrest
    cases node with
    | directory id => exact hrest fun _ he => nomatch he
    | link target => exact absurd hn (hs.not_link target)
    | file id =>
      cases loc with
      | nil =>
        obtain ⟨i,hi⟩ := fs.root
        rw [hi] at hn
        cases hn
      | cons name parent =>
        obtain ⟨i,hi⟩ := directory_above hn
        have hparent : resolve fs (pathOf parent) false=.ok (parent,parent,[]) := by
          rw [resolve_pathOf fun n hin => hplain n (List.mem_cons_of_mem name hin)]
          cases parent with
          | nil => exact resolveRound_directory hs.2.2 hi
          | cons other above => exact resolveRound_directory hs.2.2 hi
        refine ⟨parent,[name],List.suffix_cons name parent,⟨i,hi⟩,?_⟩
        simp only [isDir,Bool.not_false,if_true]
        rw [hparent]

variable {ancestor names : List OsString}

omit [DecidableEq Id] in
theorem resolveExclusion_sound (h : resolveExclusion fs path=.ok (loc,ancestor,names)) :
    isAbsolute path=true ∧
      hasNul path=false ∧ ∃ k ≤ maxLinks, fs.Denotes k [] path loc := by
  have hroot : fs.Settled [] := trivial
  cases habsolute : isAbsolute path with
  | false => simp [resolveExclusion,habsolute] at h
  | true =>
    cases hnul : hasNul path with
    | true => simp [resolveExclusion,habsolute,hnul] at h
    | false =>
      cases hproject : project fs maxLinks [] path with
      | error e => simp [resolveExclusion,habsolute,hnul,hproject] at h
      | ok x =>
        obtain ⟨⟨goal,left⟩,hleft⟩ := x
        obtain ⟨k,hd,hk⟩ := (project_iff maxLinks path hroot).mp ⟨hleft,hproject⟩
        have hle : k ≤ maxLinks := by omega
        obtain ⟨a,n,_,_,hgoal⟩ := resolveExclusion_denotes habsolute hnul hle hd
        rw [hgoal] at h
        cases h
        exact ⟨rfl,rfl,k,hle,hd⟩

/-- Locations that a resolution returns. -/
inductive Resolved (fs : FileSystem Id) (loc : List OsString) : Prop where
  | exclusion (path : List (Component OsString)) (ancestor names : List OsString)
      (h : resolveExclusion fs path=.ok (loc,ancestor,names))
  | target (path : List (Component OsString)) (reject : Bool) (ancestor names : List OsString)
      (h : resolve fs path reject=.ok (loc,ancestor,names))

variable {cursor : List OsString}

omit [DecidableEq Id] in
theorem canonicalize_physical (h : canonicalize fs cursor=.ok loc) : fs.Physical loc := by
  obtain ⟨id,hid⟩ := fs.root
  exact walk_physical _ (directory_physical hid) h

omit [DecidableEq Id] in
/-- One round of the loop of `resolve` returns a directory and the missing names behind it, or
goes on behind a name that is missing. -/
theorem resolveRound_cases {pop : Except StorageError (List OsString×List OsString×List OsString)}
    (h : resolveRound fs missing cursor pop=.ok (loc,ancestor,names)) :
    (canonicalize fs cursor=.ok ancestor ∧ loc=missing++ancestor) ∨
      symlinkMetadata fs cursor=.error .notFound ∧ pop=.ok (loc,ancestor,names) := by
  rw [resolveRound] at h
  cases hc : canonicalize fs cursor with
  | ok found =>
    simp only [hc] at h
    cases hm : metadata fs found with
    | error e => simp [hm] at h
    | ok node =>
      simp only [hm] at h
      cases hdir : isDir node with
      | false => simp [hdir] at h
      | true =>
        simp only [hdir,Bool.not_true,Bool.false_eq_true,if_false,Except.ok.injEq,
          Prod.mk.injEq] at h
        obtain ⟨hloc,hfound,_⟩ := h
        subst hfound
        exact Or.inl ⟨rfl,by simpa using hloc.symm⟩
  | error e =>
    cases e with
    | notFound =>
      simp only [hc] at h
      cases hs : symlinkMetadata fs cursor with
      | ok node => simp [hs] at h
      | error e =>
        cases e with
        | notFound =>
          simp only [hs] at h
          exact Or.inr ⟨rfl,h⟩
        | notDirectory => simp [hs] at h
        | tooManyLinks => simp [hs] at h
    | notDirectory => simp [hc] at h
    | tooManyLinks => simp [hc] at h

omit [DecidableEq Id] in
theorem missing_settled (hmissing : missing=[] ∨ ∃ front name, missing=front++[name] ∧
      symlinkMetadata fs (name::cursor)=.error .notFound)
    (h : canonicalize fs cursor=.ok ancestor) : fs.Settled (missing++ancestor) := by
  have hs := (canonicalize_physical h).settled
  cases hmissing with
  | inl he =>
    rw [he]
    exact hs
  | inr he =>
    obtain ⟨front,name,he,hname⟩ := he
    rw [canonicalize] at h
    rw [symlinkMetadata,h] at hname
    obtain ⟨hfile,hnone⟩ := enter_notFound hname
    have hsettled : fs.Settled (name::ancestor) := by
      refine ⟨hfile,fun target ht => ?_,hs⟩
      rw [hnone] at ht
      cases ht
    rw [he,List.append_assoc,List.singleton_append]
    exact (hsettled.behind_missing hnone front).1

omit [DecidableEq Id] in
theorem resolveLoop_sound (cursor : List OsString)
    (hmissing : missing=[] ∨ ∃ front name, missing=front++[name] ∧
      symlinkMetadata fs (name::cursor)=.error .notFound)
    (h : resolveLoop fs missing cursor=.ok (loc,ancestor,names)) : fs.Settled loc := by
  induction cursor generalizing missing with
  | nil =>
    cases resolveRound_cases h with
    | inl hfound =>
      rw [hfound.2]
      exact missing_settled hmissing hfound.1
    | inr hpop => cases hpop.2
  | cons name cursor ih =>
    cases resolveRound_cases h with
    | inl hfound =>
      rw [hfound.2]
      exact missing_settled hmissing hfound.1
    | inr hpop => exact ih (Or.inr ⟨missing,name,rfl,hpop.1⟩) hpop.2

omit [DecidableEq Id] in
theorem resolveLoop_plain (cursor : List OsString) (hcursor : ∀ name ∈ cursor, 0 ∉ name)
    (hmissing : ∀ name ∈ missing, 0 ∉ name)
    (h : resolveLoop fs missing cursor=.ok (loc,ancestor,names)) : ∀ name ∈ loc, 0 ∉ name := by
  have hfound : ∀ {cursor missing : List OsString}, (∀ name ∈ cursor, 0 ∉ name) →
      (∀ name ∈ missing, 0 ∉ name) → canonicalize fs cursor=.ok ancestor →
      loc=missing++ancestor → ∀ name ∈ loc, 0 ∉ name := by
    intro cursor missing hcursor hmissing hc hloc name hin
    obtain ⟨k,_,hd⟩ := walk_denotes _ hc
    rw [hloc] at hin
    cases List.mem_append.mp hin with
    | inl hin => exact hmissing name hin
    | inr hin =>
      refine plain_denotes hd (by simp) (fun other hin => hcursor other ?_) name hin
      simpa [pathOf] using hin
  induction cursor generalizing missing with
  | nil =>
    cases resolveRound_cases h with
    | inl hc => exact hfound hcursor hmissing hc.1 hc.2
    | inr hpop => cases hpop.2
  | cons name cursor ih =>
    cases resolveRound_cases h with
    | inl hc => exact hfound hcursor hmissing hc.1 hc.2
    | inr hpop =>
      refine ih (fun other hin => hcursor other (List.mem_cons_of_mem name hin)) ?_ hpop.2
      intro other hin
      cases List.mem_append.mp hin with
      | inl hin => exact hmissing other hin
      | inr hin =>
        rw [List.mem_singleton.mp hin]
        exact hcursor name List.mem_cons_self

omit [DecidableEq Id] in
theorem resolve_loop {reject : Bool} (h : resolve fs path reject=.ok (loc,ancestor,names)) :
    hasNul path=false ∧ resolveLoop fs [] (namesOf path)=.ok (loc,ancestor,names) := by
  rw [resolve] at h
  split at h
  · cases h
  · rename_i hchecks
    have hnul : hasNul path=false := by
      simp only [Bool.or_eq_true,not_or,Bool.not_eq_true] at hchecks
      exact hchecks.2
    refine ⟨hnul,?_⟩
    simp only at h
    split at h
    · split at h
      · split at h
        · exact h
        · cases h
      · exact h
      · cases h
    · exact h

omit [DecidableEq Id] in
theorem Resolved.settled (h : Resolved fs loc) : fs.Settled loc := by
  cases h with
  | exclusion path ancestor names h =>
    obtain ⟨_,_,k,_,hd⟩ := resolveExclusion_sound h
    have hroot : fs.Settled [] := trivial
    exact hd.settled hroot
  | target path reject ancestor names h =>
    exact resolveLoop_sound _ (Or.inl rfl) (resolve_loop h).2

omit [DecidableEq Id] in
/-- The names of returned locations have no zero byte. -/
theorem Resolved.plain (h : Resolved fs loc) : ∀ name ∈ loc, 0 ∉ name := by
  cases h with
  | exclusion path ancestor names h =>
    obtain ⟨_,hnul,k,_,hd⟩ := resolveExclusion_sound h
    exact plain_denotes hd (by simp) (hasNul_false_iff.mp hnul)
  | target path reject ancestor names h =>
    obtain ⟨hnul,hloop⟩ := resolve_loop h
    refine resolveLoop_plain _ (fun name hin => hasNul_false_iff.mp hnul name ?_) (by simp) hloop
    rw [namesOf,List.mem_reverse,List.mem_filterMap] at hin
    obtain ⟨c,hc,hname⟩ := hin
    cases c with
    | normal other =>
      cases hname
      exact hc
    | rootDir => cases hname
    | curDir => cases hname
    | parentDir => cases hname

variable {root : List OsString}

omit [DecidableEq Id] in
/-- A directory has the identity of what stands at a location exactly when it stands there. -/
theorem identity_iff {node : Node OsString Id} {id : Id} (hroot : fs.Settled root)
    (hnode : fs.node root=some node) (hid : fs.node loc=some (.directory id)) :
    identity (.directory id)=identity node ↔ root=loc := by
  constructor
  · intro he
    cases node with
    | directory i => exact fs.single root loc i hnode (Option.some.inj he ▸ hid)
    | file i => exact absurd (Option.some.inj he ▸ hnode) (fs.apart loc root id hid)
    | link target => exact absurd hnode (hroot.not_link target)
  · intro he
    rw [he,hid] at hnode
    rw [Option.some.inj hnode]

/-- Comparing identities along the ancestors of a directory finds exactly what it ends with. -/
theorem ancestryLoop_settled {node : Node OsString Id} (hroot : fs.Settled root)
    (hnode : fs.node root=some node) (hs : fs.Settled loc)
    (hdir : ∃ id, fs.node loc=some (.directory id)) :
    ancestryLoop fs node loc=.ok (decide (root <:+ loc)) := by
  have hround : ∀ {loc id pop}, fs.Settled loc → fs.node loc=some (.directory id) →
      ancestryRound fs node loc pop=if root=loc then .ok true else pop := by
    intro loc id pop hs hid
    rw [ancestryRound,metadata_settled hs,hid]
    simp only [identity_iff hroot hnode hid]
  induction loc with
  | nil =>
    obtain ⟨id,hid⟩ := hdir
    rw [ancestryLoop,hround hs hid]
    by_cases he : root=[]
    · simp [he]
    · simp [he]
  | cons name loc ih =>
    obtain ⟨id,hid⟩ := hdir
    rw [ancestryLoop,hround hs hid,ih hs.2.2 (directory_above hid)]
    by_cases he : root=name::loc
    · rw [if_pos he,he]
      simp
    · rw [if_neg he]
      simp [List.suffix_cons_iff,he]

theorem physicalContains_settled (hroot : fs.Settled root) (hs : fs.Settled loc)
    (hplain : ∀ name ∈ loc, 0 ∉ name) :
    physicalContains fs root loc=.ok (decide (root <:+ loc)) := by
  rw [physicalContains]
  by_cases h : root <:+ loc
  · rw [if_pos h,decide_eq_true h]
  · rw [if_neg h,metadata_settled hroot,decide_eq_false h]
    cases hn : fs.node root with
    | none => rfl
    | some node =>
      have habsolute : isAbsolute (pathOf loc)=true := decide_eq_true rfl
      have hnul : hasNul (pathOf loc)=false := by
        rw [hasNul_false_iff]
        intro name hin
        apply hplain
        simpa [pathOf] using hin
      obtain ⟨ancestor,names,hsuffix,hdir,hresolve⟩ :=
        resolveExclusion_denotes habsolute hnul (Nat.zero_le _) hs.denotes
      simp only
      rw [hresolve]
      simp only
      rw [ancestryLoop_settled hroot hn (hs.suffix hsuffix) hdir]
      rw [decide_eq_false fun hin => h (hin.trans hsuffix)]

theorem physicalOverlap_settled {a b : List OsString} (ha : Resolved fs a)
    (hb : Resolved fs b) : physicalOverlap fs a b=.ok (decide (a <:+ b ∨ b <:+ a)) := by
  rw [physicalOverlap,physicalContains_settled ha.settled hb.settled hb.plain]
  by_cases h : a <:+ b
  · simp [h]
  · simp [h,physicalContains_settled hb.settled ha.settled ha.plain]

variable (fs)

/-- Resolution of an exclusion ends. It returns a location exactly when the path denotes it, links
followed component by component, with at most forty links, and then any kernel that finds the path
finds it there. Locations that are returned overlap exactly when one contains the other. -/
theorem exclusion_resolves :
    (∀ path loc, (∃ ancestor names, resolveExclusion fs path=.ok (loc,ancestor,names)) ↔
      isAbsolute path=true ∧ hasNul path=false ∧
        ∃ k ≤ maxLinks, fs.Denotes k [] path loc) ∧
    (∀ path loc links goal, (∃ ancestor names,
      resolveExclusion fs path=.ok (loc,ancestor,names)) →
        fs.walk links [] path=.ok goal → loc=goal) ∧
    ∀ a b, Resolved fs a → Resolved fs b →
      physicalOverlap fs a b=.ok (decide (a <:+ b ∨ b <:+ a)) ∧
        physicalOverlap fs a b=physicalOverlap fs b a := by
  refine ⟨fun path loc => ?_,?_,?_⟩
  · constructor
    · rintro ⟨ancestor,names,h⟩
      exact resolveExclusion_sound h
    · rintro ⟨habsolute,hnul,k,hk,hd⟩
      obtain ⟨ancestor,names,_,_,h⟩ := resolveExclusion_denotes habsolute hnul hk hd
      exact ⟨ancestor,names,h⟩
  · rintro path loc links goal ⟨ancestor,names,h⟩ hwalk
    obtain ⟨_,_,k,_,hd⟩ := resolveExclusion_sound h
    obtain ⟨j,_,hgoal⟩ := walk_denotes path hwalk
    exact (hd.unique hgoal).2
  · intro a b ha hb
    have hsymm : (a <:+ b ∨ b <:+ a) ↔ (b <:+ a ∨ a <:+ b) := Or.comm
    rw [physicalOverlap_settled ha hb,physicalOverlap_settled hb ha]
    simp only [hsymm,and_self]

end Librairii.ExclusionPaths
