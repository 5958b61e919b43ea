import Mathlib

/-!
# Directory trees with symbolic links

A volume holds directories, files and links at its locations. A path is read component by
component: a link is replaced by its target, a parent component goes back one name. What a path
denotes, missing names included, is a relation that counts the links it follows; the walk of a
kernel, which refuses missing names, is one of its runs.
-/

namespace Librairii.LinkedTrees

variable {Name Id : Type}

/-- Components of a path. -/
inductive Component (Name : Type) where
  /-- The root, at the beginning of an absolute path. -/
  | rootDir
  /-- The current directory. -/
  | curDir
  | parentDir
  | normal (name : Name)
  deriving DecidableEq

/-- What stands at a location. -/
inductive Node (Name Id : Type) where
  | directory (id : Id)
  | file (id : Id)
  | link (target : List (Component Name))
  deriving DecidableEq

/-- A volume. Locations are the names below the root, the innermost first. -/
structure Volume (Name Id : Type) where
  /-- What stands at each location. -/
  node : List Name → Option (Node Name Id)
  root : ∃ id, node []=some (.directory id)
  /-- What exists stands in a directory. -/
  within : ∀ name loc, node (name::loc)≠none → ∃ id, node loc=some (.directory id)
  /-- A directory stands at one location. -/
  single : ∀ a b id, node a=some (.directory id) → node b=some (.directory id) → a=b
  apart : ∀ a b id, node a=some (.directory id) → node b≠some (.file id)

/-- Failures of a walk. -/
inductive Errno where
  /-- A name is missing. -/
  | notFound
  /-- A name is looked up in something that is not a directory. -/
  | notDirectory
  | tooManyLinks
  deriving DecidableEq

def pathOf (loc : List Name) : List (Component Name) :=
  .rootDir::loc.reverse.map .normal

theorem pathOf_cons (name : Name) (loc : List Name) (rest : List (Component Name)) :
    pathOf (name::loc)++rest=pathOf loc++.normal name::rest := by
  simp [pathOf]

namespace Volume

variable (v : Volume Name Id)

/-- Look a name up at a location. -/
def enter (loc : List Name) (name : Name) : Except Errno (Node Name Id) :=
  match v.node loc with
  | none => .error .notFound
  | some (.directory _) =>
    match v.node (name::loc) with
    | none => .error .notFound
    | some node => .ok node
  | some _ => .error .notDirectory

/-- The walk of a path from a location that may follow so many links. -/
def walk (links : ℕ) (loc : List Name) : List (Component Name) → Except Errno (List Name)
  | [] => .ok loc
  | .rootDir::rest => walk links [] rest
  | .curDir::rest =>
    match v.node loc with
    | some (.directory _) => walk links loc rest
    | _ => .error .notDirectory
  | .parentDir::rest =>
    match v.node loc with
    | some (.directory _) => walk links loc.tail rest
    | _ => .error .notDirectory
  | .normal name::rest =>
    match v.enter loc name with
    | .error e => .error e
    | .ok (.link target) =>
      match links with
      | 0 => .error .tooManyLinks
      | links+1 => walk links loc (target++rest)
    | .ok _ => walk links (name::loc) rest
termination_by path => (links,path.length)

/-- What a path denotes from a location, and the links that are followed. Missing names are kept,
and a parent component removes the name before it. -/
inductive Denotes : ℕ → List Name → List (Component Name) → List Name → Prop where
  /-- Nothing more to read. -/
  | done (loc : List Name) : Denotes 0 loc [] loc
  | root {k : ℕ} {loc goal : List Name} {rest : List (Component Name)} :
    Denotes k [] rest goal → Denotes k loc (.rootDir::rest) goal
  /-- Stay. -/
  | current {k : ℕ} {loc goal : List Name} {rest : List (Component Name)} :
    Denotes k loc rest goal → Denotes k loc (.curDir::rest) goal
  /-- Back one name. -/
  | parent {k : ℕ} {loc goal : List Name} {rest : List (Component Name)} :
    Denotes k loc.tail rest goal → Denotes k loc (.parentDir::rest) goal
  | name {k : ℕ} {name : Name} {loc goal : List Name} {rest : List (Component Name)} :
    (∀ id, v.node loc≠some (.file id)) → (∀ target, v.node (name::loc)≠some (.link target)) →
    Denotes k (name::loc) rest goal → Denotes k loc (.normal name::rest) goal
  | link {k : ℕ} {name : Name} {loc goal : List Name} {target rest : List (Component Name)} :
    v.node (name::loc)=some (.link target) → Denotes k loc (target++rest) goal →
    Denotes (k+1) loc (.normal name::rest) goal

/-- Something that is not a link stands at the location. -/
def Physical (loc : List Name) : Prop := ∃ node, v.node loc=some node ∧ ∀ t, node≠.link t

/-- The names of the location pass no link, and no name stands below a file. -/
def Settled : List Name → Prop
  | [] => True
  | name::loc => (∀ id, v.node loc≠some (.file id)) ∧
    (∀ target, v.node (name::loc)≠some (.link target)) ∧ Settled loc

end Volume

variable {v : Volume Name Id} {loc goal : List Name} {k : ℕ}

theorem root_not_link (target : List (Component Name)) : v.node []≠some (.link target) := by
  obtain ⟨id,hid⟩ := v.root
  intro h
  rw [hid] at h
  cases h

theorem Volume.Settled.not_link (h : v.Settled loc) (target : List (Component Name)) :
    v.node loc≠some (.link target) := by
  cases loc with
  | nil => exact root_not_link target
  | cons name loc => exact h.2.1 target

theorem Volume.Settled.tail (h : v.Settled loc) : v.Settled loc.tail := by
  cases loc with
  | nil => exact h
  | cons name loc => exact h.2.2

theorem Volume.Settled.suffix {above : List Name} (h : v.Settled loc) (ha : above <:+ loc) :
    v.Settled above := by
  induction loc with
  | nil =>
    rw [List.suffix_nil.mp ha]
    exact h
  | cons name loc ih =>
    cases List.suffix_cons_iff.mp ha with
    | inl he =>
      rw [he]
      exact h
    | inr ha => exact ih h.2.2 ha

theorem Volume.Physical.settled (h : v.Physical loc) : v.Settled loc := by
  induction loc with
  | nil => trivial
  | cons name loc ih =>
    obtain ⟨node,hnode,hlink⟩ := h
    have hsome : v.node (name::loc)≠none := by
      rw [hnode]
      exact Option.some_ne_none _
    obtain ⟨id,hid⟩ := v.within name loc hsome
    have hfile : ∀ i, v.node loc≠some (.file i) := by
      intro i he
      rw [hid] at he
      cases he
    have hname : ∀ t, v.node (name::loc)≠some (.link t) := by
      intro t he
      rw [hnode] at he
      exact hlink t (Option.some.inj he)
    exact ⟨hfile,hname,ih ⟨_,hid,fun t ht => nomatch ht⟩⟩

variable {name : Name} {node : Node Name Id}

theorem directory_above (h : v.node (name::loc)=some node) :
    ∃ id, v.node loc=some (.directory id) :=
  v.within name loc (by
    rw [h]
    exact Option.some_ne_none _)

theorem Volume.Settled.behind_missing (h : v.Settled loc) (hnone : v.node loc=none)
    (names : List Name) : v.Settled (names++loc) ∧ v.node (names++loc)=none := by
  induction names with
  | nil => exact ⟨h,hnone⟩
  | cons name names ih =>
    have hname : v.node (name::(names++loc))=none := by
      by_contra hne
      obtain ⟨id,hid⟩ := v.within _ _ hne
      rw [ih.2] at hid
      cases hid
    have hfile : ∀ id, v.node (names++loc)≠some (.file id) := by
      intro id he
      rw [ih.2] at he
      cases he
    have hlink : ∀ target, v.node (name::(names++loc))≠some (.link target) := by
      intro target he
      rw [hname] at he
      cases he
    have hsettled : v.Settled (name::(names++loc)) := ⟨hfile,hlink,ih.1⟩
    exact ⟨hsettled,hname⟩

theorem Volume.Settled.enter (h : v.Settled (name::loc)) :
    v.enter loc name=match v.node (name::loc) with
      | none => .error .notFound
      | some node => .ok node := by
  cases hn : v.node loc with
  | none =>
    have hnone : v.node (name::loc)=none := by
      by_contra hne
      obtain ⟨id,hid⟩ := v.within name loc hne
      rw [hid] at hn
      cases hn
    simp [Volume.enter,hn,hnone]
  | some node =>
    cases node with
    | directory id => simp [Volume.enter,hn]
    | file id => exact absurd hn (h.1 id)
    | link target => exact absurd hn (h.2.2.not_link target)

variable {rest : List (Component Name)}

theorem Volume.Settled.walk (h : v.Settled loc) :
    v.walk k [] (pathOf loc++rest)=match v.node loc with
      | none => .error .notFound
      | some _ => v.walk k loc rest := by
  induction loc generalizing rest with
  | nil =>
    obtain ⟨id,hid⟩ := v.root
    simp [pathOf,Volume.walk,hid]
  | cons name loc ih =>
    rw [pathOf_cons,ih h.2.2]
    cases hn : v.node (name::loc) with
    | none =>
      cases hl : v.node loc with
      | none => rfl
      | some node => simp [Volume.walk,h.enter,hn]
    | some node =>
      obtain ⟨id,hid⟩ := directory_above hn
      rw [hid]
      cases node with
      | directory id => simp [Volume.walk,h.enter,hn]
      | file id => simp [Volume.walk,h.enter,hn]
      | link target => exact absurd hn (h.2.1 target)

/-- What is looked up stands there. -/
theorem enter_ok (h : v.enter loc name=.ok node) : v.node (name::loc)=some node := by
  unfold Volume.enter at h
  split at h
  · cases h
  · split at h
    · cases h
    · rename_i hnode
      rw [hnode,Except.ok.inj h]
  · cases h

theorem enter_notFound (h : v.enter loc name=.error .notFound) : (∀ id, v.node loc≠some (.file id))
    ∧ v.node (name::loc)=none := by
  unfold Volume.enter at h
  cases hn : v.node loc with
  | none =>
    refine ⟨fun id he => (nomatch he),?_⟩
    by_contra hne
    obtain ⟨id,hid⟩ := v.within name loc hne
    rw [hid] at hn
    cases hn
  | some node =>
    cases node with
    | directory id =>
      simp only [hn] at h
      cases hname : v.node (name::loc) with
      | none => exact ⟨fun i he => (nomatch he),rfl⟩
      | some node => simp [hname] at h
    | file id => simp [hn] at h
    | link target => simp [hn] at h

theorem Volume.Settled.enter_error {e : Errno} (hs : v.Settled loc) (h : v.enter loc name=.error e)
    (hne : e≠.notFound) : ∃ id, v.node loc=some (.file id) := by
  unfold Volume.enter at h
  cases hn : v.node loc with
  | none =>
    simp only [hn,Except.error.injEq] at h
    exact absurd h.symm hne
  | some node =>
    cases node with
    | directory id =>
      simp only [hn] at h
      cases hname : v.node (name::loc) with
      | none =>
        simp only [hname,Except.error.injEq] at h
        exact absurd h.symm hne
      | some node => simp [hname] at h
    | file id => exact ⟨id,rfl⟩
    | link target => exact absurd hn (hs.not_link target)

theorem not_below_file (h : v.node (name::loc)=some node) (id : Id) :
    v.node loc≠some (.file id) := by
  obtain ⟨i,hi⟩ := directory_above h
  intro he
  rw [hi] at he
  cases he

theorem directory_physical {id : Id} (h : v.node loc=some (.directory id)) : v.Physical loc :=
  ⟨_,h,fun _ ht => nomatch ht⟩

theorem walk_physical (path : List (Component Name)) :
    ∀ {loc}, v.Physical loc → v.walk k loc path=.ok goal → v.Physical goal := by
  induction k using Nat.strong_induction_on generalizing path with
  | _ k ihk =>
    induction path with
    | nil =>
      intro loc hloc h
      rw [Volume.walk] at h
      exact Except.ok.inj h ▸ hloc
    | cons c rest ih =>
      intro loc hloc h
      cases c with
      | rootDir =>
        rw [Volume.walk] at h
        obtain ⟨id,hid⟩ := v.root
        exact ih (directory_physical hid) h
      | curDir =>
        rw [Volume.walk] at h
        cases hn : v.node loc with
        | none => simp [hn] at h
        | some node => cases node with
          | directory id =>
            simp only [hn] at h
            exact ih hloc h
          | file id => simp [hn] at h
          | link t => simp [hn] at h
      | parentDir =>
        rw [Volume.walk] at h
        cases hn : v.node loc with
        | none => simp [hn] at h
        | some node => cases node with
          | directory id =>
            simp only [hn] at h
            cases loc with
            | nil => exact ih hloc h
            | cons name loc =>
              obtain ⟨i,hi⟩ := directory_above hn
              exact ih (directory_physical hi) h
          | file id => simp [hn] at h
          | link t => simp [hn] at h
      | normal name =>
        rw [Volume.walk] at h
        cases he : v.enter loc name with
        | error e => simp [he] at h
        | ok node =>
          have hn := enter_ok he
          cases node with
          | directory id =>
            simp only [he] at h
            exact ih (directory_physical hn) h
          | file id =>
            simp only [he] at h
            exact ih ⟨_,hn,fun _ ht => nomatch ht⟩ h
          | link target =>
            simp only [he] at h
            cases k with
            | zero => cases h
            | succ k => exact ihk k (Nat.lt_succ_self k) _ hloc h

variable {path : List (Component Name)}

theorem Volume.Denotes.settled (h : v.Denotes k loc path goal) (hs : v.Settled loc) :
    v.Settled goal := by
  induction h with
  | done loc => exact hs
  | root _ ih => exact ih trivial
  | current _ ih => exact ih hs
  | parent _ ih => exact ih hs.tail
  | name hfile hlink _ ih => exact ih ⟨hfile,hlink,hs⟩
  | link _ _ ih => exact ih hs

theorem Volume.Denotes.unique {j : ℕ} {other : List Name} (h : v.Denotes k loc path goal)
    (h' : v.Denotes j loc path other) : k=j ∧ goal=other := by
  induction h generalizing j with
  | done loc =>
    cases h'
    exact ⟨rfl,rfl⟩
  | root _ ih =>
    cases h' with
    | root h' => exact ih h'
  | current _ ih =>
    cases h' with
    | current h' => exact ih h'
  | parent _ ih =>
    cases h' with
    | parent h' => exact ih h'
  | name _ hlink _ ih =>
    cases h' with
    | name _ _ h' => exact ih h'
    | link ht _ => exact absurd ht (hlink _)
  | link ht _ ih =>
    cases h' with
    | name _ hlink _ => exact absurd ht (hlink _)
    | link ht' h' =>
      rw [ht] at ht'
      cases ht'
      have hih := ih h'
      exact ⟨by rw [hih.1],hih.2⟩

theorem denotes_root_iff :
    v.Denotes k loc (.rootDir::rest) goal ↔ v.Denotes k [] rest goal := by
  constructor
  · intro h
    cases h with
    | root h => exact h
  · exact .root

theorem denotes_current_iff :
    v.Denotes k loc (.curDir::rest) goal ↔ v.Denotes k loc rest goal := by
  constructor
  · intro h
    cases h with
    | current h => exact h
  · exact .current

theorem denotes_parent_iff :
    v.Denotes k loc (.parentDir::rest) goal ↔ v.Denotes k loc.tail rest goal := by
  constructor
  · intro h
    cases h with
    | parent h => exact h
  · exact .parent

theorem denotes_name_iff (hfile : ∀ id, v.node loc≠some (.file id))
    (hlink : ∀ target, v.node (name::loc)≠some (.link target)) :
    v.Denotes k loc (.normal name::rest) goal ↔ v.Denotes k (name::loc) rest goal := by
  constructor
  · intro h
    cases h with
    | name _ _ h => exact h
    | link ht _ => exact absurd ht (hlink _)
  · exact .name hfile hlink

theorem denotes_link_iff {target : List (Component Name)}
    (ht : v.node (name::loc)=some (.link target)) : v.Denotes k loc (.normal name::rest) goal ↔
      ∃ j, k=j+1 ∧ v.Denotes j loc (target++rest) goal := by
  constructor
  · intro h
    cases h with
    | name _ hlink _ => exact absurd ht (hlink _)
    | link ht' h =>
      rw [ht] at ht'
      cases ht'
      exact ⟨_,rfl,h⟩
  · rintro ⟨j,rfl,h⟩
    exact .link ht h

theorem denotes_below_file {id : Id} (h : v.node loc=some (.file id)) :
    ¬v.Denotes k loc (.normal name::rest) goal := by
  intro hd
  cases hd with
  | name hfile _ _ => exact hfile id h
  | link ht _ =>
    obtain ⟨i,hi⟩ := directory_above ht
    rw [h] at hi
    cases hi

/-- What two paths denote one after the other. -/
theorem Volume.Denotes.append {j : ℕ} {mid : List Name} (h : v.Denotes k loc path mid)
    (h' : v.Denotes j mid rest goal) : v.Denotes (k+j) loc (path++rest) goal := by
  induction h with
  | done loc =>
    rw [Nat.zero_add]
    exact h'
  | root _ ih => exact .root (ih h')
  | current _ ih => exact .current (ih h')
  | parent _ ih => exact .parent (ih h')
  | name hfile hlink _ ih => exact .name hfile hlink (ih h')
  | link ht _ ih =>
    rw [Nat.add_right_comm]
    rw [List.append_assoc] at ih
    exact .link ht (ih h')

theorem Volume.Denotes.split (h : v.Denotes k loc (path++rest) goal) :
    ∃ i j mid, k=i+j ∧ v.Denotes i loc path mid ∧
      v.Denotes j mid rest goal := by
  have hnil : ∀ {k loc goal whole}, []++rest=whole → v.Denotes k loc whole goal →
      ∃ i j mid, k=i+j ∧ v.Denotes i loc [] mid ∧ v.Denotes j mid rest goal := by
    intro k loc goal whole he h
    rw [List.nil_append] at he
    rw [he]
    exact ⟨0,k,loc,(Nat.zero_add k).symm,.done loc,h⟩
  generalize he : path++rest=whole at h
  induction h generalizing path with
  | done loc =>
    have hnil := List.append_eq_nil_iff.mp he
    rw [hnil.1,hnil.2]
    exact ⟨0,0,loc,rfl,.done loc,.done loc⟩
  | @root k loc goal whole h ih =>
    cases path with
    | nil => exact hnil he (.root h)
    | cons c path =>
      cases he
      obtain ⟨i,j,mid,hk,hi,hj⟩ := ih rfl
      exact ⟨i,j,mid,hk,.root hi,hj⟩
  | @current k loc goal whole h ih =>
    cases path with
    | nil => exact hnil he (.current h)
    | cons c path =>
      cases he
      obtain ⟨i,j,mid,hk,hi,hj⟩ := ih rfl
      exact ⟨i,j,mid,hk,.current hi,hj⟩
  | @parent k loc goal whole h ih =>
    cases path with
    | nil => exact hnil he (.parent h)
    | cons c path =>
      cases he
      obtain ⟨i,j,mid,hk,hi,hj⟩ := ih rfl
      exact ⟨i,j,mid,hk,.parent hi,hj⟩
  | @name k name loc goal whole hfile hlink h ih =>
    cases path with
    | nil => exact hnil he (.name hfile hlink h)
    | cons c path =>
      cases he
      obtain ⟨i,j,mid,hk,hi,hj⟩ := ih rfl
      exact ⟨i,j,mid,hk,.name hfile hlink hi,hj⟩
  | @link k name loc goal target whole ht h ih =>
    cases path with
    | nil => exact hnil he (.link ht h)
    | cons c path =>
      cases he
      obtain ⟨i,j,mid,hk,hi,hj⟩ := ih (List.append_assoc target path rest)
      exact ⟨i+1,j,mid,by omega,.link ht hi,hj⟩

theorem Volume.Settled.denotes (h : v.Settled loc) : v.Denotes 0 [] (pathOf loc) loc := by
  induction loc with
  | nil => exact .root (.done [])
  | cons name loc ih =>
    have hpath := pathOf_cons name loc []
    rw [List.append_nil] at hpath
    rw [hpath]
    exact (ih h.2.2).append (.name h.1 h.2.1 (.done _))

theorem Volume.Settled.denotes_iff (h : v.Settled loc) :
    v.Denotes k [] (pathOf loc++path) goal ↔ v.Denotes k loc path goal := by
  constructor
  · intro hd
    obtain ⟨i,j,mid,hk,hi,hj⟩ := hd.split
    obtain ⟨rfl,rfl⟩ := hi.unique h.denotes
    rw [hk,Nat.zero_add]
    exact hj
  · intro hd
    have happ := h.denotes.append hd
    rw [Nat.zero_add] at happ
    exact happ

theorem walk_denotes (path : List (Component Name)) :
    ∀ {loc}, v.walk k loc path=.ok goal → ∃ j ≤ k, v.Denotes j loc path goal := by
  induction k using Nat.strong_induction_on generalizing path with
  | _ k ihk =>
    induction path with
    | nil =>
      intro loc h
      rw [Volume.walk] at h
      rw [Except.ok.inj h]
      exact ⟨0,Nat.zero_le k,.done goal⟩
    | cons c rest ih =>
      intro loc h
      cases c with
      | rootDir =>
        rw [Volume.walk] at h
        obtain ⟨j,hj,hd⟩ := ih h
        exact ⟨j,hj,.root hd⟩
      | curDir =>
        rw [Volume.walk] at h
        split at h
        · obtain ⟨j,hj,hd⟩ := ih h
          exact ⟨j,hj,.current hd⟩
        · cases h
      | parentDir =>
        rw [Volume.walk] at h
        split at h
        · obtain ⟨j,hj,hd⟩ := ih h
          exact ⟨j,hj,.parent hd⟩
        · cases h
      | normal name =>
        rw [Volume.walk] at h
        cases he : v.enter loc name with
        | error e => simp [he] at h
        | ok node =>
          have hn := enter_ok he
          have hstep : (∀ t, node≠.link t) → v.walk k (name::loc) rest=.ok goal →
              ∃ j ≤ k, v.Denotes j loc (.normal name::rest) goal := by
            intro hlink h
            obtain ⟨j,hj,hd⟩ := ih h
            exact ⟨j,hj,.name (not_below_file hn)
              (fun t ht => hlink t (Option.some.inj (hn.symm.trans ht))) hd⟩
          cases node with
          | directory id =>
            simp only [he] at h
            exact hstep (fun t ht => nomatch ht) h
          | file id =>
            simp only [he] at h
            exact hstep (fun t ht => nomatch ht) h
          | link target =>
            simp only [he] at h
            cases k with
            | zero => cases h
            | succ k =>
              obtain ⟨j,hj,hd⟩ := ihk k (Nat.lt_succ_self k) _ h
              exact ⟨j+1,by omega,.link hn hd⟩

end Librairii.LinkedTrees
