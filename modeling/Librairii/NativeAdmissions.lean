import Librairii.NativeRuns

/-!
# Which libraries are admitted again

A library that is left intact is admitted again exactly when no private name of a next
record is left in its root: such a name is taken for foreign by both ways of opening.
-/

namespace Librairii.NativeAdmissions

open InterruptedSteps NamedObjects ControlFiles ControlStages ControlMoves NativeRecords
  NativeLibraries NativeTransitions NativeReconciliation NativeCourses NativeOperations NativeMoves
  NativeOpenings NativeRuns CheckedResults

section Answers

variable {σ ε ε' α β γ : Type} {t : σ}

/-- Left alone and without failing calls, a program answers and leaves the state. -/
structure Answers (m : Steps σ Choice ε α) (t : σ) (reply : Except ε α) : Prop where
  /-- The answer. -/
  reply : (m t []).reply=reply
  state : (m t []).state=t
  /-- No choices are left. -/
  rest : (m t []).rest=[]

/-- Returning. -/
theorem answers_pure (a : α) : Answers (pure a : Steps σ Choice ε α) t (.ok a) := ⟨rfl,rfl,rfl⟩

/-- Checking a value. -/
theorem answers_inspect {f : σ → Except ε α} {reply : Except ε α} (h : f t=reply) :
    Answers (inspect f : Steps σ Choice ε α) t reply := ⟨h,rfl,rfl⟩

/-- Two programs in order. -/
theorem answers_bind {m : Steps σ Choice ε α} {f : α → Steps σ Choice ε β} {a : α}
    {reply : Except ε β} (hm : Answers m t (.ok a)) (hf : Answers (f a) t reply) :
    Answers (m >>= f) t reply := by
  have hbind : (m >>= f) t []=
      ⟨(f a t []).reply,(f a t []).state,(m t []).passed ++ (f a t []).passed,(f a t []).rest⟩ := by
    change Steps.bind m f t []=_
    unfold Steps.bind
    dsimp only
    rw [hm.reply,hm.state,hm.rest]
  exact ⟨by rw [hbind]; exact hf.reply,by rw [hbind]; exact hf.state,
    by rw [hbind]; exact hf.rest⟩

/-- A program that fails at once. -/
theorem answers_bind_error {m : Steps σ Choice ε α} {f : α → Steps σ Choice ε β} {e : ε}
    (hm : Answers m t (.error e)) : Answers (m >>= f) t (.error e) := by
  have hbind : (m >>= f) t []=⟨.error e,(m t []).state,(m t []).passed,(m t []).rest⟩ := by
    change Steps.bind m f t []=_
    unfold Steps.bind
    dsimp only
    rw [hm.reply]
  exact ⟨by rw [hbind],by rw [hbind]; exact hm.state,by rw [hbind]; exact hm.rest⟩

/-- A program whose error is returned as a value. -/
theorem answers_attempt_bind {m : Steps σ Choice ε α} {k : Except ε α → Steps σ Choice ε' β}
    {reply : Except ε α} {result : Except ε' β} (hm : Answers m t reply)
    (hk : Answers (k reply) t result) : Answers (attempt m >>= k) t result := by
  have hattempt : Answers (attempt m : Steps σ Choice ε' (Except ε α)) t (.ok reply) :=
    ⟨by change Except.ok (m t []).reply=_; rw [hm.reply],hm.state,hm.rest⟩
  exact answers_bind hattempt hk

/-- Programs over a list that all succeed. -/
theorem answers_forM {f : γ → Steps σ Choice ε PUnit} :
    ∀ xs : List γ, (∀ x ∈ xs, Answers (f x) t (.ok ⟨⟩)) → Answers (xs.forM f) t (.ok ⟨⟩) := by
  intro xs
  induction xs with
  | nil => exact fun _ => answers_pure _
  | cons x xs ih =>
    intro h
    exact answers_bind (h x List.mem_cons_self) (ih fun y hy => h y (List.mem_cons_of_mem _ hy))

end Answers

section Quiet

variable {α : Type} {s : Control} {disk : Disk}

theorem answers_look {context : String} {f : Control → Except StorageError α}
    {reply : Except StorageError α} (h : f s=reply) : Answers (look context f) s reply :=
  ⟨h,rfl,rfl⟩

/-- A call that only looks at the disk. -/
theorem answers_observe {context : String} {f : Disk → Except StorageError α}
    {reply : Except StorageError α} (h : f disk=reply) :
    Answers (observe context f) disk reply := ⟨h,rfl,rfl⟩

theorem answers_onRoot {m : Steps Control Choice StorageError α} {reply : Except StorageError α}
    (h : Answers m disk.root reply) : Answers (onRoot m) disk reply := by
  refine ⟨h.reply,?_,h.rest⟩
  change ({ disk with root := (m disk.root []).state } : Disk)=disk
  rw [h.state]

theorem answers_requireName {name : String} {i : ℕ} (h : s.folder.find name=some i) :
    Answers (requireName name i) s (.ok ()) := by
  refine answers_look ?_
  rw [h]
  exact if_pos rfl

theorem answers_requireRegular {i : ℕ} {bytes : List UInt8} (hlinks : s.folder.links i=1)
    (hcontents : s.folder.contents i=.file bytes) : Answers (requireRegular i) s (.ok ()) := by
  refine answers_look ?_
  rw [hcontents]
  exact if_pos hlinks

theorem answers_openRegular {name : String} {i : ℕ} {bytes : List UInt8}
    (hsingle : s.folder.Single) (hfind : s.folder.find name=some i)
    (hcontents : s.folder.contents i=.file bytes) : Answers (openRegular name) s (.ok i) := by
  refine answers_bind (a:=i) (answers_look ?_) ?_
  · rw [hfind]
    dsimp only
    rw [hcontents]
  · exact answers_bind (answers_requireRegular (hsingle.links hfind) hcontents)
      (answers_bind (answers_requireName hfind) (answers_pure i))

theorem answers_child {name : String} {i : ℕ} (hfind : s.folder.find name=some i)
    (hcontents : s.folder.contents i=.folder) : Answers (child name) s (.ok i) := by
  refine answers_bind (a:=i) (answers_look ?_)
    (answers_bind (answers_requireName hfind) (answers_pure i))
  rw [hfind]
  dsimp only
  rw [hcontents]

theorem answers_missing {name : String} (hfind : s.folder.find name=none) :
    Answers (child name) s (.error (.io "anchor owned child directory" .notFound)) := by
  refine answers_bind_error (answers_look ?_)
  rw [hfind]

theorem answers_notFolder {name : String} {i : ℕ} {bytes : List UInt8}
    (hfind : s.folder.find name=some i) (hcontents : s.folder.contents i=.file bytes) :
    Answers (child name) s (.error (.io "anchor owned child directory" .other)) := by
  refine answers_bind_error (answers_look ?_)
  rw [hfind]
  dsimp only
  rw [hcontents]

end Quiet

section Roots

variable {root : Control} {allow : Bool}

/-- A name a library root may have: a known one, or an addition that is no control name. -/
def Tolerated (root : Control) (allow : Bool) (name : String) : Prop :=
  name ∈ knownNames ∨ (allow=true ∧ startsWith ".librairii-" name=false ∧
    name≠"relocation.json" ∧ ∃ i, root.folder.find name=some i ∧
      (root.folder.contents i=.folder ∨ ∃ b, root.folder.contents i=.file b))

theorem answers_requireRootEntry {name : String} (hsingle : root.folder.Single)
    (hprivate : ¬ Private nativeStateTemp name) (h : Tolerated root allow name) :
    Answers (requireRootEntry allow name) root (.ok ()) := by
  have hstart : startsWith nativeStateTemp name=false := by
    cases hs : startsWith nativeStateTemp name with
    | false => rfl
    | true => exact absurd ((startsWith_iff name).mp hs) hprivate
  unfold requireRootEntry
  cases h with
  | inl hknown =>
    have hmem : knownNames.contains name=true := List.contains_iff_mem.mpr hknown
    rw [hstart,hmem,if_neg (by simp),if_pos rfl]
    exact answers_pure _
  | inr hadded =>
    obtain ⟨hallow,hcontrol,hmove,i,hfind,hnode⟩ := hadded
    rw [hstart,hallow,if_neg (by simp)]
    by_cases hmem : knownNames.contains name=true
    · rw [if_pos hmem]
      exact answers_pure _
    rw [if_neg hmem,hcontrol,if_neg (by simpa using hmove)]
    cases hnode with
    | inl hfolder => exact answers_attempt_bind (answers_child hfind hfolder) (answers_pure _)
    | inr hfile =>
      obtain ⟨b,hb⟩ := hfile
      exact answers_attempt_bind (answers_notFolder hfind hb)
        (answers_bind (answers_openRegular hsingle hfind hb) (answers_pure _))

theorem listing_short (h : ∀ k, root.folder.find k≠none → k ∈ knownNames) :
    root.folder.listing.length≤14 := by
  have hsub : root.folder.listing ⊆ knownNames := fun k hk => h k (Folder.mem_listing.mp hk)
  have hle := (List.subperm_of_subset root.folder.names.keys_nodup hsub).length_le
  exact hle.trans (by decide)

theorem answers_requireRootEntries (hsingle : root.folder.Single) (hclear : Clear root)
    (h : ∀ k, root.folder.find k≠none → Tolerated root allow k)
    (hroom : allow=true → root.folder.listing.length ≤ maxEntries) :
    Answers (requireRootEntries allow) root (.ok ()) := by
  have hlength : ¬ (if allow then maxEntries else 14)<root.folder.listing.length := by
    cases ha : allow with
    | true => simpa using hroom ha
    | false =>
      have hknown : ∀ k, root.folder.find k≠none → k ∈ knownNames := fun k hk =>
        (h k hk).resolve_right fun hadded => by rw [ha] at hadded; cases hadded.1
      simpa using listing_short hknown
  refine answers_bind (answers_look (if_neg hlength)) ?_
  refine answers_forM _ fun name hname => ?_
  have hmem := Folder.mem_listing.mp ((List.mem_insertionSort _).mp hname)
  exact answers_requireRootEntry hsingle (hclear name hmem) (h name hmem)

end Roots

section Openings

variable {env : RecordEnv} {around : Surroundings} {profile : Bound} {d : Document} {s t : Disk}
  {root : Control}

/-- The surroundings answer what is expected for the profile. -/
structure Intact (around : Surroundings) (profile : Bound) : Prop where
  bound : around.bound=.ok profile
  parent : around.parent=.ok ()
  /-- The database is intact. -/
  probe : around.probe=.ok ()
  leaseHeld : around.leaseHeld=.ok ()
  publish : around.publish=.ok ()
  rootHeld : around.rootHeld=.ok ()

/-- A library that belongs to the profile and has everything its phase demands. -/
structure Healthy (env : RecordEnv) (around : Surroundings) (profile : Bound) (d : Document)
    (t : Disk) : Prop where
  /-- No object has two names. -/
  single : t.root.folder.Single
  /-- The record. -/
  named : named env t.root=some d
  /-- The record is that of the profile's library. -/
  matching : around.matching profile d=.ok ()
  marker : ∃ i b, t.root.folder.find identityFile=some i ∧ t.root.folder.contents i=.file b ∧
    around.identified profile d b=.ok ()
  names : ∀ k, t.root.folder.find k≠none → ¬ Private nativeStateTemp k →
    Tolerated t.root (d.version=2) k
  database : Furnished ["db"] t.root
  managed : ∀ k ∈ managedNames, t.root.folder.find k≠none → Furnished [k] t.root
  closed : d.state=.closed → Furnished managedNames t.root
  /-- Only an active library has files beside its database. -/
  sidecars : d.state≠.active → ∀ name ∈ sidecarNames, name ∉ t.sidecars

/-- The way a library in the given phase is opened. -/
def modeFor : Phase → ReopenMode
  | .active => .interrupted
  | _ => .closed

theorem answers_revalidate {record : Record} (hsingle : root.folder.Single)
    (h : Current record root) (hshort : ¬ maxProfileBytes<record.bytes.length) :
    Answers record.revalidate root (.ok ()) := by
  have hread : Answers (readConfig nativeStateFile) root
      (.ok ⟨record.current.identity,nativeStateFile⟩) :=
    answers_bind (answers_openRegular hsingle h.find h.contents) (answers_pure _)
  have hbytes : root.bytesOf record.current.identity=record.bytes := by
    unfold Control.bytesOf
    rw [h.contents]
    rfl
  have hstate : Answers (readState record.current.identity) root (.ok record.bytes) :=
    answers_bind (answers_look (by rw [hbytes])) (answers_inspect (if_neg hshort))
  unfold Record.revalidate
  rw [h.certain,if_neg Bool.false_ne_true]
  refine answers_bind (answers_look rfl) (answers_bind hread (answers_bind (answers_look rfl) ?_))
  rw [if_neg (by simp [h.links])]
  exact answers_bind hstate (answers_inspect (if_pos rfl))

theorem answers_openRecord (hsingle : root.folder.Single) (h : named env root=some d) :
    ∃ record, record.document=d ∧ Current record root ∧
      ¬ maxProfileBytes<record.bytes.length ∧
      Answers (Record.openRecord env) root (.ok record) := by
  unfold NativeRecords.named Folder.read at h
  cases hf : root.folder.find nativeStateFile with
  | none => rw [hf] at h; cases h
  | some i =>
    rw [hf,Option.map_some] at h
    cases hc : root.folder.contents i with
    | folder | special => rw [hc] at h; cases h
    | file bytes =>
      rw [hc] at h
      dsimp only at h
      cases hd : decode env bytes with
      | error e => rw [hd] at h; cases h
      | ok document =>
        rw [hd] at h
        cases h
        have hshort : ¬ maxProfileBytes<bytes.length := by
          intro hl
          unfold decode at hd
          rw [if_pos hl] at hd
          cases hd
        have hcurrent : Current ⟨⟨i,nativeStateFile⟩,d,bytes,[],[],false⟩ root :=
          ⟨rfl,hf,hc,hsingle.links hf⟩
        have hbytes : root.bytesOf i=bytes := by
          unfold Control.bytesOf
          rw [hc]
          rfl
        have hread : Answers (readConfig nativeStateFile) root (.ok ⟨i,nativeStateFile⟩) :=
          answers_bind (answers_openRegular hsingle hf hc) (answers_pure _)
        have hstate : Answers (readState i) root (.ok bytes) :=
          answers_bind (answers_look (by rw [hbytes])) (answers_inspect (if_neg hshort))
        exact ⟨_,rfl,hcurrent,hshort,answers_bind hread (answers_bind hstate
          (answers_bind (answers_inspect hd) (answers_bind
            (answers_revalidate hsingle hcurrent hshort) (answers_pure _))))⟩

theorem answers_reopenDirectory {recovery : Bool} {phase : Phase} {name : String}
    (hthere : root.folder.find name≠none → Furnished [name] root)
    (hmissing : root.folder.find name=none → phase=.importedClosed ∨ (recovery=true ∧ name≠"db")) :
    Answers (reopenDirectory recovery phase name) root (.ok ()) := by
  cases hf : root.folder.find name with
  | none =>
    refine answers_attempt_bind (answers_missing hf) ?_
    dsimp only
    rw [if_pos ⟨rfl,hmissing hf⟩]
    exact answers_pure _
  | some i =>
    obtain ⟨j,hj,hfolder⟩ := hthere (by rw [hf]; exact Option.some_ne_none _) name
      List.mem_cons_self
    exact answers_attempt_bind (answers_child hj hfolder) (answers_pure _)

/-- The files beside the database are as the phase demands. -/
theorem answers_reopenSidecars (h : Healthy env around profile d t) :
    Answers (reopenSidecars (modeFor d.state≠.closed)) t (.ok ()) := by
  have hnone : d.state≠.active → Answers requireNoSidecars t (.ok ()) := by
    intro ha
    refine answers_forM _ fun name hname => answers_observe (if_neg ?_)
    simpa using h.sidecars ha name hname
  have hany : Answers (sidecarNames.forM fun _ =>
      observe "inspect owned readable entry" fun _ => .ok ()) t (.ok ()) :=
    answers_forM _ fun _ _ => answers_observe rfl
  unfold reopenSidecars
  cases hp : d.state with
  | active =>
    rw [if_pos (by decide)]
    exact hany
  | importedClosed | closed =>
    rw [if_neg (by decide)]
    exact hnone (by rw [hp]; exact Phase.noConfusion)

/-- A healthy library without private names passes the checks after its record was read. -/
theorem answers_reopenRecord {record : Record} (h : Healthy env around profile record.document t)
    (hintact : Intact around profile) (hcurrent : Current record t.root)
    (hshort : ¬ maxProfileBytes<record.bytes.length) (hclear : Clear t.root)
    (hroom : record.document.version=2 → t.root.folder.listing.length ≤ maxEntries) :
    Answers (reopenRecord around (modeFor record.document.state) profile record) t (.ok ()) := by
  obtain ⟨i,b,hmarker,hbytes,hidentified⟩ := h.marker
  have hread : Answers readMarker t.root (.ok b) := by
    refine answers_bind (answers_openRegular h.single hmarker hbytes) (answers_look ?_)
    unfold Control.bytesOf
    rw [hbytes]
    rfl
  have hentries : Answers (requireRootEntries (record.document.version=2)) t.root (.ok ()) :=
    answers_requireRootEntries h.single hclear (fun k hk => h.names k hk (hclear k hk))
      fun hv => hroom (of_decide_eq_true hv)
  obtain ⟨j,hj,hfolder⟩ := h.database "db" List.mem_cons_self
  have hdirectories : Answers (managedNames.forM (reopenDirectory
      (modeFor record.document.state≠.closed) record.document.state)) t.root (.ok ()) := by
    refine answers_forM _ fun name hname => answers_reopenDirectory (h.managed name hname)
      fun hnone => ?_
    cases hp : record.document.state with
    | importedClosed => exact .inl rfl
    | active =>
      refine .inr ⟨rfl,fun hdb => ?_⟩
      rw [hdb,hj] at hnone
      cases hnone
    | closed =>
      obtain ⟨k,hk,-⟩ := h.closed hp name hname
      rw [hk] at hnone
      cases hnone
  have hprobe : (if modeFor record.document.state=.schema then .ok () else around.probe)=
      .ok () := by
    rw [hintact.probe]
    split_ifs
    · rfl
    · rfl
  exact answers_bind (answers_inspect h.matching) (answers_bind (answers_onRoot hread)
    (answers_bind (answers_inspect hidentified) (answers_bind (answers_onRoot hentries)
      (answers_bind (answers_onRoot (answers_child hj hfolder))
        (answers_bind (answers_onRoot hdirectories) (answers_bind (answers_inspect hintact.parent)
          (answers_bind (answers_reopenSidecars h) (answers_bind (answers_inspect hprobe)
            (answers_bind (answers_inspect hintact.leaseHeld)
              (answers_bind (answers_onRoot (answers_revalidate h.single hcurrent hshort))
                (answers_bind (answers_inspect hintact.publish)
                  (answers_inspect hintact.rootHeld))))))))))))

/-- A healthy library without private names is admitted again. -/
theorem reopen_answers (h : Healthy env around profile d t) (hintact : Intact around profile)
    (hclear : Clear t.root) (hroom : d.version=2 → t.root.folder.listing.length ≤ maxEntries) :
    ∃ owner, Answers (reopen env around (modeFor d.state)) t (.ok owner) := by
  obtain ⟨record,hdocument,hcurrent,hshort,hopen⟩ := answers_openRecord h.single h.named
  subst hdocument
  have hmode : ¬ (record.document.state=.active ∧ modeFor record.document.state=.closed) := by
    intro hn
    rw [hn.1] at hn
    exact ReopenMode.noConfusion hn.2
  refine ⟨Owner.opened record (modeFor record.document.state≠.closed),
    answers_bind (answers_inspect hintact.bound) (answers_bind (answers_onRoot hopen) ?_)⟩
  rw [if_neg hmode]
  exact answers_bind (answers_reopenRecord h hintact hcurrent hshort hclear hroom)
    (answers_pure _)

end Openings

section Lives

variable {env : RecordEnv} {around : Surroundings} {profile : Bound} {before : Document}
  {wanted : Option Document} {owner : Owner} {s t : Disk} {w : World}

theorem allowed_bound {next : Document} (h : Allowed owner s before next) :
    next.version=before.version ∧ around.matching profile next=around.matching profile before ∧
      ∀ b, around.identified profile next b=around.identified profile before b := by
  cases h with
  | activation hd => rw [hd]; exact ⟨rfl,rfl,fun _ => rfl⟩
  | registration hd => rw [hd]; exact ⟨rfl,rfl,fun _ => rfl⟩
  | closing hd => rw [hd]; exact ⟨rfl,rfl,fun _ => rfl⟩

theorem allowed_demands {next : Document} (h : Healthy env around profile before s)
    (ha : Allowed owner s before next) :
    (next.state=.closed → Furnished managedNames s.root) ∧
      (next.state≠.active → ∀ name ∈ sidecarNames, name ∉ s.sidecars) := by
  cases ha with
  | activation hd =>
    rw [hd]
    exact ⟨fun hn => Phase.noConfusion hn,fun hn => absurd rfl hn⟩
  | registration hd =>
    rw [hd]
    exact ⟨h.closed,h.sidecars⟩
  | closing hd _ _ _ _ _ _ hsidecars hdirectories =>
    exact ⟨fun _ => hdirectories,fun _ => hsidecars⟩

/-- The marker is neither private nor the record nor a managed directory. -/
theorem identityFile_plain : ¬ Private nativeStateTemp identityFile ∧
    identityFile≠nativeStateFile ∧ identityFile ∉ managedNames := by decide +kernel

theorem known_names : nativeStateFile ∈ knownNames ∧ ∀ k ∈ managedNames, k ∈ knownNames := by
  decide +kernel

theorem healthy_course (h : Healthy env around profile before s) (hc : Course env s before wanted t)
    (hallowed : ∀ next, wanted=some next → Allowed owner s before next) :
    ∃ d, d.version=before.version ∧ Healthy env around profile d t := by
  obtain ⟨d,hd,hversion,hmatching,hidentified,hclosed,hsidecars⟩ : ∃ d, named env t.root=some d ∧
      d.version=before.version ∧ around.matching profile d=around.matching profile before ∧
      (∀ b, around.identified profile d b=around.identified profile before b) ∧
      (d.state=.closed → Furnished managedNames s.root) ∧
      (d.state≠.active → ∀ name ∈ sidecarNames, name ∉ s.sidecars) := by
    cases hc.document with
    | inl hsame => exact ⟨before,hsame.2,rfl,rfl,fun _ => rfl,h.closed,h.sidecars⟩
    | inr hnext =>
      obtain ⟨-,d,hd,hnamed⟩ := hnext
      obtain ⟨hversion,hmatching,hidentified⟩ := allowed_bound (hallowed d hd)
      obtain ⟨hclosed,hsidecars⟩ := allowed_demands h (hallowed d hd)
      exact ⟨d,hnamed,hversion,hmatching,hidentified,hclosed,hsidecars⟩
  have hkept : ∀ k i, s.root.folder.find k=some i →
      t.root.folder.contents i=s.root.folder.contents i := fun k i hi =>
    hc.kept i (Folder.find_lt hi)
  refine ⟨d,hversion,hc.single,hd,hmatching.trans h.matching,?_,fun k hk hprivate => ?_,
    hc.furnished (by decide) h.database,fun k hk hfound => ?_,
    fun hstate => hc.furnished (fun _ hk => hk) (hclosed hstate),fun hstate => ?_⟩
  · obtain ⟨i,b,hi,hb,hok⟩ := h.marker
    obtain ⟨hprivate,hne,hmanaged⟩ := identityFile_plain
    have hsame := (hc.names identityFile hprivate hne).resolve_right fun hn => hmanaged hn.2.1
    exact ⟨i,b,hsame.trans hi,(hkept _ i hi).trans hb,(hidentified b).trans hok⟩
  · by_cases hne : k=nativeStateFile
    · exact .inl (hne ▸ known_names.1)
    cases hc.names k hprivate hne with
    | inr hnew => exact .inl (known_names.2 k hnew.2.1)
    | inl hsame =>
      rw [hsame] at hk
      refine (h.names k hk hprivate).imp_right fun hadded => ?_
      obtain ⟨hallow,hcontrol,hmove,i,hi,hnode⟩ := hadded
      rw [hversion]
      refine ⟨hallow,hcontrol,hmove,i,hsame.trans hi,?_⟩
      rw [hkept k i hi]
      exact hnode
  · obtain ⟨hprivate,hne⟩ := managed_plain k hk
    cases hc.names k hprivate hne with
    | inr hnew => exact hnew.2.2
    | inl hsame =>
      rw [hsame] at hfound
      refine hc.furnished (fun j hj => ?_) (h.managed k hk hfound)
      rw [List.mem_singleton.mp hj]
      exact hk
  · cases hc.beside with
    | inl hsame =>
      rw [hsame.1]
      exact hsidecars hstate
    | inr hactive =>
      rw [hd,Option.map_some] at hactive
      exact absurd (Option.some.inj hactive) hstate

theorem healthy_step (hlossless : Lossless env) (h : Good env w)
    (hh : Healthy env around profile before w.disk) (e : Event) (he : e.Undisturbed) :
    ∃ d, d.version=before.version ∧ Healthy env around profile d (w.after env e).disk := by
  cases howner : w.owner with
  | none =>
    have hsame : (w.after env e).disk=w.disk := by
      cases e with
      | ask op script cut => unfold World.after; rw [howner]
      | drop => rfl
      | reopen around mode script => unfold World.after; rw [howner]
    exact ⟨before,rfl,by rw [hsame]; exact hh⟩
  | some owner =>
    cases e with
    | ask op script cut =>
      obtain ⟨wanted,ha⟩ := asked_of_good hlossless h howner hh.named op script he cut
      have hstart : Healthy env around profile before w.disk.start :=
        ⟨hh.single,hh.named,hh.matching,hh.marker,hh.names,hh.database,hh.managed,hh.closed,
          hh.sidecars⟩
      have hallowed : ∀ next, wanted=some next → Allowed owner w.disk.start before next := by
        intro next hn
        cases (ha.allowed next hn).2 with
        | activation hd hi hn => exact .activation hd hi hn
        | registration hd ha => exact .registration hd ha
        | closing hd ha hi hr hg hs ht hb hf => exact .closing hd ha hi hr hg hs ht hb hf
      exact healthy_course hstart (ha.course _ (after_mem_passed _)) hallowed
    | drop => exact ⟨before,rfl,hh⟩
    | reopen around' mode script =>
      have hsame : (w.after env (.reopen around' mode script)).disk=w.disk := by
        unfold World.after
        rw [howner]
      exact ⟨before,rfl,by rw [hsame]; exact hh⟩

theorem healthy_run (hlossless : Lossless env) :
    ∀ (events : List Event) (w : World) (before : Document), Good env w →
      Healthy env around profile before w.disk → (∀ e ∈ events, e.Undisturbed) →
      ∃ d, d.version=before.version ∧ Healthy env around profile d (w.run env events).disk := by
  intro events
  induction events with
  | nil => exact fun w before _ hh _ => ⟨before,rfl,hh⟩
  | cons e events ih =>
    intro w before h hh hevents
    have he := hevents e List.mem_cons_self
    obtain ⟨d,hversion,hd⟩ := healthy_step hlossless h hh e he
    have hgood := (step_disciplined hlossless h e he).2
    obtain ⟨d',hversion',hd'⟩ := ih (w.after env e) d hgood hd fun e' he' =>
      hevents e' (List.mem_cons_of_mem _ he')
    exact ⟨d',hversion'.trans hversion,hd'⟩

end Lives

section Example

def plainBound : Bound := ⟨"/data/library","library",true,false⟩

def plainSurroundings : Surroundings where
  profile := .ok (some plainBound)
  admission := .ok ()
  cancelled := false
  actualPath := .ok "/data/library"
  layout := .ok ()
  lease := .ok ()
  profileRoot := .ok "/profile"
  dataRoot := .ok "/data"
  markerDigest := .ok zeros
  explicitPaths := fun _ _ => .ok ()
  reopenedPaths := fun _ => .ok ()
  identity := fun bytes => .ok ⟨bytes,"library"⟩
  digest := fun _ => zeros
  parent := .ok ()
  probe := .ok ()
  leaseHeld := .ok ()
  publish := .ok ()
  rootHeld := .ok ()

/-- The owner ends while it claims the library, after some of its steps. -/
def claimCut (steps : ℕ) : List Event := [.ask (.claim (.ok ())) [] (some steps)]

theorem plainWorld_healthy :
    Healthy plainEnv plainSurroundings plainBound plain plainWorld.disk := by
  have hnames : ∀ k, plainRoot.folder.find k≠none → k=identityFile ∨ k=nativeStateFile ∨
    k="db" := by
    intro k hk
    by_contra hn
    push Not at hn
    refine hk ?_
    unfold plainRoot
    rw [Folder.find_create,if_neg hn.2.2,Folder.find_create,if_neg hn.2.1,Folder.find_create,
      if_neg hn.1]
    rfl
  have hdb : Furnished ["db"] plainRoot := by
    intro k hk
    rw [List.mem_singleton.mp hk]
    exact ⟨2,by decide +kernel,by decide +kernel⟩
  refine ⟨plainWorld_initial.single,by decide +kernel,rfl,⟨0,[],by decide +kernel,
    by decide +kernel,rfl⟩,fun k hk _ => .inl ?_,hdb,fun k hmanaged hk => ?_,
    fun hstate => Phase.noConfusion hstate,fun _ name _ => List.not_mem_nil⟩
  · rcases hnames k hk with rfl | rfl | rfl
    all_goals decide +kernel
  · rcases hnames k hk with rfl | rfl | rfl
    · exact absurd hmanaged identityFile_plain.2.2
    · exact absurd rfl (managed_plain _ hmanaged).2
    · exact hdb

theorem plainSurroundings_intact : Intact plainSurroundings plainBound :=
  ⟨by decide +kernel,rfl,rfl,rfl,rfl,rfl⟩

theorem claimCut_undisturbed (steps : ℕ) : ∀ e ∈ claimCut steps, e.Undisturbed := by
  intro e he
  rw [List.mem_singleton.mp he]
  exact fun c hc => absurd hc List.not_mem_nil

end Example

end Librairii.NativeAdmissions
