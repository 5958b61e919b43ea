import Librairii.ControlMoves
import Librairii.ControlReplacement
import Librairii.NativeLibraries

/-!
# Transitions of the lifecycle record

A transition of an undisturbed owner passes only states in which the record is the
prior document or the next one, and once it is the next one it stays so. A failed
transition that may have changed anything leaves the record uncertain.
-/

namespace Librairii.NativeTransitions

open InterruptedSteps NamedObjects ControlFiles ControlStages ControlMoves ControlReplacement
  NativeRecords NativeLibraries

variable {env : RecordEnv} {s t u : Control} {before next : Document} {bytes : List UInt8}
  {record : Record}

/-- What is written is read back. -/
def Lossless (env : RecordEnv) : Prop :=
  ∀ document bytes, env.toVec document=some bytes → env.fromSlice bytes=some document

theorem decode_bytes (henv : Lossless env) (h : next.bytes env=.ok bytes) :
    decode env bytes=.ok next := by
  unfold Document.bytes at h
  cases hv : next.valid env with
  | false => rw [hv] at h; cases h
  | true =>
    rw [hv] at h
    cases hw : env.toVec next with
    | none => rw [hw] at h; cases h
    | some b =>
      rw [hw] at h
      dsimp only at h
      have hshort : ¬ maxProfileBytes<b.length := by
        intro hl
        simp [hl] at h
      have hb : b=bytes := by simpa [hshort] using h
      subst hb
      unfold decode
      rw [if_neg hshort,henv _ _ hw]
      dsimp only
      rw [if_pos hv]

theorem valid_of_decode (h : decode env bytes=.ok next) : next.valid env=true := by
  unfold decode at h
  split_ifs at h
  cases hf : env.fromSlice bytes with
  | none => rw [hf] at h; cases h
  | some d =>
    rw [hf] at h
    dsimp only at h
    split_ifs at h with hv
    cases h
    exact hv

theorem named_of_file {i : ℕ} (hi : t.folder.find nativeStateFile=some i)
    (hc : t.folder.contents i=.file bytes) (hd : decode env bytes=.ok next) :
    named env t=some next := by
  unfold named Folder.read
  rw [hi,Option.map_some,hc]
  dsimp only
  rw [hd]
  rfl

/-- What a record may be on the way from one document to the next, with the names around it. -/
structure Progress (env : RecordEnv) (s : Control) (before : Document) (next : Option Document)
    (t : Control) : Prop where
  /-- The record is the prior document until it is the next one. -/
  document : (t.overwrote=none ∧ named env t=some before) ∨
    (t.overwrote≠none ∧ ∃ d, next=some d ∧ named env t=some d)
  /-- Other names that are not private lead where they led. -/
  names : ∀ k, ¬ Private nativeStateTemp k → k≠nativeStateFile →
    t.folder.find k=s.folder.find k
  /-- Objects that existed keep their content. -/
  kept : ∀ i, i<s.folder.issued → t.folder.contents i=s.folder.contents i
  /-- Identities are not reused. -/
  issued : s.folder.issued≤t.folder.issued

theorem stateFile_not_private : ¬ Private nativeStateTemp nativeStateFile := by decide +kernel

/-- Every stage of the replacement is on the way. -/
theorem progress_of_within {subject : Option (ℕ×List UInt8)} (hs : Settled s)
    (hquiet : Quietly s t) (hbefore : named env s=some before) (hnext : decode env bytes=.ok next)
    (h : Within nativeStateTemp nativeStateFile bytes subject s t) :
    Progress env s before (some next) t := by
  obtain ⟨h,-,hstage,ht⟩ := h
  have hours : t.ours=t.overwrote.map fun p => (p.1,p.2.1) :=
    hquiet.ours (by rw [hs.ours,hs.overwrote]; rfl)
  have hvisible : ∀ k, ¬ Private nativeStateTemp k → t.folder.find k=t.base k := by
    intro k hk
    rw [ht.names k]
    unfold withHidden
    cases hh : h.hidden with
    | none => rfl
    | some p => exact if_neg fun hkp => hk (by rw [hkp]; exact ht.secret p hh)
  have htheirs : ∀ k, t.theirs k=s.folder.find k := by
    intro k
    rw [hquiet.theirs]
    exact (hs.names k).symm
  cases hstage.published with
  | inl hnone =>
    have hoverwrote : t.overwrote=none := by
      rw [ht.overwrote,hnone]
      rfl
    have hbase : ∀ k, t.base k=s.folder.find k := by
      intro k
      unfold Control.base
      rw [hours,hoverwrote]
      exact htheirs k
    refine ⟨.inl ⟨hoverwrote,?_⟩,fun k hk _ => (hvisible k hk).trans (hbase k),ht.kept,ht.issued⟩
    rw [← hbefore]
    unfold NativeRecords.named Folder.read
    rw [hvisible _ stateFile_not_private,hbase]
    cases hi : s.folder.find nativeStateFile with
    | none => rfl
    | some i =>
      rw [Option.map_some,Option.map_some,ht.kept i (Folder.find_lt hi)]
  | inr hsome =>
    obtain ⟨i,hpublished,hwritten⟩ := hsome
    have hoverwrote : t.overwrote=some (nativeStateFile,i,h.displaced) := by
      rw [ht.overwrote,hpublished]
      rfl
    have hbase : ∀ k, t.base k=if k=nativeStateFile then some i else s.folder.find k := by
      intro k
      unfold Control.base
      rw [hours,hoverwrote]
      dsimp only [Option.map_some]
      rw [htheirs k]
    refine ⟨.inr ⟨by rw [hoverwrote]; exact Option.some_ne_none _,next,rfl,?_⟩,?_,ht.kept,
      ht.issued⟩
    · refine named_of_file (i:=i) ?_ (ht.written _ hwritten).2.2.1 hnext
      rw [hvisible _ stateFile_not_private,hbase,if_pos rfl]
    · intro k hk hne
      rw [hvisible k hk,hbase,if_neg hne]

section Looks

theorem lasting_alone (I : Control → Prop) : Lasting Alone I := by
  intro c hc t ht
  rw [show c.others=[] from hc]
  exact ht

variable {α : Type}

theorem ensures_see (context : String) (f : Control → Except StorageError α) :
    Ensures Alone (look context f) t (fun t' => t'=t) (fun a t' => t'=t ∧ f t=.ok a)
      fun _ t' => t'=t := by
  refine (ensures_look (lasting_alone fun t' => t'=t) alone_default rfl (fun _ h => h) context f
    ).weaken (fun _ h => h) (fun a t' h => ?_) fun _ _ h => h
  obtain ⟨rfl,hok⟩ := h
  exact ⟨rfl,hok⟩

theorem see_requireRegular (i : ℕ) :
    Ensures Alone (requireRegular i) t (fun t' => t'=t)
      (fun _ t' => t'=t ∧ (∃ b, t.folder.contents i=.file b) ∧ t.folder.links i=1)
      fun _ t' => t'=t := by
  refine (ensures_see _ _).weaken (fun _ h => h) (fun _ t' h => ⟨h.1,?_⟩) fun _ _ h => h
  have hok := h.2
  cases hc : t.folder.contents i with
  | file b =>
    rw [hc] at hok
    dsimp only at hok
    split_ifs at hok with hl
    exact ⟨⟨b,rfl⟩,hl⟩
  | folder | special => rw [hc] at hok; cases hok

/-- `readConfig` on success: the object of the name, a regular file with one name. -/
theorem see_readConfig (name : String) :
    Ensures Alone (readConfig name) t (fun t' => t'=t)
      (fun c t' => t'=t ∧ c.name=name ∧ t.folder.find name=some c.identity ∧
        (∃ b, t.folder.contents c.identity=.file b) ∧ t.folder.links c.identity=1)
      fun _ t' => t'=t := by
  have hopen : Ensures Alone (openRegular name) t (fun t' => t'=t)
      (fun i t' => t'=t ∧ t.folder.find name=some i ∧
        (∃ b, t.folder.contents i=.file b) ∧ t.folder.links i=1) fun _ t' => t'=t := by
    refine ensures_bind (ensures_see _ _) fun i t₁ h₁ => ?_
    obtain ⟨rfl,-⟩ := h₁
    refine ensures_bind (see_requireRegular i) fun _ t₂ h₂ => ?_
    obtain ⟨rfl,hregular⟩ := h₂
    refine ensures_bind (ensures_requireName (lasting_alone fun t' => t'=t₂) alone_default rfl
      (fun _ h => h) name i) fun _ t₃ h₃ => ?_
    obtain ⟨rfl,hname⟩ := h₃
    exact ensures_pure ⟨rfl,hname,hregular⟩
  refine ensures_bind hopen fun i t₁ h₁ => ensures_pure ?_
  exact ⟨h₁.1,rfl,h₁.2⟩

/-- `readState` on success: the bytes of the object. -/
theorem see_readState (i : ℕ) :
    Ensures Alone (readState i) t (fun t' => t'=t)
      (fun b t' => t'=t ∧ t.bytesOf i=b) fun _ t' => t'=t := by
  refine ensures_bind (ensures_see _ _) fun b t₁ h₁ => ?_
  obtain ⟨rfl,hb⟩ := h₁
  cases hb
  refine ensures_inspect (fun b hok => ⟨rfl,?_⟩) fun _ _ => rfl
  split_ifs at hok
  cases hok
  rfl

end Looks

/-- The named record is the one remembered. -/
structure Current (record : Record) (t : Control) : Prop where
  certain : record.uncertain=false
  /-- The named object is the one remembered. -/
  find : t.folder.find nativeStateFile=some record.current.identity
  /-- It has the bytes remembered. -/
  contents : t.folder.contents record.current.identity=.file record.bytes
  /-- It has no other name. -/
  links : t.folder.links record.current.identity=1

theorem see_revalidate (record : Record) :
    Ensures Alone record.revalidate t (fun t' => t'=t) (fun _ t' => t'=t ∧ Current record t)
      fun _ t' => t'=t := by
  unfold Record.revalidate
  by_cases hu : record.uncertain=true
  · rw [if_pos hu]
    exact ensures_fail rfl
  rw [if_neg hu]
  refine ensures_bind (ensures_see _ _) fun links t₁ h₁ => ?_
  obtain ⟨rfl,hlinks⟩ := h₁
  refine ensures_bind (see_readConfig _) fun actual t₂ h₂ => ?_
  obtain ⟨rfl,-,hfind,⟨b,hfile⟩,hone⟩ := h₂
  refine ensures_bind (ensures_see _ _) fun found t₃ h₃ => ?_
  obtain ⟨rfl,-⟩ := h₃
  split_ifs with hsame
  · exact ensures_fail rfl
  push Not at hsame
  obtain ⟨-,-,hidentity⟩ := hsame
  refine ensures_bind (see_readState _) fun bytes t₄ h₄ => ?_
  obtain ⟨rfl,hbytes⟩ := h₄
  refine ensures_inspect (fun _ hok => ⟨rfl,by simpa using hu,?_,?_,?_⟩) fun _ _ => rfl
  · rw [hidentity]
    exact hfind
  · split_ifs at hok with heq
    rw [hidentity,hfile,← heq,← hbytes]
    unfold Control.bytesOf
    rw [hfile]
    rfl
  · rw [hidentity]
    exact hone

/-- What the owner remembers of the record is consistent. -/
structure Recalls (env : RecordEnv) (record : Record) : Prop where
  decoded : decode env record.bytes=.ok record.document
  current : record.current.name=nativeStateFile
  /-- A certain record keeps no other files. -/
  settled : record.uncertain=false → record.retained=[] ∧ record.retainedAllocations=[]
  /-- Files kept are named as the record or privately. -/
  retained : ∀ f ∈ record.retained, f.name=nativeStateFile ∨ Private nativeStateTemp f.name
  /-- Files whose creation failed are named privately. -/
  allocations : ∀ a ∈ record.retainedAllocations, a.file≠none → Private nativeStateTemp a.name

theorem Current.named (h : Current record t) (hrecalls : Recalls env record) :
    named env t=some record.document :=
  named_of_file h.find h.contents hrecalls.decoded

theorem see_openRecord :
    Ensures Alone (Record.openRecord env) t (fun t' => t'=t)
      (fun record t' => t'=t ∧ Recalls env record ∧ Current record t) fun _ t' => t'=t := by
  refine ensures_bind (see_readConfig _) fun current t₁ h₁ => ?_
  obtain ⟨rfl,hname,-⟩ := h₁
  refine ensures_bind (see_readState _) fun bytes t₂ h₂ => ?_
  obtain ⟨rfl,hbytes⟩ := h₂
  refine ensures_bind (R:=fun document t' => t'=t₂ ∧ decode env bytes=.ok document)
    (ensures_inspect (fun document hok => ⟨rfl,hok⟩) fun _ _ => rfl) fun document t₃ h₃ => ?_
  obtain ⟨rfl,hdecode⟩ := h₃
  refine ensures_bind (see_revalidate _) fun _ t₄ h₄ => ?_
  obtain ⟨rfl,hcurrent⟩ := h₄
  refine ensures_pure ⟨rfl,⟨hdecode,hname,fun _ => ⟨rfl,rfl⟩,?_,?_⟩,hcurrent⟩
  · exact fun f hf => absurd hf List.not_mem_nil
  · exact fun a ha => absurd ha List.not_mem_nil

/-- A state of a transition: nothing happened yet, or a stage of the replacement. -/
def Staged (env : RecordEnv) (next : Document) (s t : Control) : Prop :=
  t=s ∨ ∃ bytes subject, next.bytes env=.ok bytes ∧
    Within nativeStateTemp nativeStateFile bytes subject s t

/-- A state of an undisturbed transition is on the way. -/
theorem Staged.progress (henv : Lossless env) (hs : Settled s) (hbefore : named env s=some before)
    (h : Staged env next s t) (hquiet : Quietly s t) : Progress env s before (some next) t := by
  cases h with
  | inl h =>
    rw [h]
    exact ⟨.inl ⟨hs.overwrote,hbefore⟩,fun _ _ _ => rfl,fun _ _ => rfl,le_rfl⟩
  | inr h =>
    obtain ⟨bytes,subject,hbytes,hwithin⟩ := h
    exact progress_of_within hs hquiet hbefore (decode_bytes henv hbytes) hwithin

/-- A failed part of a transition: the record is consistent and uncertain. -/
def Doubtful (env : RecordEnv) (next : Document) (s : Control) (failure : RecordFailure)
    (t : Control) : Prop :=
  Staged env next s t ∧ Recalls env failure.record ∧ failure.record.uncertain=true

section Parts

variable {subject : Option (ℕ×List UInt8)} {staged : ConfigTemp} {i : ℕ} {hiddenName : String}

theorem alone_respectful (stem : String) (c : Choice) (h : Alone c) : Respectful stem c :=
  h.respectful stem

theorem Recalls.keep (h : Recalls env record) (hu : record.uncertain=true) (files : List ConfigTemp)
    (hfiles : ∀ f ∈ files, f.name=nativeStateFile ∨ Private nativeStateTemp f.name) :
    Recalls env { record with retained := record.retained ++ files } := by
  refine ⟨h.decoded,h.current,fun hn => ?_,fun f hf => ?_,h.allocations⟩
  · rw [show ({ record with retained := record.retained ++ files } : Record).uncertain=true
      from hu] at hn
    cases hn
  · cases List.mem_append.mp hf with
    | inl h' => exact h.retained f h'
    | inr h' => exact hfiles f h'

theorem ensures_stageNext (hrecalls : Recalls env record) (hu : record.uncertain=true)
    (hbytes : next.bytes env=.ok bytes) (ht : Holding nativeStateTemp s (.reading s subject) t) :
    Ensures Alone (record.stageNext bytes) t (Staged env next s)
      (fun staged t' => Private nativeStateTemp staged.name ∧
        Holding nativeStateTemp s (.staged s subject staged.name staged.identity bytes) t')
      (Doubtful env next s) := by
  have hwithin : ∀ t', Within nativeStateTemp nativeStateFile bytes subject s t' →
      Staged env next s t' := fun t' h => .inr ⟨bytes,subject,hbytes,h⟩
  have hA := alone_respectful nativeStateTemp
  unfold Record.stageNext
  refine ensures_bind (ensures_orFail ((ensures_createControlTempIn hA alone_default 64 t ht
    ).weaken hwithin (fun _ _ hq => hq) fun failure t' he => ⟨hwithin t' he.1,?_,hu⟩))
    fun staged t₁ h₁ => ?_
  · refine ⟨hrecalls.decoded,hrecalls.current,fun hn => ?_,hrecalls.retained,fun a ha hf => ?_⟩
    · rw [show ({ record with retainedAllocations :=
        record.retainedAllocations ++ [failure.allocation] } : Record).uncertain=true from hu] at hn
      cases hn
    · cases List.mem_append.mp ha with
      | inl h => exact hrecalls.allocations a h hf
      | inr h =>
        rw [List.mem_singleton.mp h] at hf ⊢
        exact he.2.2 hf
  have hprivate : Private nativeStateTemp staged.name := h₁.secret (staged.name,_) rfl
  have hkept : Recalls env { record with retained := record.retained ++ [staged] } := by
    refine hrecalls.keep hu _ fun f hf => .inr ?_
    rw [List.mem_singleton.mp hf]
    exact hprivate
  have hdoubt : ∀ (b : List UInt8) cause t',
      Holding nativeStateTemp s (.staged s subject staged.name staged.identity b) t' →
      Doubtful env next s ⟨cause,{ record with retained := record.retained ++ [staged] }⟩ t' :=
    fun b cause t' ht' => ⟨hwithin t' (within_of rfl (stage_staged s) t' ht'),hkept,hu⟩
  refine ensures_bind (ensures_orFail ((ensures_writeAll hA alone_default h₁ _ bytes).weaken
    hwithin (fun _ _ hq => hq) fun cause t' he => ?_)) fun _ t₂ h₂ => ?_
  · obtain ⟨b,hb⟩ := he
    exact hdoubt b cause t' hb
  refine ensures_bind (ensures_orFail ((ensures_durableFileFlush (lasting hA) alone_default h₂
    (fun t' ht' => hwithin t' (within_of rfl (stage_staged s) t' ht')) _).weaken (fun _ hc => hc)
    (fun _ _ hq => hq) fun cause t' he => hdoubt bytes cause t' he)) fun _ t₃ h₃ => ?_
  exact ensures_pure ⟨hprivate,h₃⟩

omit staged i hiddenName in
/-- A part that fails with the record kept as it is. -/
theorem ensures_keeping {α : Type} {m : Steps Control Choice StorageError α}
    {I : Control → Prop} {R : α → Control → Prop} (hm : Ensures Alone m t I R fun _ => I)
    (hI : ∀ t', I t' → Staged env next s t') (hrecalls : Recalls env record)
    (hu : record.uncertain=true) :
    Ensures Alone (Record.keeping record m) t (Staged env next s) R (Doubtful env next s) :=
  ensures_orFail (hm.weaken hI (fun _ _ hq => hq) fun _ t' he => ⟨hI t' he,hrecalls,hu⟩)

theorem ensures_keepDisplaced {prior : List UInt8} {moved : Record} {I : Control → Prop}
    (hI : ∀ t', I t' → Staged env next s t') (hmoved : Recalls env moved)
    (hu : moved.uncertain=true) (hprivate : Private nativeStateTemp staged.name) (ht : I t) :
    Ensures Alone (do
      let checked ← Record.keeping moved (readConfig staged.name)
      let bytes ← Record.keeping moved (readState checked.identity)
      let kept := { moved with retained := moved.retained ++ [staged] }
      if bytes≠prior then fail ⟨.recoveryBindingRequired,kept⟩ else return kept
      : RecordWork Record) t (Staged env next s)
      (fun kept t' => kept={ moved with retained := moved.retained ++ [staged] } ∧ I t')
      (Doubtful env next s) := by
  have hread : Looks Alone (readConfig staged.name) :=
    looks_bind (looks_openRegular alone_default _) fun _ => looks_pure _
  have hstate : ∀ i, Looks Alone (readState i) := fun i =>
    looks_bind (looks_look alone_default _ _) fun _ => looks_inspect _
  refine ensures_bind (ensures_keeping (hread I (lasting_alone I) t ht) hI hmoved hu)
    fun checked t₁ h₁ => ?_
  refine ensures_bind (ensures_keeping (hstate _ I (lasting_alone I) t₁ h₁) hI hmoved hu)
    fun b t₂ h₂ => ?_
  have hkept := hmoved.keep hu [staged] fun f hf => .inr (by
    rw [List.mem_singleton.mp hf]
    exact hprivate)
  dsimp only
  split_ifs
  · exact ensures_fail ⟨hI t₂ h₂,hkept,hu⟩
  · exact ensures_pure ⟨rfl,h₂⟩

theorem ensures_publishNext (hrecalls : Recalls env record) (hu : record.uncertain=true)
    (hbytes : next.bytes env=.ok bytes) (hprivate : Private nativeStateTemp staged.name)
    (ht : Holding nativeStateTemp s (.staged s (some (record.current.identity,record.bytes))
      staged.name staged.identity bytes) t) :
    Ensures Alone (record.publishNext staged) t (Staged env next s)
      (fun published t' => published={ record with
          current := ⟨staged.identity,nativeStateFile⟩
          retained := record.retained ++ [record.current] ++
            [⟨record.current.identity,staged.name⟩] } ∧
        Holding nativeStateTemp s (.exchanged s (some (record.current.identity,record.bytes))
          nativeStateFile staged.name staged.identity record.current.identity bytes) t')
      (Doubtful env next s) := by
  have hA := alone_respectful nativeStateTemp
  have hwithin : ∀ t', Within nativeStateTemp nativeStateFile bytes
      (some (record.current.identity,record.bytes)) s t' → Staged env next s t' :=
    fun t' h => .inr ⟨bytes,_,hbytes,h⟩
  have hreplace := ensures_replaceOwnedConfig hA alone_default ht stateFile_not_private
  unfold Record.publishNext
  refine ensures_bind (ensures_orFail (hreplace.weaken hwithin (fun _ _ hq => hq)
    fun failure t' he => ⟨hwithin t' he.1,?_,hu⟩)) fun p t₁ h₁ => ?_
  · refine hrecalls.keep hu _ fun f hf => ?_
    rw [List.mem_singleton.mp hf]
    cases he.2.2 with
    | inl hn => exact .inl hn
    | inr hn => exact .inr (by rw [hn]; exact hprivate)
  obtain ⟨published,old⟩ := p
  obtain ⟨hpublished,hold,h₁⟩ := h₁
  cases hpublished
  cases hold
  have hmoved : Recalls env { record with
      current := ⟨staged.identity,nativeStateFile⟩
      retained := record.retained ++ [record.current] } := by
    have h := hrecalls.keep hu [record.current] fun f hf => .inl (by
      rw [List.mem_singleton.mp hf]
      exact hrecalls.current)
    exact ⟨h.decoded,rfl,h.settled,h.retained,h.allocations⟩
  exact ensures_keepDisplaced
    (fun t' ht' => hwithin t' (within_of rfl (stage_exchanged s) t' ht')) hmoved hu hprivate h₁

/-- `removeRetained` after a publication: the displaced record is gone. -/
theorem ensures_removeRetained (context : String) (current : ConfigTemp)
    (hcurrent : current.name=nativeStateFile) (hbytes : next.bytes env=.ok bytes)
    {i old : ℕ} {b : List UInt8} {hiddenName : String}
    (ht : Holding nativeStateTemp s (.exchanged s (some (old,b)) nativeStateFile hiddenName i old
      bytes) t) :
    Ensures Alone (Record.removeRetained context [current,⟨old,hiddenName⟩]) t (Staged env next s)
      (fun _ => Holding nativeStateTemp s
        (.replaced (some (old,b)) nativeStateFile i bytes (old::s.unlinked) (some old)))
      (fun _ => Staged env next s) := by
  have hA := alone_respectful nativeStateTemp
  have hwithin : ∀ t', Within nativeStateTemp nativeStateFile bytes (some (old,b)) s t' →
      Staged env next s t' := fun t' h => .inr ⟨bytes,_,hbytes,h⟩
  have hheld : ∀ t', Holding nativeStateTemp s (.exchanged s (some (old,b)) nativeStateFile
      hiddenName i old bytes) t' → Staged env next s t' :=
    fun t' ht' => hwithin t' (within_of rfl (stage_exchanged s) t' ht')
  have hprivate : Private nativeStateTemp hiddenName := ht.secret (hiddenName,old) rfl
  have hne : hiddenName≠nativeStateFile := fun hn => stateFile_not_private (hn ▸ hprivate)
  have hfirst : Ensures Alone (if current.name≠nativeStateFile then do
        let links ← look context fun s => .ok (s.folder.links current.identity)
        if links≠0 then removeConfigTemp current
      else pure PUnit.unit : Steps Control Choice StorageError PUnit) t (Staged env next s)
      (fun _ t' => t'=t) (fun _ => Staged env next s) := by
    rw [if_neg (not_not.mpr hcurrent)]
    exact ensures_pure rfl
  have hsecond : Ensures Alone (if hiddenName≠nativeStateFile then do
        let links ← look context fun s => .ok (s.folder.links old)
        if links≠0 then removeConfigTemp ⟨old,hiddenName⟩
      else pure PUnit.unit : Steps Control Choice StorageError PUnit) t (Staged env next s)
      (fun _ => Holding nativeStateTemp s
        (.replaced (some (old,b)) nativeStateFile i bytes (old::s.unlinked) (some old)))
      (fun _ => Staged env next s) := by
    rw [if_pos hne]
    refine ensures_bind ((ensures_look (lasting_alone fun t' => t'=t) alone_default rfl
      (fun t' h => h ▸ hheld t ht) context _).weaken (fun _ hc => hc) (fun _ _ hq => hq)
      fun _ t' he => he ▸ hheld t ht) fun links t₁ h₁ => ?_
    obtain ⟨rfl,hlinks⟩ := h₁
    have hzero : links≠0 := by
      cases hlinks
      exact fun hz => (Folder.links_eq_zero.mp hz) hiddenName (holding_find_hidden ht rfl)
    rw [if_pos hzero]
    have hremove := ensures_removeConfigTemp hA alone_default ht rfl old rfl (stage_exchanged s)
      fun _ => stage_finished s
    exact hremove.weaken hwithin (fun _ _ hq => hq.2) fun _ t' he => hwithin t' he
  refine ensures_bind hfirst fun _ t₁ h₁ => ?_
  rw [h₁]
  exact ensures_bind hsecond fun _ t₂ h₂ => ensures_pure h₂

theorem ensures_acknowledge (hrecalls : Recalls env record) (hu : record.uncertain=true)
    (hbytes : next.bytes env=.ok bytes) {i old : ℕ} {b : List UInt8} {hiddenName : String}
    {current : ConfigTemp} (hcurrent : current.name=nativeStateFile)
    (hretained : record.retained=[current,⟨old,hiddenName⟩])
    (ht : Holding nativeStateTemp s (.exchanged s (some (old,b)) nativeStateFile hiddenName i old
      bytes) t) :
    Ensures Alone record.acknowledge t (Staged env next s)
      (fun done t' => done={ record with
          retained := [], retainedAllocations := [], uncertain := false } ∧
        Current { record with uncertain := false } t' ∧
        Holding nativeStateTemp s
          (.replaced (some (old,b)) nativeStateFile i bytes (old::s.unlinked) (some old)) t')
      (Doubtful env next s) := by
  have hwithin : ∀ t', Within nativeStateTemp nativeStateFile bytes (some (old,b)) s t' →
      Staged env next s t' := fun t' h => .inr ⟨bytes,_,hbytes,h⟩
  have hheld : ∀ t', Holding nativeStateTemp s (.exchanged s (some (old,b)) nativeStateFile
      hiddenName i old bytes) t' → Staged env next s t' :=
    fun t' ht' => hwithin t' (within_of rfl (stage_exchanged s) t' ht')
  have hdone : ∀ t', Holding nativeStateTemp s (.replaced (some (old,b)) nativeStateFile i bytes
      (old::s.unlinked) (some old)) t' → Staged env next s t' :=
    fun t' ht' => hwithin t' (within_of rfl (stage_finished s) t' ht')
  have hflush : Looks Alone flush := looks_look alone_default _ _
  refine ensures_bind (ensures_keeping (hflush _ (lasting_alone _) t ht) hheld hrecalls hu)
    fun _ t₁ h₁ => ?_
  refine ensures_bind (R:=fun _ t' => t'=t₁) (ensures_orFail
    ((see_revalidate _).weaken (fun t' h => h ▸ hheld t₁ h₁) (fun _ _ hq => hq.1)
      fun _ t' he => ⟨he ▸ hheld t₁ h₁,hrecalls,hu⟩)) fun _ t₂ h₂ => ?_
  rw [h₂]
  have hremove : Ensures Alone (Record.removeRetained "inspect displaced native state"
      record.retained) t₁ (Staged env next s)
      (fun _ => Holding nativeStateTemp s
        (.replaced (some (old,b)) nativeStateFile i bytes (old::s.unlinked) (some old)))
      (fun _ => Staged env next s) := by
    rw [hretained]
    exact ensures_removeRetained _ current hcurrent hbytes h₁
  refine ensures_bind (ensures_orFail (hremove.weaken (fun _ hc => hc) (fun _ _ hq => hq)
    fun _ t' he => ⟨he,hrecalls,hu⟩)) fun _ t₃ h₃ => ?_
  refine ensures_bind (ensures_keeping (hflush _ (lasting_alone _) t₃ h₃) hdone hrecalls hu)
    fun _ t₄ h₄ => ?_
  refine ensures_bind (R:=fun _ t' => t'=t₄ ∧ Current { record with uncertain := false } t₄)
    (ensures_orFail ((see_revalidate _).weaken (fun t' h => h ▸ hdone t₄ h₄) (fun _ _ hq => hq)
      fun _ t' he => ⟨he ▸ hdone t₄ h₄,hrecalls,hu⟩)) fun _ t₅ h₅ => ?_
  rw [h₅.1]
  exact ensures_pure ⟨rfl,h₅.2,h₄⟩

end Parts

theorem ensures_transition (hs : Settled s) (hrecalls : Recalls env record)
    (hlossless : Lossless env) :
    Ensures Alone (record.transition env next) s (Staged env next s)
      (fun done t => Current record s ∧ Recalls env done ∧ done.uncertain=false ∧
        done.document=next ∧ Current done t ∧ Staged env next s t ∧ t.overwrote≠none ∧
        ∀ k, Private nativeStateTemp k → t.folder.find k=t.theirs k)
      (fun failure t => (failure.record=record ∧ t=s) ∨
        (Current record s ∧ Doubtful env next s failure t)) := by
  have hidle : Staged env next s s := .inl rfl
  refine ensures_bind (R:=fun _ t => t=s ∧ Current record s) (ensures_orFail
    ((see_revalidate record).weaken (fun t h => h ▸ hidle) (fun _ _ hq => hq)
      fun _ t he => .inl ⟨rfl,he⟩)) fun _ t₁ h₁ => ?_
  obtain ⟨rfl,hcurrent⟩ := h₁
  refine ensures_bind (R:=fun _ t => t=t₁) (ensures_orFail
    ((ensures_see _ _).weaken (fun t h => h ▸ hidle) (fun _ _ hq => hq.1)
      fun _ t he => .inl ⟨rfl,he⟩)) fun _ t₂ h₂ => ?_
  rw [h₂]
  refine ensures_bind (R:=fun bytes t => t=t₁ ∧ next.bytes env=.ok bytes) (ensures_orFail
    (ensures_inspect (fun bytes hok => ⟨rfl,hok⟩) fun _ _ => .inl ⟨rfl,rfl⟩)) fun bytes t₃ h₃ => ?_
  obtain ⟨rfl,hbytes⟩ := h₃
  have hnoted : Holding nativeStateTemp t₃
      (.reading t₃ (some (record.current.identity,record.bytes)))
      { t₃ with subject := some record.current.identity } := by
    refine holding_note (hs.holding nativeStateTemp) fun p hp => ?_
    cases hp
    refine ⟨Folder.find_lt hcurrent.find,?_⟩
    unfold Control.bytesOf
    rw [hcurrent.contents]
    rfl
  have hwithin : ∀ t', Within nativeStateTemp nativeStateFile bytes
      (some (record.current.identity,record.bytes)) t₃ t' → Staged env next t₃ t' :=
    fun t' h => .inr ⟨bytes,_,hbytes,h⟩
  refine ensures_bind (R:=fun _ => Holding nativeStateTemp t₃
      (.reading t₃ (some (record.current.identity,record.bytes)))) (ensures_act alone_default
    fun c hc => ⟨hwithin _ (within_of rfl (stage_reading t₃) _ hnoted),fun _ _ => hnoted,
      fun _ he => nomatch he⟩) fun _ t₄ h₄ => ?_
  have huncertain : Recalls env { record with uncertain := true } :=
    ⟨hrecalls.decoded,hrecalls.current,fun hn => (nomatch hn),hrecalls.retained,
      hrecalls.allocations⟩
  refine ensures_bind ((ensures_stageNext huncertain rfl hbytes h₄).weaken (fun _ hc => hc)
    (fun _ _ hq => hq) fun _ _ he => .inr ⟨hcurrent,he⟩) fun staged t₅ h₅ => ?_
  refine ensures_bind ((ensures_publishNext huncertain rfl hbytes h₅.1 h₅.2).weaken
    (fun _ hc => hc) (fun _ _ hq => hq) fun _ _ he => .inr ⟨hcurrent,he⟩) fun published t₆ h₆ => ?_
  obtain ⟨rfl,hexchanged⟩ := h₆
  have hempty := hrecalls.settled hcurrent.certain
  have hpublished : Recalls env
      ({ record with
        current := ⟨staged.identity,nativeStateFile⟩
        document := next
        bytes := bytes
        retained := record.retained ++ [record.current] ++
          [⟨record.current.identity,staged.name⟩]
        uncertain := true } : Record) := by
    refine ⟨decode_bytes hlossless hbytes,rfl,(fun hn => nomatch hn),fun f hf => ?_,
      hrecalls.allocations⟩
    rcases List.mem_append.mp hf with hf | hf
    · rcases List.mem_append.mp hf with hf | hf
      · exact hrecalls.retained f hf
      · rw [List.mem_singleton.mp hf]
        exact .inl hrecalls.current
    · rw [List.mem_singleton.mp hf]
      exact .inr h₅.1
  have hacknowledge := ensures_acknowledge hpublished rfl hbytes hrecalls.current
    (by rw [hempty.1]; rfl) hexchanged
  refine hacknowledge.weaken (fun _ hc => hc) (fun done t hq => ?_)
    fun _ _ he => .inr ⟨hcurrent,he⟩
  obtain ⟨rfl,hnow,hreplaced⟩ := hq
  refine ⟨hcurrent,?_,rfl,rfl,?_,hwithin t (within_of rfl (stage_finished t₃) t hreplaced),?_,?_⟩
  · refine ⟨decode_bytes hlossless hbytes,rfl,fun _ => ⟨rfl,rfl⟩,?_,?_⟩
    · exact fun f hf => absurd hf List.not_mem_nil
    · exact fun a ha => absurd ha List.not_mem_nil
  · exact ⟨rfl,hnow.find,hnow.contents,hnow.links⟩
  · rw [hreplaced.overwrote]
    exact Option.some_ne_none _
  · intro k hk
    rw [hreplaced.names k]
    change t.base k=t.theirs k
    unfold Control.base
    cases ho : t.ours with
    | none => rfl
    | some p =>
      have hp : p=(nativeStateFile,staged.identity) := by
        cases hreplaced.ours with
        | inl hn => rw [hn] at ho; cases ho
        | inr hs =>
          rw [hs] at ho
          cases ho
          rfl
      rw [hp]
      exact if_neg fun hkn => stateFile_not_private (by rw [← hkn]; exact hk)

end Librairii.NativeTransitions
