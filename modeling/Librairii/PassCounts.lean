import Librairii.NormalizationPasses
import Librairii.QueryReferences

/-!
# How often a decoded query was normalized

Decoding normalizes the name of a node once for each pair of a node above it, itself
counted, and another one between them; migrating and encoding again do it all twice. A
decoding fails where one of these passes does.
-/

namespace Librairii.PassCounts

open CheckedResults SavedQuery SavedQueryCodec QueryReferences CanonicalQuery NodeChanges
  PassSchedules
open NormalizationPasses (withName)
open WireParser hiding members

/-- The fields of the node at a path of branch numbers. -/
def ownAt : List ℕ → Query → Option Membership
  | [],.node own _ => some own
  | i::path,.node _ anyOf => anyOf[i]?.bind (ownAt path)

section Nodes

variable {f : ℕ → Membership → Except CodecError Membership}

theorem eachNode_at (path : List ℕ) : ∀ {f : ℕ → Membership → Except CodecError Membership}
    {q q' : Query}, eachNode f q=.ok q' →
      Option.Rel (fun own own' => f path.length own=.ok own') (ownAt path q) (ownAt path q') := by
  induction path with
  | nil =>
    rintro f ⟨own,anyOf⟩ q' h
    obtain ⟨own',anyOf',ho,-,rfl⟩ := eachNode_ok.mp h
    exact .some ho
  | cons i path ih =>
    rintro f ⟨own,anyOf⟩ q' h
    obtain ⟨own',anyOf',-,hb,rfl⟩ := eachNode_ok.mp h
    have hpairs := List.forall₂_iff_get.mp (eachBranch_pairs.mp hb)
    rw [ownAt,ownAt]
    by_cases hi : i<anyOf.length
    · rw [List.getElem?_eq_getElem hi,List.getElem?_eq_getElem (hpairs.1 ▸ hi)]
      exact ih (hpairs.2 i hi (hpairs.1 ▸ hi))
    · rw [List.getElem?_eq_none (by omega),List.getElem?_eq_none (by have := hpairs.1; omega)]
      exact .none

mutual

theorem eachNode_fails : ∀ (q : Query) {f : ℕ → Membership → Except CodecError Membership},
    (∀ q', eachNode f q≠.ok q') ↔
      ∃ path own, ownAt path q=some own ∧ ∀ own', f path.length own≠.ok own'
  | .node own anyOf,f => by
    have hb := @eachBranch_fails anyOf fun d => f (d+1)
    have hcases : (∀ q', eachNode f (.node own anyOf)≠.ok q') ↔ (∀ own', f 0 own≠.ok own') ∨
        ∀ anyOf', eachBranch (fun d => f (d+1)) anyOf≠.ok anyOf' := by
      simp only [ne_eq,eachNode_ok]
      grind
    rw [hcases,hb]
    constructor
    · rintro (h | ⟨i,branch,path,o,hi,ho,h⟩)
      · exact ⟨[],own,rfl,h⟩
      · exact ⟨i::path,o,by rw [ownAt,hi,Option.bind_some,ho],h⟩
    · rintro ⟨path,o,ho,h⟩
      cases path with
      | nil =>
        cases ho
        exact .inl h
      | cons i path =>
        obtain ⟨branch,hi,ho⟩ := Option.bind_eq_some_iff.mp ho
        exact .inr ⟨i,branch,path,o,hi,ho,h⟩

theorem eachBranch_fails : ∀ (branches : List Query)
    {f : ℕ → Membership → Except CodecError Membership},
    (∀ branches', eachBranch f branches≠.ok branches') ↔ ∃ (i : ℕ) (branch : Query) (path : List ℕ)
      (own : Membership),
      branches[i]? =some branch ∧ ownAt path branch=some own ∧ ∀ own', f path.length own≠.ok own'
  | [],f => by simp [eachBranch_nil]
  | branch::branches,f => by
    have hfirst := @eachNode_fails branch f
    have hrest := @eachBranch_fails branches f
    have hcases : (∀ branches', eachBranch f (branch::branches)≠.ok branches') ↔
        (∀ b, eachNode f branch≠.ok b) ∨ ∀ bs, eachBranch f branches≠.ok bs := by
      simp only [ne_eq,eachBranch_cons]
      grind
    rw [hcases,hfirst,hrest]
    constructor
    · rintro (⟨path,o,ho,h⟩ | ⟨i,b,path,o,hi,ho,h⟩)
      · exact ⟨0,branch,path,o,rfl,ho,h⟩
      · exact ⟨i+1,b,path,o,hi,ho,h⟩
    · rintro ⟨i,b,path,o,hi,ho,h⟩
      cases i with
      | zero =>
        cases hi
        exact .inl ⟨path,o,ho,h⟩
      | succ i => exact .inr ⟨i,b,path,o,hi,ho,h⟩

end

end Nodes

section Steps

variable (env : NormalEnv)

/-- The passes over a node at a depth: one of its own, then one of each node above it, and
this again from each node above on. -/
def schedule : ℕ → List Bool
  | 0 => [true]
  | d+1 => true::(List.replicate (d+1) false++schedule d)

/-- The fields a pass normalizes. -/
def entering (ofItself : Bool) (own : Membership) : Membership :=
  if ofItself then dropIgnored own else own

/-- One pass over a node. -/
def step (own : Membership) (ofItself : Bool) : Except CodecError Membership := do
  let own ← normalizeOwn env (entering ofItself own)
  .ok (if ofItself then sortFilters own else own)

/-- A name normalized a number of times. -/
def applied (k : ℕ) (name : String) : Except CodecError String :=
  (· >>= env.normalize)^[k] (.ok name)

/-- The normalizer fails on a node, or the node violates a limit. -/
def Violates (own : Membership) : Prop :=
  (∀ name, env.normalize own.name=.ok name → 200<name.length) ∨ 50<groups own ∨
    100<own.languages.length ∨ 3<own.compatibilities.length ∨
    ∃ f ∈ own.choiceFilters, 100<f.valueIds.length

/-- A node lists a language or a compatibility that is not admitted. -/
def Unadmitted (own : Membership) : Prop :=
  (∃ l ∈ own.languages, ∀ l', env.canonicalLanguage l≠.ok l') ∨
    ∃ c ∈ own.compatibilities, c ∉ compatibilityNames

variable {env}

theorem length_schedule (d : ℕ) : (schedule d).length=(d+1)*(d+2)/2 := by
  have htwice : 2*(schedule d).length=(d+1)*(d+2) := by
    induction d with
    | zero => rfl
    | succ d ih =>
      rw [schedule,List.length_cons,List.length_append,List.length_replicate]
      have h : (d+1+1)*(d+1+2)=(d+1)*(d+2)+2*(d+2) := by ring
      omega
  omega

theorem savedPasses_schedule (d : ℕ) : ∀ own : Membership,
    savedPasses env d own=(schedule d).foldlM (step env) own := by
  have hmember : ∀ d own, memberPasses env d own=
      (true::List.replicate d false).foldlM (step env) own := by
    intro d own
    have hfirst : step env own true=memberPasses env 0 own := by
      simp only [step,entering,memberPasses,if_true]
      cases normalizeOwn env (dropIgnored own) <;> rfl
    have hlater : ∀ own, step env own false=normalizeOwn env own := by
      intro own
      simp only [step,entering,Bool.false_eq_true,if_false]
      exact bind_pure _
    induction d with
    | zero =>
      rw [List.replicate_zero,List.foldlM_cons,hfirst]
      exact (bind_pure _).symm
    | succ d ih =>
      rw [memberPasses,ih,List.replicate_succ',←List.cons_append,List.foldlM_append]
      simp [hlater]
  induction d with
  | zero => exact hmember 0
  | succ d ih =>
    intro own
    rw [savedPasses,schedule,←List.cons_append,List.foldlM_append,hmember]
    exact bind_congr fun own => ih own

theorem step_name {own own' : Membership} {ofItself : Bool}
    (h : step env own ofItself=.ok own') : env.normalize own.name=.ok own'.name := by
  obtain ⟨o,ho,h⟩ := exceptBind_ok.mp h
  obtain ⟨name,hname,ho⟩ := exceptBind_ok.mp ho
  obtain ⟨-,ho⟩ := checked_ok.mp ho
  obtain ⟨languages,-,ho⟩ := exceptBind_ok.mp ho
  obtain ⟨-,ho⟩ := checked_ok.mp ho
  obtain ⟨choices,-,ho⟩ := exceptBind_ok.mp ho
  cases ho
  cases h
  cases ofItself <;> exact hname

theorem passes_name {passes : List Bool} : ∀ {own own' : Membership},
    passes.foldlM (step env) own=.ok own' → applied env passes.length own.name=.ok own'.name := by
  induction passes with
  | nil =>
    intro own own' h
    cases h
    rfl
  | cons ofItself passes ih =>
    intro own own' h
    rw [List.foldlM_cons] at h
    obtain ⟨middle,hstep,h⟩ := exceptBind_ok.mp h
    have hname : applied env (passes.length+1) own.name=applied env passes.length middle.name := by
      rw [applied,applied,Function.iterate_succ_apply,←step_name hstep]
      rfl
    rw [List.length_cons,hname]
    exact ih h

theorem passes_fail {passes : List Bool} : ∀ {own : Membership},
    (∀ own', passes.foldlM (step env) own≠.ok own') ↔ ∃ before ofItself after middle,
      passes=before++ofItself::after ∧ before.foldlM (step env) own=.ok middle ∧
      ∀ own', step env middle ofItself≠.ok own' := by
  induction passes with
  | nil =>
    intro own
    constructor
    · exact fun h => absurd rfl (h own)
    · rintro ⟨before,ofItself,after,middle,h,-⟩
      exact absurd h.symm (by simp)
  | cons ofItself passes ih =>
    intro own
    constructor
    · intro h
      cases hs : step env own ofItself with
      | error e => exact ⟨[],ofItself,passes,own,rfl,rfl,by simp [hs]⟩
      | ok next =>
        have hrest : ∀ own', passes.foldlM (step env) next≠.ok own' := by
          intro own' hp
          exact h own' (by rw [List.foldlM_cons,bind_of_ok hs,hp])
        obtain ⟨before,b,after,middle,rfl,hmiddle,hfail⟩ := ih.mp hrest
        exact ⟨ofItself::before,b,after,middle,rfl,
          by rw [List.foldlM_cons,bind_of_ok hs,hmiddle],hfail⟩
    · rintro ⟨before,b,after,middle,hpasses,hmiddle,hfail⟩ own' h
      rw [hpasses,List.foldlM_append] at h
      obtain ⟨m,hm,h⟩ := exceptBind_ok.mp h
      rw [List.foldlM_cons] at h
      obtain ⟨o,ho,-⟩ := exceptBind_ok.mp h
      cases hm.symm.trans hmiddle
      exact hfail o ho

theorem mapM_fails {α β : Type} {f : α → Except CodecError β} {xs : List α} :
    (∀ ys, xs.mapM f≠.ok ys) ↔ ∃ x ∈ xs, ∀ y, f x≠.ok y := by
  constructor
  · intro h
    by_contra hn
    push Not at hn
    obtain ⟨ys,hys⟩ : ∃ ys, xs.mapM f=.ok ys := by
      clear h
      induction xs with
      | nil => exact ⟨[],rfl⟩
      | cons x xs ih =>
        obtain ⟨y,hy⟩ := hn x List.mem_cons_self
        obtain ⟨ys,hys⟩ := ih fun x hx => hn x (List.mem_cons_of_mem _ hx)
        refine ⟨y::ys,?_⟩
        rw [List.mapM_cons,bind_of_ok hy,bind_of_ok hys]
        rfl
    exact h ys hys
  · rintro ⟨x,hx,hfail⟩ ys h
    obtain ⟨y,hy⟩ := mapM_element h x hx
    exact hfail y hy

theorem step_fails {own : Membership} {ofItself : Bool} :
    (∀ own', step env own ofItself≠.ok own') ↔
      Violates env (entering ofItself own) ∨ Unadmitted env (entering ofItself own) := by
  generalize hentering : entering ofItself own=entered
  have hstep : (∀ own', step env own ofItself≠.ok own') ↔
      ∀ own', normalizeOwn env entered≠.ok own' := by
    unfold step
    rw [hentering]
    cases normalizeOwn env entered with
    | error e => exact ⟨fun _ _ h => (nomatch h),fun _ _ h => (nomatch h)⟩
    | ok o => exact ⟨fun h => absurd rfl (h _),fun h => absurd rfl (h _)⟩
  have hlanguages : (∀ ls, entered.languages.mapM env.canonicalLanguage≠.ok ls) ↔
      ∃ l ∈ entered.languages, ∀ l', env.canonicalLanguage l≠.ok l' := mapM_fails
  have hchoices : (∀ cs, entered.choiceFilters.mapM normalizeChoice≠.ok cs) ↔
      ∃ f ∈ entered.choiceFilters, 100<f.valueIds.length := by
    refine mapM_fails.trans (exists_congr fun f => and_congr_right fun _ => ?_)
    simp [normalizeChoice_ok]
  rw [hstep,Violates,Unadmitted,←hlanguages,←hchoices]
  constructor
  · intro h
    by_contra hn
    push Not at hn
    obtain ⟨⟨⟨name,hname,hshort⟩,hgroups,hcount,hcompatibilities,cs,hcs⟩,⟨ls,hls⟩,hknown⟩ := hn
    have hlim : ¬(200<name.length ∨ 50<groups entered ∨ 100<entered.languages.length ∨
        3<entered.compatibilities.length) := by omega
    have hadmitted : ¬(entered.compatibilities.any (· ∉ compatibilityNames))=true := by
      simpa using hknown
    have hok : ∃ own', normalizeOwn env entered=.ok own' := by
      unfold normalizeOwn
      rw [bind_of_ok hname,if_neg hlim,bind_of_ok hls,if_neg hadmitted,bind_of_ok hcs]
      exact ⟨_,rfl⟩
    exact h _ hok.choose_spec
  · intro hbad own' h
    obtain ⟨name,hname,h⟩ := exceptBind_ok.mp h
    obtain ⟨hlim,h⟩ := checked_ok.mp h
    obtain ⟨languages,hls,h⟩ := exceptBind_ok.mp h
    obtain ⟨hadmitted,h⟩ := checked_ok.mp h
    obtain ⟨choices,hcs,-⟩ := exceptBind_ok.mp h
    have hshort : ¬∀ name, env.normalize entered.name=.ok name → 200<name.length :=
      fun hlong => hlim (.inl (hlong name hname))
    simp only [List.any_eq_true,decide_eq_true_eq] at hadmitted
    rcases hbad with (hlong | hgroups | hcount | hcompatibilities | hvalues) | hlanguage | hunknown
    · exact hshort hlong
    · exact hlim (by omega)
    · exact hlim (by omega)
    · exact hlim (by omega)
    · exact hvalues _ hcs
    · exact hlanguage _ hls
    · exact hadmitted hunknown

end Steps

def nameAt (path : List ℕ) (q : Query) : Option String := (ownAt path q).map (·.name)

/-- Trees of one shape where the names at each depth were normalized a number of times. -/
def Normalized (env : NormalEnv) (k : ℕ → ℕ) (q q' : Query) : Prop :=
  ∀ path, Option.Rel (fun name name' => applied env (k path.length) name=.ok name')
    (nameAt path q) (nameAt path q')

section Names

variable {env : NormalEnv}

theorem normalized_each {f : ℕ → Membership → Except CodecError Membership} {k : ℕ → ℕ}
    {q q' : Query} (h : eachNode f q=.ok q') (hname : ∀ d own own', f d own=.ok own' →
      applied env (k d) own.name=.ok own'.name) : Normalized env k q q' := by
  intro path
  have hpath := eachNode_at path h
  unfold nameAt
  generalize ownAt path q=own at hpath ⊢
  generalize ownAt path q'=own' at hpath ⊢
  cases hpath with
  | none => exact .none
  | some ho => exact .some (hname _ _ _ ho)

theorem Normalized.trans {k j : ℕ → ℕ} {q q' q'' : Query} (h : Normalized env k q q')
    (h' : Normalized env j q' q'') : Normalized env (fun d => j d+k d) q q'' := by
  intro path
  have hfirst := h path
  have hsecond := h' path
  generalize nameAt path q=name at hfirst ⊢
  generalize nameAt path q'=name' at hfirst hsecond
  generalize nameAt path q''=name'' at hsecond ⊢
  cases hfirst with
  | none =>
    cases hsecond
    exact .none
  | some hname =>
    cases hsecond with
    | some hname' =>
      refine .some ?_
      rw [applied,Function.iterate_add_apply]
      exact (congrArg _ hname).trans hname'

theorem normalized_saved {q q' : Query} (h : canonicalSaved env q=.ok q') :
    Normalized env (fun d => (d+1)*(d+2)/2) q q' := by
  refine normalized_each (canonicalSaved_nodewise q |>.mp h).2 fun d own own' ho => ?_
  rw [savedPasses_schedule] at ho
  rw [←length_schedule]
  exact passes_name ho

end Names

/-- Decode a saved query and encode it in the current version. -/
def migrate (env : CodecEnv) (version : I64) (bytes : List UInt8) (legacyId : I64) :
    Except CodecError (String×Query) := do
  let q ← decode env version bytes legacyId
  let q ← canonicalSaved env.toNormalEnv q
  let _ ← validateReferences q maxNodes true
  let text ← payload env q
  .ok (text,q)

theorem decodePayload_nodes {env : CodecEnv} {version : I64} {bytes : List UInt8} {wire : Query}
    (h : decodePayload env version bytes=.ok wire) : nodes wire ≤ maxNodes := by
  unfold decodePayload at h
  obtain ⟨-,h⟩ := checked_ok.mp h
  obtain ⟨-,h⟩ := checked_ok.mp h
  obtain ⟨parsed,-,h⟩ := exceptBind_ok.mp h
  cases parsed with
  | object fields =>
    obtain ⟨q,-,h⟩ := exceptBind_ok.mp h
    obtain ⟨left,hleft,h⟩ := exceptBind_ok.mp h
    cases h
    have hcount := ((validateReferences_ok _ _ _ _).mp hleft).1
    omega
  | _ => cases h

/-- Decoding an accepted payload fails exactly where a pass over one of its nodes does. -/
theorem decode_fails {env : CodecEnv} {version legacyId : I64} {bytes : List UInt8} {wire : Query}
    (hwire : decodePayload env version bytes=.ok wire) :
    (∀ q, decode env version bytes legacyId≠.ok q) ↔
      ∃ path own before ofItself after entered, ownAt path (retire version legacyId wire)=some own ∧
        schedule path.length=before++ofItself::after ∧
        before.foldlM (step env.toNormalEnv) own=.ok entered ∧
        (Violates env.toNormalEnv (entering ofItself entered) ∨
          Unadmitted env.toNormalEnv (entering ofItself entered)) := by
  have hmax : nodes (retire version legacyId wire) ≤ maxNodes := by
    rw [eachNode_nodes wire (eachNode_retire version legacyId wire)]
    exact decodePayload_nodes hwire
  have hfails : (∀ q, decode env version bytes legacyId≠.ok q) ↔
      ∀ q, eachNode (savedPasses env.toNormalEnv) (retire version legacyId wire)≠.ok q := by
    unfold decode
    rw [bind_of_ok hwire]
    simp only [ne_eq,canonicalSaved_nodewise,hmax,true_and]
  simp only [hfails,eachNode_fails,savedPasses_schedule,passes_fail,step_fails]
  constructor
  · rintro ⟨path,own,hown,before,b,after,entered,hpasses,hmiddle,hbad⟩
    exact ⟨path,own,before,b,after,entered,hown,hpasses,hmiddle,hbad⟩
  · rintro ⟨path,own,before,b,after,entered,hown,hpasses,hmiddle,hbad⟩
    exact ⟨path,own,hown,before,b,after,entered,hpasses,hmiddle,hbad⟩

/-- Decoding normalizes the name of a node at a depth `d` exactly `(d+1)(d+2)/2` times from its
spelling on the wire, migrating and encoding again twice as often. Decoding a payload fails
exactly when some pass over a node meets a violated limit or a failing name, or a language or
compatibility that is not admitted. -/
theorem passes_counted (env : CodecEnv) (version : I64) (bytes : List UInt8) (legacyId : I64) :
    (∀ q, decode env version bytes legacyId=.ok q → ∃ wire,
      decodePayload env version bytes=.ok wire ∧
      Normalized env.toNormalEnv (fun d => (d+1)*(d+2)/2) wire q ∧
      ∀ text, encode env q=.ok text → ∃ q', payload env q'=.ok text ∧
        Normalized env.toNormalEnv (fun d => 2*((d+1)*(d+2)/2)) wire q') ∧
    (∀ text q, migrate env version bytes legacyId=.ok (text,q) → payload env q=.ok text ∧
      ∃ wire, decodePayload env version bytes=.ok wire ∧
        Normalized env.toNormalEnv (fun d => 2*((d+1)*(d+2)/2)) wire q) ∧
    ((∀ q, decode env version bytes legacyId≠.ok q) ↔
      (∀ wire, decodePayload env version bytes≠.ok wire) ∨
      ∃ wire path own before ofItself after entered, decodePayload env version bytes=.ok wire ∧
        ownAt path (retire version legacyId wire)=some own ∧
        schedule path.length=before++ofItself::after ∧
        before.foldlM (step env.toNormalEnv) own=.ok entered ∧
        (Violates env.toNormalEnv (entering ofItself entered) ∨
          Unadmitted env.toNormalEnv (entering ofItself entered))) := by
  have hdecode : ∀ {q}, decode env version bytes legacyId=.ok q → ∃ wire,
      decodePayload env version bytes=.ok wire ∧
      Normalized env.toNormalEnv (fun d => (d+1)*(d+2)/2) wire q := by
    intro q h
    obtain ⟨wire,hwire,h⟩ := exceptBind_ok.mp h
    have hretired :
        Normalized env.toNormalEnv (fun _ => 0) wire (retire version legacyId wire) := by
      refine normalized_each (eachNode_retire version legacyId wire) fun d own own' ho => ?_
      cases ho
      rw [retireOwn]
      split <;> split <;> rfl
    exact ⟨wire,hwire,hretired.trans (normalized_saved h)⟩
  have htwice : ∀ {q q' wire}, Normalized env.toNormalEnv (fun d => (d+1)*(d+2)/2) wire q →
      canonicalSaved env.toNormalEnv q=.ok q' →
      Normalized env.toNormalEnv (fun d => 2*((d+1)*(d+2)/2)) wire q' := by
    intro q q' wire h hsaved
    simp only [two_mul]
    exact h.trans (normalized_saved hsaved)
  refine ⟨fun q h => ?_,fun text q h => ?_,?_⟩
  · obtain ⟨wire,hwire,hq⟩ := hdecode h
    refine ⟨wire,hwire,hq,fun text ht => ?_⟩
    obtain ⟨q',hsaved,ht⟩ := exceptBind_ok.mp ht
    obtain ⟨_,-,ht⟩ := exceptBind_ok.mp ht
    exact ⟨q',ht,htwice hq hsaved⟩
  · obtain ⟨first,hfirst,h⟩ := exceptBind_ok.mp h
    obtain ⟨second,hsecond,h⟩ := exceptBind_ok.mp h
    obtain ⟨_,-,h⟩ := exceptBind_ok.mp h
    obtain ⟨text',htext,h⟩ := exceptBind_ok.mp h
    cases h
    obtain ⟨wire,hwire,hq⟩ := hdecode hfirst
    exact ⟨htext,wire,hwire,htwice hq hsecond⟩
  · cases hwire : decodePayload env version bytes with
    | error e =>
      refine ⟨fun _ => .inl fun _ h => (nomatch h),fun _ q h => ?_⟩
      obtain ⟨wire,hw,-⟩ := exceptBind_ok.mp h
      cases hwire.symm.trans hw
    | ok wire =>
      rw [decode_fails hwire]
      constructor
      · rintro ⟨path,own,before,b,after,entered,h⟩
        exact .inr ⟨wire,path,own,before,b,after,entered,rfl,h⟩
      · rintro (h | ⟨_,path,own,before,b,after,entered,hw,h⟩)
        · exact absurd rfl (h wire)
        · cases hw
          exact ⟨path,own,before,b,after,entered,h⟩

section Example

theorem five_bounds : -2^63≤(5 : ℤ) ∧ (5 : ℤ)<2^63 := by decide

def five : I64 := ⟨5,five_bounds⟩

/-- Lower-case keys and texts that are already normalized. -/
def idleEnv : CodecEnv := ⟨⟨.ok,fun _ => true⟩,⟨.ok,.ok⟩,fun _ => none⟩

def oddPayload : List UInt8 :=
  "\x7b\"compatibilities\":[\"x\"]\x7d".toList.flatMap String.utf8EncodeChar

theorem decodePayload_odd :
    decodePayload idleEnv five oddPayload=.ok (.node { compatibilities := ["x"] } []) := by
  have hread : (decodePayload idleEnv five oddPayload).map (fun q => (ownAt [] q,nodes q))=
      .ok (some { compatibilities := ["x"] },1) := by decide +kernel
  obtain ⟨⟨own,anyOf⟩,hwire,h⟩ := exceptMap_ok.mp hread
  simp only [ownAt,nodes,Prod.mk.injEq,Option.some.injEq] at h
  obtain ⟨rfl,hcount⟩ := h
  cases anyOf with
  | nil => exact hwire
  | cons branch branches =>
    have hpositive := nodes_pos branch
    rw [nodesOf] at hcount
    omega

/-- A decoding fails though the normalizer does not and no pass violates a limit. -/
theorem unadmitted_payload : ∃ wire, decodePayload idleEnv five oddPayload=.ok wire ∧
    (∀ q, decode idleEnv five oddPayload zero≠.ok q) ∧
    ∀ path own before ofItself after entered, ownAt path (retire five zero wire)=some own →
      schedule path.length=before++ofItself::after →
      before.foldlM (step idleEnv.toNormalEnv) own=.ok entered →
      ¬Violates idleEnv.toNormalEnv (entering ofItself entered) := by
  refine ⟨_,decodePayload_odd,?_,?_⟩
  · refine (decode_fails decodePayload_odd).mpr ⟨[],_,[],true,[],_,rfl,rfl,rfl,.inr (.inr ?_)⟩
    exact ⟨"x",by decide,by decide⟩
  · rintro path own before b after entered hown hpasses hmiddle hbad
    cases path with
    | cons i path => cases hown
    | nil =>
      cases before with
      | cons _ before => simp [schedule] at hpasses
      | nil =>
        cases hown
        cases hmiddle
        obtain hlong | hgroups | hcount | hcompatibilities | ⟨f,hf,-⟩ := hbad
        · exact absurd (hlong _ rfl) (by cases b <;> decide)
        · exact absurd hgroups (by cases b <;> decide)
        · exact absurd hcount (by cases b <;> decide)
        · exact absurd hcompatibilities (by cases b <;> decide)
        · cases b <;> cases hf

end Example

end Librairii.PassCounts
