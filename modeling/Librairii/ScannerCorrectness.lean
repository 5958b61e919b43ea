import Librairii.StudioScanner

/-!
# The scanner accepts the grammar

An open scan demands the rest of its value and, for each open container, the text up to its
closing bracket. A round keeps the demand backward, so an accepted text has a derivation. Along
a derivation the scanner runs to the end of the value. A cursor therefore reads the entries of
a scanned container in order.
-/

namespace Librairii.ScannerCorrectness

open CheckedResults JsonGrammar StudioScanner

/-- The text of a container from the point where a frame stands to its closing bracket. -/
def FrameText (n : ℕ) : Frame → List UInt8 → Prop
  | .arrayFirst,t => (∃ a, Space a ∧ t=a++[0x5d]) ∨ ∃ vs u, Elements n vs u ∧ t=u++[0x5d]
  | .arrayNext,t => ∃ vs u, Elements n vs u ∧ t=u++[0x5d]
  | .arrayAfter,t => (∃ a, Space a ∧ t=a++[0x5d]) ∨
      ∃ a vs u, Space a ∧ Elements n vs u ∧ t=a++0x2c::(u++[0x5d])
  | .objectFirst,t => (∃ a, Space a ∧ t=a++[0x7d]) ∨ ∃ ms u, Members n ms u ∧ t=u++[0x7d]
  | .objectKey,t => ∃ ms u, Members n ms u ∧ t=u++[0x7d]
  | .objectColon,t => ∃ b c v u, Space b ∧ Space c ∧ Value n v ∧
      ((∃ d, Space d ∧ u=d++[0x7d]) ∨
        ∃ d ms w, Space d ∧ Members n ms w ∧ u=d++0x2c::(w++[0x7d])) ∧
      t=b++0x3a::(c++v++u)
  | .objectAfter,t => (∃ a, Space a ∧ t=a++[0x7d]) ∨
      ∃ a ms u, Space a ∧ Members n ms u ∧ t=a++0x2c::(u++[0x7d])

def Closes : List Frame → List UInt8 → Prop
  | [],t => t=[]
  | frame::frames,t =>
    ∃ u w, FrameText (maxDepth-(frames.length+1)) frame u ∧ Closes frames w ∧ t=u++w

/-- What an open scan still demands of the input up to the end of its value. -/
def Demand (input : List UInt8) (e : ℕ) (s : Scan) : Prop :=
  if s.needValue then
    ∃ a v t, Space a ∧ Value (maxDepth-s.frames.length) v ∧
      (NumberToken v → Munched v (t++input.drop e)) ∧ Closes s.frames t ∧
      input.drop s.pos=a++v++t++input.drop e ∧ e=s.pos+a.length+v.length+t.length
  else
    ∃ t, Closes s.frames t ∧ input.drop s.pos=t++input.drop e ∧ e=s.pos+t.length

variable {a : List UInt8}

theorem Space.append {b : List UInt8} (ha : Space a) (hb : Space b) : Space (a++b) := by
  intro x hx
  rcases List.mem_append.mp hx with hx | hx
  · exact ha x hx
  · exact hb x hx

theorem Space.nil : Space [] := List.forall_mem_nil _

variable {t : List UInt8} {n : ℕ}

theorem elements_space {vs : List (List UInt8)} (ha : Space a) (h : Elements n vs t) :
    Elements n vs (a++t) := by
  cases h with
  | last ha' hv hb =>
    rw [←List.append_assoc,←List.append_assoc]
    exact .last (Space.append ha ha') hv hb
  | more ha' hv hb ht =>
    rw [←List.append_assoc,←List.append_assoc,←List.append_assoc]
    exact .more (Space.append ha ha') hv hb ht

theorem members_space {ms : List (List UInt8×List UInt8)} (ha : Space a) (h : Members n ms t) :
    Members n ms (a++t) := by
  cases h with
  | last ha' hk hb hc hv hd =>
    rw [←List.append_assoc,←List.append_assoc,←List.append_assoc]
    exact .last (Space.append ha ha') hk hb hc hv hd
  | more ha' hk hb hc hv hd ht =>
    rw [←List.append_assoc,←List.append_assoc,←List.append_assoc]
    exact .more (Space.append ha ha') hk hb hc hv hd ht

variable {frame : Frame}

theorem frameText_space (ha : Space a) (h : FrameText n frame t) : FrameText n frame (a++t) := by
  cases frame with
  | arrayFirst =>
    rcases h with ⟨b,hb,rfl⟩ | ⟨vs,u,hu,rfl⟩
    · exact .inl ⟨a++b,Space.append ha hb,by simp⟩
    · exact .inr ⟨vs,a++u,elements_space ha hu,by simp⟩
  | arrayNext =>
    obtain ⟨vs,u,hu,rfl⟩ := h
    exact ⟨vs,a++u,elements_space ha hu,by simp⟩
  | arrayAfter =>
    rcases h with ⟨b,hb,rfl⟩ | ⟨b,vs,u,hb,hu,rfl⟩
    · exact .inl ⟨a++b,Space.append ha hb,by simp⟩
    · exact .inr ⟨a++b,vs,u,Space.append ha hb,hu,by simp⟩
  | objectFirst =>
    rcases h with ⟨b,hb,rfl⟩ | ⟨ms,u,hu,rfl⟩
    · exact .inl ⟨a++b,Space.append ha hb,by simp⟩
    · exact .inr ⟨ms,a++u,members_space ha hu,by simp⟩
  | objectKey =>
    obtain ⟨ms,u,hu,rfl⟩ := h
    exact ⟨ms,a++u,members_space ha hu,by simp⟩
  | objectColon =>
    obtain ⟨b,c,v,u,hb,hc,hv,hu,rfl⟩ := h
    exact ⟨a++b,c,v,u,Space.append ha hb,hc,hv,hu,by simp⟩
  | objectAfter =>
    rcases h with ⟨b,hb,rfl⟩ | ⟨b,ms,u,hb,hu,rfl⟩
    · exact .inl ⟨a++b,Space.append ha hb,by simp⟩
    · exact .inr ⟨a++b,ms,u,Space.append ha hb,hu,by simp⟩

variable {k u : List UInt8}

theorem members_of_key (hk : StringToken k) (h : FrameText n .objectColon u) :
    ∃ ms w, Members n ms w ∧ k++u=w++[0x7d] := by
  obtain ⟨b,c,v,u,hb,hc,hv,hu,rfl⟩ := h
  rcases hu with ⟨d,hd,rfl⟩ | ⟨d,ms,w,hd,hms,rfl⟩
  · exact ⟨_,_,.last Space.nil hk hb hc hv hd,by simp⟩
  · exact ⟨_,_,.more Space.nil hk hb hc hv hd hms,by simp⟩

variable {v : List UInt8}

theorem elements_of_value (ha : Space a) (hv : Value n v) (h : FrameText n .arrayAfter u) :
    ∃ vs w, Elements n vs w ∧ a++v++u=w++[0x5d] := by
  rcases h with ⟨b,hb,rfl⟩ | ⟨b,vs,u,hb,hu,rfl⟩
  · exact ⟨_,_,.last ha hv hb,by simp⟩
  · exact ⟨_,_,.more ha hv hb hu,by simp⟩

variable {b : UInt8}

theorem not_number (hb : ¬(b=0x2d ∨ isDigit b=true)) : ¬NumberToken (b::t) := by
  intro h
  obtain ⟨c,u,hcu,hc⟩ := number_head h
  cases hcu
  exact hb hc

variable {input : List UInt8} {pos : ℕ} {frames : List Frame} {e : ℕ}

theorem demand_of_text {s : List UInt8} (hs : input.drop pos=s++input.drop (pos+s.length))
    (htext : FrameText (maxDepth-(frames.length+1)) frame (s++t)) {w : List UInt8}
    (hw : Closes frames w) (hdrop : input.drop (pos+s.length)=t++w++input.drop e)
    (he : e=pos+s.length+(t++w).length) : Demand input e ⟨pos,frame::frames,false⟩ := by
  refine ⟨s++t++w,⟨s++t,w,htext,hw,rfl⟩,?_,?_⟩
  · rw [hs,hdrop]
    simp
  · rw [he]
    simp only [List.length_append]
    omega

theorem demand_of_byte {next : Frame} (hb : input[pos]?=some b)
    (htext : ∀ u, FrameText (maxDepth-(frames.length+1)) next u →
      FrameText (maxDepth-(frames.length+1)) frame (b::u))
    (h : Demand input e ⟨pos+1,next::frames,false⟩) : Demand input e ⟨pos,frame::frames,false⟩ := by
  obtain ⟨t,⟨u,w,hu,hw,rfl⟩,hdrop,he⟩ := h
  exact demand_of_text (s:=[b]) (drop_of_getElem? hb) (htext u hu) hw hdrop he

/-- The bracket that closes a container. -/
theorem demand_of_close (hb : input[pos]?=some b)
    (htext : FrameText (maxDepth-(frames.length+1)) frame [b])
    (h : Demand input e ⟨pos+1,frames,false⟩) : Demand input e ⟨pos,frame::frames,false⟩ := by
  obtain ⟨t,ht,hdrop,he⟩ := h
  exact demand_of_text (s:=[b]) (t:=[]) (drop_of_getElem? hb) htext ht hdrop he

variable {s : Scan}

theorem demand_of_key (htext : ∀ u, (∃ ms w, Members (maxDepth-(frames.length+1)) ms w ∧
      u=w++[0x7d]) → FrameText (maxDepth-(frames.length+1)) frame u)
    (hkey : keyStep input pos frames=.ok s) (h : Demand input e s) :
    Demand input e ⟨pos,frame::frames,false⟩ := by
  unfold keyStep at hkey
  cases hend : stringEnd input pos with
  | error e =>
    rw [hend] at hkey
    cases hkey
  | ok p =>
    rw [hend] at hkey
    cases hkey
    obtain ⟨k,rest,hk,htoken,rfl⟩ := stringEnd_iff.mp hend
    obtain ⟨t,⟨u,w,hu,hw,rfl⟩,hdrop,he⟩ := h
    have hs : input.drop pos=k++input.drop (pos+k.length) := by rw [drop_after hk,hk]
    obtain ⟨ms,x,hms,hx⟩ := members_of_key htoken hu
    exact demand_of_text hs (htext _ ⟨ms,x,hms,hx⟩) hw hdrop he

theorem demand_of_element (htext : ∀ u, (∃ vs w, Elements (maxDepth-(frames.length+1)) vs w ∧
      u=w++[0x5d]) → FrameText (maxDepth-(frames.length+1)) frame u)
    (h : Demand input e ⟨pos,.arrayAfter::frames,true⟩) :
    Demand input e ⟨pos,frame::frames,false⟩ := by
  obtain ⟨a,v,t,ha,hv,-,⟨u,w,hu,hw,rfl⟩,hdrop,he⟩ := h
  obtain ⟨vs,x,hvs,hx⟩ := elements_of_value ha hv hu
  refine ⟨a++v++u++w,⟨a++v++u,w,htext _ ⟨vs,x,hvs,hx⟩,hw,rfl⟩,?_,?_⟩
  · have hdrop : input.drop pos=a++v++(u++w)++input.drop e := hdrop
    rw [hdrop]
    simp
  · have he : e=pos+a.length+v.length+(u++w).length := he
    simp only [List.length_append] at he ⊢
    omega

variable {next : Scan}

theorem frameStep_demand (h : frameStep input pos frames frame=.ok next)
    (hd : Demand input e next) :
    Demand input e ⟨pos,frame::frames,false⟩ := by
  cases frame with
  | arrayFirst =>
    simp only [frameStep] at h
    split_ifs at h with hb
    · cases h
      exact demand_of_close hb (.inl ⟨[],Space.nil,rfl⟩) hd
    · cases h
      exact demand_of_element (fun u hu => .inr hu) hd
  | arrayNext =>
    cases h
    exact demand_of_element (fun u hu => hu) hd
  | arrayAfter =>
    simp only [frameStep] at h
    split_ifs at h with hb hb
    · cases h
      refine demand_of_byte hb (fun u hu => ?_) hd
      obtain ⟨vs,w,hw,rfl⟩ := hu
      exact .inr ⟨[],vs,w,Space.nil,hw,rfl⟩
    · cases h
      exact demand_of_close hb (.inl ⟨[],Space.nil,rfl⟩) hd
  | objectFirst =>
    simp only [frameStep] at h
    split_ifs at h with hb
    · cases h
      exact demand_of_close hb (.inl ⟨[],Space.nil,rfl⟩) hd
    · exact demand_of_key (fun u hu => .inr hu) h hd
  | objectKey => exact demand_of_key (fun u hu => hu) h hd
  | objectColon =>
    simp only [frameStep] at h
    split_ifs at h with hb
    cases h
    obtain ⟨c,v,t,hc,hv,-,⟨u,w,hu,hw,rfl⟩,hdrop,he⟩ := hd
    refine ⟨0x3a::(c++v++u)++w,⟨_,w,⟨[],c,v,u,Space.nil,hc,hv,hu,rfl⟩,hw,rfl⟩,?_,?_⟩
    · have hdrop : input.drop (pos+1)=c++v++(u++w)++input.drop e := hdrop
      rw [drop_of_getElem? hb,hdrop]
      simp
    · have he : e=pos+1+c.length+v.length+(u++w).length := he
      simp only [List.length_append,List.length_cons] at he ⊢
      omega
  | objectAfter =>
    simp only [frameStep] at h
    split_ifs at h with hb hb
    · cases h
      refine demand_of_byte hb (fun u hu => ?_) hd
      obtain ⟨ms,w,hw,rfl⟩ := hu
      exact .inr ⟨[],ms,w,Space.nil,hw,rfl⟩
    · cases h
      exact demand_of_close hb (.inl ⟨[],Space.nil,rfl⟩) hd

theorem demand_space (h : Demand input e ⟨whitespace input pos,frame::frames,false⟩) :
    Demand input e ⟨pos,frame::frames,false⟩ := by
  obtain ⟨a,ha,hsplit,hpos,-⟩ := whitespace_split input pos
  obtain ⟨t,⟨u,w,hu,hw,rfl⟩,hdrop,he⟩ := h
  refine ⟨a++u++w,⟨a++u,w,frameText_space ha hu,hw,rfl⟩,?_,?_⟩
  · have hdrop : input.drop (whitespace input pos)=u++w++input.drop e := hdrop
    rw [hsplit,hdrop]
    simp
  · have he : e=whitespace input pos+(u++w).length := he
    simp only [List.length_append] at he ⊢
    omega

theorem value_of_container : (FrameText n .arrayFirst u → Value (n+1) (0x5b::u)) ∧
      (FrameText n .objectFirst u → Value (n+1) (0x7b::u)) := by
  constructor
  · rintro (⟨a,ha,rfl⟩ | ⟨vs,w,hw,rfl⟩)
    · exact .emptyArray ha
    · exact .array hw
  · rintro (⟨a,ha,rfl⟩ | ⟨ms,w,hw,rfl⟩)
    · exact .emptyObject ha
    · exact .object hw

variable {rest : List UInt8}

theorem demand_of_container (hb : ¬(b=0x2d ∨ isDigit b=true))
    (hvalue : ∀ n u, FrameText n frame u → Value (n+1) (b::u))
    (hdepth : (frame::frames).length ≤ maxDepth) (ha : Space a) (hrest : input.drop pos=a++b::rest)
    (h : Demand input e ⟨pos+a.length+1,frame::frames,false⟩) :
    Demand input e ⟨pos,frames,true⟩ := by
  obtain ⟨t,⟨u,w,hu,hw,rfl⟩,hdrop,he⟩ := h
  have hdrop : input.drop (pos+a.length+1)=u++w++input.drop e := hdrop
  have he : e=pos+a.length+1+(u++w).length := he
  rw [List.length_cons] at hdepth
  have hn : maxDepth-(frames.length+1)+1=maxDepth-frames.length := by omega
  have hv := hvalue _ u hu
  rw [hn] at hv
  refine ⟨a,b::u,w,ha,hv,fun hnumber => absurd hnumber (not_number hb),hw,?_,?_⟩
  · have hafter := drop_succ (drop_after hrest)
    rw [hdrop] at hafter
    rw [show (⟨pos,frames,true⟩ : Scan).pos=pos from rfl,hrest,←hafter]
    simp
  · simp only [List.length_append,List.length_cons] at he ⊢
    omega

theorem value_of_scalar (h : Scalar v rest) : Value n v ∧ (NumberToken v → Munched v rest) := by
  rcases h with h | h | h
  · refine ⟨.literal h,fun hnumber => ?_⟩
    rcases h with rfl | rfl | rfl
    · exact absurd hnumber (not_number (by decide))
    · exact absurd hnumber (not_number (by decide))
    · exact absurd hnumber (not_number (by decide))
  · refine ⟨.string h,fun hnumber => ?_⟩
    obtain ⟨body,-,rfl⟩ := h
    exact absurd hnumber (not_number (by decide))
  · exact ⟨.number h.1,fun _ => h⟩

theorem step_demand (hopen : s.complete=false) (h : step input s=.ok next)
    (hd : Demand input e next) : Demand input e s := by
  obtain ⟨pos,frames,needValue⟩ := s
  cases needValue with
  | true =>
    obtain ⟨after,stack,hvalue,hdepth,rfl⟩ := step_value_iff.mp h
    obtain ⟨a,ha,hsplit,hpos,-⟩ := whitespace_split input pos
    rcases valueStep_iff.mp hvalue with ⟨rest,hrest,rfl,rfl⟩ | ⟨rest,hrest,rfl,rfl⟩ |
      ⟨v,rest,hrest,hv,rfl,rfl⟩
    · rw [hrest] at hsplit
      rw [hpos] at hd
      exact demand_of_container (by decide) (fun _ _ => value_of_container.2) hdepth ha hsplit hd
    · rw [hrest] at hsplit
      rw [hpos] at hd
      exact demand_of_container (by decide) (fun _ _ => value_of_container.1) hdepth ha hsplit hd
    · obtain ⟨t,ht,hdrop,he⟩ := hd
      have hdrop : input.drop (whitespace input pos+v.length)=t++input.drop e := hdrop
      have he : e=whitespace input pos+v.length+t.length := he
      obtain ⟨hvalue,hmunched⟩ := value_of_scalar (n:=maxDepth-stack.length) hv
      rw [drop_after hrest] at hdrop
      refine ⟨a,v,t,ha,hvalue,hdrop ▸ hmunched,ht,?_,?_⟩
      · rw [show (⟨pos,stack,true⟩ : Scan).pos=pos from rfl,hsplit,hrest,hdrop]
        simp
      · rw [he,hpos]
  | false =>
    cases frames with
    | nil => cases hopen
    | cons frame frames => exact demand_space (frameStep_demand h hd)

theorem loop_demand (hopen : s.complete=false) (h : loop input s=.ok e) : Demand input e s := by
  fun_induction loop input s with
  | case1 => cases h
  | case2 s next hnext hcomplete =>
    cases h
    refine step_demand hopen hnext ?_
    obtain ⟨pos,frames,needValue⟩ := next
    cases needValue with
    | true => simp [Scan.complete] at hcomplete
    | false =>
      cases frames with
      | nil => exact ⟨[],rfl,rfl,rfl⟩
      | cons frame frames => cases hcomplete
  | case3 s next hnext hcomplete ih =>
    have hnot : next.complete=false := by simpa using hcomplete
    exact step_demand hopen hnext (ih hnot h)

/-- What a scan returns after a round. -/
def finish (input : List UInt8) (s : Scan) : Except DecodeFailure ℕ :=
  if s.complete then .ok s.pos else loop input s

/-- A round and what follows it. -/
theorem loop_of_step (h : step input s=.ok next) : loop input s=finish input next := by
  rw [loop,finish]
  split
  next e he =>
    rw [h] at he
    cases he
  next other hother =>
    rw [h] at hother
    cases hother
    split_ifs <;> rfl

/-- A byte that ends what stands before it inside a container. -/
def Separator (b : UInt8) : Prop := isSpace b=true ∨ b=0x2c ∨ b=0x5d ∨ b=0x7d

theorem separator_stops {state : NumberState} (hb : Separator b) (haccept : state.accepting=true) :
    numberStep state b=none := by
  have hbytes : b=0x20 ∨ b=0x09 ∨ b=0x0d ∨ b=0x0a ∨ b=0x2c ∨ b=0x5d ∨ b=0x7d := by
    rcases hb with hb | hb
    · simp only [isSpace,Bool.or_eq_true,decide_eq_true_eq] at hb
      tauto
    · tauto
  have hnot : isDigit b=false ∧ b≠0x2e ∧ ¬(b=0x65 ∨ b=0x45) := by
    rcases hbytes with rfl | rfl | rfl | rfl | rfl | rfl | rfl <;> decide
  obtain ⟨hdigit,hpoint,hletter⟩ := hnot
  cases state with
  | zero => simp only [numberStep,tailStep,letterStep,hpoint,hletter,if_false]
  | integer =>
    simp only [numberStep,tailStep,letterStep,hdigit,hpoint,hletter,if_false,Bool.false_eq_true]
  | fraction =>
    simp only [numberStep,letterStep,hdigit,hletter,if_false,Bool.false_eq_true]
  | exponent => simp only [numberStep,hdigit,if_false,Bool.false_eq_true]
  | start | minus | point | letter | sign => cases haccept

theorem munched_of_separator (hv : NumberToken v) (h : ∀ b, rest.head?=some b → Separator b) :
    Munched v rest := by
  refine ⟨hv,?_⟩
  rintro b tail rfl ⟨more,hmore⟩
  obtain ⟨state,hread,haccept⟩ := readAll_number hv
  obtain ⟨final,hfinal,-⟩ := readAll_number hmore
  rw [readAll_append,hread,Option.bind_some,readAll,separator_stops (h b rfl) haccept] at hfinal
  cases hfinal

theorem separator_head (ha : Space a) (hb : Separator b) :
    ∀ c, (a++b::t).head?=some c → Separator c := by
  intro c hc
  cases a with
  | nil =>
    cases hc
    exact hb
  | cons d a =>
    cases hc
    exact .inl (ha _ List.mem_cons_self)

theorem value_head (h : Value n v) : ∃ b t, v=b::t ∧ isSpace b=false ∧ b≠0x5d := by
  cases h with
  | literal ht => exact scalar_head (show Scalar _ [] from .inl ht)
  | number ht =>
    obtain ⟨b,t,hbt,hb⟩ := number_head ht
    obtain ⟨-,-,-,-,hspace,hclose⟩ := number_byte hb
    exact ⟨b,t,hbt,hspace,hclose⟩
  | string ht => exact scalar_head (show Scalar _ [] from .inr (.inl ht))
  | emptyArray _ => exact ⟨_,_,rfl,rfl,by decide⟩
  | array _ => exact ⟨_,_,rfl,rfl,by decide⟩
  | emptyObject _ => exact ⟨_,_,rfl,rfl,by decide⟩
  | object _ => exact ⟨_,_,rfl,rfl,by decide⟩

/-- The position of a byte after white space. -/
theorem whitespace_before (ha : Space a) (hb : isSpace b=false) (h : input.drop pos=a++b::t) :
    whitespace input pos=pos+a.length ∧ input.drop (pos+a.length)=b::t := by
  refine ⟨whitespace_of_space ha (fun c hc => ?_) h,drop_after h⟩
  cases hc
  exact hb

theorem step_scalar (ha : Space a) (hv : Scalar v rest) (hdepth : frames.length ≤ maxDepth)
    (h : input.drop pos=a++v++rest) :
    step input ⟨pos,frames,true⟩=.ok ⟨pos+a.length+v.length,frames,false⟩ := by
  obtain ⟨b,t,hbt,hb,-⟩ := scalar_head hv
  have hcons : input.drop pos=a++b::(t++rest) := by
    rw [h,hbt]
    simp
  obtain ⟨hpos,-⟩ := whitespace_before ha hb hcons
  have hrest : input.drop (pos+a.length)=v++rest :=
    drop_after (by rw [h,List.append_assoc])
  rw [step_value_iff,hpos]
  exact ⟨_,_,valueStep_iff.mpr (.inr (.inr ⟨v,rest,hrest,hv,rfl,rfl⟩)),hdepth,rfl⟩

theorem step_opens (ha : Space a) (hdepth : frames.length+1 ≤ maxDepth) :
    (input.drop pos=a++0x5b::t →
      step input ⟨pos,frames,true⟩=.ok ⟨pos+a.length+1,.arrayFirst::frames,false⟩) ∧
    (input.drop pos=a++0x7b::t →
      step input ⟨pos,frames,true⟩=.ok ⟨pos+a.length+1,.objectFirst::frames,false⟩) := by
  constructor
  · intro h
    obtain ⟨hpos,hrest⟩ := whitespace_before ha rfl h
    rw [step_value_iff,hpos]
    exact ⟨_,_,valueStep_iff.mpr (.inr (.inl ⟨t,hrest,rfl,rfl⟩)),hdepth,rfl⟩
  · intro h
    obtain ⟨hpos,hrest⟩ := whitespace_before ha rfl h
    rw [step_value_iff,hpos]
    exact ⟨_,_,valueStep_iff.mpr (.inl ⟨t,hrest,rfl,rfl⟩),hdepth,rfl⟩

/-- A byte after white space decides a round in a container. -/
theorem step_frame (frame : Frame) (frames : List Frame) (ha : Space a) (hb : isSpace b=false)
    (h : input.drop pos=a++b::t) :
    input[pos+a.length]?=some b ∧
      step input ⟨pos,frame::frames,false⟩=frameStep input (pos+a.length) frames frame := by
  obtain ⟨hpos,hrest⟩ := whitespace_before ha hb h
  refine ⟨getElem?_of_drop hrest,?_⟩
  simp only [step,Bool.false_eq_true,if_false,hpos]

theorem finish_open (input : List UInt8) (pos : ℕ) (frame : Frame) (frames : List Frame) :
    finish input ⟨pos,frame::frames,false⟩=loop input ⟨pos,frame::frames,false⟩ := rfl

theorem finish_value (input : List UInt8) (pos : ℕ) (frames : List Frame) :
    finish input ⟨pos,frames,true⟩=loop input ⟨pos,frames,true⟩ := by
  simp [finish,Scan.complete]

theorem step_element (hframe : frame=.arrayFirst ∨ frame=.arrayNext) (ha : Space a) (hv : Value n v)
    (h : input.drop pos=a++v++rest) :
    step input ⟨pos,frame::frames,false⟩=.ok ⟨pos+a.length,.arrayAfter::frames,true⟩ := by
  obtain ⟨b,t,hbt,hspace,hclose⟩ := value_head hv
  have hcons : input.drop pos=a++b::(t++rest) := by
    rw [h,hbt]
    simp
  obtain ⟨hget,hstep⟩ := step_frame frame frames ha hspace hcons
  rw [hstep]
  have hne : input[pos+a.length]?≠some 0x5d := by
    rw [hget]
    intro heq
    exact hclose (Option.some.inj heq)
  rcases hframe with rfl | rfl
  · simp only [frameStep,if_neg hne]
  · rfl

/-- A container goes on after a comma or closes. -/
theorem step_after {b : List UInt8} (hb : Space b) : (input.drop pos=b++0x2c::t →
      step input ⟨pos,.arrayAfter::frames,false⟩=
        .ok ⟨pos+b.length+1,.arrayNext::frames,false⟩ ∧
      step input ⟨pos,.objectAfter::frames,false⟩=
        .ok ⟨pos+b.length+1,.objectKey::frames,false⟩) ∧
    (input.drop pos=b++0x5d::t → ∀ frame, (frame=.arrayFirst ∨ frame=.arrayAfter) →
      step input ⟨pos,frame::frames,false⟩=.ok ⟨pos+b.length+1,frames,false⟩) ∧
    (input.drop pos=b++0x7d::t → ∀ frame, (frame=.objectFirst ∨ frame=.objectAfter) →
      step input ⟨pos,frame::frames,false⟩=.ok ⟨pos+b.length+1,frames,false⟩) := by
  refine ⟨?_,?_,?_⟩
  · intro h
    constructor
    · obtain ⟨hget,hstep⟩ := step_frame .arrayAfter frames hb rfl h
      rw [hstep,frameStep,if_pos hget]
    · obtain ⟨hget,hstep⟩ := step_frame .objectAfter frames hb rfl h
      rw [hstep,frameStep,if_pos hget]
  · intro h frame hframe
    obtain ⟨hget,hstep⟩ := step_frame frame frames hb rfl h
    rw [hstep]
    rcases hframe with rfl | rfl
    · rw [frameStep,if_pos hget]
    · have hne : input[pos+b.length]?≠some 0x2c := by
        rw [hget]
        decide
      rw [frameStep,if_neg hne,if_pos hget]
  · intro h frame hframe
    obtain ⟨hget,hstep⟩ := step_frame frame frames hb rfl h
    rw [hstep]
    rcases hframe with rfl | rfl
    · rw [frameStep,if_pos hget]
    · have hne : input[pos+b.length]?≠some 0x2c := by
        rw [hget]
        decide
      rw [frameStep,if_neg hne,if_pos hget]

theorem loop_key (frames : List Frame) {b : List UInt8}
    (hframe : frame=.objectFirst ∨ frame=.objectKey) (ha : Space a) (hk : StringToken k)
    (hb : Space b) (h : input.drop pos=a++k++b++0x3a::rest) :
    loop input ⟨pos,frame::frames,false⟩=
      loop input ⟨pos+a.length+k.length+b.length+1,.objectAfter::frames,true⟩ ∧
    input.drop (pos+a.length+k.length+b.length+1)=rest := by
  obtain ⟨body,hbody,hkey⟩ := hk
  have hcons : input.drop pos=a++0x22::(body++[0x22]++b++0x3a::rest) := by
    rw [h,hkey]
    simp
  obtain ⟨hget,hstep⟩ := step_frame frame frames ha rfl hcons
  have hkeydrop : input.drop (pos+a.length)=k++(b++0x3a::rest) :=
    drop_after (by rw [h]; simp)
  have hend := stringEnd_iff.mpr ⟨k,_,hkeydrop,⟨body,hbody,hkey⟩,rfl⟩
  have hread : step input ⟨pos,frame::frames,false⟩=
      .ok ⟨pos+a.length+k.length,.objectColon::frames,false⟩ := by
    rw [hstep]
    have hne : input[pos+a.length]?≠some 0x7d := by
      rw [hget]
      decide
    rcases hframe with rfl | rfl
    · simp only [frameStep,if_neg hne,keyStep,hend]
      rfl
    · simp only [frameStep,keyStep,hend]
      rfl
  have hcolon : input.drop (pos+a.length+k.length)=b++0x3a::rest := drop_after hkeydrop
  obtain ⟨hget,hstep⟩ := step_frame .objectColon frames hb rfl hcolon
  have hpass : step input ⟨pos+a.length+k.length,.objectColon::frames,false⟩=
      .ok ⟨pos+a.length+k.length+b.length+1,.objectAfter::frames,true⟩ := by
    rw [hstep,frameStep,if_pos hget]
  refine ⟨?_,drop_succ (drop_after hcolon)⟩
  rw [loop_of_step hread,finish_open,loop_of_step hpass,finish_value]

mutual

theorem loop_value {n : ℕ} {v : List UInt8} (h : Value n v) {input a rest : List UInt8}
    {pos : ℕ} {frames : List Frame} (hdepth : frames.length+n ≤ maxDepth) (ha : Space a)
    (hmunched : NumberToken v → Munched v rest) (hdrop : input.drop pos=a++v++rest) :
    loop input ⟨pos,frames,true⟩=finish input ⟨pos+a.length+v.length,frames,false⟩ := by
  cases h with
  | literal ht => exact loop_of_step (step_scalar ha (.inl ht) (by omega) hdrop)
  | number ht =>
    exact loop_of_step (step_scalar ha (.inr (.inr (hmunched ht))) (by omega) hdrop)
  | string ht => exact loop_of_step (step_scalar ha (.inr (.inl ht)) (by omega) hdrop)
  | @emptyArray _ b hb =>
    have hopen : input.drop pos=a++0x5b::(b++0x5d::rest) := by
      rw [hdrop]
      simp
    have hclose := drop_succ (drop_after hopen)
    rw [loop_of_step ((step_opens ha (by omega)).1 hopen),finish_open,
      loop_of_step ((step_after hb).2.1 hclose _ (.inl rfl))]
    simp only [List.length_cons,List.length_append,List.length_nil]
    congr 2
    omega
  | @array _ vs t ht =>
    have hopen : input.drop pos=a++0x5b::(t++0x5d::rest) := by
      rw [hdrop]
      simp
    have hrest := drop_succ (drop_after hopen)
    rw [loop_of_step ((step_opens ha (by omega)).1 hopen),finish_open,
      loop_elements ht (.inl rfl) (by omega) hrest]
    simp only [List.length_cons,List.length_append,List.length_nil]
    congr 2
    omega
  | @emptyObject _ b hb =>
    have hopen : input.drop pos=a++0x7b::(b++0x7d::rest) := by
      rw [hdrop]
      simp
    have hclose := drop_succ (drop_after hopen)
    rw [loop_of_step ((step_opens ha (by omega)).2 hopen),finish_open,
      loop_of_step ((step_after hb).2.2 hclose _ (.inl rfl))]
    simp only [List.length_cons,List.length_append,List.length_nil]
    congr 2
    omega
  | @object _ ms t ht =>
    have hopen : input.drop pos=a++0x7b::(t++0x7d::rest) := by
      rw [hdrop]
      simp
    have hrest := drop_succ (drop_after hopen)
    rw [loop_of_step ((step_opens ha (by omega)).2 hopen),finish_open,
      loop_members ht (.inl rfl) (by omega) hrest]
    simp only [List.length_cons,List.length_append,List.length_nil]
    congr 2
    omega

theorem loop_elements {n : ℕ} {vs : List (List UInt8)} {t : List UInt8} (h : Elements n vs t)
    {input rest : List UInt8} {pos : ℕ} {frame : Frame} {frames : List Frame}
    (hframe : frame=.arrayFirst ∨ frame=.arrayNext) (hdepth : frames.length+1+n ≤ maxDepth)
    (hdrop : input.drop pos=t++0x5d::rest) :
    loop input ⟨pos,frame::frames,false⟩=finish input ⟨pos+t.length+1,frames,false⟩ := by
  cases h with
  | @last _ a v b ha hv hb =>
    have hvalue : input.drop pos=a++v++(b++0x5d::rest) := by
      rw [hdrop]
      simp
    have hstart : input.drop (pos+a.length)=[]++v++(b++0x5d::rest) :=
      drop_after (by rw [hvalue]; simp)
    have hclose : input.drop (pos+a.length+0+v.length)=b++0x5d::rest := drop_after hstart
    rw [loop_of_step (step_element hframe ha hv hvalue),finish_value,
      loop_value hv (by rw [List.length_cons]; omega) Space.nil
        (fun hn => munched_of_separator hn (separator_head hb (.inr (.inr (.inl rfl))))) hstart,
      List.length_nil,finish_open,
      loop_of_step ((step_after hb).2.1 hclose _ (.inr rfl))]
    simp only [List.length_append]
    congr 2
    omega
  | @more _ a v b u vs ha hv hb ht =>
    have hvalue : input.drop pos=a++v++(b++0x2c::(u++0x5d::rest)) := by
      rw [hdrop]
      simp
    have hstart : input.drop (pos+a.length)=[]++v++(b++0x2c::(u++0x5d::rest)) :=
      drop_after (by rw [hvalue]; simp)
    have hcomma : input.drop (pos+a.length+0+v.length)=b++0x2c::(u++0x5d::rest) :=
      drop_after hstart
    have hnext := drop_succ (drop_after hcomma)
    rw [loop_of_step (step_element hframe ha hv hvalue),finish_value,
      loop_value hv (by rw [List.length_cons]; omega) Space.nil
        (fun hn => munched_of_separator hn (separator_head hb (.inr (.inl rfl)))) hstart,
      List.length_nil,finish_open,loop_of_step ((step_after hb).1 hcomma).1,finish_open,
      loop_elements ht (.inr rfl) hdepth hnext]
    simp only [List.length_append,List.length_cons]
    congr 2
    omega

theorem loop_members {n : ℕ} {ms : List (List UInt8×List UInt8)} {t : List UInt8}
    (h : Members n ms t) {input rest : List UInt8} {pos : ℕ} {frame : Frame}
    {frames : List Frame} (hframe : frame=.objectFirst ∨ frame=.objectKey)
    (hdepth : frames.length+1+n ≤ maxDepth) (hdrop : input.drop pos=t++0x7d::rest) :
    loop input ⟨pos,frame::frames,false⟩=finish input ⟨pos+t.length+1,frames,false⟩ := by
  cases h with
  | @last _ a k b c v d ha hk hb hc hv hd =>
    have hkey : input.drop pos=a++k++b++0x3a::(c++v++(d++0x7d::rest)) := by
      rw [hdrop]
      simp
    obtain ⟨hloop,hstart⟩ := loop_key frames hframe ha hk hb hkey
    have hclose : input.drop (pos+a.length+k.length+b.length+1+c.length+v.length)=
        d++0x7d::rest := drop_after (drop_after (by rw [hstart,List.append_assoc]))
    rw [hloop,loop_value hv (by rw [List.length_cons]; omega) hc
        (fun hn => munched_of_separator hn (separator_head hd (.inr (.inr (.inr rfl))))) hstart,
      finish_open,loop_of_step ((step_after hd).2.2 hclose _ (.inr rfl))]
    simp only [List.length_append,List.length_cons]
    congr 2
    omega
  | @more _ a k b c v d u ms ha hk hb hc hv hd ht =>
    have hkey : input.drop pos=a++k++b++0x3a::(c++v++(d++0x2c::(u++0x7d::rest))) := by
      rw [hdrop]
      simp
    obtain ⟨hloop,hstart⟩ := loop_key frames hframe ha hk hb hkey
    have hcomma : input.drop (pos+a.length+k.length+b.length+1+c.length+v.length)=
        d++0x2c::(u++0x7d::rest) := drop_after (drop_after (by rw [hstart,List.append_assoc]))
    have hnext := drop_succ (drop_after hcomma)
    rw [hloop,loop_value hv (by rw [List.length_cons]; omega) hc
        (fun hn => munched_of_separator hn (separator_head hd (.inr (.inl rfl)))) hstart,
      finish_open,loop_of_step ((step_after hd).1 hcomma).2,finish_open,
      loop_members ht (.inr rfl) hdepth hnext]
    simp only [List.length_append,List.length_cons]
    congr 2
    omega

end

def spanOf (v : List UInt8) : Span := ⟨v,kindAt v.head?⟩

theorem value_of_text {n : ℕ} {input a v rest : List UInt8} {offset : ℕ} (hv : Value n v)
    (hn : n ≤ maxDepth) (ha : Space a) (hmunched : NumberToken v → Munched v rest)
    (hdrop : input.drop offset=a++v++rest) :
    value input offset=.ok (spanOf v,offset+a.length+v.length) := by
  obtain ⟨b,t,hbt,hspace,-⟩ := value_head hv
  have hcons : input.drop offset=a++b::(t++rest) := by
    rw [hdrop,hbt]
    simp
  obtain ⟨hstart,hrest⟩ := whitespace_before ha hspace hcons
  have hvalue : input.drop (offset+a.length)=[]++v++rest := by
    rw [hrest,hbt]
    simp
  have hdepth : ([] : List Frame).length+n ≤ maxDepth := by
    rw [List.length_nil]
    omega
  have hloop := loop_value hv hdepth Space.nil hmunched hvalue
  rw [List.length_nil,Nat.add_zero] at hloop
  have hget : input[offset+a.length]?=v.head? := by
    rw [getElem?_of_drop hrest,hbt]
    rfl
  have htake : (input.drop (offset+a.length)).take (offset+a.length+v.length-(offset+a.length))=
      v := by
    rw [hvalue,Nat.add_sub_cancel_left,List.nil_append,List.take_left]
  simp only [value,hstart,hloop,finish,Scan.complete,List.isEmpty_nil,Bool.not_false,
    Bool.and_self,if_true,bind,Except.bind,pure,Except.pure,htake,hget,spanOf]

theorem text_of_value {offset : ℕ} {span : Span} (h : value input offset=.ok (span,e)) :
    ∃ a v rest, input.drop offset=a++v++rest ∧ Space a ∧ Value maxDepth v ∧
      (NumberToken v → Munched v rest) ∧ span=spanOf v ∧ e=offset+a.length+v.length := by
  cases hloop : loop input ⟨whitespace input offset,[],true⟩ with
  | error f => simp [value,hloop,bind,Except.bind] at h
  | ok stop =>
    obtain ⟨a,v,t,ha,hv,hmunched,ht,hdrop,hstop⟩ := loop_demand rfl hloop
    have ht : t=[] := ht
    subst ht
    have hdrop : input.drop (whitespace input offset)=a++v++[]++input.drop stop := hdrop
    obtain ⟨w,hw,hsplit,hpos,hstart⟩ := whitespace_split input offset
    rw [List.append_nil] at hdrop
    have hnone : a=[] := by
      cases a with
      | nil => rfl
      | cons b a =>
        have hfirst : input[whitespace input offset]?=some b := getElem?_of_drop hdrop
        have hno := hstart b hfirst
        rw [ha b List.mem_cons_self] at hno
        cases hno
    subst hnone
    have hall : input.drop offset=w++v++input.drop stop := by
      rw [hsplit,hdrop]
      simp
    have hvalue := value_of_text hv (Nat.le_refl _) hw hmunched hall
    rw [hvalue] at h
    cases h
    exact ⟨w,v,_,hall,hw,hv,hmunched,rfl,rfl⟩

/-- A walk that returns entries in order and then ends for good. -/
inductive Enumerates {α : Type} (read : Cursor → Except DecodeFailure (Option α×Cursor)) :
    Cursor → List α → Prop where
  /-- The end. -/
  | done {c final : Cursor} (h : read c=.ok (none,final)) (hend : read final=.ok (none,final)) :
    Enumerates read c []
  | entry {c after : Cursor} {a : α} {entries : List α} (h : read c=.ok (some a,after))
    (hrest : Enumerates read after entries) : Enumerates read c (a::entries)

/-- A walk returns one list of entries. -/
theorem enumerates_unique {α : Type} {read : Cursor → Except DecodeFailure (Option α×Cursor)}
    {c : Cursor} {one other : List α} (h : Enumerates read c one)
    (h' : Enumerates read c other) : one=other := by
  induction h generalizing other with
  | done hread hend =>
    cases h' with
    | done => rfl
    | entry hread' =>
      rw [hread] at hread'
      cases hread'
  | entry hread hrest ih =>
    cases h' with
    | done hread' =>
      rw [hread] at hread'
      cases hread'
    | entry hread' hrest' =>
      rw [hread] at hread'
      cases hread'
      rw [ih hrest']

/-- What stands before an entry: a comma, unless it is the first. -/
def Lead (first : Bool) (lead : List UInt8) : Prop :=
  (first=true ∧ lead=[]) ∨ (first=false ∧ ∃ d, Space d ∧ lead=d++[0x2c])

variable {lead : List UInt8} {first : Bool}

theorem next_entry (hlead : Lead first lead) (ha : Space a) (hb : isSpace b=false)
    (h : input.drop pos=lead++a++b::t) :
    Cursor.next ⟨input,pos,first⟩=.ok (true,⟨input,pos+lead.length+a.length,false⟩) := by
  rcases hlead with ⟨rfl,rfl⟩ | ⟨rfl,d,hd,rfl⟩
  · obtain ⟨hpos,hrest⟩ := whitespace_before ha hb h
    have hlt := pos_lt_length (getElem?_of_drop hrest)
    have hne : pos+a.length≠input.length := by omega
    simp only [Cursor.next,hpos,if_neg hne,if_true,List.length_nil,Nat.add_zero]
  · have hcomma : input.drop pos=d++0x2c::(a++b::t) := by
      rw [h]
      simp
    obtain ⟨hpos,hrest⟩ := whitespace_before hd rfl hcomma
    have hget := getElem?_of_drop hrest
    have hlt := pos_lt_length hget
    have hne : pos+d.length≠input.length := by omega
    obtain ⟨hnext,-⟩ := whitespace_before ha hb (drop_succ hrest)
    simp only [Cursor.next,hpos,if_neg hne,hget,if_true,if_false,Bool.false_eq_true,hnext,
      List.length_append,List.length_cons,List.length_nil,Nat.zero_add]
    rw [Nat.add_assoc pos]

theorem next_end (first : Bool) (ha : Space a) (hpos : pos ≤ input.length) (h : input.drop pos=a) :
    Cursor.next ⟨input,pos,first⟩=.ok (false,⟨input,input.length,first⟩) ∧
      Cursor.next ⟨input,input.length,first⟩=.ok (false,⟨input,input.length,first⟩) := by
  have hlength : input.length=pos+a.length := by
    have := congrArg List.length h
    rw [List.length_drop] at this
    omega
  have hend : whitespace input pos=input.length := by
    rw [hlength]
    refine whitespace_of_space (t:=[]) ha (fun b hb => ?_) (by rw [h,List.append_nil])
    cases hb
  have hstay : whitespace input input.length=input.length := by
    refine whitespace_of_space (a:=[]) (t:=[]) Space.nil (fun b hb => ?_) (by simp)
    cases hb
  exact ⟨by simp only [Cursor.next,hend,if_true],by simp only [Cursor.next,hstay,if_true]⟩

theorem element_entry (hlead : Lead first lead) (ha : Space a) (hv : Value n v) (hn : n ≤ maxDepth)
    (hmunched : NumberToken v → Munched v rest) (h : input.drop pos=lead++a++v++rest) :
    Cursor.element ⟨input,pos,first⟩=
      .ok (some (spanOf v),⟨input,pos+lead.length+a.length+v.length,false⟩) := by
  obtain ⟨b,t,hbt,hspace,-⟩ := value_head hv
  have hcons : input.drop pos=lead++a++b::(t++rest) := by
    rw [h,hbt]
    simp
  have hstart : input.drop (pos+lead.length+a.length)=[]++v++rest :=
    drop_after (drop_after (by rw [h]; simp))
  have hvalue := value_of_text hv hn Space.nil hmunched hstart
  rw [List.length_nil,Nat.add_zero] at hvalue
  simp only [Cursor.element,next_entry hlead ha hspace hcons,bind,Except.bind,Bool.not_true,
    Bool.false_eq_true,if_false,hvalue,pure,Except.pure]

theorem element_end (first : Bool) (ha : Space a) (hpos : pos ≤ input.length) (h : input.drop pos=a)
    :
    Enumerates Cursor.element ⟨input,pos,first⟩ [] := by
  obtain ⟨hnext,hstay⟩ := next_end first ha hpos h
  refine @Enumerates.done _ _ _ ⟨input,input.length,first⟩ ?_ ?_
  · simp only [Cursor.element,hnext,bind,Except.bind,Bool.not_false,if_true,pure,Except.pure]
  · simp only [Cursor.element,hstay,bind,Except.bind,Bool.not_false,if_true,pure,Except.pure]

/-- The position after a part of the input is inside it. -/
theorem pos_le_of_drop {s : List UInt8} (hpos : pos ≤ input.length) (h : input.drop pos=s++t) :
    pos+s.length ≤ input.length := by
  have := congrArg List.length h
  rw [List.length_drop,List.length_append] at this
  omega

theorem elements_enumerated {vs : List (List UInt8)} (h : Elements n vs t) (hn : n ≤ maxDepth)
    (hpos : pos ≤ input.length) (hlead : Lead first lead) (hdrop : input.drop pos=lead++t) :
    Enumerates Cursor.element ⟨input,pos,first⟩ (vs.map spanOf) ∧
      ∀ v ∈ vs, Value n v := by
  induction vs generalizing t lead pos first with
  | nil => cases h
  | cons w ws ih =>
  cases h with
  | @last _ a _ b ha hv hb =>
    have hvalue : input.drop pos=lead++a++w++b := by
      rw [hdrop]
      simp
    have hmunched : NumberToken w → Munched w b := fun hnumber =>
      munched_of_separator hnumber fun c hc => .inl (hb c (List.mem_of_mem_head? hc))
    have hend : input.drop (pos+lead.length+a.length+w.length)=b :=
      drop_after (drop_after (drop_after (by rw [hvalue]; simp)))
    have hle : pos+lead.length+a.length+w.length ≤ input.length := by
      have := pos_le_of_drop hpos hvalue
      simp only [List.length_append] at this
      omega
    refine ⟨.entry (element_entry hlead ha hv hn hmunched hvalue) (element_end _ hb hle hend),?_⟩
    intro x hx
    rwa [List.mem_singleton.mp hx]
  | @more _ a _ b u _ ha hv hb ht =>
    have hvalue : input.drop pos=lead++a++w++(b++0x2c::u) := by
      rw [hdrop]
      simp
    have hmunched : NumberToken w → Munched w (b++0x2c::u) := fun hnumber =>
      munched_of_separator hnumber (separator_head hb (.inr (.inl rfl)))
    have hnext : input.drop (pos+lead.length+a.length+w.length)=(b++[0x2c])++u :=
      drop_after (drop_after (drop_after (by rw [hvalue]; simp)))
    have hle : pos+lead.length+a.length+w.length ≤ input.length := by
      have := pos_le_of_drop hpos hvalue
      simp only [List.length_append] at this
      omega
    obtain ⟨hwalk,hall⟩ := ih ht hle (.inr ⟨rfl,b,hb,rfl⟩) hnext
    refine ⟨.entry (element_entry hlead ha hv hn hmunched hvalue) hwalk,?_⟩
    intro x hx
    rcases List.mem_cons.mp hx with rfl | hx
    · exact hv
    · exact hall x hx

def memberOf (m : List UInt8×List UInt8) : List UInt8×Span := (m.1,spanOf m.2)

theorem member_entry {b c : List UInt8} (hlead : Lead first lead) (ha : Space a)
    (hk : StringToken k) (hb : Space b) (hc : Space c) (hv : Value n v) (hn : n ≤ maxDepth)
    (hmunched : NumberToken v → Munched v rest)
    (h : input.drop pos=lead++a++k++b++0x3a::(c++v++rest)) :
    Cursor.member ⟨input,pos,first⟩=.ok (some (memberOf (k,v)),
      ⟨input,pos+lead.length+a.length+k.length+b.length+1+c.length+v.length,false⟩) := by
  obtain ⟨body,hbody,hkey⟩ := hk
  have hcons : input.drop pos=lead++a++0x22::(body++[0x22]++b++0x3a::(c++v++rest)) := by
    rw [h,hkey]
    simp
  have hstart : input.drop (pos+lead.length+a.length)=k++(b++0x3a::(c++v++rest)) :=
    drop_after (drop_after (by rw [h]; simp))
  have hend := stringEnd_iff.mpr ⟨k,_,hstart,⟨body,hbody,hkey⟩,rfl⟩
  obtain ⟨hcolon,hcolondrop⟩ := whitespace_before hb rfl (drop_after hstart)
  have hget := getElem?_of_drop hcolondrop
  have hvalue := value_of_text hv hn hc hmunched (drop_succ hcolondrop)
  have htake : (input.drop (pos+lead.length+a.length)).take
      (pos+lead.length+a.length+k.length-(pos+lead.length+a.length))=k := by
    rw [hstart,Nat.add_sub_cancel_left,List.take_left]
  simp only [Cursor.member,next_entry hlead ha rfl hcons,bind,Except.bind,Bool.not_true,
    Bool.false_eq_true,if_false,hend,hcolon,hget,ne_eq,not_true_eq_false,hvalue,htake,pure,
    Except.pure,memberOf]

theorem member_end (first : Bool) (ha : Space a) (hpos : pos ≤ input.length) (h : input.drop pos=a)
    :
    Enumerates Cursor.member ⟨input,pos,first⟩ [] := by
  obtain ⟨hnext,hstay⟩ := next_end first ha hpos h
  refine @Enumerates.done _ _ _ ⟨input,input.length,first⟩ ?_ ?_
  · simp only [Cursor.member,hnext,bind,Except.bind,Bool.not_false,if_true,pure,Except.pure]
  · simp only [Cursor.member,hstay,bind,Except.bind,Bool.not_false,if_true,pure,Except.pure]

theorem members_enumerated {ms : List (List UInt8×List UInt8)} (h : Members n ms t)
    (hn : n ≤ maxDepth)
    (hpos : pos ≤ input.length) (hlead : Lead first lead) (hdrop : input.drop pos=lead++t) :
    Enumerates Cursor.member ⟨input,pos,first⟩ (ms.map memberOf) ∧
      ∀ m ∈ ms, StringToken m.1 ∧ Value n m.2 := by
  induction ms generalizing t lead pos first with
  | nil => cases h
  | cons m ms ih =>
  cases h with
  | @last _ a k b c v d ha hk hb hc hv hd =>
    have hmember : input.drop pos=lead++a++k++b++0x3a::(c++v++d) := by
      rw [hdrop]
      simp
    have hparts : input.drop pos=lead++(a++(k++(b++0x3a::(c++(v++d))))) := by
      rw [hmember]
      simp
    have hmunched : NumberToken v → Munched v d := fun hnumber =>
      munched_of_separator hnumber fun x hx => .inl (hd x (List.mem_of_mem_head? hx))
    have hend : input.drop (pos+lead.length+a.length+k.length+b.length+1+c.length+v.length)=d :=
      drop_after (drop_after (drop_succ (drop_after (drop_after (drop_after (drop_after
        hparts))))))
    have hle : pos+lead.length+a.length+k.length+b.length+1+c.length+v.length ≤ input.length := by
      have := pos_le_of_drop (t:=[]) hpos (by rw [hmember,List.append_nil])
      simp only [List.length_append,List.length_cons] at this
      omega
    refine ⟨.entry (member_entry hlead ha hk hb hc hv hn hmunched hmember)
      (member_end _ hd hle hend),?_⟩
    intro x hx
    rw [List.mem_singleton.mp hx]
    exact ⟨hk,hv⟩
  | @more _ a k b c v d u _ ha hk hb hc hv hd ht =>
    have hmember : input.drop pos=lead++a++k++b++0x3a::(c++v++(d++0x2c::u)) := by
      rw [hdrop]
      simp
    have hparts : input.drop pos=lead++(a++(k++(b++0x3a::(c++(v++((d++[0x2c])++u)))))) := by
      rw [hmember]
      simp
    have hmunched : NumberToken v → Munched v (d++0x2c::u) := fun hnumber =>
      munched_of_separator hnumber (separator_head hd (.inr (.inl rfl)))
    have hnext : input.drop (pos+lead.length+a.length+k.length+b.length+1+c.length+v.length)=
        (d++[0x2c])++u :=
      drop_after (drop_after (drop_succ (drop_after (drop_after (drop_after (drop_after
        hparts))))))
    have hle : pos+lead.length+a.length+k.length+b.length+1+c.length+v.length ≤ input.length := by
      have := pos_le_of_drop (t:=[]) hpos (by rw [hmember,List.append_nil])
      simp only [List.length_append,List.length_cons] at this
      omega
    obtain ⟨hwalk,hall⟩ := ih ht hle (.inr ⟨rfl,d,hd,rfl⟩) hnext
    refine ⟨.entry (member_entry hlead ha hk hb hc hv hn hmunched hmember) hwalk,?_⟩
    intro x hx
    rcases List.mem_cons.mp hx with rfl | hx
    · exact ⟨hk,hv⟩
    · exact hall x hx

def ArrayOf (raw : List UInt8) (values : List (List UInt8)) : Prop :=
  (values=[] ∧ ∃ a, Space a ∧ raw=0x5b::(a++[0x5d])) ∨
    ∃ t, Elements (maxDepth-1) values t ∧ raw=0x5b::(t++[0x5d])

def ObjectOf (raw : List UInt8) (members : List (List UInt8×List UInt8)) : Prop :=
  (members=[] ∧ ∃ a, Space a ∧ raw=0x7b::(a++[0x7d])) ∨
    ∃ t, Members (maxDepth-1) members t ∧ raw=0x7b::(t++[0x7d])

/-- The walk of a container starts inside its brackets. -/
theorem cursor_new (b c : UInt8) (t : List UInt8) (kind : Kind) :
    Cursor.new ⟨b::(t++[c]),kind⟩=⟨t,0,true⟩ := by
  simp [Cursor.new]

theorem array_of_value {m : ℕ} (h : Value m v) (hb : v.head?=some 0x5b) :
    (∃ a, Space a ∧ v=0x5b::(a++[0x5d])) ∨
      ∃ values t, Elements (m-1) values t ∧ v=0x5b::(t++[0x5d]) := by
  cases h with
  | literal ht => rcases ht with rfl | rfl | rfl <;> cases hb
  | number ht =>
    obtain ⟨b,t,rfl,hnumber⟩ := number_head ht
    cases hb
    exact absurd hnumber (by decide)
  | string ht =>
    obtain ⟨body,-,rfl⟩ := ht
    cases hb
  | emptyArray ha => exact .inl ⟨_,ha,rfl⟩
  | array ht => exact .inr ⟨_,_,ht,rfl⟩
  | emptyObject _ => cases hb
  | object _ => cases hb

theorem object_of_value {m : ℕ} (h : Value m v) (hb : v.head?=some 0x7b) :
    (∃ a, Space a ∧ v=0x7b::(a++[0x7d])) ∨
      ∃ members t, Members (m-1) members t ∧ v=0x7b::(t++[0x7d]) := by
  cases h with
  | literal ht => rcases ht with rfl | rfl | rfl <;> cases hb
  | number ht =>
    obtain ⟨b,t,rfl,hnumber⟩ := number_head ht
    cases hb
    exact absurd hnumber (by decide)
  | string ht =>
    obtain ⟨body,-,rfl⟩ := ht
    cases hb
  | emptyArray _ => cases hb
  | array _ => cases hb
  | emptyObject ha => exact .inl ⟨_,ha,rfl⟩
  | object ht => exact .inr ⟨_,_,ht,rfl⟩

theorem kindAt_container {b : Option UInt8} :
    (kindAt b=.array → b=some 0x5b) ∧ (kindAt b=.object → b=some 0x7b) := by
  cases b with
  | none => constructor <;> intro h <;> cases h
  | some b =>
    unfold kindAt
    dsimp only
    split_ifs with h1 h2 h3 h4 <;> simp_all

theorem value_alone (h : Value (maxDepth-1) v) : value v 0=.ok (spanOf v,v.length) := by
  have hmunched : NumberToken v → Munched v [] := fun hnumber =>
    munched_of_separator hnumber fun b hb => by cases hb
  have hdrop : v.drop 0=[]++v++[] := by simp
  have hvalue := value_of_text h (Nat.sub_le _ _) Space.nil hmunched hdrop
  rwa [List.length_nil,Nat.zero_add] at hvalue

theorem key_alone (h : StringToken k) : stringEnd k 0=.ok k.length :=
  stringEnd_iff.mpr ⟨k,[],by simp,h,by omega⟩

theorem array_walked (kind : Kind) {raw : List UInt8} {values : List (List UInt8)}
    (h : ArrayOf raw values) :
    Enumerates Cursor.element (Cursor.new ⟨raw,kind⟩) (values.map spanOf) ∧
      ∀ v ∈ values, value v 0=.ok (spanOf v,v.length) := by
  rcases h with ⟨rfl,a,ha,rfl⟩ | ⟨t,ht,rfl⟩
  · rw [cursor_new]
    exact ⟨element_end true ha (Nat.zero_le _) rfl,List.forall_mem_nil _⟩
  · rw [cursor_new]
    obtain ⟨hwalk,hall⟩ := elements_enumerated ht (Nat.sub_le _ _) (Nat.zero_le _)
      (.inl ⟨rfl,rfl⟩) rfl
    exact ⟨hwalk,fun v hv => value_alone (hall v hv)⟩

theorem object_walked (kind : Kind) {raw : List UInt8}
    {members : List (List UInt8×List UInt8)} (h : ObjectOf raw members) :
    Enumerates Cursor.member (Cursor.new ⟨raw,kind⟩) (members.map memberOf) ∧
      ∀ m ∈ members, stringEnd m.1 0=.ok m.1.length ∧
        value m.2 0=.ok (spanOf m.2,m.2.length) := by
  rcases h with ⟨rfl,a,ha,rfl⟩ | ⟨t,ht,rfl⟩
  · rw [cursor_new]
    exact ⟨member_end true ha (Nat.zero_le _) rfl,List.forall_mem_nil _⟩
  · rw [cursor_new]
    obtain ⟨hwalk,hall⟩ := members_enumerated ht (Nat.sub_le _ _) (Nat.zero_le _)
      (.inl ⟨rfl,rfl⟩) rfl
    exact ⟨hwalk,fun m hm => ⟨key_alone (hall m hm).1,value_alone (hall m hm).2⟩⟩

theorem map_spanOf_injective {one other : List (List UInt8)}
    (h : one.map spanOf=other.map spanOf) : one=other := by
  refine List.map_injective_iff.mpr (fun v w hvw => ?_) h
  exact congrArg Span.raw hvw

theorem map_memberOf_injective {one other : List (List UInt8×List UInt8)}
    (h : one.map memberOf=other.map memberOf) : one=other := by
  refine List.map_injective_iff.mpr (fun v w hvw => ?_) h
  have hkey := congrArg Prod.fst hvw
  have hvalue := congrArg (fun m => m.2.raw) hvw
  exact Prod.ext hkey hvalue

/-- The scanner returns a span exactly where a value of the grammar stands within the bound on
its nesting, and the span is that value. A cursor walks the elements of a scanned array and the
members of a scanned object in order, each of them a span that is scanned alone, and ends. -/
theorem scanner_accepts_json (input : List UInt8) (offset e : ℕ) (span : Span) :
    (value input offset=.ok (span,e) ↔
      ∃ a v rest, input.drop offset=a++v++rest ∧ Space a ∧ Value maxDepth v ∧
        (NumberToken v → Munched v rest) ∧ span=spanOf v ∧ e=offset+a.length+v.length) ∧
    (value input offset=.ok (span,e) → span.kind=.array →
      ∃ values, (∀ other, ArrayOf span.raw other ↔ other=values) ∧
        Enumerates Cursor.element (Cursor.new span) (values.map spanOf) ∧
        ∀ v ∈ values, value v 0=.ok (spanOf v,v.length)) ∧
    (value input offset=.ok (span,e) → span.kind=.object →
      ∃ members, (∀ other, ObjectOf span.raw other ↔ other=members) ∧
        Enumerates Cursor.member (Cursor.new span) (members.map memberOf) ∧
        ∀ m ∈ members, stringEnd m.1 0=.ok m.1.length ∧
          value m.2 0=.ok (spanOf m.2,m.2.length)) := by
  refine ⟨⟨text_of_value,?_⟩,?_,?_⟩
  · rintro ⟨a,v,rest,hdrop,ha,hv,hmunched,rfl,rfl⟩
    exact value_of_text hv (Nat.le_refl _) ha hmunched hdrop
  · intro h hkind
    obtain ⟨a,v,rest,-,-,hv,-,rfl,-⟩ := text_of_value h
    obtain ⟨values,hvalues⟩ : ∃ values, ArrayOf v values := by
      rcases array_of_value hv (kindAt_container.1 hkind) with ⟨b,hb,rfl⟩ | ⟨values,t,ht,rfl⟩
      · exact ⟨[],.inl ⟨rfl,b,hb,rfl⟩⟩
      · exact ⟨values,.inr ⟨t,ht,rfl⟩⟩
    obtain ⟨hwalk,hall⟩ := array_walked (kindAt v.head?) hvalues
    refine ⟨values,fun other => ⟨fun hother => ?_,fun hother => hother ▸ hvalues⟩,hwalk,hall⟩
    exact map_spanOf_injective (enumerates_unique (array_walked _ hother).1 hwalk)
  · intro h hkind
    obtain ⟨a,v,rest,-,-,hv,-,rfl,-⟩ := text_of_value h
    obtain ⟨members,hmembers⟩ : ∃ members, ObjectOf v members := by
      rcases object_of_value hv (kindAt_container.2 hkind) with ⟨b,hb,rfl⟩ | ⟨members,t,ht,rfl⟩
      · exact ⟨[],.inl ⟨rfl,b,hb,rfl⟩⟩
      · exact ⟨members,.inr ⟨t,ht,rfl⟩⟩
    obtain ⟨hwalk,hall⟩ := object_walked (kindAt v.head?) hmembers
    refine ⟨members,fun other => ⟨fun hother => ?_,fun hother => hother ▸ hmembers⟩,hwalk,hall⟩
    exact map_memberOf_injective (enumerates_unique (object_walked _ hother).1 hwalk)

end Librairii.ScannerCorrectness
