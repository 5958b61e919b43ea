import Mathlib

/-!
# Lexical cleaning of paths

Go's `path.Clean` reads a path once and writes the cleaned one behind itself, going back to the
last separator at a parent component. The same result comes from the components of the path,
cleaned one after the other, over any alphabet with a separator and a dot.
-/

namespace Librairii.LexicalPaths

variable {α : Type} (slash dot : α)

/-- Components as a path. -/
def joinParts (parts : List (List α)) : List α := [slash].intercalate parts

variable {slash} {parts : List (List α)} {part : List α}

/-- A path of components and one more. -/
theorem joinParts_concat : joinParts slash (parts++[part])=
    if parts=[] then part else joinParts slash parts++slash::part := by
  induction parts with
  | nil => simp [joinParts]
  | cons first parts ih =>
    cases parts with
    | nil => simp [joinParts,List.intercalate,List.intersperse]
    | cons second parts =>
      rw [if_neg (List.cons_ne_nil _ _)] at ih ⊢
      simp only [joinParts,List.intercalate,List.cons_append,List.intersperse_cons_cons,
        List.flatten_cons] at ih ⊢
      rw [ih]
      simp

theorem joinParts_append {names : List (List α)} (h : parts≠[]) (hnames : names≠[]) :
    joinParts slash (parts++names)=joinParts slash parts++slash::joinParts slash names := by
  induction names using List.reverseRecOn with
  | nil => exact absurd rfl hnames
  | append_singleton names name ih =>
    rw [←List.append_assoc,joinParts_concat,if_neg (by simp [h]),joinParts_concat]
    by_cases hn : names=[]
    · simp [hn]
    · rw [ih hn,if_neg hn]
      simp

theorem written_concat (hplain : ∀ p ∈ parts, p≠[]) :
    (joinParts slash (parts++[part])).reverse=part.reverse++
      (if (joinParts slash parts).reverse.length≠0 then slash::(joinParts slash parts).reverse
        else (joinParts slash parts).reverse) := by
  rw [joinParts_concat,List.length_reverse]
  by_cases hp : parts=[]
  · rw [if_pos hp,hp]
    simp [joinParts]
  · have hlength : (joinParts slash parts).length≠0 := by
      obtain ⟨front,last,hlast⟩ := (List.eq_nil_or_concat parts).resolve_left hp
      rw [List.concat_eq_append] at hlast
      subst hlast
      have hlast := hplain last (by simp)
      rw [joinParts_concat]
      have hpos := List.length_pos_iff.mpr hlast
      split
      · omega
      · rw [List.length_append,List.length_cons]
        omega
    rw [if_neg hp,if_pos hlength]
    simp

variable (slash) [DecidableEq α]

/-- Drop the last name that was written, with its separator, down to what is kept. -/
def popName (kept : ℕ) : List α → List α
  | [] => []
  | c::out => if kept<out.length ∧ c≠slash then popName kept out else out

/-- The loop of `path.Clean`. What is written is reversed; of it, `kept` cannot be dropped. -/
def cleanLoop (rooted : Bool) (kept : ℕ) (out : List α) : List α → List α
  | [] => out
  | c::rest =>
    if c=slash then cleanLoop rooted kept out rest
    else if c=dot ∧ rest.head?.all (·=slash) then cleanLoop rooted kept out rest
    else if c=dot ∧ rest.head?=some dot ∧ rest.tail.head?.all (·=slash) then
      if kept<out.length then cleanLoop rooted kept (popName slash kept out) rest.tail
      else if rooted then cleanLoop rooted kept out rest.tail
      else
        let out := dot::dot::(if out=[] then out else slash::out)
        cleanLoop rooted out.length out rest.tail
    else
      let out := if out.length≠(if rooted then 1 else 0) then slash::out else out
      let name := c::rest.takeWhile (·≠slash)
      cleanLoop rooted kept (name.reverse++out) (rest.dropWhile (·≠slash))
termination_by path => path.length
decreasing_by
  all_goals
    first
    | exact Nat.lt_succ_self _
    | exact Nat.lt_succ_of_le (List.tail_sublist _).length_le
    | exact Nat.lt_succ_of_le (List.dropWhile_sublist _).length_le

def pathClean (path : List α) : List α :=
  let out := if path.head?=some slash then cleanLoop slash dot true 1 [slash] path.tail
    else cleanLoop slash dot false 0 [] path
  if out=[] then [dot] else out.reverse

/-- Drop an empty or current component, and resolve a parent component against its own. -/
def cleanStep (parts : List (List α)) (part : List α) : List (List α) :=
  if part=[] ∨ part=[dot] then parts
  else if part=[dot,dot] ∧ parts.getLast?.any (·≠[dot,dot]) then parts.dropLast
  else parts++[part]

def cleanParts (parts : List (List α)) : List (List α) := parts.foldl (cleanStep dot) []

/-- Cleaned components are parents, and names behind them. -/
structure Cleaned (kept : ℕ) (parts : List (List α)) : Prop where
  /-- Components are neither empty nor current, and have no separator. -/
  plain : ∀ part ∈ parts, part≠[] ∧ part≠[dot] ∧ slash ∉ part
  /-- The parents are what is kept. -/
  split : ∃ ups names, parts=ups++names ∧ (∀ part ∈ ups, part=[dot,dot]) ∧
    (∀ part ∈ names, part≠[dot,dot]) ∧ kept=(joinParts slash ups).length

variable {slash dot} {kept : ℕ}

theorem popName_name {name out : List α} (hname : name≠[]) (hslash : slash ∉ name)
    (hkept : kept≤out.length) : popName slash kept (name++slash::out)=out := by
  induction name with
  | nil => exact absurd rfl hname
  | cons c name ih =>
    have hc : c≠slash := fun he => hslash (he ▸ List.mem_cons_self)
    have hlt : kept<(name++slash::out).length := by
      rw [List.length_append,List.length_cons]
      omega
    rw [List.cons_append,popName,if_pos ⟨hlt,hc⟩]
    by_cases hn : name=[]
    · rw [hn,List.nil_append,popName,if_neg fun h => h.2 rfl]
    · exact ih hn fun hin => hslash (List.mem_cons_of_mem c hin)

theorem popName_only {name : List α} (hslash : slash ∉ name) : popName slash 0 name=[] := by
  induction name with
  | nil => rfl
  | cons c name ih =>
    have hc : c≠slash := fun he => hslash (he ▸ List.mem_cons_self)
    rw [popName]
    by_cases hn : 0<name.length
    · rw [if_pos ⟨hn,hc⟩]
      exact ih fun hin => hslash (List.mem_cons_of_mem c hin)
    · rw [if_neg fun h => hn h.1]
      exact List.length_eq_zero_iff.mp (by omega)

/-- Dropping from what is written of components drops the last one. -/
theorem popName_joined {ups names : List (List α)} {name : List α}
    (hname : name≠[]) (hslash : slash ∉ name) :
    popName slash (joinParts slash ups).length (joinParts slash (ups++(names++[name]))).reverse=
      (joinParts slash (ups++names)).reverse := by
  have hreverse : name.reverse≠[] := by simpa using hname
  have hnot : slash ∉ name.reverse := by simpa using hslash
  rw [←List.append_assoc,joinParts_concat]
  by_cases hnil : ups++names=[]
  · have hups : ups=[] := (List.append_eq_nil_iff.mp hnil).1
    rw [if_pos hnil,hnil,hups]
    exact popName_only hnot
  · rw [if_neg hnil,List.reverse_append,List.reverse_cons,List.append_assoc,List.singleton_append]
    refine popName_name hreverse hnot ?_
    rw [List.length_reverse]
    by_cases hn : names=[]
    · rw [hn,List.append_nil]
    by_cases hu : ups=[]
    · simp [hu,joinParts]
    · rw [joinParts_append hu hn,List.length_append]
      omega

theorem cleanStep_nil (dot : α) (parts : List (List α)) : cleanStep dot parts []=parts :=
  if_pos (.inl rfl)

/-- A path behind a separator has an empty component first. -/
theorem split_slash (slash : α) (rest : List α) :
    (slash::rest).splitOn slash=[]::rest.splitOn slash := by
  rw [List.splitOn_cons_eq_if_modifyHead,if_pos (beq_self_eq_true slash)]

theorem first_plain {slash c : α} {rest : List α} (hc : c≠slash) :
    slash ∉ c::rest.takeWhile (·≠slash) := by
  intro hmem
  rcases List.mem_cons.mp hmem with he | hmem
  · exact hc he.symm
  · have hne := List.mem_takeWhile_imp hmem
    exact of_decide_eq_true hne rfl

theorem split_first (slash dot c : α) (rest : List α) (hc : c≠slash) (parts : List (List α)) :
    ((c::rest).splitOn slash).foldl (cleanStep dot) parts=
      ((rest.dropWhile (·≠slash)).splitOn slash).foldl (cleanStep dot)
        (cleanStep dot parts (c::rest.takeWhile (·≠slash))) := by
  have hnot : slash ∉ c::rest.takeWhile (·≠slash) := first_plain hc
  have hsplit : c::rest=(c::rest.takeWhile (·≠slash))++rest.dropWhile (·≠slash) := by
    rw [List.cons_append,List.takeWhile_append_dropWhile]
  cases hrest : rest.dropWhile (·≠slash) with
  | nil =>
    rw [hrest,List.append_nil] at hsplit
    rw [hsplit,List.splitOn_eq_singleton hnot,List.splitOn_nil]
    simp only [List.foldl_cons,List.foldl_nil,cleanStep_nil]
  | cons first behind =>
    have hfirst : first=slash := by
      have hhead := List.head?_dropWhile_not (fun x : α => decide (x≠slash)) rest
      rw [hrest] at hhead
      simpa using hhead
    rw [hrest,hfirst] at hsplit
    rw [hfirst,split_slash]
    conv_lhs => rw [hsplit,List.splitOn_append_cons_self_of_not_mem hnot]
    rw [List.foldl_cons,List.foldl_cons,cleanStep_nil]

theorem takeWhile_ends {rest : List α} :
    rest.head?.all (fun c => decide (c=slash))=true ↔ rest.takeWhile (·≠slash)=[] := by
  cases rest with
  | nil => simp
  | cons c rest => by_cases hc : c=slash <;> simp [hc]

/-- The ways of cleaning one more component. -/
theorem cleanStep_cases (h : Cleaned slash dot kept parts) (hpart : slash ∉ part) :
    ((part=[] ∨ part=[dot]) ∧ cleanStep dot parts part=parts) ∨
    (part=[dot,dot] ∧ ∃ ups names name, parts=ups++(names++[name]) ∧
      kept=(joinParts slash ups).length ∧ name≠[] ∧ slash ∉ name ∧
      cleanStep dot parts part=ups++names ∧ Cleaned slash dot kept (ups++names)) ∨
    (part=[dot,dot] ∧ kept=(joinParts slash parts).length ∧
      cleanStep dot parts part=parts++[part] ∧
      Cleaned slash dot (joinParts slash (parts++[part])).length (parts++[part])) ∨
    (part≠[] ∧ part≠[dot] ∧ part≠[dot,dot] ∧ cleanStep dot parts part=parts++[part] ∧
      Cleaned slash dot kept (parts++[part])) := by
  obtain ⟨ups,names,rfl,hups,hnames,hkept⟩ := h.split
  by_cases hplain : part=[] ∨ part=[dot]
  · exact .inl ⟨hplain,if_pos hplain⟩
  right
  have hgood := not_or.mp hplain
  have hall : ∀ p ∈ (ups++names)++[part], p≠[] ∧ p≠[dot] ∧ slash ∉ p := by
    intro p hp
    rcases List.mem_append.mp hp with hp | hp
    · exact h.plain p hp
    · rw [List.mem_singleton.mp hp]
      exact ⟨hgood.1,hgood.2,hpart⟩
  by_cases hup : part=[dot,dot]
  · cases names using List.reverseRecOn with
    | nil =>
      right
      left
      rw [List.append_nil] at h hall ⊢
      have hlast : ¬(part=[dot,dot] ∧ ups.getLast?.any (·≠[dot,dot])=true) := by
        rintro ⟨-,hany⟩
        cases hl : ups.getLast? with
        | none =>
          rw [hl] at hany
          cases hany
        | some last =>
          rw [hl,Option.any_some] at hany
          exact of_decide_eq_true hany (hups last (List.mem_of_getLast? hl))
      refine ⟨hup,hkept,by rw [cleanStep,if_neg hplain,if_neg hlast],hall,?_⟩
      refine ⟨ups++[part],[],(List.append_nil _).symm,?_,(fun _ hp => nomatch hp),rfl⟩
      intro p hp
      rcases List.mem_append.mp hp with hp | hp
      · exact hups p hp
      · rw [List.mem_singleton.mp hp]
        exact hup
    | append_singleton names name =>
      left
      have hname := h.plain name (by simp)
      have hlast : part=[dot,dot] ∧
          (ups++(names++[name])).getLast?.any (·≠[dot,dot])=true := by
        refine ⟨hup,?_⟩
        rw [←List.append_assoc,List.getLast?_concat,Option.any_some]
        exact decide_eq_true (hnames name (by simp))
      refine ⟨hup,ups,names,name,rfl,hkept,hname.1,hname.2.2,?_,?_⟩
      · rw [cleanStep,if_neg hplain,if_pos hlast,←List.append_assoc,List.dropLast_concat]
      · refine ⟨fun p hp => h.plain p ?_,ups,names,rfl,hups,?_,hkept⟩
        · rcases List.mem_append.mp hp with hp | hp
          · exact List.mem_append_left _ hp
          · exact List.mem_append_right _ (List.mem_append_left _ hp)
        · exact fun p hp => hnames p (List.mem_append_left _ hp)
  · right
    right
    refine ⟨hgood.1,hgood.2,hup,?_,hall,ups,names++[part],List.append_assoc _ _ _,hups,?_,hkept⟩
    · rw [cleanStep,if_neg hplain,if_neg fun hd => hup hd.1]
    · intro p hp
      rcases List.mem_append.mp hp with hp | hp
      · exact hnames p hp
      · rw [List.mem_singleton.mp hp]
        exact hup

theorem cleanLoop_parts : ∀ (n : ℕ) (path : List α), path.length≤n →
    ∀ {kept : ℕ} {parts : List (List α)}, Cleaned slash dot kept parts →
      cleanLoop slash dot false kept (joinParts slash parts).reverse path=
        (joinParts slash ((path.splitOn slash).foldl (cleanStep dot) parts)).reverse := by
  intro n
  induction n with
  | zero =>
    intro path hpath kept parts _
    rw [List.length_eq_zero_iff.mp (Nat.le_zero.mp hpath),cleanLoop,List.splitOn_nil]
    simp only [List.foldl_cons,List.foldl_nil,cleanStep_nil]
  | succ n ih =>
    intro path hpath kept parts h
    cases path with
    | nil =>
      rw [cleanLoop,List.splitOn_nil]
      simp only [List.foldl_cons,List.foldl_nil,cleanStep_nil]
    | cons c rest =>
      rw [List.length_cons] at hpath
      rw [cleanLoop]
      by_cases hslash : c=slash
      · rw [if_pos hslash,hslash,split_slash,List.foldl_cons,cleanStep_nil]
        exact ih rest (by omega) h
      rw [if_neg hslash,split_first slash dot c rest hslash]
      have hpart : slash ∉ c::rest.takeWhile (·≠slash) := first_plain hslash
      have hdrop : (rest.dropWhile (·≠slash)).length≤n :=
        (List.dropWhile_sublist _).length_le.trans (by omega)
      have hends : ∀ {behind : List α}, behind.takeWhile (·≠slash)=[] →
          behind.dropWhile (·≠slash)=behind := by
        intro behind hnil
        have hsplit := List.takeWhile_append_dropWhile (p:=fun x => decide (x≠slash)) (l:=behind)
        rw [hnil,List.nil_append] at hsplit
        exact hsplit
      by_cases hcurrent : c=dot ∧ rest.head?.all (·=slash)
      · obtain ⟨hc,hhead⟩ := hcurrent
        have hnil := takeWhile_ends.mp hhead
        rw [if_pos ⟨hc,hhead⟩,hnil,hends hnil,hc,cleanStep,if_pos (.inr rfl)]
        exact ih rest (by omega) h
      rw [if_neg hcurrent]
      by_cases hparent : c=dot ∧ rest.head?=some dot ∧ rest.tail.head?.all (·=slash)
      · obtain ⟨hc,hsecond,hhead⟩ := hparent
        have hnil := takeWhile_ends.mp hhead
        obtain ⟨behind,rfl⟩ : ∃ behind, rest=dot::behind := by
          cases rest with
          | nil => cases hsecond
          | cons d behind =>
            cases hsecond
            exact ⟨behind,rfl⟩
        rw [List.tail_cons] at hhead hnil
        have hdot : decide (dot≠slash)=true := decide_eq_true fun he => hslash (hc.trans he)
        have hname : c::(dot::behind).takeWhile (·≠slash)=[dot,dot] := by
          rw [List.takeWhile_cons,if_pos hdot,hnil,hc]
        have hbehind : (dot::behind).dropWhile (·≠slash)=behind := by
          rw [List.dropWhile_cons,if_pos hdot,hends hnil]
        rw [hname] at hpart ⊢
        rw [if_pos ⟨hc,hsecond,hhead⟩,hbehind,List.tail_cons]
        have hlength : behind.length≤n := by
          rw [List.length_cons] at hpath
          omega
        rcases cleanStep_cases h hpart with
          ⟨hplain,-⟩ | ⟨-,ups,names,name,rfl,hkept,hne',hno,hstep,hcleaned⟩ |
            ⟨-,hkept,hstep,hcleaned⟩ | ⟨-,-,hno,-⟩
        · rcases hplain with he | he <;> cases he
        · have hroom : kept<(joinParts slash (ups++(names++[name]))).reverse.length := by
            rw [List.length_reverse,←List.append_assoc,joinParts_concat,hkept]
            have hpos := List.length_pos_iff.mpr hne'
            by_cases hnil : ups++names=[]
            · rw [if_pos hnil,(List.append_eq_nil_iff.mp hnil).1]
              exact hpos
            · rw [if_neg hnil,List.length_append,List.length_cons]
              by_cases hn : names=[]
              · rw [hn,List.append_nil]
                omega
              by_cases hu : ups=[]
              · simp [hu,joinParts]
              · rw [joinParts_append hu hn,List.length_append]
                omega
          rw [if_pos hroom,hstep,hkept,popName_joined hne' hno]
          rw [hkept] at hcleaned
          exact ih behind hlength hcleaned
        · have hfull : ¬kept<(joinParts slash parts).reverse.length := by
            rw [List.length_reverse]
            omega
          have hwritten : dot::dot::(if (joinParts slash parts).reverse=[] then
              (joinParts slash parts).reverse else slash::(joinParts slash parts).reverse)=
              (joinParts slash (parts++[[dot,dot]])).reverse := by
            rw [written_concat fun p hp => (h.plain p hp).1]
            by_cases hnil : (joinParts slash parts).reverse=[]
            · rw [if_pos hnil,if_neg (by rw [hnil]; exact fun hl => hl rfl)]
              rfl
            · rw [if_neg hnil,if_pos fun hl => hnil (List.length_eq_zero_iff.mp hl)]
              rfl
          rw [if_neg hfull,if_neg Bool.false_ne_true,hstep]
          dsimp only
          rw [hwritten]
          rw [←List.length_reverse] at hcleaned
          exact ih behind hlength hcleaned
        · exact absurd rfl hno
      · rw [if_neg hparent]
        dsimp only
        have hname : c::rest.takeWhile (·≠slash)≠[dot,dot] := by
          intro he
          obtain ⟨hc,htake⟩ := List.cons.inj he
          cases rest with
          | nil => cases htake
          | cons d behind =>
            by_cases hd : decide (d≠slash)=true
            · rw [List.takeWhile_cons,if_pos hd] at htake
              obtain ⟨hd',hnil⟩ := List.cons.inj htake
              exact hparent ⟨hc,congrArg some hd',takeWhile_ends.mpr hnil⟩
            · rw [List.takeWhile_cons,if_neg hd] at htake
              cases htake
        rcases cleanStep_cases h hpart with
          ⟨hplain,-⟩ | ⟨hup,-⟩ | ⟨hup,-⟩ | ⟨-,-,-,hstep,hcleaned⟩
        · exfalso
          rcases hplain with he | he
          · cases he
          · obtain ⟨hc,hnil⟩ := List.cons.inj he
            exact hcurrent ⟨hc,takeWhile_ends.mpr hnil⟩
        · exact absurd hup hname
        · exact absurd hup hname
        · rw [hstep,←ih _ hdrop hcleaned,written_concat fun p hp => (h.plain p hp).1]
          rfl

omit [DecidableEq α] in
theorem cleaned_nil : Cleaned slash dot 0 [] :=
  ⟨(fun _ hp => nomatch hp),[],[],rfl,(fun _ hp => nomatch hp),(fun _ hp => nomatch hp),rfl⟩

theorem foldl_cleaned (hplain : ∀ part ∈ parts, slash ∉ part) : ∀ {kept : ℕ}
    {cleaned : List (List α)}, Cleaned slash dot kept cleaned →
      ∃ kept', Cleaned slash dot kept' (parts.foldl (cleanStep dot) cleaned) := by
  induction parts with
  | nil => exact fun {kept _} h => ⟨kept,h⟩
  | cons part parts ih =>
    intro kept cleaned h
    have hrest := fun p hp => hplain p (List.mem_cons_of_mem part hp)
    rcases cleanStep_cases h (hplain part List.mem_cons_self) with
      ⟨-,hstep⟩ | ⟨-,ups,names,name,-,-,-,-,hstep,hcleaned⟩ | ⟨-,-,hstep,hcleaned⟩ |
        ⟨-,-,-,hstep,hcleaned⟩
    · rw [List.foldl_cons,hstep]
      exact ih hrest h
    all_goals
      rw [List.foldl_cons,hstep]
      exact ih hrest hcleaned

/-- The components of a path have no separators. -/
theorem split_plain (path : List α) : ∀ part ∈ path.splitOn slash, slash ∉ part := by
  induction path with
  | nil =>
    intro part hpart
    rw [List.splitOn_nil,List.mem_singleton] at hpart
    rw [hpart]
    exact List.not_mem_nil
  | cons c path ih =>
    intro part hpart
    by_cases hc : c=slash
    · rw [hc,split_slash] at hpart
      rcases List.mem_cons.mp hpart with rfl | hpart
      · exact List.not_mem_nil
      · exact ih part hpart
    · rw [List.splitOn_cons_eq_if_modifyHead,if_neg (by simpa using hc)] at hpart
      cases hsplit : path.splitOn slash with
      | nil => exact absurd hsplit (List.splitOn_ne_nil slash path)
      | cons first rest =>
        rw [hsplit] at hpart ih
        rcases List.mem_cons.mp hpart with rfl | hpart
        · intro hmem
          rcases List.mem_cons.mp hmem with he | hmem
          · exact hc he.symm
          · exact ih first List.mem_cons_self hmem
        · exact ih part (List.mem_cons_of_mem first hpart)

theorem pathClean_parts {path : List α} (hrelative : path.head?≠some slash) :
    pathClean slash dot path=
      if cleanParts dot (path.splitOn slash)=[] then [dot]
      else joinParts slash (cleanParts dot (path.splitOn slash)) := by
  have hloop := cleanLoop_parts path.length path (le_refl _) (@cleaned_nil α slash dot)
  obtain ⟨kept,hcleaned⟩ := foldl_cleaned (split_plain path) (@cleaned_nil α slash dot)
  change cleanLoop slash dot false 0 [] path=
    (joinParts slash (cleanParts dot (path.splitOn slash))).reverse at hloop
  change Cleaned slash dot kept (cleanParts dot (path.splitOn slash)) at hcleaned
  unfold pathClean
  rw [if_neg hrelative,hloop]
  dsimp only
  rw [List.reverse_reverse]
  generalize cleanParts dot (path.splitOn slash)=parts at hcleaned
  by_cases hnil : parts=[]
  · rw [if_pos hnil,hnil,if_pos (by simp [joinParts])]
  · obtain ⟨front,last,hlast⟩ := (List.eq_nil_or_concat parts).resolve_left hnil
    rw [List.concat_eq_append] at hlast
    have hne' := (hcleaned.plain last (by rw [hlast]; simp)).1
    rw [if_neg hnil,if_neg]
    rw [List.reverse_eq_nil_iff,hlast,joinParts_concat]
    split
    · exact hne'
    · exact List.append_ne_nil_of_right_ne_nil _ (List.cons_ne_nil _ _)

theorem cleanParts_self (h : ∀ part ∈ parts, part≠[] ∧ part≠[dot] ∧ part≠[dot,dot]) :
    cleanParts dot parts=parts := by
  have hfold : ∀ front : List (List α), parts.foldl (cleanStep dot) front=front++parts := by
    induction parts with
    | nil => exact fun front => (List.append_nil front).symm
    | cons part parts ih =>
      intro front
      obtain ⟨h1,h2,h3⟩ := h part List.mem_cons_self
      have hstep : cleanStep dot front part=front++[part] := by
        unfold cleanStep
        rw [if_neg (not_or.mpr ⟨h1,h2⟩),if_neg fun hd => h3 hd.1]
      rw [List.foldl_cons,hstep,ih fun p hp => h p (List.mem_cons_of_mem part hp),
        List.append_assoc]
      rfl
  exact hfold []

omit [DecidableEq α] in
theorem Cleaned.names (h : Cleaned slash dot kept parts) (hhead : parts.head?≠some [dot,dot]) :
    ∀ part ∈ parts, part≠[] ∧ part≠[dot] ∧ part≠[dot,dot] := by
  obtain ⟨ups,names,rfl,hups,hnames,-⟩ := h.split
  have hnil : ups=[] := by
    cases ups with
    | nil => rfl
    | cons up ups =>
      exact absurd (congrArg some (hups up List.mem_cons_self)) hhead
  intro part hpart
  obtain ⟨h1,h2,-⟩ := h.plain part hpart
  rw [hnil,List.nil_append] at hpart
  exact ⟨h1,h2,hnames part hpart⟩

theorem cleanParts_subset (dot : α) (parts : List (List α)) :
    ∀ part ∈ cleanParts dot parts, part ∈ parts := by
  have hfold : ∀ front : List (List α),
      ∀ part ∈ parts.foldl (cleanStep dot) front, part ∈ front ∨ part ∈ parts := by
    induction parts with
    | nil => exact fun front part hp => .inl hp
    | cons first parts ih =>
      intro front part hp
      rw [List.foldl_cons] at hp
      cases ih (cleanStep dot front first) part hp with
      | inr hin => exact .inr (List.mem_cons_of_mem first hin)
      | inl hin =>
        unfold cleanStep at hin
        split at hin
        · exact .inl hin
        split at hin
        · exact .inl (List.dropLast_subset front hin)
        · rcases List.mem_append.mp hin with hin | hin
          · exact .inl hin
          · exact .inr (List.mem_singleton.mp hin ▸ List.mem_cons_self)
  intro part hp
  cases hfold [] part hp with
  | inl hin => cases hin
  | inr hin => exact hin

theorem parent_stays (dot : α) (parts : List (List α)) : ∀ front : List (List α),
    (parts.foldl (cleanStep dot) ([dot,dot]::front)).head?=some [dot,dot] := by
  induction parts with
  | nil => exact fun front => rfl
  | cons part parts ih =>
    intro front
    rw [List.foldl_cons]
    have hstep : ∃ behind, cleanStep dot ([dot,dot]::front) part=[dot,dot]::behind := by
      unfold cleanStep
      split
      · exact ⟨front,rfl⟩
      split
      · next hlast =>
        cases front with
        | nil =>
          have hne := of_decide_eq_true hlast.2
          exact absurd rfl hne
        | cons next behind => exact ⟨(next::behind).dropLast,rfl⟩
      · exact ⟨front++[part],rfl⟩
    obtain ⟨behind,hbehind⟩ := hstep
    rw [hbehind]
    exact ih behind

theorem cleanParts_length (dot : α) (parts : List (List α)) :
    ((cleanParts dot parts).map fun part => part.length+1).sum≤
      (parts.map fun part => part.length+1).sum := by
  have hfold : ∀ front : List (List α),
      ((parts.foldl (cleanStep dot) front).map fun part => part.length+1).sum≤
        (front.map fun part => part.length+1).sum+(parts.map fun part => part.length+1).sum := by
    induction parts with
    | nil => exact fun front => Nat.le_refl _
    | cons part parts ih =>
      intro front
      have hstep : ((cleanStep dot front part).map fun part => part.length+1).sum≤
          (front.map fun part => part.length+1).sum+(part.length+1) := by
        unfold cleanStep
        split
        · omega
        split
        · have hdrop : ((front.dropLast).map fun part => part.length+1).sum≤
              (front.map fun part => part.length+1).sum :=
            ((List.dropLast_sublist front).map _).sum_le_sum fun _ _ => Nat.zero_le _
          omega
        · rw [List.map_append,List.sum_append]
          simp
      have hrest := ih (cleanStep dot front part)
      rw [List.foldl_cons,List.map_cons,List.sum_cons]
      omega
  have hnil := hfold []
  simpa [cleanParts] using hnil

omit [DecidableEq α] in
theorem joinParts_length (h : parts≠[]) :
    (joinParts slash parts).length+1=(parts.map fun part => part.length+1).sum := by
  induction parts using List.reverseRecOn with
  | nil => exact absurd rfl h
  | append_singleton parts part ih =>
    rw [joinParts_concat,List.map_append,List.sum_append]
    by_cases hp : parts=[]
    · simp [hp]
    · rw [if_neg hp,List.length_append,List.length_cons,←ih hp]
      simp
      omega

omit [DecidableEq α] in
/-- What is in a path is a separator or in one of its components. -/
theorem mem_joinParts {x : α} (h : x ∈ joinParts slash parts) :
    x=slash ∨ ∃ part ∈ parts, x ∈ part := by
  induction parts using List.reverseRecOn with
  | nil => cases h
  | append_singleton parts part ih =>
    rw [joinParts_concat] at h
    split at h
    · exact .inr ⟨part,by simp,h⟩
    · rcases List.mem_append.mp h with h | h
      · rcases ih h with h | ⟨p,hp,hx⟩
        · exact .inl h
        · exact .inr ⟨p,List.mem_append_left _ hp,hx⟩
      · rcases List.mem_cons.mp h with h | h
        · exact .inl h
        · exact .inr ⟨part,by simp,h⟩

omit [DecidableEq α] in
theorem joinParts_cons (first : List α) (rest : List (List α)) :
    joinParts slash (first::rest)=
      first++(if rest=[] then [] else slash::joinParts slash rest) := by
  by_cases h : rest=[]
  · rw [if_pos h,h,List.append_nil]
    exact List.append_nil first
  · have hone : joinParts slash [first]=first := List.append_nil first
    have hjoin := @joinParts_append α slash [first] rest (List.cons_ne_nil _ _) h
    rw [hone] at hjoin
    rw [if_neg h]
    exact hjoin

end Librairii.LexicalPaths
