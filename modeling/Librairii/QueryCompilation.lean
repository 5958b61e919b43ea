import Librairii.StoryQueries

/-!
# Compiled queries select what they describe

The fragments and the values of a compiled query are those of one selection, also after
the order has added its join in front and the requested uuids are added behind. Each
placeholder is bound to the value pushed for it, and the selected rows are the listed
stories on which the normalized criteria hold.
-/

namespace Librairii.QueryCompilation

open CheckedResults CatalogRows SqlConditions StoryRows StoryStatements CanonicalQuery
  QueryRequests StoryQueries
open SavedQuery hiding validateReferences validateBranches
open WireParser hiding members

/-- The tests of a query with those of the requested uuids behind them. -/
def whereTests (q : Query) : Option (List String) → Option (List (Lexeme Atom))
  | none => if (tests q).isEmpty then none else some (condition q)
  | some uuids => some (if (tests q).isEmpty then [.operand (.uuids uuids)]
    else condition q++[.and,.operand (.uuids uuids)])

def Asked (uuids : Option (List String)) (row : Listed) : Prop :=
  ∀ values ∈ uuids, row.story.uuid ∈ values

open Classical in
/-- The listed stories that are asked for and on which a query holds. -/
noncomputable def matchingRows (t : StoryTables) (locale : String) (q : Query)
    (uuids : Option (List String)) : List Listed :=
  (listed t).filter fun row => Holds t locale row q ∧ Asked uuids row

/-- A compiled text and its values. -/
structure Compiled (t : StoryTables) (locale : String) (q : Query)
    (uuids : Option (List String)) (sql : List Fragment) (args : List Value) : Prop where
  /-- There are as many placeholders as values. -/
  placeholders : placeholders sql=args.length
  /-- Each placeholder is bound to the value that was pushed for its test or its join. -/
  bound : ∃ joined, (joined=none ∨ joined=some locale) ∧
    bind sql args=some (Selection.bounds ⟨joined,whereTests q uuids⟩)
  /-- The text selects the listed stories on which the query holds. -/
  selects : ∃ s rows, (bind sql args >>= selection)=some (s,[]) ∧
    selectRows t s=some rows ∧ rows.map (·.listed)=matchingRows t locale q uuids

def sqlOf (s : Selection) : List Fragment := s.bounds.map (·.1)

/-- The values of a selection. -/
def argsOf (s : Selection) : List Value := s.bounds.flatMap (·.2)

def joinedFor (q : Query) (locale : String) : Option String :=
  if usesDisplayName q then some locale else none

section Selecting

variable {t : StoryTables} {locale : String} {q : Query}

def whereValue (q : Query) (uuids : Option (List String)) (v : Atom → Bool) : Bool :=
  (testValues v q).all id && uuids.all fun values => v (.uuids values)

theorem conjoins_whereTests {uuids : Option (List String)} {condition : List (Lexeme Atom)}
    (h : whereTests q uuids=some condition) (v : Atom → Bool) (hone : v .one=true) :
    Conjoins v condition (whereValue q uuids v) := by
  have htests := reads_tests hone q
  unfold whereTests at h
  cases uuids with
  | none =>
    by_cases hempty : (tests q).isEmpty=true
    · rw [if_pos hempty] at h
      cases h
    · rw [if_neg hempty] at h
      obtain rfl := Option.some.inj h
      have hne : tests q≠[] := fun hnil => hempty (by rw [hnil]; rfl)
      have hc := conjoins_condition hone hne
      rwa [whereValue,Option.all_none,Bool.and_true]
  | some uuids =>
    dsimp only at h
    obtain rfl := Option.some.inj h
    rw [whereValue,Option.all_some]
    by_cases hempty : (tests q).isEmpty=true
    · rw [List.isEmpty_iff.mp hempty] at htests
      rw [if_pos hempty,List.forall₂_nil_left_iff.mp htests,List.all_nil,Bool.true_and]
      exact (reads_operand _).conjoins
    · rw [if_neg hempty]
      have hne : tests q≠[] := fun hnil => hempty (by rw [hnil]; rfl)
      exact (conjoins_condition hone hne).and (reads_operand _)

theorem usesName_whereTests {uuids : Option (List String)} {condition : List (Lexeme Atom)}
    (h : whereTests q uuids=some condition) (hname : condition.any usesName=true) :
    usesDisplayName q=true := by
  obtain ⟨l,hl,hname⟩ := List.any_eq_true.mp hname
  have hcondition : l ∈ StoryQueries.condition q → usesDisplayName q=true := by
    intro hl
    rcases mem_join hl with hl | ⟨x,hx,hl⟩
    · rw [List.mem_singleton.mp hl] at hname
      cases hname
    · exact usesName_tests q x hx l hl hname
  have hasked : ∀ values, l≠.operand (.uuids values) := by
    rintro values rfl
    cases hname
  unfold whereTests at h
  cases uuids with
  | none =>
    by_cases hempty : (tests q).isEmpty=true
    · rw [if_pos hempty] at h
      cases h
    · rw [if_neg hempty] at h
      obtain rfl := Option.some.inj h
      exact hcondition hl
  | some uuids =>
    dsimp only at h
    obtain rfl := Option.some.inj h
    by_cases hempty : (tests q).isEmpty=true
    · rw [if_pos hempty] at hl
      exact absurd (List.mem_singleton.mp hl) (hasked uuids)
    · rw [if_neg hempty,List.mem_append,List.mem_cons,List.mem_singleton] at hl
      rcases hl with hl | rfl | rfl
      · exact hcondition hl
      · cases hname
      · exact absurd rfl (hasked uuids)

theorem selectRows_tests (ht : Keyed t) (h : ∀ own ∈ members q, Admitted own)
    {joined : Option String} (hjoined : usesDisplayName q=true → joined=some locale)
    (uuids : Option (List String)) :
    selectRows t ⟨joined,whereTests q uuids⟩=
      some ((matchingRows t locale q uuids).map (withOfficial t joined)) := by
  classical
  have hrow : ∀ row, whereValue q uuids (Atom.holds t (withOfficial t joined row))=true ↔
      Holds t locale row q ∧ Asked uuids row := by
    intro row
    rw [whereValue,Bool.and_eq_true,testValues_iff q h hjoined]
    refine and_congr_right fun _ => ?_
    cases uuids with
    | none => simp [Asked]
    | some values => simp [Asked,Atom.holds,withOfficial_listed]
  cases hw : whereTests q uuids with
  | none =>
    have hall : matchingRows t locale q uuids=listed t := by
      unfold whereTests at hw
      cases uuids with
      | some values => cases hw
      | none =>
        dsimp only at hw
        by_cases hempty : (tests q).isEmpty=true
        · rw [matchingRows,List.filter_eq_self]
          intro row _
          have htests := @reads_tests (Atom.holds t (withOfficial t joined row)) rfl q
          rw [List.isEmpty_iff.mp hempty] at htests
          have hholds := hrow row
          rw [whereValue,List.forall₂_nil_left_iff.mp htests] at hholds
          exact decide_eq_true (hholds.mp rfl)
        · rw [if_neg hempty] at hw
          cases hw
    rw [selectRows_all ht,hall]
  | some condition =>
    have hnames : condition.any usesName=true → joined≠none := by
      intro hname
      rw [hjoined (usesName_whereTests hw hname)]
      exact Option.some_ne_none _
    rw [selectRows_eq ht (conjoins_whereTests hw) hnames,matchingRows]
    congr 2
    apply List.filter_congr
    intro row _
    rw [Bool.eq_iff_iff,hrow row,decide_eq_true_iff]

theorem compiled_selection (ht : Keyed t) (h : ∀ own ∈ members q, Admitted own)
    {joined : Option String} (hjoined : usesDisplayName q=true → joined=some locale)
    (hlocale : joined=none ∨ joined=some locale) (uuids : Option (List String)) :
    Compiled t locale q uuids (sqlOf ⟨joined,whereTests q uuids⟩)
      (argsOf ⟨joined,whereTests q uuids⟩) := by
  have hlength := Selection.length_bounds ⟨joined,whereTests q uuids⟩
  have hbind := bind_bounds _ hlength
  have hselection := @selection_bounds ⟨joined,whereTests q uuids⟩ []
    fun b hb => absurd hb (Option.not_mem_none b)
  have hrows := selectRows_tests ht h hjoined uuids
  refine ⟨placeholders_bounds _ hlength,⟨joined,hlocale,hbind⟩,
    ⟨⟨joined,whereTests q uuids⟩,_,?_,hrows,?_⟩⟩
  · rw [sqlOf,argsOf,hbind]
    rw [List.append_nil] at hselection
    exact hselection
  · rw [List.map_map]
    conv_rhs => rw [← List.map_id (matchingRows t locale q uuids)]
    apply List.map_congr_left
    intro row _
    exact withOfficial_listed t joined row

end Selecting

section Code

variable {env : RuntimeEnv} {t : StoryTables} {request request' : QueryRequest}
  {locale : String} {sql : List Fragment} {args : List Value}

theorem sqlOf_where (joined : Option String) (q : Query) :
    (if (tests q).isEmpty=true then (fromBounds joined).map (·.1)
      else (fromBounds joined).map (·.1)++.where::fragments (condition q))=
      sqlOf ⟨joined,whereTests q none⟩ := by
  rw [sqlOf,Selection.bounds,whereTests]
  by_cases hnone : (tests q).isEmpty=true
  · rw [if_pos hnone,if_pos hnone,whereBounds,List.append_nil]
  · rw [if_neg hnone,if_neg hnone,whereBounds,List.map_append,List.map_cons,List.map_map]
    rfl

theorem argsOf_where (joined : Option String) (q : Query) :
    (fromBounds joined).flatMap (·.2)++values (condition q)=
      argsOf ⟨joined,whereTests q none⟩ := by
  rw [argsOf,Selection.bounds,whereTests,List.flatMap_append]
  by_cases hnone : (tests q).isEmpty=true
  · rw [if_pos hnone,condition,List.isEmpty_iff.mp hnone]
    rfl
  · rw [if_neg hnone,whereBounds,List.flatMap_cons,List.flatMap_map]
    rfl

theorem matching_ok (h : matching env t request locale=.ok (request',sql,args)) :
    normalizeRequest env request=.ok request' ∧
      validateReferences t.tags request'.criteria=.ok () ∧
      sql=sqlOf ⟨joinedFor request'.criteria locale,whereTests request'.criteria none⟩ ∧
      args=argsOf ⟨joinedFor request'.criteria locale,whereTests request'.criteria none⟩ := by
  unfold matching at h
  obtain ⟨normal,hnormal,h⟩ := exceptBind_ok.mp h
  obtain ⟨⟨⟩,hreferences,h⟩ := exceptBind_ok.mp h
  have htests := @reads_tests (fun _ => true) rfl normal.criteria
  have hbase : (if usesDisplayName normal.criteria then
      (displayFrom [.from],[.text locale]) else ([.from],[]))=
      ((fromBounds (joinedFor normal.criteria locale)).map (·.1),
        (fromBounds (joinedFor normal.criteria locale)).flatMap (·.2)) := by
    cases hname : usesDisplayName normal.criteria with
    | true =>
      rw [joinedFor,hname]
      rfl
    | false =>
      rw [joinedFor,hname]
      rfl
  rw [hbase] at h
  dsimp only at h
  rw [predicate_eq] at h
  dsimp only at h
  rw [isEmpty_fragments,condition,join_isEmpty htests,← condition,sqlOf_where,argsOf_where] at h
  cases Except.ok.inj h
  exact ⟨mapError_ok.mp hnormal,hreferences,rfl,rfl⟩

def orderedJoin (request : QueryRequest) (locale : String) : Option String :=
  if request.sort="imported_desc" then joinedFor request.criteria locale else some locale

def orderOf (request : QueryRequest) : Fragment :=
  if request.sort="imported_desc" then .orderImported else .orderName

/-- The order adds the join and its value in front when it needs them. -/
theorem ordering_eq (request : QueryRequest) (locale : String)
    (condition : Option (List (Lexeme Atom))) :
    ordering request locale (sqlOf ⟨joinedFor request.criteria locale,condition⟩)
        (argsOf ⟨joinedFor request.criteria locale,condition⟩)=
      (orderOf request,sqlOf ⟨orderedJoin request locale,condition⟩,
        argsOf ⟨orderedJoin request locale,condition⟩) := by
  unfold ordering orderOf orderedJoin
  by_cases hsort : request.sort="imported_desc"
  · rw [if_pos hsort,if_pos hsort,if_pos hsort]
  · rw [if_neg hsort,if_neg hsort,if_neg hsort]
    cases hname : usesDisplayName request.criteria with
    | true =>
      rw [if_pos rfl,joinedFor,hname,if_pos rfl]
    | false =>
      rw [if_neg Bool.false_ne_true,joinedFor,hname,if_neg Bool.false_ne_true]
      rfl

theorem tests_of_usesDisplayName {q : Query} (h : usesDisplayName q=true) : tests q≠[] := by
  cases q with
  | node own anyOf =>
    rw [usesDisplayName,Bool.or_eq_true,decide_eq_true_eq] at h
    rw [tests]
    intro hnil
    obtain ⟨hown,hbranches⟩ := List.append_eq_nil_iff.mp hnil
    rcases h with hname | hname
    · rw [ownTests,if_pos hname] at hown
      exact absurd hown (List.cons_ne_nil _ _)
    · cases anyOf with
      | nil => cases hname
      | cons branch branches => cases hbranches

theorem uuidClause_eq (locale : String) (q : Query) (uuids : List String) :
    uuidClause (sqlOf ⟨joinedFor q locale,whereTests q none⟩)=
      sqlOf ⟨joinedFor q locale,whereTests q (some uuids)⟩ := by
  by_cases hnone : (tests q).isEmpty=true
  · have hname : usesDisplayName q=false := by
      by_contra hname
      rw [Bool.not_eq_false] at hname
      exact tests_of_usesDisplayName hname (List.isEmpty_iff.mp hnone)
    rw [uuidClause,joinedFor,hname,whereTests,whereTests,if_pos hnone,if_pos hnone]
    rfl
  · have hsql : sqlOf ⟨joinedFor q locale,whereTests q none⟩=
        (fromBounds (joinedFor q locale)).map (·.1)++.where::fragments (condition q) := by
      rw [← sqlOf_where,if_neg hnone]
    have hmore : sqlOf ⟨joinedFor q locale,whereTests q none⟩≠[.from] := by
      rw [hsql]
      cases joinedFor q locale <;> exact nofun
    rw [uuidClause,if_neg hmore,hsql,sqlOf,Selection.bounds,whereTests,if_neg hnone,whereBounds,
      List.map_append,List.map_cons,List.map_append,List.map_append,List.append_assoc,
      List.map_map]
    rfl

theorem argsOf_uuids (locale : String) (q : Query) (uuids : List String) :
    argsOf ⟨joinedFor q locale,whereTests q none⟩++[.texts uuids]=
      argsOf ⟨joinedFor q locale,whereTests q (some uuids)⟩ := by
  rw [← argsOf_where,argsOf,Selection.bounds,whereTests,List.flatMap_append,List.append_assoc]
  congr 1
  by_cases hnone : (tests q).isEmpty=true
  · rw [if_pos hnone,condition,List.isEmpty_iff.mp hnone]
    rfl
  · rw [if_neg hnone,whereBounds,List.flatMap_cons,List.flatMap_map,List.flatMap_append]
    rfl

theorem executeCount_tests (ht : Keyed t) {q : Query} (h : ∀ own ∈ members q, Admitted own)
    {joined : Option String} (hjoined : usesDisplayName q=true → joined=some locale)
    (uuids : Option (List String)) :
    executeCount t (countStatement (sqlOf ⟨joined,whereTests q uuids⟩))
      (argsOf ⟨joined,whereTests q uuids⟩)=
        some (matchingRows t locale q uuids).length := by
  have hbounds : ∀ b ∈ (.count,[])::Selection.bounds ⟨joined,whereTests q uuids⟩,
      b.2.length=b.1.arity :=
    List.forall_mem_cons.mpr ⟨rfl,Selection.length_bounds _⟩
  have hbind : bind (countStatement (sqlOf ⟨joined,whereTests q uuids⟩))
      (argsOf ⟨joined,whereTests q uuids⟩)=
      some ((.count,[])::Selection.bounds ⟨joined,whereTests q uuids⟩) := bind_bounds _ hbounds
  have hselection := @selection_bounds ⟨joined,whereTests q uuids⟩ []
    fun b hb => absurd hb (Option.not_mem_none b)
  rw [List.append_nil] at hselection
  have hrows := selectRows_tests ht h hjoined uuids
  rw [executeCount,hbind]
  change (selection _ >>= _)=_
  rw [hselection]
  change (if ([] : List Bound)≠[] then none
    else (selectRows t ⟨joined,whereTests q uuids⟩).map List.length)=_
  rw [if_neg (fun hne => hne rfl),hrows,Option.map_some,List.length_map]

theorem executeRecords_tests (ht : Keyed t) {q : Query} (h : ∀ own ∈ members q, Admitted own)
    {joined : Option String} (hjoined : usesDisplayName q=true → joined=some locale)
    (uuids : Option (List String)) {more : List Bound} {rows : List Joined}
    (hlength : ∀ b ∈ more, b.2.length=b.1.arity)
    (hcontinues : ∀ b ∈ more.head?, b.1.continues=false)
    (horder : orderRows ⟨joined,whereTests q uuids⟩
      ((matchingRows t locale q uuids).map (withOfficial t joined)) more=some rows) :
    executeRecords t (.record::(sqlOf ⟨joined,whereTests q uuids⟩++more.map (·.1)))
      (argsOf ⟨joined,whereTests q uuids⟩++more.flatMap (·.2))=
        some (rows.map (·.listed)) := by
  have hbounds : ∀ b ∈ (.record,[])::(Selection.bounds ⟨joined,whereTests q uuids⟩++more),
      b.2.length=b.1.arity := by
    rw [List.forall_mem_cons,List.forall_mem_append]
    exact ⟨rfl,Selection.length_bounds _,hlength⟩
  have hbind := bind_bounds _ hbounds
  rw [List.map_cons,List.flatMap_cons,List.map_append,List.flatMap_append,List.nil_append]
    at hbind
  have hselection := selection_bounds ⟨joined,whereTests q uuids⟩ hcontinues
  have hrows := selectRows_tests ht h hjoined uuids
  rw [executeRecords,sqlOf,argsOf,hbind]
  change (selection _ >>= _)=_
  rw [hselection]
  change (selectRows t _ >>= _)=_
  rw [hrows]
  change (orderRows _ _ _ >>= _)=_
  rw [horder]
  rfl

theorem joinedFor_of_uses (q : Query) (locale : String) :
    usesDisplayName q=true → joinedFor q locale=some locale := by
  intro h
  rw [joinedFor,if_pos h]

theorem joinedFor_cases (q : Query) (locale : String) :
    joinedFor q locale=none ∨ joinedFor q locale=some locale := by
  unfold joinedFor
  split
  · exact .inr rfl
  · exact .inl rfl

theorem orderedJoin_of_uses (request : QueryRequest) (locale : String) :
    usesDisplayName request.criteria=true → orderedJoin request locale=some locale := by
  intro h
  unfold orderedJoin
  split
  · exact joinedFor_of_uses _ _ h
  · rfl

theorem orderedJoin_cases (request : QueryRequest) (locale : String) :
    orderedJoin request locale=none ∨ orderedJoin request locale=some locale := by
  unfold orderedJoin
  split
  · exact joinedFor_cases _ _
  · exact .inr rfl

def orderedBy (request : QueryRequest) (rows : List Joined) : List Joined :=
  if request.sort="imported_desc" then orderByImported rows else orderByName rows

theorem orderedBy_perm (request : QueryRequest) (rows : List Joined) :
    (orderedBy request rows).Perm rows := by
  unfold orderedBy orderByImported orderByName
  split
  · exact List.perm_insertionSort _ _
  · exact List.perm_insertionSort _ _

theorem orderRows_orderOf (request : QueryRequest) (locale : String)
    (condition : Option (List (Lexeme Atom))) (rows : List Joined) (more : List Bound) :
    orderRows ⟨orderedJoin request locale,condition⟩ rows ((orderOf request,[])::more)=
      limitRows (orderedBy request rows) more := by
  unfold orderOf orderedBy orderedJoin
  by_cases hsort : request.sort="imported_desc"
  · rw [if_pos hsort,if_pos hsort,if_pos hsort]
    rfl
  · rw [if_neg hsort,if_neg hsort,if_neg hsort]
    rfl

theorem arity_orderOf (request : QueryRequest) : (orderOf request).arity=0 := by
  unfold orderOf
  split <;> rfl

theorem continues_orderOf (request : QueryRequest) : (orderOf request).continues=false := by
  unfold orderOf
  split <;> rfl

/-- The compiled text and values of a request, ordered and counted. -/
structure Executes (t : StoryTables) (locale : String) (request : QueryRequest)
    (uuids : Option (List String)) (sql : List Fragment) (args : List Value) : Prop where
  /-- Before the order. -/
  compiled : Compiled t locale request.criteria uuids sql args
  counted : executeCount t (countStatement sql) args=
    some (matchingRows t locale request.criteria uuids).length
  ordered : ∀ order sql' args', ordering request locale sql args=(order,sql',args') →
    Compiled t locale request.criteria uuids sql' args' ∧
      ∃ rows, executeRecords t (recordStatement sql' order) args'=some rows ∧
        rows.Perm (matchingRows t locale request.criteria uuids)

theorem executes_tests (ht : Keyed t) {request : QueryRequest}
    (h : ∀ own ∈ members request.criteria, Admitted own) (uuids : Option (List String)) :
    Executes t locale request uuids
      (sqlOf ⟨joinedFor request.criteria locale,whereTests request.criteria uuids⟩)
      (argsOf ⟨joinedFor request.criteria locale,whereTests request.criteria uuids⟩) := by
  have hjoined := joinedFor_of_uses request.criteria locale
  have hordered := orderedJoin_of_uses request locale
  refine ⟨compiled_selection ht h hjoined (joinedFor_cases _ _) uuids,
    executeCount_tests ht h hjoined uuids,?_⟩
  intro order sql' args' horder
  rw [ordering_eq] at horder
  cases horder
  refine ⟨compiled_selection ht h hordered (orderedJoin_cases _ _) uuids,?_⟩
  have hlength : ∀ b ∈ [((orderOf request,[]) : Bound)], b.2.length=b.1.arity := by
    rw [List.forall_mem_singleton,arity_orderOf]
    rfl
  have hcontinues : ∀ b ∈ [((orderOf request,[]) : Bound)].head?, b.1.continues=false := by
    intro b hb
    cases Option.mem_some_iff.mp hb
    exact continues_orderOf request
  have hrecords := executeRecords_tests ht h hordered uuids hlength hcontinues
    (orderRows_orderOf request locale _ _ [])
  rw [List.flatMap_singleton,List.append_nil] at hrecords
  refine ⟨_,hrecords,?_⟩
  have hperm := (orderedBy_perm request ((matchingRows t locale request.criteria uuids).map
    (withOfficial t (orderedJoin request locale)))).map (·.listed)
  rw [List.map_map] at hperm
  refine hperm.trans ?_
  have hsame : (matchingRows t locale request.criteria uuids).map
      ((·.listed) ∘ withOfficial t (orderedJoin request locale))=
        matchingRows t locale request.criteria uuids := by
    conv_rhs => rw [← List.map_id (matchingRows t locale request.criteria uuids)]
    exact List.map_congr_left fun row _ => withOfficial_listed t _ row
  rw [hsame]

/-- The compiled text of an accepted request has as many placeholders as values, binds each
to the value pushed for it and selects exactly the listed stories on which the normalized
criteria hold, alone, with the join that its order adds in front, and with the requested
uuids behind. -/
theorem compilation_correct (env : RuntimeEnv) (t : StoryTables) (ht : Keyed t)
    (request : QueryRequest) (locale : String) (request' : QueryRequest) (sql : List Fragment)
    (args : List Value) (h : matching env t request locale=.ok (request',sql,args)) :
    normalizeRequest env request=.ok request' ∧ Executes t locale request' none sql args ∧
      ∀ uuids, Executes t locale request' (some uuids) (uuidClause sql)
        (args++[.texts uuids]) := by
  obtain ⟨hnormal,-,rfl,rfl⟩ := matching_ok h
  have hadmitted := normalizeRequest_admitted hnormal
  refine ⟨hnormal,executes_tests ht hadmitted none,?_⟩
  intro uuids
  rw [uuidClause_eq,argsOf_uuids]
  exact executes_tests ht hadmitted (some uuids)

end Code

/-- Texts that are already normalized. -/
def plainRuntime : RuntimeEnv where
  normalizeRuntime name := .ok name
  canonicalLanguage language := .ok language

def oneStory : StoryTables where
  stories := [⟨1,"00000000-0000-0000-0000-000000000001",none,none,none,"2024-01-01","ete",false⟩]
  archives := [⟨1,[],"plain_pk","",0,[],.valid⟩]
  catalog := ⟨[],[],[],[]⟩
  tags := ⟨[],[]⟩
  assignments := []

theorem keyed_oneStory : Keyed oneStory where
  stories := List.nodup_singleton _
  archives := List.nodup_singleton _
  metadata := List.nodup_nil
  counted := by decide

/-- A name with an empty branch. -/
def namedQuery : Query := .node { name := "te" } [.node {} []]

def namedRequest : QueryRequest := { criteria := namedQuery }

/-- The normalized request for the name. -/
def namedNormal : QueryRequest :=
  { criteria := namedQuery, page := firstPage, pageSize := defaultPageSize, sort := "name_asc" }

theorem matching_named : matching plainRuntime oneStory namedRequest "fr-FR"=
    .ok (namedNormal,[.from,.displayJoin,.where,.name,.and,.open,.open,.one,.close,.close],
      [.text "fr-FR",.text "te"]) := by
  rfl

/-- The request for the name is compiled and executed. -/
theorem compilation_correct_named : Executes oneStory "fr-FR" namedNormal none
    [.from,.displayJoin,.where,.name,.and,.open,.open,.one,.close,.close]
    [.text "fr-FR",.text "te"] :=
  (compilation_correct plainRuntime oneStory keyed_oneStory namedRequest "fr-FR" namedNormal _ _
    matching_named).2.1

end Librairii.QueryCompilation
