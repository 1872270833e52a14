import Moduless.DB.Parameters

/-!
The statements as a whole: the placeholders in the text of a statement are numbered
through its arguments, each is bound to the value it stands for, and nothing a caller
supplies gets into the text but identifiers and words of the fixed lists.
-/

namespace Moduless.DB
open Go Sql

/-- The placeholders in the text are those of the arguments, each once. -/
structure Parametrised (s : Sent) : Prop where
  numbered : placeholders s.text = List.range' 1 s.args.length
  safe : AllSafe s.fragments

theorem parametrised_of_fragments {s : Sent} (hSafe : AllSafe s.fragments)
    (hSeparated : Separated s.fragments)
    (hHoles : holes s.fragments = List.range' 1 s.args.length) : Parametrised s :=
  ⟨(placeholders_text hSeparated).trans hHoles, hSafe⟩

/-- The values a cursor binds. -/
def QueryOptions.cursorValues (o : QueryOptions) : List Text :=
  if o.cursor = [] then []
  else
    match decodeCursor o.cursor with
    | none => []
    | some cur => cur.keys ++ [cur.id]

/-- The parts of a query's statement are bound to the values they stand for: the clause
of each predicate to the predicate's values, the comparison with the cursor to the
cursor's, and the limit to one more than the page. -/
def BindsQuery (k c : Str) (o : QueryOptions) (s : Sent) : Prop :=
  ∃ clauses last n,
    s.fragments = Select.sql ⟨clauses ++ last, o.paths, o.descending, n + 1⟩ k c ∧
    List.Forall₂ (Binds s.args) o.predicates clauses ∧
    (∀ cl ∈ last, ∃ ns, cl = .after o.paths o.descending ns) ∧
    (last.flatMap fun cl => holes cl.sql).mapM (argText s.args) = some o.cursorValues ∧
    s.args[n]? = some (.int (clampLimit o.limit + 1))

def BindsAggregate (o : AggregateOptions) (s : Sent) : Prop :=
  ∃ clauses front back,
    s.fragments = front ++ whereSql clauses ++ back ∧ holes front = [] ∧ holes back = [] ∧
    List.Forall₂ (Binds s.args) o.predicates clauses

section Select

variable {k c n : Str} {sel : Select}

theorem holes_table (k c : Str) : holes (tableSql k c) = [] := rfl

theorem Select.holes_sql (sel : Select) (k c : Str) :
    holes (sel.sql k c) = sel.clauses.flatMap Clause.numbers ++ [sel.limitArg] := by
  simp only [Select.sql, holes_append, holes_fixed, holes_hole, holes_nil, holes_table, holes_where,
    holes_order, List.nil_append, List.append_nil]

variable (hTable : tableName k c = .ok n) (hClauses : ∀ cl ∈ sel.clauses, cl.PathsOk)
  (hPaths : ∀ path ∈ sel.paths, PathOk path)
include hTable hClauses hPaths

theorem Select.allSafe_sql : AllSafe (sel.sql k c) := by
  refine allSafe_append (allSafe_append (allSafe_append (allSafe_cons (safe_fixed _)
    (allSafe_table hTable)) (allSafe_where hClauses)) (allSafe_cons (safe_fixed _)
    (allSafe_order hPaths _))) (allSafe_cons (safe_fixed _) (allSafe_cons trivial allSafe_nil))

theorem Select.separated_sql : Separated (sel.sql k c) := by
  have hFront : Separated (.fixed "SELECT id, data FROM ".toList :: tableSql k c) :=
    separated_of_safe (allSafe_cons (safe_fixed _) (allSafe_table hTable)) rfl
  have hOrder : Separated (.fixed " ORDER BY ".toList :: orderSql sel.paths sel.descending) :=
    separated_of_safe (allSafe_cons (safe_fixed _) (allSafe_order hPaths _)) (holes_order _ _)
  have hLimit : Separated [.fixed " LIMIT ".toList, .hole sel.limitArg] :=
    separated_fixed _ (safe_fixed _) (separated_last _)
  rw [Select.sql]
  refine separated_append (separated_append ?_ hOrder (startsApart_fixed (safe_fixed _) _))
    hLimit (startsApart_fixed (safe_fixed _) _)
  exact separated_append_of_holes hFront (separated_where hClauses) rfl

end Select

section Query

variable {k c : Str} {o : QueryOptions} {p : Plan} {s : Sent}

theorem sortPaths_ok {descending : Bool} {sort : List SortField} {paths : List (List Str)}
    (h : sortPaths descending sort = .ok paths) : ∀ path ∈ paths, PathOk path := by
  induction sort generalizing paths with
  | nil =>
    cases h
    simp
  | cons f sort ih =>
    obtain ⟨path, hPath, h⟩ := ok_of_bind h
    split at h
    · cases h
    · obtain ⟨rest, hRest, h⟩ := ok_of_bind h
      cases h
      exact List.forall_mem_cons.mpr ⟨pathOk_of_jsonPath hPath, ih hRest⟩

theorem plan_pathsOk (h : o.plan = .ok p) : ∀ path ∈ p.paths, PathOk path := by
  obtain ⟨⟨clauses, args⟩, -, h⟩ := ok_of_bind h
  obtain ⟨paths, hSort, h⟩ := ok_of_bind h
  cases h
  exact sortPaths_ok hSort

theorem getElem?_limit (as : List Text) (x : Arg) :
    (as.map Arg.text ++ [x])[as.length]? = some x := by
  rw [List.getElem?_append_right (by rw [List.length_map])]
  simp

theorem range'_chain (a b : Nat) :
    List.range' (0 + 1) a ++ List.range' (a + 1) b ++ [a + b + 1] = List.range' 1 (a + b + 1) := by
  rw [Nat.zero_add, Nat.add_comm a 1, List.range'_append_1, List.range'_1_concat,
    Nat.add_comm 1 (a + b)]

theorem sent_select {n : Str} (hTable : tableName k c = .ok n) (hPlan : o.plan = .ok p)
    (last : List Clause) (more : List Text)
    (hNumbers : last.flatMap Clause.numbers = List.range' (p.args.length + 1) more.length)
    (hLast : ∀ cl ∈ last, ∃ ns, cl = .after p.paths p.descending ns)
    (hMore : more = o.cursorValues) :
    let out := p.select (p.clauses ++ last) (p.args ++ more)
    Parametrised ⟨out.1.sql k c, out.2⟩ ∧ BindsQuery k c o ⟨out.1.sql k c, out.2⟩ := by
  have hTaken := planned hPlan
  obtain ⟨hFirst, hOk⟩ := buildWhere_numbers hTaken.clauses
  have hPaths := plan_pathsOk hPlan
  have hBound := boundAt_text (p.args ++ more) [.int (p.limit + 1)]
  have hAfter : ∀ cl ∈ p.clauses ++ last, cl.PathsOk := by
    intro cl hcl
    rcases List.mem_append.mp hcl with hcl | hcl
    · exact hOk cl hcl
    · obtain ⟨ns, rfl⟩ := hLast cl hcl
      exact hPaths
  refine ⟨parametrised_of_fragments (Select.allSafe_sql hTable hAfter hPaths)
    (Select.separated_sql hTable hAfter hPaths) ?_, p.clauses, last, (p.args ++ more).length, ?_,
    buildWhere_binds hTaken.clauses hBound.left, ?_, ?_, ?_⟩
  · rw [Select.holes_sql]
    simp only [Plan.select, List.flatMap_append, hFirst, hNumbers, List.length_append,
      List.length_map, List.length_singleton]
    exact range'_chain p.args.length more.length
  · simp only [Plan.select, hTaken.paths, hTaken.descending]
  · simpa only [hTaken.paths, hTaken.descending] using hLast
  · have hRight := hBound.right.mapM
    rw [Nat.zero_add] at hRight
    simp only [Clause.holes_sql, hNumbers, ← hMore]
    exact hRight
  · rw [← hTaken.limit]
    exact getElem?_limit _ _

theorem sentByQuery_bound (h : sentByQuery k c o = .ok s) :
    Parametrised s ∧ BindsQuery k c o s := by
  unfold sentByQuery at h
  cases hTable : tableName k c with
  | error e =>
    rw [hTable] at h
    cases h
  | ok n =>
    rw [hTable] at h
    obtain ⟨p, hPlan, h⟩ := ok_of_bind h
    obtain ⟨⟨stmt, args⟩, hStatement, h⟩ := ok_of_bind h
    cases h
    rw [Plan.statement] at hStatement
    split at hStatement
    next hCursor =>
      have hSent := sent_select hTable hPlan [] [] rfl (by simp)
        (by simp [QueryOptions.cursorValues, hCursor])
      rw [List.append_nil, List.append_nil] at hSent
      cases hStatement
      exact hSent
    next hCursor =>
      cases hDecode : decodeCursor o.cursor with
      | none =>
        rw [hDecode] at hStatement
        cases hStatement
      | some cur =>
        rw [hDecode] at hStatement
        dsimp only at hStatement
        split at hStatement
        next => cases hStatement
        next =>
          cases hStatement
          refine sent_select hTable hPlan [p.after cur] (cur.keys ++ [cur.id]) ?_ ?_ ?_
          · simp [Plan.after, Clause.numbers]
          · simp [Plan.after]
          · simp [QueryOptions.cursorValues, hCursor, hDecode]

end Query

section Aggregate

variable {k c : Str} {o : AggregateOptions} {s : Sent}

theorem groupPaths_ok {groupBy : List Str} {groups : List (List Str)}
    (h : groupPaths groupBy = .ok groups) : ∀ path ∈ groups, PathOk path := by
  induction groupBy generalizing groups with
  | nil =>
    cases h
    simp
  | cons g groupBy ih =>
    rw [groupPaths] at h
    cases hPath : jsonPath g with
    | error e =>
      rw [hPath] at h
      cases h
    | ok path =>
      rw [hPath] at h
      cases hRest : groupPaths groupBy with
      | error e =>
        rw [hRest] at h
        cases h
      | ok rest =>
        rw [hRest] at h
        cases h
        exact List.forall_mem_cons.mpr ⟨pathOk_of_jsonPath hPath, ih hRest⟩

theorem aggExpr_safe {fn : AggFunc} {field : Str} {expr : List Fragment}
    (h : aggExpr fn field = .ok expr) : AllSafe expr ∧ holes expr = [] := by
  rw [aggExpr] at h
  split at h
  next =>
    cases h
    exact ⟨allSafe_cons (safe_fixed _) allSafe_nil, rfl⟩
  next =>
    cases hPath : jsonPath field with
    | error e =>
      rw [hPath] at h
      cases h
    | ok path =>
      rw [hPath] at h
      cases h
      refine ⟨allSafe_append (allSafe_cons (safe_fixed _)
        (allSafe_path (pathOk_of_jsonPath hPath))) (allSafe_cons (safe_fixed _) allSafe_nil), ?_⟩
      simp only [holes_append, holes_fixed, holes_path, holes_nil, List.append_nil]

theorem selected_safe {groups : List (List Str)} (fn : AggFunc) {expr : List Fragment}
    (hGroups : ∀ path ∈ groups, PathOk path) (hExpr : AllSafe expr) (hHoles : holes expr = []) :
    AllSafe (selectedSql groups fn expr) ∧ holes (selectedSql groups fn expr) = [] := by
  refine ⟨allSafe_intercalate allSafe_comma fun part hPart => ?_, ?_⟩
  · rcases List.mem_append.mp hPart with hPart | hPart
    · obtain ⟨path, hPath, rfl⟩ := List.mem_map.mp hPart
      exact allSafe_path (hGroups path hPath)
    · rw [List.mem_singleton.mp hPart]
      exact allSafe_append (allSafe_cons (safe_function fn) (allSafe_cons (safe_fixed _) hExpr))
        (allSafe_cons (safe_fixed _) allSafe_nil)
  · rw [selectedSql, holes_intercalate rfl, List.flatMap_append, List.flatMap_map,
      List.flatMap_singleton]
    simp only [holes_path, holes_append, holes_word, holes_fixed, holes_nil, hHoles,
      List.append_nil, List.flatMap_eq_nil_iff, implies_true]

theorem startsApart_groups (groups : List (List Str)) :
    StartsApart (Sql.text (groupSql groups)) := by
  unfold groupSql
  split
  next => exact fun _ h => nomatch h
  next => exact startsApart_fixed (safe_fixed _) _

theorem sentByAggregate_bound (h : sentByAggregate k c o = .ok s) :
    Parametrised s ∧ BindsAggregate o s := by
  unfold sentByAggregate at h
  cases hTable : tableName k c with
  | error e =>
    rw [hTable] at h
    cases h
  | ok n =>
    cases hFunc : aggFuncOf o.func with
    | none =>
      rw [hTable, hFunc] at h
      cases h
    | some fn =>
      rw [hTable, hFunc] at h
      obtain ⟨expr, hExpr, h⟩ := ok_of_bind h
      obtain ⟨groups, hGroups, h⟩ := ok_of_bind h
      obtain ⟨⟨clauses, args⟩, hWhere, h⟩ := ok_of_bind h
      cases h
      have hWhere : buildWhere 0 o.predicates = .ok (clauses, args) := by
        cases hBuilt : buildWhere 0 o.predicates with
        | error e =>
          rw [hBuilt] at hWhere
          cases hWhere
        | ok r =>
          rw [hBuilt] at hWhere
          exact congrArg Except.ok (Except.ok.inj hWhere)
      obtain ⟨hExprSafe, hExprHoles⟩ := aggExpr_safe hExpr
      have hPaths := groupPaths_ok hGroups
      obtain ⟨hSelected, hSelectedHoles⟩ := selected_safe fn hPaths hExprSafe hExprHoles
      obtain ⟨hNumbers, hOk⟩ := buildWhere_numbers hWhere
      have hFront := allSafe_append (allSafe_cons (safe_fixed "SELECT ".toList) hSelected)
        (allSafe_cons (safe_fixed " FROM ".toList) (allSafe_table hTable))
      have hFrontHoles : holes (.fixed "SELECT ".toList :: selectedSql groups fn expr ++
          .fixed " FROM ".toList :: tableSql k c) = [] := by
        rw [holes_append, holes_fixed, holes_fixed, hSelectedHoles, holes_table]
        rfl
      have hBack := separated_of_safe (allSafe_groups hPaths) (holes_groups groups)
      refine ⟨parametrised_of_fragments
        (allSafe_append (allSafe_append hFront (allSafe_where hOk)) (allSafe_groups hPaths))
        (separated_append (separated_append_of_holes (separated_of_safe hFront hFrontHoles)
          (separated_where hOk) hFrontHoles) hBack (startsApart_groups groups)) ?_,
        clauses, _, groupSql groups, rfl, hFrontHoles, holes_groups groups, ?_⟩
      · rw [holes_append, holes_append, hFrontHoles, holes_where, hNumbers, holes_groups,
          List.append_nil, List.length_map]
        rfl
      · have hBound := boundAt_text args []
        rw [List.append_nil] at hBound
        exact buildWhere_binds hWhere hBound

end Aggregate

/-- Values never become SQL, in `Query` and in `Aggregate`: options of one shape are
sent as one text; the placeholders in a text are numbered through its arguments and
bound to the values they stand for; and what callers supply enters the text as
identifiers and as words of the fixed lists only. -/
theorem values_never_sql (k c : Str) :
    (∀ o o' : QueryOptions, o.SameShape o' →
      (sentByQuery k c o).map Sent.text = (sentByQuery k c o').map Sent.text) ∧
    (∀ o s, sentByQuery k c o = .ok s → Parametrised s ∧ BindsQuery k c o s) ∧
    (∀ o o' : AggregateOptions, o.SameShape o' →
      (sentByAggregate k c o).map Sent.text = (sentByAggregate k c o').map Sent.text) ∧
    ∀ o s, sentByAggregate k c o = .ok s → Parametrised s ∧ BindsAggregate o s :=
  ⟨fun _ _ => sentByQuery_text k c, fun _ _ => sentByQuery_bound,
    fun _ _ => sentByAggregate_text k c,
    fun _ _ => sentByAggregate_bound⟩

def titleIs (title : String) (limit : Int) : QueryOptions :=
  ⟨[⟨"title".toList, "=".toList, [title.toList]⟩], [], limit, []⟩

theorem values_never_sql_title :
    ((sentByQuery "blog".toList "notes".toList (titleIs "a" 1)).map Sent.text).toOption =
      some ("SELECT id, data FROM ext_blog_notes WHERE (data->>'title') = $1 " ++
        "ORDER BY id ASC LIMIT $2").toList ∧
    (sentByQuery "blog".toList "notes".toList (titleIs "a" 1)).map Sent.text =
      (sentByQuery "blog".toList "notes".toList (titleIs "' OR '1'='1" 5)).map Sent.text := by
  refine ⟨by decide +kernel, (values_never_sql _ _).1 _ _ ⟨.cons ⟨rfl, rfl, rfl⟩ .nil, rfl, ?_⟩⟩
  exact ⟨.rfl, rfl⟩

end Moduless.DB
