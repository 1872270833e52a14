import Moduless.DB.SqlShape

/-!
Values are bound, never written into a statement.

The clauses of a statement and the number of its arguments depend on the shape of the
options only, and the placeholders run through the arguments in the order of the
predicates, the cursor and the limit.
-/

namespace Moduless.DB
open Go Sql

/-- The values a predicate binds; a test for NULL binds none. -/
def Predicate.used (p : Predicate) : List Text :=
  match operatorOf p.op with
  | some .isNull | some .isNotNull => []
  | _ => p.values

/-- The clause belongs to the predicate, and its placeholders are bound to the
predicate's values. -/
structure Binds (args : List Arg) (p : Predicate) (c : Clause) : Prop where
  clause : ∃ n, clauseFor n (split p.field '.') p = .ok (c, p.used)
  bound : (holes c.sql).mapM (argText args) = some p.used

section Where

variable {n : Nat} {p : Predicate} {path : List Str} {c : Clause} {vs : List Text}

theorem clauseFor_numbers (h : clauseFor n path p = .ok (c, vs)) :
    vs = p.used ∧ c.numbers = List.range' (n + 1) vs.length ∧ (PathOk path → c.PathsOk) := by
  rw [clauseFor] at h
  cases hOp : operatorOf p.op with
  | none =>
    rw [hOp] at h
    cases h
  | some o =>
    rw [hOp] at h
    cases o with
    | compare cmp =>
      cases hv : p.values with
      | nil => rw [hv] at h; cases h
      | cons v rest =>
        rw [hv] at h
        cases rest with
        | nil =>
          cases h
          exact ⟨by simp [Predicate.used, hOp, hv], rfl, id⟩
        | cons w rest => cases h
    | isIn =>
      cases hv : p.values with
      | nil =>
        rw [hv] at h
        cases h
        exact ⟨by simp [Predicate.used, hOp, hv], rfl, fun _ => trivial⟩
      | cons v vs =>
        rw [hv] at h
        cases h
        exact ⟨by simp [Predicate.used, hOp, hv], rfl, id⟩
    | between =>
      cases hv : p.values with
      | nil => rw [hv] at h; cases h
      | cons lo rest =>
        rw [hv] at h
        cases rest with
        | nil => cases h
        | cons hi rest =>
          cases rest with
          | nil =>
            cases h
            exact ⟨by simp [Predicate.used, hOp, hv], rfl, id⟩
          | cons v rest => cases h
    | isNull | isNotNull =>
      cases h
      exact ⟨by simp [Predicate.used, hOp], rfl, id⟩

variable {ps : List Predicate} {clauses : List Clause} {args : List Text} {env : List Arg}

theorem buildWhere_numbers (h : buildWhere n ps = .ok (clauses, args)) :
    clauses.flatMap Clause.numbers = List.range' (n + 1) args.length ∧
      ∀ c ∈ clauses, c.PathsOk := by
  induction ps generalizing n clauses args with
  | nil =>
    cases h
    exact ⟨rfl, by simp⟩
  | cons p ps ih =>
    obtain ⟨path, hPath, h⟩ := ok_of_bind h
    obtain ⟨⟨clause, first⟩, hClause, h⟩ := ok_of_bind h
    obtain ⟨⟨rest, more⟩, hRest, h⟩ := ok_of_bind h
    cases h
    obtain ⟨-, hNumbers, hOk⟩ := clauseFor_numbers hClause
    obtain ⟨hMore, hAll⟩ := ih hRest
    refine ⟨?_, List.forall_mem_cons.mpr ⟨hOk (pathOk_of_jsonPath hPath), hAll⟩⟩
    rw [List.flatMap_cons, hNumbers, hMore, List.length_append, Nat.add_right_comm,
      List.range'_append_1]

theorem buildWhere_binds (h : buildWhere n ps = .ok (clauses, args)) (hBound : BoundAt env n args) :
    List.Forall₂ (Binds env) ps clauses := by
  induction ps generalizing n clauses args with
  | nil =>
    cases h
    exact .nil
  | cons p ps ih =>
    obtain ⟨path, hPath, h⟩ := ok_of_bind h
    obtain ⟨⟨clause, first⟩, hClause, h⟩ := ok_of_bind h
    obtain ⟨⟨rest, more⟩, hRest, h⟩ := ok_of_bind h
    cases h
    obtain ⟨hUsed, hNumbers, -⟩ := clauseFor_numbers hClause
    subst hUsed
    refine .cons ⟨⟨n, jsonPath_eq hPath ▸ hClause⟩, ?_⟩ (ih hRest hBound.right)
    rw [Clause.holes_sql, hNumbers]
    exact hBound.left.mapM

end Where

section Shape

/-- Two predicates differ in their values at most, not in the number of them. -/
structure Predicate.SameShape (p q : Predicate) : Prop where
  field : p.field = q.field
  op : p.op = q.op
  values : p.values.length = q.values.length

/-- Two computations that agree in what `f` shows of their results. -/
theorem cases_of_map_eq {ε α β : Type} {f : α → β} {x y : Except ε α} (h : x.map f = y.map f) :
    (∃ e, x = .error e ∧ y = .error e) ∨ ∃ a b, x = .ok a ∧ y = .ok b ∧ f a = f b := by
  cases x with
  | error e =>
    cases y with
    | error e' => exact .inl ⟨e, rfl, congrArg _ (Except.error.inj h).symm⟩
    | ok b => cases h
  | ok a =>
    cases y with
    | error e => cases h
    | ok b => exact .inr ⟨a, b, rfl, rfl, Except.ok.inj h⟩

/-- What of a clause list and its arguments is in the text. -/
def shape {α : Type} (out : α × List Text) : α × Nat := (out.1, out.2.length)

theorem clauseFor_shape (n : Nat) (path : List Str) {p q : Predicate} (h : p.SameShape q) :
    (clauseFor n path p).map shape = (clauseFor n path q).map shape := by
  have hValues : List.Forall₂ (fun _ _ => True) p.values q.values :=
    List.forall₂_iff_zip.mpr ⟨h.values, fun _ => trivial⟩
  rw [clauseFor, clauseFor, h.op]
  generalize p.values = xs at hValues ⊢
  generalize q.values = ys at hValues ⊢
  cases operatorOf q.op with
  | none => rfl
  | some o =>
    cases o with
    | isNull | isNotNull => rfl
    | compare cmp =>
      cases hValues with
      | nil => rfl
      | cons _ hRest => cases hRest <;> rfl
    | isIn =>
      cases hValues with
      | nil => rfl
      | cons _ hRest => simp [Except.map, shape, hRest.length_eq]
    | between =>
      cases hValues with
      | nil => rfl
      | cons _ hRest =>
        cases hRest with
        | nil => rfl
        | cons _ hRest => cases hRest <;> rfl

theorem buildWhere_cons_shape (n : Nat) (p : Predicate) (ps : List Predicate) :
    (buildWhere n (p :: ps)).map shape =
      (jsonPath p.field).bind fun path =>
        ((clauseFor n path p).map shape).bind fun first =>
          ((buildWhere (n + first.2) ps).map shape).map fun rest =>
            (first.1 :: rest.1, first.2 + rest.2) := by
  rw [buildWhere]
  cases jsonPath p.field with
  | error e => rfl
  | ok path =>
    cases hClause : clauseFor n path p with
    | error e => simp [Except.map, Except.bind, bind, hClause]
    | ok first =>
      obtain ⟨c, vs⟩ := first
      cases hRest : buildWhere (n + vs.length) ps <;>
        simp [Except.map, Except.bind, bind, hClause, hRest, shape]

theorem buildWhere_shape {ps qs : List Predicate} (h : List.Forall₂ Predicate.SameShape ps qs)
    (n : Nat) : (buildWhere n ps).map shape = (buildWhere n qs).map shape := by
  induction h generalizing n with
  | nil => rfl
  | cons hFirst _ ih =>
    rw [buildWhere_cons_shape, buildWhere_cons_shape, hFirst.field]
    congr 1
    funext path
    rw [clauseFor_shape n path hFirst]
    congr 1
    funext first
    rw [ih]

/-- Both cursors are absent, or both are there with the same number of keys. -/
structure CursorShape (c d : Str) : Prop where
  absent : c = [] ↔ d = []
  keys : (decodeCursor c).map (·.keys.length) = (decodeCursor d).map (·.keys.length)

structure QueryOptions.SameShape (o o' : QueryOptions) : Prop where
  predicates : List.Forall₂ Predicate.SameShape o.predicates o'.predicates
  sort : o.sort = o'.sort
  cursor : CursorShape o.cursor o'.cursor

structure AggregateOptions.SameShape (o o' : AggregateOptions) : Prop where
  predicates : List.Forall₂ Predicate.SameShape o.predicates o'.predicates
  func : o.func = o'.func
  field : o.field = o'.field
  groupBy : o.groupBy = o'.groupBy

/-- Two plans that differ in their values and limit at most. -/
structure Plan.SameShape (p q : Plan) : Prop where
  clauses : p.clauses = q.clauses
  args : p.args.length = q.args.length
  paths : p.paths = q.paths
  descending : p.descending = q.descending

theorem statement_shape {p q : Plan} (h : p.SameShape q) {c d : Str} (hCursor : CursorShape c d) :
    (p.statement c).map Prod.fst = (q.statement d).map Prod.fst := by
  have hSelect (cs : List Clause) {as bs : List Text} (hLength : as.length = bs.length) :
      (p.select cs as).1 = (q.select cs bs).1 := by
    simp [Plan.select, h.paths, h.descending, hLength]
  rw [Plan.statement, Plan.statement]
  by_cases hc : c = []
  · rw [if_pos hc, if_pos (hCursor.absent.mp hc), h.clauses]
    exact congrArg Except.ok (hSelect _ h.args)
  · rw [if_neg hc, if_neg (mt hCursor.absent.mpr hc)]
    have hKeys := hCursor.keys
    cases hp : decodeCursor c with
    | none =>
      cases hq : decodeCursor d with
      | none => rfl
      | some cur => simp [hp, hq] at hKeys
    | some cur =>
      cases hq : decodeCursor d with
      | none => simp [hp, hq] at hKeys
      | some cur' =>
        have hLength : cur.keys.length = cur'.keys.length := by simpa [hp, hq] using hKeys
        have hAfter : p.after cur = q.after cur' := by
          simp [Plan.after, h.paths, h.descending, h.args, hLength]
        dsimp only
        rw [hLength, h.paths, h.clauses, hAfter]
        split
        · rfl
        · exact congrArg Except.ok (hSelect _ (by simp [h.args, hLength]))

theorem plan_shape {o o' : QueryOptions} (h : o.SameShape o') :
    (∃ e, o.plan = .error e ∧ o'.plan = .error e) ∨
      ∃ p q, o.plan = .ok p ∧ o'.plan = .ok q ∧ p.SameShape q := by
  have hWhere := buildWhere_shape h.predicates 0
  have hDescending : o.descending = o'.descending := by
    simp [QueryOptions.descending, h.sort]
  rw [QueryOptions.plan, QueryOptions.plan, ← h.sort, ← hDescending]
  rcases cases_of_map_eq hWhere with ⟨e, hp, hq⟩ | ⟨⟨clauses, as⟩, ⟨clauses', bs⟩, hp, hq, hSame⟩
  · exact .inl ⟨e, by simp [hp, bind, Except.bind], by simp [hq, bind, Except.bind]⟩
  · obtain ⟨rfl, hLength⟩ := Prod.mk.inj hSame
    rw [hp, hq]
    cases sortPaths o.descending o.sort with
    | error e => exact .inl ⟨e, rfl, rfl⟩
    | ok paths => exact .inr ⟨_, _, rfl, rfl, rfl, hLength, rfl, rfl⟩

theorem sentByQuery_text (k c : Str) {o o' : QueryOptions} (h : o.SameShape o') :
    (sentByQuery k c o).map Sent.text = (sentByQuery k c o').map Sent.text := by
  rw [sentByQuery, sentByQuery]
  cases tableName k c with
  | error e => rfl
  | ok n =>
    rcases plan_shape h with ⟨e, hp, hq⟩ | ⟨p, q, hp, hq, hShape⟩
    · simp only [hp, hq]
      rfl
    · simp only [hp, hq]
      rcases cases_of_map_eq (statement_shape hShape h.cursor) with
        ⟨e, hs, hs'⟩ | ⟨⟨stmt, as⟩, ⟨stmt', bs⟩, hs, hs', rfl⟩
      · simp [bind, Except.bind, Except.map, hs, hs']
      · simp [bind, Except.bind, Except.map, hs, hs', Sent.text]

theorem sentByAggregate_text (k c : Str) {o o' : AggregateOptions} (h : o.SameShape o') :
    (sentByAggregate k c o).map Sent.text = (sentByAggregate k c o').map Sent.text := by
  rw [sentByAggregate, sentByAggregate, h.func, h.field, h.groupBy]
  cases tableName k c with
  | error e => rfl
  | ok n =>
    cases aggFuncOf o'.func with
    | none => rfl
    | some fn =>
      rcases cases_of_map_eq (buildWhere_shape h.predicates 0) with
        ⟨e, hp, hq⟩ | ⟨⟨clauses, as⟩, ⟨clauses', bs⟩, hp, hq, hSame⟩
      · rw [hp, hq]
      · obtain ⟨rfl, -⟩ := Prod.mk.inj hSame
        rw [hp, hq]
        cases hExpr : aggExpr fn o'.field with
        | error e => simp [bind, Except.bind, Except.map, hExpr]
        | ok expr =>
          cases groupPaths o'.groupBy with
          | error e => simp [bind, Except.bind, Except.map, hExpr]
          | ok groups =>
            simp [bind, Except.bind, Except.map, Except.mapError, hExpr, Sent.text]

end Shape
end Moduless.DB
