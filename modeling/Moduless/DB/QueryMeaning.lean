import Moduless.DB.Query
import Moduless.Paging.Walk

/-!
What a query means. Its statement selects the documents that meet every predicate
and, with a cursor, stand after it; the placeholders are bound to the values they
were written for. A page is the beginning of what is left at the cursor.
-/

namespace Moduless.DB
open Go Paging

/-- Whether a row meets a predicate, `none` where it is unknown. -/
def Predicate.holds (t : TextRules) (p : Predicate) (r : DocRow) : Option Bool :=
  let a := r.text t (split p.field '.')
  match operatorOf p.op, p.values with
  | some (.compare c), [v] => a.map fun a => c.test t a v
  | some .isIn, [] => some false
  | some .isIn, vs => a.map (vs.contains ·)
  | some .between, [lo, hi] => a.map fun a => !decide (t.lt a lo) && !decide (t.lt hi a)
  | some .isNull, _ => some a.isNone
  | some .isNotNull, _ => some a.isSome
  | _, _ => none

def QueryOptions.matching (t : TextRules) (o : QueryOptions) (rows : List DocRow) : List DocRow :=
  rows.filter fun r => o.predicates.all fun p => p.holds t r = some true

/-- The placeholders after the `n`th are bound to the given values. -/
def BoundAt (env : List Arg) (n : Nat) (args : List Text) : Prop :=
  ∀ i v, args[i]? = some v → argText env (n + i + 1) = some v

section Placeholders

variable {env : List Arg} {n : Nat} {args more : List Text}

theorem argText_text {l : List Text} {rest : List Arg} {i : Nat} {v : Text} (h : l[i]? = some v) :
    argText (l.map .text ++ rest) (i + 1) = some v := by
  have hBound : i < (l.map Arg.text).length := by
    rw [List.length_map]
    exact (List.getElem?_eq_some_iff.mp h).1
  rw [argText, List.getElem?_append_left hBound, List.getElem?_map, h]
  rfl

theorem boundAt_text (args : List Text) (rest : List Arg) :
    BoundAt (args.map .text ++ rest) 0 args := by
  intro i v h
  rw [Nat.zero_add]
  exact argText_text h

theorem BoundAt.left (h : BoundAt env n (args ++ more)) : BoundAt env n args :=
  fun i v hv => h i v (List.getElem?_append_left (List.getElem?_eq_some_iff.mp hv).1 ▸ hv)

theorem BoundAt.right (h : BoundAt env n (args ++ more)) : BoundAt env (n + args.length) more := by
  intro i v hv
  have hArg := h (args.length + i) v (by rw [List.getElem?_append_right (by omega)]; simpa using hv)
  rw [← Nat.add_assoc] at hArg
  exact hArg

theorem BoundAt.mapM (h : BoundAt env n args) :
    (List.range' (n + 1) args.length).mapM (argText env) = some args := by
  induction args generalizing n with
  | nil => rfl
  | cons v rest ih =>
    have hFirst : argText env (n + 1) = some v := h 0 v rfl
    have hCons : BoundAt env n ([v] ++ rest) := h
    have hRest : BoundAt env (n + 1) rest := hCons.right
    rw [List.length_cons, List.range'_succ, List.mapM_cons, hFirst, ih hRest]
    rfl

end Placeholders

theorem ok_of_bind {ε α β : Type} {x : Except ε α} {f : α → Except ε β} {b : β}
    (h : (x >>= f) = .ok b) : ∃ a, x = .ok a ∧ f a = .ok b := by
  cases x with
  | error e => cases h
  | ok a => exact ⟨a, rfl, h⟩

theorem jsonPath_eq {field : Str} {path : List Str} (h : jsonPath field = .ok path) :
    path = split field '.' := by
  unfold jsonPath at h
  split at h
  · cases h
  · cases hCheck : checkSegments field (split field '.') with
    | error e => rw [hCheck] at h; cases h
    | ok u => rw [hCheck] at h; exact (Except.ok.inj h).symm

section Predicates

variable {t : TextRules} {env : List Arg} {r : DocRow}

theorem eval_clauseFor {n : Nat} {p : Predicate} {clause : Clause} {args : List Text}
    (h : clauseFor n (split p.field '.') p = .ok (clause, args)) (hBound : BoundAt env n args) :
    clause.eval t env r = p.holds t r := by
  have hValues := hBound.mapM
  rw [clauseFor] at h
  unfold Predicate.holds
  cases hOp : operatorOf p.op with
  | none => rw [hOp] at h; cases h
  | some o =>
    rw [hOp] at h
    cases o with
    | compare c =>
      match hv : p.values with
      | [v] =>
        rw [hv] at h
        cases h
        have hFirst : argText env (n + 1) = some v := hBound 0 v rfl
        simp only [Clause.eval, hFirst]
        cases r.text t (split p.field '.') <;> rfl
      | [] | _ :: _ :: _ => rw [hv] at h; cases h
    | isIn =>
      match hv : p.values with
      | [] => rw [hv] at h; cases h; rfl
      | v :: vs =>
        rw [hv] at h
        cases h
        simp only [Clause.eval, hValues]
        cases r.text t (split p.field '.') <;> rfl
    | between =>
      match hv : p.values with
      | [lo, hi] =>
        rw [hv] at h
        cases h
        have hLo : argText env (n + 1) = some lo := hBound 0 lo rfl
        have hHi : argText env (n + 2) = some hi := hBound 1 hi rfl
        simp only [Clause.eval, hLo, hHi]
        cases r.text t (split p.field '.') <;> rfl
      | [] | [_] | _ :: _ :: _ :: _ => rw [hv] at h; cases h
    | isNull => cases h; rfl
    | isNotNull => cases h; rfl

theorem buildWhere_holds {n : Nat} {ps : List Predicate} {clauses : List Clause}
    {args : List Text} (h : buildWhere n ps = .ok (clauses, args)) (hBound : BoundAt env n args) :
    clauses.map (·.eval t env r) = ps.map (·.holds t r) := by
  induction ps generalizing n clauses args with
  | nil => cases h; rfl
  | cons p ps ih =>
    obtain ⟨path, hPath, h⟩ := ok_of_bind h
    obtain ⟨⟨clause, first⟩, hClause, h⟩ := ok_of_bind h
    obtain ⟨⟨rest, more⟩, hRest, h⟩ := ok_of_bind h
    cases h
    rw [jsonPath_eq hPath] at hClause
    rw [List.map_cons, List.map_cons, eval_clauseFor hClause hBound.left, ih hRest hBound.right]

theorem buildWhere_all {n : Nat} {ps : List Predicate} {clauses : List Clause}
    {args : List Text} (h : buildWhere n ps = .ok (clauses, args)) (hBound : BoundAt env n args) :
    (clauses.all fun c => c.eval t env r = some true) =
      ps.all fun p => p.holds t r = some true := by
  have hMap := congrArg (List.all · fun b : Option Bool => b = some true)
    (buildWhere_holds (t := t) (r := r) h hBound)
  rw [List.all_map, List.all_map] at hMap
  exact hMap

end Predicates

theorem sortPaths_eq {descending : Bool} {sort : List SortField} {paths : List (List Str)}
    (h : sortPaths descending sort = .ok paths) :
    paths = sort.map fun s => split s.field '.' := by
  induction sort generalizing paths with
  | nil => cases h; rfl
  | cons s sort ih =>
    obtain ⟨path, hPath, h⟩ := ok_of_bind h
    split at h
    · cases h
    · obtain ⟨rest, hRest, h⟩ := ok_of_bind h
      cases h
      rw [jsonPath_eq hPath, ih hRest, List.map_cons]

def QueryOptions.paths (o : QueryOptions) : List (List Str) := o.sort.map fun s => split s.field '.'

/-- A row stands after the cursor in the direction of the query. -/
def QueryOptions.keeps (t : TextRules) (o : QueryOptions) (c : CursorPayload) (r : DocRow) : Bool :=
  rowAfter (t.order o.descending) (r.key t o.paths) (c.keys ++ [c.id]) = some true

/-- The cursor Core makes from the last row of a page. There is none for a row without an
id, or if the document cannot be taken apart. -/
def QueryOptions.cursorOf (t : TextRules) (o : QueryOptions) (r : DocRow) : Option CursorPayload :=
  if r.id = [] then none else (sortKeysOf t r.data o.sort).toOption.map (⟨·, r.id⟩)

/-- The rows that match, in the order of the query. -/
def QueryOptions.listed (t : TextRules) (o : QueryOptions) (rows : List DocRow) : List DocRow :=
  sorted t o.paths o.descending (o.matching t rows)

theorem cursorOf_eq_some {t : TextRules} {o : QueryOptions} {r : DocRow} {c : CursorPayload} :
    o.cursorOf t r = some c ↔
      r.id ≠ [] ∧ ∃ keys, sortKeysOf t r.data o.sort = .ok keys ∧ c = ⟨keys, r.id⟩ := by
  unfold QueryOptions.cursorOf
  cases sortKeysOf t r.data o.sort <;> simp [Except.toOption, eq_comm]

theorem clampLimit_pos (limit : Int) : 0 < clampLimit limit := by
  simp only [clampLimit, defaultQueryLimit, maxQueryLimit]
  split <;> split <;> omega

def QueryOptions.keyset (t : TextRules) (o : QueryOptions) (rows : List DocRow) :
    Keyset DocRow CursorPayload where
  rows := o.listed t rows
  limit := clampLimit o.limit
  limit_pos := clampLimit_pos o.limit
  cursor := o.cursorOf t
  keeps := o.keeps t

theorem DocRow.length_key (t : TextRules) (paths : List (List Str)) (r : DocRow) :
    (r.key t paths).length = paths.length + 1 := by
  simp [DocRow.key]

theorem DocRow.id_of_key {t : TextRules} {paths : List (List Str)} {a b : DocRow}
    (h : a.key t paths = b.key t paths) : a.id = b.id := by
  have hLast := congrArg List.getLast? h
  simpa [DocRow.key] using hLast

theorem scan_eq (limit : Nat) (docs rows : List DocRow) (h : docs.length ≤ limit) :
    scan limit docs rows =
      (docs ++ rows.take (limit - docs.length), decide (limit < docs.length + rows.length)) := by
  induction rows generalizing docs with
  | nil => simp [scan, h]
  | cons r rows ih =>
    rw [scan]
    split
    next hFull =>
      rw [hFull, Nat.sub_self, List.take_zero, List.append_nil, List.length_cons,
        decide_eq_true (by omega)]
    next hRoom =>
      obtain ⟨n, hn⟩ : ∃ n, limit - docs.length = n + 1 := ⟨limit - docs.length - 1, by omega⟩
      rw [ih (docs ++ [r]) (by rw [List.length_append, List.length_singleton]; omega), hn,
        List.take_succ_cons, List.length_append, List.length_singleton, List.length_cons,
        List.append_assoc, List.singleton_append, Nat.sub_add_eq, hn, Nat.add_sub_cancel,
        Nat.add_right_comm, Nat.add_assoc docs.length]

/-- What a plan takes from the options. -/
structure QueryOptions.Planned (o : QueryOptions) (p : Plan) : Prop where
  clauses : buildWhere 0 o.predicates = .ok (p.clauses, p.args)
  paths : p.paths = o.paths
  limit : p.limit = clampLimit o.limit
  descending : p.descending = o.descending

theorem planned {o : QueryOptions} {p : Plan} (h : o.plan = .ok p) : o.Planned p := by
  obtain ⟨⟨clauses, args⟩, hWhere, h⟩ := ok_of_bind h
  obtain ⟨paths, hSort, h⟩ := ok_of_bind h
  cases h
  exact ⟨hWhere, sortPaths_eq hSort, rfl, rfl⟩

/-- The text that is sent to continue at a cursor, none for the first page. -/
def cursorText : Option CursorPayload → Str
  | none => []
  | some c => encodeCursor c

section Pages

variable (t : TextRules) {o : QueryOptions} {p : Plan}

theorem run_select (p : Plan) (clauses : List Clause) (args : List Text) (rows : List DocRow) :
    (p.select clauses args).1.run t (p.select clauses args).2 rows =
      (sorted t p.paths p.descending (rows.filter fun r => clauses.all fun c =>
        c.eval t (args.map .text ++ [.int (p.limit + 1)]) r = some true)).take (p.limit + 1) := by
  have hLimit : (args.map Arg.text ++ [Arg.int (p.limit + 1)])[args.length + 1 - 1]? =
      some (.int (p.limit + 1)) := by
    rw [Nat.add_sub_cancel, List.getElem?_append_right (by rw [List.length_map])]
    simp
  simp only [Select.run, Plan.select, hLimit]
  rfl

variable (hPlan : o.Planned p) (rows : List DocRow)

include hPlan

theorem eval_after {env : List Arg} {c : CursorPayload} (r : DocRow)
    (hBound : BoundAt env p.args.length (c.keys ++ [c.id])) :
    decide ((p.after c).eval t env r = some true) = o.keeps t c r := by
  simp only [Plan.after, Clause.eval, hBound.mapM, hPlan.paths, hPlan.descending]
  rfl

theorem run_first : (p.select p.clauses p.args).1.run t (p.select p.clauses p.args).2 rows =
    (o.listed t rows).take (clampLimit o.limit + 1) := by
  rw [run_select]
  simp only [QueryOptions.listed, QueryOptions.matching, hPlan.paths, hPlan.descending, hPlan.limit,
    buildWhere_all hPlan.clauses (boundAt_text p.args _)]

theorem run_after (c : CursorPayload) :
    (p.select (p.clauses ++ [p.after c]) (p.args ++ (c.keys ++ [c.id]))).1.run t
        (p.select (p.clauses ++ [p.after c]) (p.args ++ (c.keys ++ [c.id]))).2 rows =
      (sorted t o.paths o.descending
        ((o.matching t rows).filter (o.keeps t c))).take (clampLimit o.limit + 1) := by
  have hBound := boundAt_text (p.args ++ (c.keys ++ [c.id])) [.int (p.limit + 1)]
  have hAfter := hBound.right
  rw [Nat.zero_add] at hAfter
  rw [run_select, ← hPlan.paths, ← hPlan.descending, ← hPlan.limit]
  simp only [QueryOptions.matching, List.all_append, List.all_cons, List.all_nil, Bool.true_and,
    buildWhere_all hPlan.clauses hBound.left, eval_after t hPlan _ hAfter, List.filter_filter,
    Bool.and_comm (o.keeps t c _)]

end Pages
end Moduless.DB
