import Moduless.DB.Query
import Moduless.Sql.Prepared

/-!
The texts of the statements that `Query` and `Aggregate` send, with the arguments
that go with them.
-/

namespace Moduless.DB
open Go Sql

/-- The name of a table, from the two names it is made of. -/
def tableSql (extKey collection : Str) : List Fragment :=
  [.fixed "ext_".toList, .name extKey, .fixed "_".toList, .name collection]

def commaSep : List Fragment := [.fixed ", ".toList]

/-- The text of an expression `jsonPath` builds. -/
def pathSql : List Str → List Fragment
  | [part] => [.fixed "(data->>'".toList, .name part, .fixed "')".toList]
  | parts =>
    .fixed "(data#>>'\x7b".toList ::
      List.intercalate [.fixed ",".toList] (parts.map fun part => [.name part]) ++
      [.fixed "\x7d')".toList]

def Comparison.sql : Comparison → Str
  | .eq => "=".toList
  | .ne => "!=".toList
  | .gt => ">".toList
  | .gte => ">=".toList
  | .lt => "<".toList
  | .lte => "<=".toList
  | .like => "LIKE".toList

/-- The source prints the operator it was given, in upper case. -/
theorem sql_eq_normalizeOp {op : Str} {c : Comparison} (h : operatorOf op = some (.compare c)) :
    c.sql = normalizeOp op := by
  obtain ⟨before, after, hSplit, -⟩ := List.lookup_eq_some_iff.mp h
  have hMem : (normalizeOp op, Operator.compare c) ∈ operators := by simp [hSplit]
  have hAll : ∀ c : Comparison, operators.all (fun e =>
      decide (e.2 = .compare c → c.sql = e.1)) = true := by
    intro c
    cases c <;> decide +kernel
  exact of_decide_eq_true (List.all_eq_true.mp (hAll c) _ hMem) rfl

def holesSql (ns : List Nat) : List Fragment :=
  commaSep.intercalate (ns.map fun n => [.hole n])

def rowSql (paths : List (List Str)) : List Fragment :=
  commaSep.intercalate (paths.map pathSql ++ [[.fixed "id".toList]])

def Clause.sql : Clause → List Fragment
  | .compare path c n =>
    pathSql path ++ [.fixed " ".toList, .word c.sql, .fixed " ".toList, .hole n]
  | .isIn path ns =>
    pathSql path ++ .fixed " IN (".toList :: holesSql ns ++ [.fixed ")".toList]
  | .between path lo hi =>
    pathSql path ++
      [.fixed " BETWEEN ".toList, .hole lo, .fixed " AND ".toList, .hole hi]
  | .isNull path => pathSql path ++ [.fixed " IS NULL".toList]
  | .isNotNull path => pathSql path ++ [.fixed " IS NOT NULL".toList]
  | .never => [.fixed "FALSE".toList]
  | .after paths descending ns =>
    .fixed "(".toList :: rowSql paths ++
      .fixed (if descending then ") < (".toList else ") > (".toList) :: holesSql ns ++
      [.fixed ")".toList]

def whereSql (clauses : List Clause) : List Fragment :=
  match clauses with
  | [] => []
  | clauses =>
    .fixed " WHERE ".toList :: List.intercalate [.fixed " AND ".toList] (clauses.map Clause.sql)

def direction (descending : Bool) : Fragment :=
  .fixed (if descending then " DESC".toList else " ASC".toList)

def orderSql (paths : List (List Str)) (descending : Bool) : List Fragment :=
  commaSep.intercalate ((paths.map fun path => pathSql path ++ [direction descending]) ++
    [[.fixed "id".toList, direction descending]])

def Select.sql (s : Select) (extKey collection : Str) : List Fragment :=
  .fixed "SELECT id, data FROM ".toList :: tableSql extKey collection ++ whereSql s.clauses ++
    .fixed " ORDER BY ".toList :: orderSql s.paths s.descending ++
    [.fixed " LIMIT ".toList, .hole s.limitArg]

/-- What goes to the database. -/
structure Sent where
  fragments : List Fragment
  args : List Arg

def Sent.text (s : Sent) : Str := Sql.text s.fragments

/-- The statement of `Query`, up to the point where it is sent. -/
def sentByQuery (extKey collection : Str) (o : QueryOptions) : Except QueryError Sent :=
  match tableName extKey collection with
  | .error e => .error (.name e)
  | .ok _ => do
      let p ← o.plan
      let (stmt, args) ← p.statement o.cursor
      .ok ⟨stmt.sql extKey collection, args⟩

inductive AggFunc where
  | count | sum | avg | min | max
  deriving DecidableEq

def AggFunc.sql : AggFunc → Str
  | .count => "COUNT".toList
  | .sum => "SUM".toList
  | .avg => "AVG".toList
  | .min => "MIN".toList
  | .max => "MAX".toList

structure AggregateOptions where
  predicates : List Predicate
  func : Str
  field : Str
  groupBy : List Str
  deriving DecidableEq

inductive AggregateError where
  | name (e : NameError)
  | unsupportedFunction (func : Str)
  | field (e : QueryError)
  | groupBy (e : QueryError)
  | predicates (e : QueryError)
  deriving DecidableEq

def aggFuncs : List (Str × AggFunc) :=
  [("COUNT".toList, .count), ("SUM".toList, .sum), ("AVG".toList, .avg), ("MIN".toList, .min),
    ("MAX".toList, .max), ([], .count)]

/-- No function means a count. -/
def aggFuncOf (func : Str) : Option AggFunc := aggFuncs.lookup (trimUpper func)

/-- What is aggregated; a count takes whole rows. -/
def aggExpr (fn : AggFunc) (field : Str) : Except AggregateError (List Fragment) :=
  if fn = .count then .ok [.fixed "*".toList]
  else
    match jsonPath field with
    | .error e => .error (.field e)
    | .ok path => .ok (.fixed "(".toList :: pathSql path ++ [.fixed ")::numeric".toList])

def groupPaths : List Str → Except AggregateError (List (List Str))
  | [] => .ok []
  | g :: rest =>
    match jsonPath g with
    | .error e => .error (.groupBy e)
    | .ok path => (groupPaths rest).map (path :: ·)

def groupSql (groups : List (List Str)) : List Fragment :=
  match groups with
  | [] => []
  | groups => .fixed " GROUP BY ".toList :: commaSep.intercalate (groups.map pathSql)

/-- The columns of the result: the groups, then the aggregate. -/
def selectedSql (groups : List (List Str)) (fn : AggFunc) (expr : List Fragment) :
    List Fragment :=
  commaSep.intercalate (groups.map pathSql ++
    [.word fn.sql :: .fixed "(".toList :: expr ++ [.fixed ")::float8".toList]])

/-- The statement of `Aggregate`. -/
def sentByAggregate (extKey collection : Str) (o : AggregateOptions) :
    Except AggregateError Sent :=
  match tableName extKey collection with
  | .error e => .error (.name e)
  | .ok _ =>
    match aggFuncOf o.func with
    | none => .error (.unsupportedFunction o.func)
    | some fn => do
        let expr ← aggExpr fn o.field
        let groups ← groupPaths o.groupBy
        let (clauses, args) ← (buildWhere 0 o.predicates).mapError .predicates
        .ok ⟨.fixed "SELECT ".toList :: selectedSql groups fn expr ++
          .fixed " FROM ".toList :: tableSql extKey collection ++ whereSql clauses ++
          groupSql groups, args.map .text⟩

end Moduless.DB
