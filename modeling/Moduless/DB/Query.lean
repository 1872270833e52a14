import Moduless.DB.Jsonb
import Moduless.DB.TableName
import Moduless.Go.Strconv

/-!
A query of the document store: one page of the documents that meet its predicates.

The statement refers to its values by the numbers of placeholders, which are looked
up in the list of arguments when it is run. A clause that meets NULL is unknown, and
a row is selected if every clause is true of it.
-/

namespace Moduless.DB
open Go Paging

structure Predicate where
  field : Str
  op : Str
  values : List Text
  deriving DecidableEq

structure SortField where
  field : Str
  descending : Bool
  deriving DecidableEq

structure QueryOptions where
  predicates : List Predicate
  sort : List SortField
  limit : Int
  cursor : Str
  deriving DecidableEq

structure QueryResult where
  documents : List Jsonb
  ids : List Text
  nextCursor : Str
  hasMore : Bool

inductive QueryError where
  | name (e : NameError)
  | fieldRequired
  | field (field segment : Str)
  | needsOneValue (op : Str)
  | needsTwoValues
  | unsupportedOperator (op : Str)
  | mixedDirections
  | malformedCursor
  | cursorMismatch
  | undecodable
  deriving DecidableEq

inductive Comparison where
  | eq | ne | gt | gte | lt | lte | like
  deriving DecidableEq

inductive Operator where
  | compare (c : Comparison)
  | isIn
  | between
  | isNull
  | isNotNull
  deriving DecidableEq

/-- No operator means equality. -/
def normalizeOp (op : Str) : Str :=
  match trimUpper op with
  | [] => "=".toList
  | op => op

def operators : List (Str × Operator) :=
  [("=".toList, .compare .eq), ("!=".toList, .compare .ne), (">".toList, .compare .gt),
    (">=".toList, .compare .gte), ("<".toList, .compare .lt), ("<=".toList, .compare .lte),
    ("LIKE".toList, .compare .like), ("IN".toList, .isIn), ("BETWEEN".toList, .between),
    ("IS NULL".toList, .isNull), ("IS NOT NULL".toList, .isNotNull)]

def operatorOf (op : Str) : Option Operator := operators.lookup (normalizeOp op)

/-- The first segment of a path that is not an identifier is an error. -/
def checkSegments (field : Str) : List Str → Except QueryError Unit
  | [] => .ok ()
  | seg :: rest =>
    if matchesIdentifier seg then checkSegments field rest else .error (.field field seg)

/-- The path of the expression that takes a field out of the document. -/
def jsonPath (field : Str) : Except QueryError (List Str) :=
  if field = [] then .error .fieldRequired
  else (checkSegments field (split field '.')).map fun _ => split field '.'

/-- A condition of a statement. The numbers are those of placeholders. -/
inductive Clause where
  | compare (path : List Str) (c : Comparison) (n : Nat)
  | isIn (path : List Str) (ns : List Nat)
  | between (path : List Str) (lo hi : Nat)
  | isNull (path : List Str)
  | isNotNull (path : List Str)
  | never
  /-- The sort expressions and the id, compared as a row with the placeholders. -/
  | after (paths : List (List Str)) (descending : Bool) (ns : List Nat)

/-- The clause of one predicate and the values it adds to `n` arguments. -/
def clauseFor (n : Nat) (path : List Str) (p : Predicate) :
    Except QueryError (Clause × List Text) :=
  match operatorOf p.op with
  | some (.compare c) =>
    match p.values with
    | [v] => .ok (.compare path c (n + 1), [v])
    | _ => .error (.needsOneValue (normalizeOp p.op))
  | some .isIn =>
    match p.values with
    | [] => .ok (.never, [])
    | vs => .ok (.isIn path (List.range' (n + 1) vs.length), vs)
  | some .between =>
    match p.values with
    | [lo, hi] => .ok (.between path (n + 1) (n + 2), [lo, hi])
    | _ => .error .needsTwoValues
  | some .isNull => .ok (.isNull path, [])
  | some .isNotNull => .ok (.isNotNull path, [])
  | none => .error (.unsupportedOperator p.op)

def buildWhere (n : Nat) : List Predicate → Except QueryError (List Clause × List Text)
  | [] => .ok ([], [])
  | p :: rest => do
      let path ← jsonPath p.field
      let (clause, args) ← clauseFor n path p
      let (clauses, more) ← buildWhere (n + args.length) rest
      .ok (clause :: clauses, args ++ more)

/-- All sort fields have the direction of the first one. -/
def sortPaths (descending : Bool) : List SortField → Except QueryError (List (List Str))
  | [] => .ok []
  | s :: rest => do
      let path ← jsonPath s.field
      if s.descending ≠ descending then .error .mixedDirections
      else
        let paths ← sortPaths descending rest
        .ok (path :: paths)

def defaultQueryLimit : Int := 100

def maxQueryLimit : Int := 1000

def clampLimit (limit : Int) : Nat :=
  let limit := if limit ≤ 0 then defaultQueryLimit else limit
  let limit := if limit > maxQueryLimit then maxQueryLimit else limit
  limit.toNat

/-- What a query does on every page. -/
structure Plan where
  limit : Nat
  clauses : List Clause
  args : List Text
  paths : List (List Str)
  descending : Bool

def QueryOptions.descending (o : QueryOptions) : Bool :=
  match o.sort with
  | [] => false
  | s :: _ => s.descending

def QueryOptions.plan (o : QueryOptions) : Except QueryError Plan := do
  let (clauses, args) ← buildWhere 0 o.predicates
  let paths ← sortPaths o.descending o.sort
  .ok ⟨clampLimit o.limit, clauses, args, paths, o.descending⟩

inductive Arg where
  | text (s : Text)
  | int (n : Nat)

structure Select where
  clauses : List Clause
  paths : List (List Str)
  descending : Bool
  limitArg : Nat

/-- One row more than the page is asked for, to see whether there is another one. -/
def Plan.select (p : Plan) (clauses : List Clause) (args : List Text) : Select × List Arg :=
  (⟨clauses, p.paths, p.descending, args.length + 1⟩, args.map .text ++ [.int (p.limit + 1)])

def Plan.after (p : Plan) (cur : CursorPayload) : Clause :=
  .after p.paths p.descending (List.range' (p.args.length + 1) (cur.keys ++ [cur.id]).length)

def Plan.statement (p : Plan) (cursor : Str) : Except QueryError (Select × List Arg) :=
  if cursor = [] then .ok (p.select p.clauses p.args)
  else
    match decodeCursor cursor with
    | none => .error .malformedCursor
    | some cur =>
      if cur.keys.length ≠ p.paths.length then .error .cursorMismatch
      else .ok (p.select (p.clauses ++ [p.after cur]) (p.args ++ (cur.keys ++ [cur.id])))

section Database

variable (t : TextRules)

def Comparison.test (a v : Text) : Comparison → Bool
  | .eq => a = v
  | .ne => a ≠ v
  | .gt => decide (t.lt v a)
  | .gte => !decide (t.lt a v)
  | .lt => decide (t.lt a v)
  | .lte => !decide (t.lt v a)
  | .like => t.like a v

/-- The value bound to a placeholder; the first one is number 1. -/
def argText (args : List Arg) : Nat → Option Text
  | 0 => none
  | n + 1 =>
    match args[n]? with
    | some (.text s) => some s
    | _ => none

def Clause.eval (args : List Arg) (r : DocRow) : Clause → Option Bool
  | .compare path c n => do
      let v ← argText args n
      let a ← r.text t path
      some (c.test t a v)
  | .isIn path ns => do
      let vs ← ns.mapM (argText args)
      let a ← r.text t path
      some (vs.contains a)
  | .between path lo hi => do
      let lo ← argText args lo
      let hi ← argText args hi
      let a ← r.text t path
      some (!decide (t.lt a lo) && !decide (t.lt hi a))
  | .isNull path => some (r.text t path).isNone
  | .isNotNull path => some (r.text t path).isSome
  | .never => some false
  | .after paths descending ns => do
      let vs ← ns.mapM (argText args)
      rowAfter (t.order descending) (r.key t paths) vs

/-- NULL stands last in ascending order and first in descending order. -/
def sorted (paths : List (List Str)) (descending : Bool) (rows : List DocRow) : List DocRow :=
  inOrder (t.order descending) (DocRow.key t paths) (!descending) rows

def Select.run (s : Select) (args : List Arg) (rows : List DocRow) : List DocRow :=
  let found := rows.filter fun r => s.clauses.all fun c => c.eval t args r = some true
  match args[s.limitArg - 1]? with
  | some (.int n) => (sorted t s.paths s.descending found).take n
  | _ => []

end Database

/-- The loop over the rows of the result: the row after a full page only says that
there is more. -/
def scan (limit : Nat) : List DocRow → List DocRow → List DocRow × Bool
  | docs, [] => (docs, false)
  | docs, r :: rows => if docs.length = limit then (docs, true) else scan limit (docs ++ [r]) rows

def sortKeysOf (t : TextRules) (doc : Jsonb) (sort : List SortField) :
    Except QueryError (List Text) :=
  if sort = [] then .ok []
  else
    match unmarshalMap doc with
    | none => .error .undecodable
    | some parsed => .ok (sort.map fun s => lookupPath t parsed (split s.field '.'))

def nextCursor (t : TextRules) (docs : List DocRow) (hasMore : Bool) (sort : List SortField) :
    Except QueryError Str :=
  match docs.getLast? with
  | none => .ok []
  | some last =>
    if hasMore && last.id ≠ [] then
      (sortKeysOf t last.data sort).map fun keys => encodeCursor ⟨keys, last.id⟩
    else .ok []

/-- `Query` on the rows of its table. -/
def query (t : TextRules) (extKey collection : Str) (rows : List DocRow) (o : QueryOptions) :
    Except QueryError QueryResult :=
  match tableName extKey collection with
  | .error e => .error (.name e)
  | .ok _ => do
      let p ← o.plan
      let (stmt, args) ← p.statement o.cursor
      let (docs, hasMore) := scan p.limit [] (stmt.run t args rows)
      let cursor ← nextCursor t docs hasMore o.sort
      .ok ⟨docs.map DocRow.data, docs.map DocRow.id, cursor, hasMore⟩

end Moduless.DB
