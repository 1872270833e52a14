import Moduless.DB.Cursor
import Moduless.Paging.RowOrder

/-!
The rows of a collection and the texts that are taken from them: by the database,
with `->>` and `#>>`, and by Core, which decodes the last document of a page to
make a cursor from it.

How numbers and nested values are rendered on either side, in which order texts
stand and which of them a pattern matches are parameters.
-/

namespace Moduless.DB
open Go

/-- A number as `jsonb` keeps it: `coef / 10 ^ scale`, with `scale` decimals. -/
structure Numeric where
  coef : Int
  scale : Nat
  deriving DecidableEq

abbrev Jsonb := Json Numeric

/-- A row of the table of a collection. -/
structure DocRow where
  id : Text
  data : Jsonb

/-- The rows of a collection; the id is the primary key. -/
structure Collection where
  rows : List DocRow
  distinct : (rows.map DocRow.id).Nodup

structure TextRules where
  lt : Text → Text → Prop
  decidable : DecidableRel lt
  strict : IsStrictTotalOrder Text lt
  /-- Asked for patterns only that the database does not refuse. -/
  like : Text → Text → Bool
  /-- A number and a nested value as the database writes them. -/
  numeric : Numeric → Text
  nested : Jsonb → Text
  /-- A number and a nested value as Go writes them. -/
  float : Numeric → Text
  marshal : Jsonb → Text

/-- The order of texts in the direction of a query. -/
def TextRules.order (t : TextRules) : Bool → Text → Text → Prop
  | false => t.lt
  | true => fun a b => t.lt b a

instance (t : TextRules) : DecidableRel t.lt := t.decidable

instance (t : TextRules) : IsStrictTotalOrder Text t.lt := t.strict

instance (t : TextRules) (descending : Bool) : DecidableRel (t.order descending) :=
  match descending with
  | false => t.decidable
  | true => fun a b => t.decidable b a

instance (t : TextRules) (descending : Bool) : IsStrictTotalOrder Text (t.order descending) :=
  match descending with
  | false => t.strict
  | true => inferInstanceAs (IsStrictTotalOrder Text (Function.swap t.lt))

def extract : Jsonb → List Str → Option Jsonb
  | v, [] => some v
  | .obj members, seg :: rest => (members.lookup seg).bind (extract · rest)
  | _, _ :: _ => none

/-- A value as a text of the database; JSON null becomes NULL. -/
def textOf (t : TextRules) : Jsonb → Option Text
  | .null => none
  | .bool b => some (if b then "true".toList else "false".toList)
  | .num n => some (t.numeric n)
  | .str s => some s
  | v => some (t.nested v)

/-- An element of `'{a,b}'` that is spelled null, in any case, is NULL. A single field
does not stand in an array. -/
def hasNullSegment : List Str → Bool
  | [] | [_] => false
  | path => path.any fun seg => seg.map Char.toLower = "null".toList

/-- `data->>'field'`, or `data#>>'{a,b}'` for a path, which is NULL if a segment is. -/
def DocRow.text (t : TextRules) (r : DocRow) (path : List Str) : Option Text :=
  if hasNullSegment path then none else (extract r.data path).bind (textOf t)

/-- The columns a query sorts by: its expressions, then the id. -/
def DocRow.key (t : TextRules) (paths : List (List Str)) (r : DocRow) : List (Option Text) :=
  paths.map (r.text t) ++ [some r.id]

/-- `strconv.ParseFloat` does not round the number to infinity. -/
def Numeric.fitsFloat (n : Numeric) : Bool :=
  n.coef.natAbs < (Nat.pow 2 54 - 1) * Nat.pow 2 970 * Nat.pow 10 n.scale

/-- `json.Unmarshal` takes the text of a value apart: numbers become floats. -/
def decodes (v : Jsonb) : Bool := v.allNumbers Numeric.fitsFloat && v.depth ≤ Json.maxNestingDepth

/-- `json.Unmarshal` into a map; null leaves it nil. -/
def unmarshalMap (doc : Jsonb) : Option Jsonb :=
  if decodes doc then
    match doc with
    | .null => some (.obj [])
    | .obj members => some (.obj members)
    | _ => none
  else none

def render (t : TextRules) : Jsonb → Text
  | .null => []
  | .str s => s
  | .num n => t.float n
  | .bool b => if b then "true".toList else "false".toList
  | v => t.marshal v

def lookupPath (t : TextRules) : Jsonb → List Str → Text
  | v, [] => render t v
  | .obj members, seg :: rest => lookupPath t ((members.lookup seg).getD .null) rest
  | _, _ :: _ => []

end Moduless.DB
