import Moduless.DB.TableName
import Moduless.Go.Map

/-!
The document store and the calls a plugin makes on it.

Every statement works on the one table its name denotes. What a `SELECT` computes
from the rows of that table is a parameter of the call, and so is whether the
database refuses a statement: a broken connection, a malformed document, an id
that is too long.
-/

namespace Moduless.DB
open Go

structure Document where
  data : Str
  version : Int
  deriving DecidableEq

/-- The rows of a table by their id. -/
abbrev Table := GoMap Str Document

/-- The tables that have been created, by the identifier they are found under. -/
abbrev Database := Str → Option Table

inductive StoreError where
  | name (e : NameError)
  | undefinedTable
  | refused
  | badQuery (e : Str)
  | versionConflict
  | batchOp (index : Nat) (e : StoreError)
  deriving DecidableEq

def onTable {α : Type} (db : Database) (name : Str) (refused : Bool)
    (stmt : Table → Except StoreError α × Table) : Except StoreError α × Database :=
  match db (relation name) with
  | none => (.error .undefinedTable, db)
  | some t =>
    if refused then (.error .refused, db)
    else
      let (r, t) := stmt t
      (r, Function.update db (relation name) (some t))

def withTable {α : Type} (db : Database) (extKey collection : Str)
    (body : Str → Except StoreError α × Database) : Except StoreError α × Database :=
  match tableName extKey collection with
  | .error e => (.error (.name e), db)
  | .ok name => body name

/-- Without an expected version the document is written in any case. -/
def putVersioned (db : Database) (extKey collection docID data : Str) (expectedVersion : Int)
    (refused : Bool) : Except StoreError Int × Database :=
  withTable db extKey collection fun name => onTable db name refused fun t =>
    if expectedVersion = 0 then
      match t.get docID with
      | none => (.ok 1, t.set docID ⟨data, 1⟩)
      | some d => (.ok (d.version + 1), t.set docID ⟨data, d.version + 1⟩)
    else
      match t.get docID with
      | none => (.error .versionConflict, t)
      | some d =>
        if d.version = expectedVersion then
          (.ok (d.version + 1), t.set docID ⟨data, d.version + 1⟩)
        else (.error .versionConflict, t)

def getVersioned (db : Database) (extKey collection docID : Str) (refused : Bool) :
    Except StoreError (Option Document) × Database :=
  withTable db extKey collection fun name => onTable db name refused fun t => (.ok (t.get docID), t)

def deleteIn (db : Database) (extKey collection docID : Str) (refused : Bool) :
    Except StoreError Bool × Database :=
  withTable db extKey collection fun name => onTable db name refused fun t =>
    (.ok (t.has docID), t.delete docID)

/-- `Find`, `Query` and `Aggregate`: building the statement may fail, then it is
evaluated on the rows. -/
def select {β : Type} (db : Database) (extKey collection : Str)
    (query : Except StoreError (Table → β)) (refused : Bool) : Except StoreError β × Database :=
  withTable db extKey collection fun name =>
    match query with
    | .error e => (.error e, db)
    | .ok eval => onTable db name refused fun t => (.ok (eval t), t)

structure BatchOp where
  delete : Bool
  collection : Str
  docID : Str
  data : Str
  deriving DecidableEq

/-- The writes of a batch from the `index`th on; `refusals` says which statements
the database refuses. -/
def applyBatch (extKey : Str) (refusals : Nat → Bool) :
    Nat → Database → List BatchOp → Except StoreError Nat × Database
  | applied, db, [] => (.ok applied, db)
  | applied, db, o :: rest =>
    if o.delete then
      match deleteIn db extKey o.collection o.docID (refusals applied) with
      | (.error e, db) => (.error (.batchOp applied e), db)
      | (.ok _, db) => applyBatch extKey refusals (applied + 1) db rest
    else
      match putVersioned db extKey o.collection o.docID o.data 0 (refusals applied) with
      | (.error e, db) => (.error (.batchOp applied e), db)
      | (.ok _, db) => applyBatch extKey refusals (applied + 1) db rest

/-- A batch outside a transaction opens its own and rolls back on an error. -/
def batchWrite (db : Database) (extKey : Str) (ops : List BatchOp) (inTx : Bool)
    (refusals : Nat → Bool) : Except StoreError Nat × Database :=
  match applyBatch extKey refusals 0 db ops with
  | (.error e, db') => (.error e, if inTx then db' else db)
  | (.ok n, db') => (.ok n, db')

inductive Reply where
  | version (v : Int)
  | document (d : Option Document)
  | deleted (found : Bool)
  | documents (ids data : List Str)
  | buckets (values : List (GoMap Str Str × Int))
  | applied (n : Nat)
  deriving DecidableEq

/-- The calls of a plugin on its documents. The key comes from Core, not from the
call. -/
inductive DataCall where
  | put (collection docID data : Str) (expectedVersion : Int)
  | get (collection docID : Str)
  | delete (collection docID : Str)
  | find (collection : Str) (query : Except StoreError (Table → Reply))
  | query (collection : Str) (query : Except StoreError (Table → Reply))
  | aggregate (collection : Str) (query : Except StoreError (Table → Reply))
  | batchWrite (ops : List BatchOp) (inTx : Bool)

namespace DataCall

def collections : DataCall → List Str
  | .put c _ _ _ | .get c _ | .delete c _ | .find c _ | .query c _ | .aggregate c _ => [c]
  | .batchWrite ops _ => ops.map BatchOp.collection

def run (extKey : Str) (db : Database) (refusals : Nat → Bool) :
    DataCall → Except StoreError Reply × Database
  | .put c docID data v =>
    (putVersioned db extKey c docID data v (refusals 0)).map (·.map .version) id
  | .get c docID => (getVersioned db extKey c docID (refusals 0)).map (·.map .document) id
  | .delete c docID => (deleteIn db extKey c docID (refusals 0)).map (·.map .deleted) id
  | .find c q | .query c q | .aggregate c q => select db extKey c q (refusals 0)
  | .batchWrite ops inTx => (DB.batchWrite db extKey ops inTx refusals).map (·.map .applied) id

end DataCall
end Moduless.DB
