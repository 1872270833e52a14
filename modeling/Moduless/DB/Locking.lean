import Moduless.DB.Documents

/-!
Versions of one document under the calls of many clients.

A call does a list of things to a document: it writes or removes it, once for
each statement that reached the row. The version kept in the row is a function
of these effects alone, so what a client can conclude from a version it reads is
a fact about lists of effects.
-/

namespace Moduless.DB
open Go

/-- What a statement did to a document. -/
inductive DocEffect where
  | write
  | remove
  deriving DecidableEq

namespace DocEffect

/-- The version of a document starts again when it is created again. -/
def onVersion : Option Int → DocEffect → Option Int
  | none, .write => some 1
  | some v, .write => some (v + 1)
  | _, .remove => none

theorem foldl_writes {es : List DocEffect} (h : .remove ∉ es) (v : Int) :
    es.foldl onVersion (some v) = some (v + es.length) := by
  induction es generalizing v with
  | nil => simp
  | cons e es ih =>
    rw [List.mem_cons, not_or] at h
    cases e with
    | remove => exact absurd rfl h.1
    | write =>
      simp only [List.foldl_cons, onVersion, ih h.2, List.length_cons]
      congr 1
      omega

/-- Without a removal in between, a version found again is that of an untouched
document. -/
theorem eq_nil_of_foldl {es : List DocEffect} {v : Int} (h : .remove ∉ es)
    (hAgain : es.foldl onVersion (some v) = some v) : es = [] := by
  rw [foldl_writes h] at hAgain
  have hLength := Option.some.inj hAgain
  exact List.length_eq_zero_iff.mp (by omega)

/-- What a write and a delete did, from the answer of the database. -/
def ofPut : Except StoreError Int → List DocEffect
  | .ok _ => [.write]
  | .error _ => []

def ofDelete : Except StoreError Bool → List DocEffect
  | .ok true => [.remove]
  | _ => []

end DocEffect

/-- A document by the relation it is kept in and its id. -/
structure DocAddress where
  rel : Str
  docID : Str
  deriving DecidableEq

namespace DocAddress

def document (a : DocAddress) (db : Database) : Option Document :=
  (db a.rel).bind (·.get a.docID)

def version (a : DocAddress) (db : Database) : Option Int :=
  (a.document db).map Document.version

/-- A plugin's collection and id denote the document. -/
def Named (a : DocAddress) (extKey collection docID : Str) : Prop :=
  (tableName extKey collection).toOption.map relation = some a.rel ∧ docID = a.docID

instance (a : DocAddress) (k c d : Str) : Decidable (a.Named k c d) := instDecidableAnd

/-- The effects on the document of a statement that names one. -/
def seen (a : DocAddress) (extKey collection docID : Str) (es : List DocEffect) : List DocEffect :=
  if a.Named extKey collection docID then es else []

end DocAddress

section Effects

variable (a : DocAddress) (k : Str)

/-- The effects of a batch, statement by statement as `applyBatch` runs them. -/
def batchEffects (refusals : Nat → Bool) : Nat → Database → List BatchOp → List DocEffect
  | _, _, [] => []
  | applied, db, o :: rest =>
    if o.delete then
      match deleteIn db k o.collection o.docID (refusals applied) with
      | (.error _, _) => []
      | (.ok found, db) =>
        a.seen k o.collection o.docID (DocEffect.ofDelete (.ok found)) ++
          batchEffects refusals (applied + 1) db rest
    else
      match putVersioned db k o.collection o.docID o.data 0 (refusals applied) with
      | (.error _, _) => []
      | (.ok v, db) =>
        a.seen k o.collection o.docID (DocEffect.ofPut (.ok v)) ++
          batchEffects refusals (applied + 1) db rest

/-- The effects of a call that last. -/
def DataCall.effects (db : Database) (refusals : Nat → Bool) : DataCall → List DocEffect
  | .put c d data v => a.seen k c d (DocEffect.ofPut (putVersioned db k c d data v (refusals 0)).1)
  | .delete c d => a.seen k c d (DocEffect.ofDelete (deleteIn db k c d (refusals 0)).1)
  | .batchWrite ops inTx =>
    match (applyBatch k refusals 0 db ops).1, inTx with
    | .error _, false => []
    | _, _ => batchEffects a k refusals 0 db ops
  | .get .. | .find .. | .query .. | .aggregate .. => []

end Effects

section Versions

variable {a : DocAddress} {k c d : Str} {refused : Bool} {α : Type}

theorem version_statement (db : Database) {stmt : Table → Except StoreError α × Table}
    (did : Except StoreError α → List DocEffect) (hError : ∀ e, did (.error e) = [])
    (hStmt : ∀ t j, ((stmt t).2.get j).map Document.version =
      (if d = j then did (stmt t).1 else []).foldl DocEffect.onVersion
        ((t.get j).map Document.version)) :
    let out := withTable db k c fun name => onTable db name refused stmt
    a.version out.2 = (a.seen k c d (did out.1)).foldl DocEffect.onVersion (a.version db) := by
  cases hName : tableName k c with
  | error e => simp [withTable, DocAddress.seen, hName, hError]
  | ok n =>
    have hNamed : a.Named k c d ↔ relation n = a.rel ∧ d = a.docID := by
      simp [DocAddress.Named, hName, Except.toOption]
    simp only [withTable, onTable, DocAddress.seen, hName, hNamed]
    cases hRows : db (relation n) with
    | none => simp [hError]
    | some t =>
      cases refused with
      | true => simp [hError]
      | false =>
        by_cases hRel : relation n = a.rel
        · have hBefore : a.version db = (t.get a.docID).map Document.version := by
            simp [DocAddress.version, DocAddress.document, ← hRel, hRows]
          simp only [Bool.false_eq_true, if_false, hRel, true_and, hBefore, ← hStmt]
          simp [DocAddress.version, DocAddress.document]
        · simp [DocAddress.version, DocAddress.document, hRel,
            Function.update_of_ne (Ne.symm hRel)]

theorem version_putVersioned (db : Database) (k c d data : Str) (v : Int) (refused : Bool) :
    a.version (putVersioned db k c d data v refused).2 =
      (a.seen k c d (DocEffect.ofPut (putVersioned db k c d data v refused).1)).foldl
        DocEffect.onVersion (a.version db) := by
  refine version_statement db DocEffect.ofPut (fun _ => rfl) fun t j => ?_
  by_cases hj : d = j
  · subst hj
    cases hGet : t.get d with
    | none => by_cases hv : v = 0 <;> simp [hv, hGet, DocEffect.ofPut, DocEffect.onVersion]
    | some doc =>
      by_cases hv : v = 0
      · simp [hv, DocEffect.ofPut, DocEffect.onVersion]
      · by_cases hSame : doc.version = v <;>
          simp [hv, hSame, hGet, DocEffect.ofPut, DocEffect.onVersion]
  · have hOther (x : Document) : (t.set d x).get j = t.get j := by
      simp [GoMap.get_set, Ne.symm hj]
    cases t.get d with
    | none => by_cases hv : v = 0 <;> simp [hv, hj, hOther]
    | some doc =>
      by_cases hv : v = 0
      · simp [hv, hj, hOther]
      · by_cases hSame : doc.version = v <;> simp [hv, hSame, hj, hOther]

theorem version_deleteIn (db : Database) (k c d : Str) (refused : Bool) :
    a.version (deleteIn db k c d refused).2 =
      (a.seen k c d (DocEffect.ofDelete (deleteIn db k c d refused).1)).foldl DocEffect.onVersion
        (a.version db) := by
  refine version_statement db DocEffect.ofDelete (fun _ => rfl) fun t j => ?_
  by_cases hj : d = j
  · subst hj
    cases hGet : t.get d <;>
      simp [GoMap.has, hGet, GoMap.get_delete, DocEffect.ofDelete, DocEffect.onVersion]
  · simp [hj, GoMap.get_delete, Ne.symm hj]

theorem version_select {β : Type} (db : Database) (query : Except StoreError (Table → β)) :
    a.version (select db k c query refused).2 = a.version db := by
  cases query with
  | error e => cases hName : tableName k c <;> simp [select, withTable, hName]
  | ok eval =>
    refine (version_statement (d := a.docID) db (fun _ => []) (fun _ => rfl)
      fun t j => ?_).trans ?_
    · simp
    · simp [DocAddress.seen]

theorem version_getVersioned (db : Database) :
    a.version (getVersioned db k c d refused).2 = a.version db :=
  version_select db (.ok (·.get d))

theorem version_applyBatch (refusals : Nat → Bool) (ops : List BatchOp) (applied : Nat)
    (db : Database) :
    a.version (applyBatch k refusals applied db ops).2 =
      (batchEffects a k refusals applied db ops).foldl DocEffect.onVersion (a.version db) := by
  induction ops generalizing applied db with
  | nil => rfl
  | cons o ops ih =>
    simp only [applyBatch, batchEffects]
    cases o.delete with
    | true =>
      have hDelete := version_deleteIn (a := a) db k o.collection o.docID (refusals applied)
      cases hRun : deleteIn db k o.collection o.docID (refusals applied) with
      | mk r db' =>
        rw [hRun] at hDelete
        cases r with
        | error e => simpa [DocEffect.ofDelete, DocAddress.seen] using hDelete
        | ok found => simp only [if_true, ih, List.foldl_append, hDelete]
    | false =>
      have hPut := version_putVersioned (a := a) db k o.collection o.docID o.data 0
        (refusals applied)
      cases hRun : putVersioned db k o.collection o.docID o.data 0 (refusals applied) with
      | mk r db' =>
        rw [hRun] at hPut
        cases r with
        | error e => simpa [DocEffect.ofPut, DocAddress.seen] using hPut
        | ok v => simp only [Bool.false_eq_true, if_false, ih, List.foldl_append, hPut]

/-- A call moves the version of a document by the effects it has on it. -/
theorem DataCall.version_run (db : Database) (refusals : Nat → Bool) (call : DataCall) :
    a.version (call.run k db refusals).2 =
      (call.effects a k db refusals).foldl DocEffect.onVersion (a.version db) := by
  cases call with
  | put c d data v => exact version_putVersioned db k c d data v _
  | get c d => exact version_getVersioned db
  | delete c d => exact version_deleteIn db k c d _
  | find c q | query c q | aggregate c q => exact version_select db q
  | batchWrite ops inTx =>
    have hBatch := version_applyBatch (a := a) (k := k) refusals ops 0 db
    simp only [DataCall.run, DataCall.effects, DB.batchWrite]
    cases hRun : applyBatch k refusals 0 db ops with
    | mk r db' =>
      rw [hRun] at hBatch
      cases r with
      | ok n => exact hBatch
      | error e =>
        cases inTx with
        | true => exact hBatch
        | false => rfl

end Versions

/-- The answer to a call reaches its client, or the call fails as a whole before
it takes effect, or it takes effect and its answer gets lost. -/
inductive Delivery where
  | answered
  | aborted
  | lost
  deriving DecidableEq

/-- A call outside any transaction of the plugin. -/
def DataCall.Autocommit : DataCall → Prop
  | .batchWrite _ inTx => inTx = false
  | _ => True

/-- A call by one of the clients, each statement or batch in a transaction of its
own. -/
structure Access where
  client : Nat
  extKey : Str
  call : DataCall
  refusals : Nat → Bool := fun _ => false
  delivery : Delivery := .answered
  autocommit : call.Autocommit

namespace Access

def run (x : Access) (db : Database) : Except StoreError Reply × Database :=
  match x.delivery with
  | .answered => x.call.run x.extKey db x.refusals
  | .aborted => (.error .refused, db)
  | .lost => (.error .refused, (x.call.run x.extKey db x.refusals).2)

def effects (x : Access) (a : DocAddress) (db : Database) : List DocEffect :=
  match x.delivery with
  | .aborted => []
  | _ => x.call.effects a x.extKey db x.refusals

theorem version_run (x : Access) (a : DocAddress) (db : Database) :
    a.version (x.run db).2 = (x.effects a db).foldl DocEffect.onVersion (a.version db) := by
  cases hDelivery : x.delivery with
  | aborted => simp [run, effects, hDelivery]
  | answered | lost =>
    simp only [run, effects, hDelivery]
    exact x.call.version_run db x.refusals

/-- The database after the accesses of an interleaving. -/
def runAll (db : Database) (xs : List Access) : Database :=
  xs.foldl (fun db x => (x.run db).2) db

/-- Each access of an interleaving with the database it found. -/
def history : Database → List Access → List (Access × Database)
  | _, [] => []
  | db, x :: xs => (x, db) :: history (x.run db).2 xs

theorem version_runAll (a : DocAddress) (xs : List Access) (db : Database) :
    a.version (runAll db xs) =
      ((history db xs).flatMap fun e => e.1.effects a e.2).foldl DocEffect.onVersion
        (a.version db) := by
  induction xs generalizing db with
  | nil => rfl
  | cons x xs ih =>
    simp only [history, List.flatMap_cons, List.foldl_append, ← version_run]
    exact ih _

end Access
end Moduless.DB
