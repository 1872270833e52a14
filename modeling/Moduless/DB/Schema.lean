import Moduless.DB.Locking
import Moduless.Interaction.Early
import Moduless.Manifest.Declaration

/-!
How the collections a plugin declares become tables and indexes.

`reconcileSchema` is a program over the statements it sends. A statement that fails ends
it, and what it has done by then stays. The catalog holds the indexes made by
`CREATE INDEX`; PostgreSQL folds and cuts the unquoted names in a statement, while Core
compares the names it reads back with those it wrote.
-/

namespace Moduless.DB
open Go Interaction Program Machine

/-- A row of `pg_indexes`, with what the index was declared as. -/
structure IndexRow where
  indexname : Str
  tablename : Str
  unique : Bool
  exprs : List Str
  deriving DecidableEq

abbrev Catalog := List IndexRow

inductive SchemaOp where
  | createTable (table : Str)
  | addVersion (table : Str)
  | createIndex (unique : Bool) (name table : Str) (exprs : List Str)
  | listIndexes (table pattern : Str)
  | dropIndex (name : Str)

/-- Whether the statement succeeded, and the names a query found. -/
@[reducible] def SchemaOp.Ans : SchemaOp → Type
  | .listIndexes _ _ => Option (List Str)
  | .createTable _ | .addVersion _ | .createIndex _ _ _ _ | .dropIndex _ => Bool

def SchemaHost : Interface := ⟨SchemaOp, SchemaOp.Ans⟩

inductive SchemaError where
  | name (e : NameError)
  | field (name : Str)
  | createTable (table : Str)
  | addVersion (table : Str)
  | createIndex (name : Str)
  | listIndexes (table : Str)
  | dropIndex (name : Str)
  deriving DecidableEq

abbrev SchemaM := ExceptT SchemaError (Program SchemaHost)

def statement (o : SchemaOp) : SchemaM o.Ans := liftM (Program.perform (I := SchemaHost) o)

def indexName (extKey collection : Str) (fields : List Str) : Str :=
  "idx_".toList ++ extKey ++ "_".toList ++ collection ++ "_".toList ++ join fields '_'

def jsonPathExpr (field : Str) : Except SchemaError Str :=
  if matchesIdentifier field then .ok ("(data->>'".toList ++ field ++ "')".toList)
  else .error (.field field)

def createTable (table : Str) : SchemaM Unit := do
  let ok ← statement (.createTable table)
  if ok then pure () else throw (.createTable table)

def addVersion (table : Str) : SchemaM Unit := do
  let ok ← statement (.addVersion table)
  if ok then pure () else throw (.addVersion table)

def createIndex (unique : Bool) (name table : Str) (exprs : List Str) : SchemaM Unit := do
  let ok ← statement (.createIndex unique name table exprs)
  if ok then pure () else throw (.createIndex name)

/-- The loop over the indexes of a collection; the names it wants are collected. -/
def declareIndexes (extKey collection table : Str) (desired : List Str) :
    List IndexDecl → SchemaM (List Str)
  | [] => pure desired
  | idx :: rest =>
    if idx.fields = [] then declareIndexes extKey collection table desired rest
    else
      match idx.fields.mapM jsonPathExpr with
      | .error e => throw e
      | .ok exprs => do
          let name := indexName extKey collection idx.fields
          createIndex idx.unique name table exprs
          declareIndexes extKey collection table (desired ++ [name]) rest

/-- The drops at the end of `dropStaleIndexes`. -/
def dropAll : List Str → SchemaM Unit
  | [] => pure ()
  | name :: rest =>
    if !matchesIdentifier name then dropAll rest
    else do
      let ok ← statement (.dropIndex name)
      if ok then dropAll rest else throw (.dropIndex name)

def dropStaleIndexes (extKey collection table : Str) (desired : List Str) : SchemaM Unit := do
  let pattern := "idx_".toList ++ extKey ++ "_".toList ++ collection ++ "_%".toList
  let rows ← statement (.listIndexes table pattern)
  match rows with
  | none => throw (.listIndexes table)
  | some names => dropAll (names.filter (· ∉ desired))

def reconcileSchema (extKey : Str) : List CollectionDecl → SchemaM Unit
  | [] => pure ()
  | col :: rest =>
    match tableName extKey col.name with
    | .error e => throw (.name e)
    | .ok table => do
        createTable table
        addVersion table
        let desired ← declareIndexes extKey col.name table [] col.indexes
        dropStaleIndexes extKey col.name table desired
        reconcileSchema extKey rest

/-- SQL's `LIKE`, for patterns without escapes. -/
def like : Str → Str → Bool
  | [], s => s.isEmpty
  | c :: pattern, s =>
    if c = '%' then s.tails.any (like pattern)
    else
      match s with
      | [] => false
      | d :: rest => (c = '_' || c = d) && like pattern rest

namespace Catalog

variable (c : Catalog)

def create (unique : Bool) (name table : Str) (exprs : List Str) : Catalog :=
  if c.any fun x => x.indexname = relation name then c
  else c ++ [⟨relation name, relation table, unique, exprs⟩]

def drop (name : Str) : Catalog := c.filter fun x => x.indexname ≠ relation name

def list (table pattern : Str) : List Str :=
  (c.filter fun x => x.tablename = table && like pattern x.indexname).map IndexRow.indexname

end Catalog

def SchemaOp.effect : SchemaOp → Catalog → Catalog
  | .createIndex unique name table exprs, c => c.create unique name table exprs
  | .dropIndex name, c => c.drop name
  | .createTable _, c | .addVersion _, c | .listIndexes _ _, c => c

/-- How a statement is delivered, or the order of the rows that were found. -/
@[reducible] def SchemaOp.Choice : SchemaOp → Type
  | .listIndexes _ _ => Option (List Str)
  | .createTable _ | .addVersion _ | .createIndex _ _ _ _ | .dropIndex _ => Delivery

def Delivery.execute (d : Delivery) (o : SchemaOp) (c : Catalog) : Bool × Catalog :=
  match d with
  | .answered => (true, o.effect c)
  | .aborted => (false, c)
  | .lost => (false, o.effect c)

def SchemaOp.exec (c : Catalog) : (o : SchemaOp) → o.Choice → Option (o.Ans × Catalog)
  | .createTable table, d => some (d.execute (.createTable table) c)
  | .addVersion table, d => some (d.execute (.addVersion table) c)
  | .createIndex unique name table exprs, d =>
    some (d.execute (.createIndex unique name table exprs) c)
  | .dropIndex name, d => some (d.execute (.dropIndex name) c)
  | .listIndexes _ _, none => some (none, c)
  | .listIndexes table pattern, some names =>
    if names.Perm (Catalog.list c table pattern) then some (some names, c) else none

def schema : Machine SchemaHost Catalog := ⟨SchemaOp.Choice, SchemaOp.exec⟩

section Effects

variable {c c' : Catalog} {o : SchemaOp}

theorem exec_schema {r : o.Ans} (h : schema.Exec c ⟨o, r⟩ c') : c' = c ∨ c' = o.effect c := by
  obtain ⟨d, hExec⟩ := h
  have hDelivered : ∀ {d : Delivery} {ok : Bool},
      some (d.execute o c) = some (ok, c') → c' = c ∨ c' = o.effect c := by
    intro d ok hSome
    obtain ⟨-, rfl⟩ := Prod.mk.inj (Option.some.inj hSome)
    cases d with
    | answered => exact .inr rfl
    | aborted => exact .inl rfl
    | lost => exact .inr rfl
  cases o with
  | listIndexes table pattern =>
    cases d with
    | none => exact .inl (Prod.mk.inj (Option.some.inj hExec)).2.symm
    | some names =>
      change (if names.Perm (c.list table pattern) then some (some names, c) else none) =
        some (r, c') at hExec
      by_cases hFound : names.Perm (c.list table pattern)
      · rw [if_pos hFound] at hExec
        exact .inl (Prod.mk.inj (Option.some.inj hExec)).2.symm
      · rw [if_neg hFound] at hExec
        cases hExec
  | createTable table | addVersion table | createIndex u n t es | dropIndex n =>
    exact hDelivered hExec

theorem exec_effect (c : Catalog) (o : SchemaOp) : ∃ r, schema.Exec c ⟨o, r⟩ (o.effect c) := by
  cases o with
  | listIndexes table pattern =>
    exact ⟨none, none, rfl⟩
  | createTable table | addVersion table | createIndex u n t es | dropIndex n =>
    exact ⟨true, Delivery.answered, rfl⟩

def SchemaOp.failure : (o : SchemaOp) → o.Ans
  | .listIndexes _ _ => none
  | .createTable _ | .addVersion _ | .createIndex _ _ _ _ | .dropIndex _ => false

theorem exec_failure (c : Catalog) (o : SchemaOp) : schema.Exec c ⟨o, o.failure⟩ c := by
  cases o with
  | listIndexes table pattern => exact ⟨none, rfl⟩
  | createTable table | addVersion table | createIndex u n t es | dropIndex n =>
    exact ⟨Delivery.aborted, rfl⟩

end Effects

def SameOn (tables : List Str) (c c' : Catalog) : Prop :=
  ∀ x : IndexRow, x.tablename ∈ tables → (x ∈ c ↔ x ∈ c')

/-- An index that is to be created on one of the tables exists, and the index that is
dropped is on another table. -/
def Harmless (tables : List Str) (c : Catalog) : SchemaOp → Prop
  | .createIndex _ name table _ =>
    relation table ∈ tables → ∃ x ∈ c, x.indexname = relation name
  | .dropIndex name => ∀ x ∈ c, x.indexname = relation name → x.tablename ∉ tables
  | .createTable _ | .addVersion _ | .listIndexes _ _ => True

section SameOn

variable {tables : List Str} {c c' c'' : Catalog}

theorem SameOn.refl (tables : List Str) (c : Catalog) : SameOn tables c c := fun _ _ => Iff.rfl

theorem SameOn.trans (h : SameOn tables c c') (h' : SameOn tables c' c'') :
    SameOn tables c c'' := fun x hx => (h x hx).trans (h' x hx)

theorem SameOn.symm (h : SameOn tables c c') : SameOn tables c' c :=
  fun x hx => (h x hx).symm

theorem sameOn_create_iff (c : Catalog) (unique : Bool) (name table : Str) (exprs : List Str) :
    SameOn tables c (c.create unique name table exprs) ↔
      (relation table ∈ tables → ∃ x ∈ c, x.indexname = relation name) := by
  have hAny : (c.any fun x => x.indexname = relation name) = true ↔
      ∃ x ∈ c, x.indexname = relation name := by simp
  unfold Catalog.create
  split
  next hTaken => exact iff_of_true (SameOn.refl _ _) fun _ => hAny.mp hTaken
  next hFree =>
    rw [hAny] at hFree
    constructor
    · intro hSame hTable
      refine absurd ?_ hFree
      exact ⟨_, (hSame ⟨relation name, relation table, unique, exprs⟩ hTable).mpr (by simp), rfl⟩
    · intro hTaken x hx
      have hNew : x ≠ ⟨relation name, relation table, unique, exprs⟩ := by
        rintro rfl
        exact hFree (hTaken hx)
      simp [hNew]

theorem sameOn_drop_iff (c : Catalog) (name : Str) :
    SameOn tables c (c.drop name) ↔
      ∀ x ∈ c, x.indexname = relation name → x.tablename ∉ tables := by
  constructor
  · intro hSame x hx hName hTable
    have hKept := (hSame x hTable).mp hx
    simp [Catalog.drop, hName] at hKept
  · intro hOther x hx
    simp only [Catalog.drop, List.mem_filter, decide_eq_true_eq, iff_self_and]
    exact fun hMem hName => hOther x hMem hName hx

theorem sameOn_effect_iff (c : Catalog) (o : SchemaOp) :
    SameOn tables c (o.effect c) ↔ Harmless tables c o := by
  cases o with
  | createIndex unique name table exprs => exact sameOn_create_iff c unique name table exprs
  | dropIndex name => exact sameOn_drop_iff c name
  | createTable table | addVersion table | listIndexes table pattern =>
    exact iff_of_true (SameOn.refl _ _) trivial

end SameOn
end Moduless.DB
