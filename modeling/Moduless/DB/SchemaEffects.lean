import Moduless.DB.Schema

/-!
What a reconciliation that returns without an error has done to the indexes.

The statements of such a run have all been executed, so the indexes after it are a
function of those before it: the declared ones are created where their names are free,
then the stale ones of the table are dropped.
-/

namespace Moduless.CollectionDecl
open Go DB

/-- The indexes of a collection that are created: those with a field. -/
def declared (col : CollectionDecl) : List IndexDecl :=
  col.indexes.filter fun idx => idx.fields ≠ []

def names (extKey : Str) (col : CollectionDecl) : List Str :=
  col.declared.map fun idx => indexName extKey col.name idx.fields

/-- The text of the table's name in the statements. -/
def table (extKey : Str) (col : CollectionDecl) : Str :=
  "ext_".toList ++ (extKey ++ '_' :: col.name)

/-- The names and the fields of the collection are accepted. -/
def Accepted (extKey : Str) (col : CollectionDecl) : Prop :=
  matchesIdentifier extKey = true ∧ matchesIdentifier col.name = true ∧
    ∀ idx ∈ col.declared, ∀ f ∈ idx.fields, matchesIdentifier f = true

end Moduless.CollectionDecl

namespace Moduless.DB
open Go Interaction Program Machine

/-- The expression indexed for a field, without the check of its name. -/
def pathExpr (field : Str) : Str := "(data->>'".toList ++ field ++ "')".toList

def indexPrefix (extKey collection : Str) : Str :=
  "idx_".toList ++ extKey ++ "_".toList ++ collection ++ "_".toList

namespace Catalog

/-- The indexes after those of a collection have been declared. -/
def declare (extKey collection table : Str) (c : Catalog) (idxs : List IndexDecl) : Catalog :=
  idxs.foldl (fun c idx => c.create idx.unique (indexName extKey collection idx.fields) table
    (idx.fields.map pathExpr)) c

/-- Without the listed indexes that are not wanted. -/
def prune (c : Catalog) (table pattern : Str) (desired : List Str) : Catalog :=
  c.filter fun x => ∀ name ∈ c.list table pattern,
    name ∉ desired → matchesIdentifier name = true → x.indexname ≠ relation name

def reconcile (extKey : Str) (c : Catalog) (col : CollectionDecl) : Catalog :=
  (c.declare extKey col.name (col.table extKey) col.declared).prune (col.table extKey)
    (indexPrefix extKey col.name ++ "%".toList) (col.names extKey)

end Catalog

section Success

variable {c c' : Catalog} {t : List (Event SchemaHost)} {extKey collection table : Str}

theorem runs_early {α β : Type} {x : SchemaM α} {f : α → SchemaM β} {b : β}
    (h : schema.Runs c (x >>= f).run t (.ok b) c') :
    ∃ a u v c₁, schema.Runs c x.run u (.ok a) c₁ ∧ schema.Runs c₁ (f a).run v (.ok b) c' := by
  obtain ⟨out, u, v, c₁, -, hFirst, hRest⟩ := runs_bind.mp h
  cases out with
  | error e =>
    obtain ⟨-, hEq, -⟩ := runs_ret.mp hRest
    cases hEq
  | ok a => exact ⟨a, u, v, c₁, hFirst, hRest⟩

theorem runs_statement {α : Type} {o : SchemaOp} {f : o.Ans → SchemaM α} {r : Except SchemaError α}
    (h : schema.Runs c (statement o >>= f).run t r c') :
    ∃ a c₁ u, schema.Exec c ⟨o, a⟩ c₁ ∧ schema.Runs c₁ (f a).run u r c' := by
  obtain ⟨a, c₁, u, -, hExec, hRest⟩ := runs_call.mp h
  exact ⟨a, c₁, u, hExec, hRest⟩

theorem runs_required {e : SchemaError} {ok : Bool}
    (h : schema.Runs c (if ok = true then pure () else throw e : SchemaM Unit).run t (.ok ()) c') :
    ok = true ∧ c = c' := by
  cases ok with
  | true => exact ⟨rfl, (runs_ret.mp h).2.2⟩
  | false =>
    obtain ⟨-, hEq, -⟩ := runs_ret.mp h
    cases hEq

theorem execute_true {o : SchemaOp} {d : Delivery} (h : d.execute o c = (true, c')) :
    c' = o.effect c := by
  cases d with
  | answered => exact (Prod.mk.inj h).2.symm
  | aborted | lost => cases (Prod.mk.inj h).1

theorem runs_createTable (h : schema.Runs c (createTable table).run t (.ok ()) c') : c' = c := by
  obtain ⟨ok, c₁, u, ⟨d, hExec⟩, hRest⟩ := runs_statement h
  obtain ⟨rfl, rfl⟩ := runs_required hRest
  exact execute_true (Option.some.inj hExec)

theorem runs_addVersion (h : schema.Runs c (addVersion table).run t (.ok ()) c') : c' = c := by
  obtain ⟨ok, c₁, u, ⟨d, hExec⟩, hRest⟩ := runs_statement h
  obtain ⟨rfl, rfl⟩ := runs_required hRest
  exact execute_true (Option.some.inj hExec)

theorem runs_createIndex {unique : Bool} {name : Str} {exprs : List Str}
    (h : schema.Runs c (createIndex unique name table exprs).run t (.ok ()) c') :
    c' = c.create unique name table exprs := by
  obtain ⟨ok, c₁, u, ⟨d, hExec⟩, hRest⟩ := runs_statement h
  obtain ⟨rfl, rfl⟩ := runs_required hRest
  exact execute_true (Option.some.inj hExec)

theorem mapM_jsonPathExpr {fields exprs : List Str} (h : fields.mapM jsonPathExpr = .ok exprs) :
    exprs = fields.map pathExpr ∧ ∀ f ∈ fields, matchesIdentifier f = true := by
  induction fields generalizing exprs with
  | nil =>
    cases h
    exact ⟨rfl, by simp⟩
  | cons f fields ih =>
    rw [List.mapM_cons] at h
    by_cases hf : matchesIdentifier f = true
    · rw [jsonPathExpr, if_pos hf] at h
      cases hRest : fields.mapM jsonPathExpr with
      | error e =>
        rw [hRest] at h
        cases h
      | ok rest =>
        rw [hRest] at h
        cases h
        obtain ⟨rfl, hAll⟩ := ih hRest
        exact ⟨rfl, List.forall_mem_cons.mpr ⟨hf, hAll⟩⟩
    · rw [jsonPathExpr, if_neg hf] at h
      cases h

theorem runs_declareIndexes {idxs : List IndexDecl} {desired names : List Str}
    (h : schema.Runs c (declareIndexes extKey collection table desired idxs).run t (.ok names) c') :
    names = desired ++ (idxs.filter fun idx => idx.fields ≠ []).map
        (fun idx => indexName extKey collection idx.fields) ∧
      c' = c.declare extKey collection table (idxs.filter fun idx => idx.fields ≠ []) ∧
      ∀ idx ∈ idxs.filter (fun idx => idx.fields ≠ []), ∀ f ∈ idx.fields,
        matchesIdentifier f = true := by
  induction idxs generalizing desired c t with
  | nil =>
    obtain ⟨-, hNames, rfl⟩ := runs_ret.mp h
    cases hNames
    exact ⟨by simp, rfl, by simp⟩
  | cons idx rest ih =>
    rw [declareIndexes] at h
    by_cases hFields : idx.fields = []
    · rw [if_pos hFields] at h
      simpa [hFields] using ih h
    · rw [if_neg hFields] at h
      cases hExprs : idx.fields.mapM jsonPathExpr with
      | error e =>
        rw [hExprs] at h
        obtain ⟨-, hEq, -⟩ := runs_ret.mp h
        cases hEq
      | ok exprs =>
        rw [hExprs] at h
        obtain ⟨_, _, _, c₁, hCreate, hRest⟩ := runs_early h
        obtain ⟨rfl, hValid⟩ := mapM_jsonPathExpr hExprs
        obtain ⟨hNames, rfl, hAll⟩ := ih hRest
        rw [runs_createIndex hCreate]
        have hFilter : (idx :: rest).filter (fun idx => idx.fields ≠ []) =
            idx :: rest.filter fun idx => idx.fields ≠ [] := by simp [hFields]
        rw [hFilter]
        refine ⟨by simp [hNames], rfl, List.forall_mem_cons.mpr ⟨hValid, hAll⟩⟩

theorem runs_dropAll {names : List Str} (h : schema.Runs c (dropAll names).run t (.ok ()) c') :
    c' = c.filter fun x => ∀ name ∈ names, matchesIdentifier name = true →
      x.indexname ≠ relation name := by
  induction names generalizing c t with
  | nil =>
    obtain ⟨-, -, rfl⟩ := runs_ret.mp h
    simp
  | cons name rest ih =>
    rw [dropAll] at h
    by_cases hName : matchesIdentifier name = true
    · rw [if_neg (by simp [hName])] at h
      obtain ⟨ok, c₁, u, ⟨d, hExec⟩, hRest⟩ := runs_statement h
      cases ok with
      | false =>
        obtain ⟨-, hEq, -⟩ := runs_ret.mp hRest
        cases hEq
      | true =>
        have hDrop : c₁ = c.drop name := execute_true (Option.some.inj hExec)
        rw [ih hRest, hDrop, Catalog.drop, List.filter_filter]
        apply List.filter_congr
        intro x _
        simp [hName, Bool.and_comm]
    · rw [if_pos (by simp [hName])] at h
      rw [ih h]
      apply List.filter_congr
      intro x _
      simp [hName]

theorem pattern_eq (extKey collection : Str) :
    "idx_".toList ++ extKey ++ "_".toList ++ collection ++ "_%".toList =
      indexPrefix extKey collection ++ "%".toList := by
  have hEnd : ∀ s : Str, s ++ "_%".toList = s ++ "_".toList ++ "%".toList := by
    intro s
    exact (List.append_assoc s ['_'] ['%']).symm
  exact hEnd _

theorem exec_listIndexes {pattern : Str} {names : List Str}
    (h : schema.Exec c ⟨.listIndexes table pattern, some names⟩ c') :
    names.Perm (c.list table pattern) ∧ c' = c := by
  obtain ⟨choice, hExec⟩ := h
  cases choice with
  | none => cases (Prod.mk.inj (Option.some.inj hExec)).1
  | some found =>
    obtain ⟨hFound, hEq⟩ := Option.ite_none_right_eq_some.mp hExec
    cases hEq
    exact ⟨hFound, rfl⟩

theorem runs_dropStaleIndexes {desired : List Str}
    (h : schema.Runs c (dropStaleIndexes extKey collection table desired).run t (.ok ()) c') :
    c' = c.prune table (indexPrefix extKey collection ++ "%".toList) desired := by
  rw [dropStaleIndexes, pattern_eq] at h
  obtain ⟨rows, c₁, u, hExec, hRest⟩ := runs_statement h
  cases rows with
  | none =>
    obtain ⟨-, hEq, -⟩ := runs_ret.mp hRest
    cases hEq
  | some names =>
    obtain ⟨hFound, rfl⟩ := exec_listIndexes hExec
    rw [runs_dropAll hRest, Catalog.prune]
    apply List.filter_congr
    intro x _
    simp only [List.mem_filter, decide_eq_true_eq, and_imp, hFound.mem_iff]

theorem tableName_ok {extKey collection table : Str} (h : tableName extKey collection = .ok table) :
    matchesIdentifier extKey = true ∧ matchesIdentifier collection = true := by
  unfold tableName at h
  cases hKey : matchesIdentifier extKey with
  | false =>
    rw [hKey] at h
    cases h
  | true =>
    cases hName : matchesIdentifier collection with
    | false =>
      rw [hKey, hName] at h
      cases h
    | true => exact ⟨rfl, rfl⟩

/-- What a reconciliation leaves when it returns nil. -/
theorem runs_reconcileSchema {cols : List CollectionDecl}
    (h : schema.Runs c (reconcileSchema extKey cols).run t (.ok ()) c') :
    c' = cols.foldl (Catalog.reconcile extKey) c ∧ ∀ col ∈ cols, col.Accepted extKey := by
  induction cols generalizing c t with
  | nil =>
    obtain ⟨-, -, rfl⟩ := runs_ret.mp h
    exact ⟨rfl, by simp⟩
  | cons col rest ih =>
    rw [reconcileSchema] at h
    cases hTable : tableName extKey col.name with
    | error e =>
      rw [hTable] at h
      obtain ⟨-, hEq, -⟩ := runs_ret.mp h
      cases hEq
    | ok table =>
      rw [hTable] at h
      obtain ⟨_, _, _, c₁, hCreate, h⟩ := runs_early h
      obtain ⟨_, _, _, c₂, hVersion, h⟩ := runs_early h
      obtain ⟨desired, _, _, c₃, hDeclare, h⟩ := runs_early h
      obtain ⟨_, _, _, c₄, hDrop, hRest⟩ := runs_early h
      obtain ⟨hNames, hIndexes, hFields⟩ := runs_declareIndexes hDeclare
      obtain ⟨hEnd, hAll⟩ := ih hRest
      have hStep : c₄ = c.reconcile extKey col := by
        rw [runs_dropStaleIndexes hDrop, hIndexes, runs_addVersion hVersion,
          runs_createTable hCreate, hNames, List.nil_append, tableName_eq hTable]
        rfl
      refine ⟨by rw [hEnd, hStep, List.foldl_cons], List.forall_mem_cons.mpr ⟨?_, hAll⟩⟩
      exact ⟨(tableName_ok hTable).1, (tableName_ok hTable).2, hFields⟩

end Success
end Moduless.DB
