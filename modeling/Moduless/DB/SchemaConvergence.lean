import Moduless.DB.SchemaRows

/-!
Whether reconciling reaches the declared schema.

Core knows an index by its name, which neither tells where one field ends and the next one
begins nor whether the index is unique. The indexes come out as declared exactly if the
names under which they are stored tell them apart, are not taken by other indexes when
their turn comes, and are found again under the names Core wrote.
-/

namespace Moduless.DB
open Go Interaction Program Machine

/-- The indexes on the collection's table are the declared ones, each with its fields and
its uniqueness. -/
def AsDeclared (extKey : Str) (col : CollectionDecl) (c : Catalog) : Prop :=
  (∀ x ∈ c, x.tablename = relation (col.table extKey) →
      ∃ idx ∈ col.declared, x.exprs = idx.fields.map pathExpr ∧ x.unique = idx.unique) ∧
    ∀ idx ∈ col.declared, ∃ x ∈ c, x.tablename = relation (col.table extKey) ∧
      x.exprs = idx.fields.map pathExpr ∧ x.unique = idx.unique

instance (extKey : Str) (col : CollectionDecl) (c : Catalog) :
    Decidable (AsDeclared extKey col c) := inferInstanceAs (Decidable (_ ∧ _))

/-- Reconciling once more changes nothing, however it ends. -/
def Settled (extKey : Str) (cols : List CollectionDecl) (c : Catalog) : Prop :=
  ∀ t r c', schema.Runs c (reconcileSchema extKey cols).run t r c' → c' = c

/-- The name under which an index is stored. -/
def storedName (extKey : Str) (col : CollectionDecl) (idx : IndexDecl) : Str :=
  relation (indexName extKey col.name idx.fields)

structure Distinguished (extKey : Str) (cols : List CollectionDecl) (c : Catalog) : Prop where
  /-- Indexes stored under one name are one index. -/
  once : ∀ col ∈ cols, ∀ idx ∈ col.declared, ∀ col' ∈ cols, ∀ idx' ∈ col'.declared,
    storedName extKey col idx = storedName extKey col' idx' → col.name = col'.name ∧ idx = idx'
  /-- An index that has the name already is the declared one, or is on the table of an
  earlier collection and dropped in time. -/
  free : ∀ before col after, cols = before ++ col :: after → ∀ idx ∈ col.declared, ∀ x ∈ c,
    x.indexname = storedName extKey col idx →
      (x.tablename = relation (col.table extKey) ∧ x.exprs = idx.fields.map pathExpr ∧
        x.unique = idx.unique) ∨
      ∃ earlier ∈ before, x.tablename = relation (earlier.table extKey)
  /-- Where Core looks for stale indexes, the declared names are stored as written. -/
  written : ∀ col ∈ cols, Inspected (col.table extKey) → ∀ idx ∈ col.declared,
    storedName extKey col idx = indexName extKey col.name idx.fields
  /-- Where it finds none, there are none. -/
  known : ∀ col ∈ cols, ¬ Inspected (col.table extKey) → ∀ x ∈ c,
    x.tablename = relation (col.table extKey) →
      ∃ idx ∈ col.declared, x.indexname = storedName extKey col idx

section Step

variable {c : Catalog} {extKey : Str} {col : CollectionDecl} {x : IndexRow}

theorem mem_names {name : Str} :
    name ∈ col.names extKey ↔ ∃ idx ∈ col.declared, indexName extKey col.name idx.fields = name :=
  List.mem_map

variable (hMade : Made extKey c) (hCol : col.Accepted extKey)

include hMade hCol

theorem made_declare :
    Made extKey (c.declare extKey col.name (col.table extKey) col.declared) :=
  hMade.declare hCol.1 hCol.2.1 hCol.2.2

theorem made_reconcile : Made extKey (c.reconcile extKey col) :=
  (made_declare hMade hCol).sublist List.filter_sublist

theorem mem_reconcile :
    x ∈ c.reconcile extKey col ↔
      x ∈ c.declare extKey col.name (col.table extKey) col.declared ∧
        (x.tablename = relation (col.table extKey) → Inspected (col.table extKey) →
          x.indexname ∈ col.names extKey) := by
  have hAll := made_declare hMade hCol
  rw [Catalog.reconcile, mem_prune hAll]
  refine and_congr_right fun hx => ?_
  have hFound := (hAll.rows x hx).inspected_iff hCol.2.1
  constructor
  · intro hNot hTable hInspected
    by_contra hStale
    have hBoth := hFound.mpr ⟨hTable, hInspected⟩
    exact hNot ⟨hBoth.1, hBoth.2, hStale⟩
  · intro hKept hStale
    have hBoth := hFound.mp ⟨hStale.1, hStale.2.1⟩
    exact hStale.2.2 (hKept hBoth.1 hBoth.2)

theorem mem_reconcile_other (hOther : x.tablename ≠ relation (col.table extKey)) :
    x ∈ c.reconcile extKey col ↔ x ∈ c := by
  rw [mem_reconcile hMade hCol]
  constructor
  · intro h
    cases mem_declare h.1 with
    | inl hOld => exact hOld
    | inr hNew =>
      obtain ⟨idx, -, -, hRow⟩ := hNew
      exact absurd (congrArg IndexRow.tablename hRow) hOther
  · intro hx
    exact ⟨mem_declare_of_mem _ hx, fun hTable => absurd hTable hOther⟩

end Step

section Fold

variable {extKey : Str} {cols : List CollectionDecl} {c : Catalog} {x : IndexRow}

theorem made_foldl (hMade : Made extKey c) (hCols : ∀ col ∈ cols, col.Accepted extKey) :
    Made extKey (cols.foldl (Catalog.reconcile extKey) c) := by
  induction cols generalizing c with
  | nil => exact hMade
  | cons col rest ih =>
    rw [List.forall_mem_cons] at hCols
    exact ih (made_reconcile hMade hCols.1) hCols.2

theorem mem_foldl_other (hMade : Made extKey c) (hCols : ∀ col ∈ cols, col.Accepted extKey)
    (hOther : ∀ col ∈ cols, x.tablename ≠ relation (col.table extKey)) :
    x ∈ cols.foldl (Catalog.reconcile extKey) c ↔ x ∈ c := by
  induction cols generalizing c with
  | nil => rfl
  | cons col rest ih =>
    rw [List.forall_mem_cons] at hCols hOther
    rw [List.foldl_cons, ih (made_reconcile hMade hCols.1) hCols.2 hOther.2,
      mem_reconcile_other hMade hCols.1 hOther.1]

end Fold

/-- The collection's part of the schema: what is stored on its table are the declared
indexes under their own names. -/
structure Exact (extKey : Str) (col : CollectionDecl) (c : Catalog) : Prop where
  only : ∀ x ∈ c, x.tablename = relation (col.table extKey) →
    ∃ idx ∈ col.declared, x = storedIndex extKey col.name idx.unique idx.fields
  all : ∀ idx ∈ col.declared, storedIndex extKey col.name idx.unique idx.fields ∈ c

section Reached

variable {extKey : Str} {col : CollectionDecl} {cols rest : List CollectionDecl} {c : Catalog}
  {x : IndexRow}

theorem table_congr {col' : CollectionDecl} (h : col.name = col'.name) :
    col.table extKey = col'.table extKey := by
  rw [CollectionDecl.table, CollectionDecl.table, h]

theorem storedName_of_mem {name : Str} (h : name ∈ col.names extKey)
    (hStored : relation name = name) : ∃ idx ∈ col.declared, name = storedName extKey col idx := by
  obtain ⟨idx, hIdx, rfl⟩ := mem_names.mp h
  exact ⟨idx, hIdx, hStored.symm⟩

theorem Distinguished.tail (h : Distinguished extKey (col :: rest) c) (hMade : Made extKey c)
    (hCol : col.Accepted extKey)
    (hTables : ∀ col' ∈ rest, relation (col.table extKey) ≠ relation (col'.table extKey)) :
    Distinguished extKey rest (c.reconcile extKey col) := by
  have hApart : ∀ idx ∈ col.declared, ∀ col' ∈ rest, ∀ idx' ∈ col'.declared,
      storedName extKey col idx ≠ storedName extKey col' idx' := by
    intro idx hIdx col' hCol' idx' hIdx' hName
    have hSame := h.once col List.mem_cons_self idx hIdx col' (List.mem_cons_of_mem _ hCol') idx'
      hIdx' hName
    exact hTables col' hCol' (congrArg relation (table_congr hSame.1))
  constructor
  case once =>
    exact fun col₁ h₁ idx₁ hIdx₁ col₂ h₂ =>
      h.once col₁ (List.mem_cons_of_mem _ h₁) idx₁ hIdx₁ col₂ (List.mem_cons_of_mem _ h₂)
  case written => exact fun col' hCol' => h.written col' (List.mem_cons_of_mem _ hCol')
  case known =>
    intro col' hCol' hUninspected x hx hTable
    have hOther : x.tablename ≠ relation (col.table extKey) := hTable ▸ (hTables col' hCol').symm
    exact h.known col' (List.mem_cons_of_mem _ hCol') hUninspected x
      ((mem_reconcile_other hMade hCol hOther).mp hx) hTable
  case free =>
    intro before col' after hSplit idx hIdx x hx hName
    have hIn : col' ∈ rest := hSplit ▸ List.mem_append_right _ List.mem_cons_self
    have hLeft := (mem_reconcile hMade hCol).mp hx
    cases mem_declare hLeft.1 with
    | inr hNew =>
      obtain ⟨idx', hIdx', -, hRow⟩ := hNew
      refine absurd ?_ (hApart idx' hIdx' col' hIn idx hIdx)
      rw [← hName, hRow]
      rfl
    | inl hOld =>
      have hSplit' : col :: rest = (col :: before) ++ col' :: after := congrArg (col :: ·) hSplit
      cases h.free (col :: before) col' after hSplit' idx hIdx x hOld hName with
      | inl hOwn => exact .inl hOwn
      | inr hEarlier =>
        obtain ⟨earlier, hMem, hTable⟩ := hEarlier
        cases List.mem_cons.mp hMem with
        | inr hBefore => exact .inr ⟨earlier, hBefore, hTable⟩
        | inl hFirst =>
          -- An index of this collection's table that is left has a declared name.
          rw [hFirst] at hTable
          have hDeclared : ∃ idx' ∈ col.declared,
              x.indexname = storedName extKey col idx' := by
            by_cases hInspected : Inspected (col.table extKey)
            · exact storedName_of_mem (hLeft.2 hTable hInspected) (hMade.rows x hOld).stored
            · exact h.known col List.mem_cons_self hInspected x hOld hTable
          obtain ⟨idx', hIdx', hName'⟩ := hDeclared
          exact absurd (hName'.symm.trans hName) (hApart idx' hIdx' col' hIn idx hIdx)

theorem Distinguished.exact_head (h : Distinguished extKey (col :: rest) c)
    (hMade : Made extKey c) (hCol : col.Accepted extKey) :
    Exact extKey col (c.reconcile extKey col) := by
  -- A row of a declared name is the one to be stored.
  have hOwn : ∀ x ∈ c.declare extKey col.name (col.table extKey) col.declared,
      ∀ idx ∈ col.declared, x.indexname = storedName extKey col idx →
        x = storedIndex extKey col.name idx.unique idx.fields := by
    intro x hx idx hIdx hName
    cases mem_declare hx with
    | inr hNew =>
      obtain ⟨idx', hIdx', -, hRow⟩ := hNew
      have hSame : storedName extKey col idx' = storedName extKey col idx := by
        rw [← hName, hRow]
        rfl
      have hEq := (h.once col List.mem_cons_self idx' hIdx' col List.mem_cons_self idx hIdx
        hSame).2
      rw [hRow, hEq]
      rfl
    | inl hOld =>
      cases h.free [] col rest rfl idx hIdx x hOld hName with
      | inr hEarlier => exact absurd hEarlier (by simp)
      | inl hRow =>
        cases x with
        | mk name table unique exprs =>
          rw [storedIndex, IndexRow.mk.injEq]
          exact ⟨hName, hRow.1, hRow.2.2, hRow.2.1⟩
  constructor
  · intro x hx hTable
    have hLeft := (mem_reconcile hMade hCol).mp hx
    have hRow := (made_reconcile hMade hCol).rows x hx
    by_cases hInspected : Inspected (col.table extKey)
    · obtain ⟨idx, hIdx, hName⟩ := storedName_of_mem (hLeft.2 hTable hInspected) hRow.stored
      exact ⟨idx, hIdx, hOwn x hLeft.1 idx hIdx hName⟩
    · cases mem_declare hLeft.1 with
      | inr hNew =>
        obtain ⟨idx, hIdx, -, hEq⟩ := hNew
        exact ⟨idx, hIdx, hEq⟩
      | inl hOld =>
        obtain ⟨idx, hIdx, hName⟩ := h.known col List.mem_cons_self hInspected x hOld hTable
        exact ⟨idx, hIdx, hOwn x hLeft.1 idx hIdx hName⟩
  · intro idx hIdx
    obtain ⟨x, hx, hName⟩ := exists_declare c extKey col.name (col.table extKey) hIdx
    rw [← hOwn x hx idx hIdx hName]
    refine (mem_reconcile hMade hCol).mpr ⟨hx, fun _ hInspected => mem_names.mpr ⟨idx, hIdx, ?_⟩⟩
    rw [hName]
    exact (h.written col List.mem_cons_self hInspected idx hIdx).symm

theorem Exact.congr {c' : Catalog} (h : Exact extKey col c)
    (hSame : ∀ x, x.tablename = relation (col.table extKey) → (x ∈ c' ↔ x ∈ c)) :
    Exact extKey col c' :=
  ⟨fun x hx hTable => h.only x ((hSame x hTable).mp hx) hTable,
    fun idx hIdx => (hSame _ rfl).mpr (h.all idx hIdx)⟩

theorem Distinguished.exact (h : Distinguished extKey cols c) (hMade : Made extKey c)
    (hCols : ∀ col ∈ cols, col.Accepted extKey)
    (hTables : cols.Pairwise fun a b => relation (a.table extKey) ≠ relation (b.table extKey)) :
    ∀ col ∈ cols, Exact extKey col (cols.foldl (Catalog.reconcile extKey) c) := by
  induction cols generalizing c with
  | nil => simp
  | cons col rest ih =>
    rw [List.forall_mem_cons] at hCols
    rw [List.pairwise_cons] at hTables
    have hNext := made_reconcile hMade hCols.1
    refine List.forall_mem_cons.mpr ⟨?_, ?_⟩
    · refine (h.exact_head hMade hCols.1).congr fun x hx => ?_
      exact mem_foldl_other hNext hCols.2 fun col' hCol' => hx ▸ hTables.1 col' hCol'
    · exact ih (h.tail hMade hCols.1 hTables.1) hNext hCols.2 hTables.2

theorem Exact.asDeclared (h : Exact extKey col c) : AsDeclared extKey col c := by
  constructor
  · intro x hx hTable
    obtain ⟨idx, hIdx, rfl⟩ := h.only x hx hTable
    exact ⟨idx, hIdx, rfl, rfl⟩
  · intro idx hIdx
    exact ⟨_, h.all idx hIdx, rfl, rfl, rfl⟩

end Reached
end Moduless.DB
