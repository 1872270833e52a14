import Moduless.DB.SchemaConvergence

/-!
Reconciling again, and what the declared schema says about the names.

Once the indexes are the declared ones, every statement of a further run does nothing. In
the other direction, indexes that came out as declared had names that are told apart.
-/

namespace Moduless.DB
open Go Interaction Program Machine

/-- Nothing of the collection is left to be created or dropped. -/
def Standing (extKey : Str) (col : CollectionDecl) (c : Catalog) : Prop :=
  (∀ x ∈ c, x.tablename = col.table extKey →
      like (indexPrefix extKey col.name ++ "%".toList) x.indexname = true →
        x.indexname ∈ col.names extKey) ∧
    ∀ idx ∈ col.declared, ∃ x ∈ c, x.indexname = relation (indexName extKey col.name idx.fields)

section Again

variable {extKey : Str} {col : CollectionDecl} {cols : List CollectionDecl} {c : Catalog}
  {α β : Type}

/-- The program changes nothing, and a value it goes on with satisfies `Q`. -/
def Idle (c : Catalog) (Q : α → Prop) (x : SchemaM α) : Prop :=
  schema.Ensures c x.run fun r c' => c' = c ∧ ∀ a, r = .ok a → Q a

theorem idle_pure {Q : α → Prop} {a : α} (h : Q a) : Idle c Q (pure a) := by
  refine ensures_ret.mpr ⟨rfl, fun b hb => ?_⟩
  cases hb
  exact h

theorem idle_throw {Q : α → Prop} {e : SchemaError} : Idle c Q (throw e) :=
  ensures_ret.mpr ⟨rfl, fun _ hb => by cases hb⟩

theorem idle_early {Q : α → Prop} {R : β → Prop} {x : SchemaM α} {f : α → SchemaM β}
    (hx : Idle c Q x) (hf : ∀ a, Q a → Idle c R (f a)) : Idle c R (x >>= f) := by
  refine ensures_bind.mpr (hx.mono fun r c' h => ?_)
  rw [h.1]
  cases r with
  | error e => exact idle_throw
  | ok a => exact hf a (h.2 a rfl)

theorem idle_statement {R : β → Prop} {o : SchemaOp} {f : o.Ans → SchemaM β}
    (hEffect : o.effect c = c) (hf : ∀ r, schema.Exec c ⟨o, r⟩ c → Idle c R (f r)) :
    Idle c R (statement o >>= f) := by
  refine ensures_call.mpr fun r c₁ hExec => ?_
  have hSame : c₁ = c := by
    cases exec_schema hExec with
    | inl hSame => exact hSame
    | inr hDone => exact hDone.trans hEffect
  rw [hSame] at hExec ⊢
  exact hf r hExec

theorem idle_required {ok : Bool} {e : SchemaError} :
    Idle c (fun _ => True) (if ok = true then pure () else throw e : SchemaM Unit) := by
  cases ok with
  | true => exact idle_pure trivial
  | false => exact idle_throw

theorem create_taken {unique : Bool} {name table : Str} {exprs : List Str}
    (h : ∃ x ∈ c, x.indexname = relation name) : c.create unique name table exprs = c := by
  rw [Catalog.create, if_pos (by simpa using h)]

theorem idle_declareIndexes {collection table : Str} {idxs : List IndexDecl} {desired : List Str}
    (h : ∀ idx ∈ idxs.filter (fun idx => idx.fields ≠ []),
      ∃ x ∈ c, x.indexname = relation (indexName extKey collection idx.fields)) :
    Idle c (· = desired ++ (idxs.filter fun idx => idx.fields ≠ []).map
        (fun idx => indexName extKey collection idx.fields))
      (declareIndexes extKey collection table desired idxs) := by
  induction idxs generalizing desired with
  | nil => exact idle_pure (by simp)
  | cons idx rest ih =>
    rw [declareIndexes]
    by_cases hFields : idx.fields = []
    · have hFilter : (idx :: rest).filter (fun idx => idx.fields ≠ []) =
          rest.filter fun idx => idx.fields ≠ [] := by simp [hFields]
      rw [hFilter] at h ⊢
      rw [if_pos hFields]
      exact ih h
    · have hFilter : (idx :: rest).filter (fun idx => idx.fields ≠ []) =
          idx :: rest.filter fun idx => idx.fields ≠ [] := by simp [hFields]
      rw [hFilter, List.forall_mem_cons] at h
      rw [hFilter, if_neg hFields]
      cases idx.fields.mapM jsonPathExpr with
      | error e => exact idle_throw
      | ok exprs =>
        refine idle_early (Q := fun _ => True) ?_ fun _ _ => ?_
        · exact idle_statement (create_taken h.1) fun _ _ => idle_required
        · have hRest := @ih (desired ++ [indexName extKey collection idx.fields]) h.2
          simpa using hRest

theorem idle_dropStaleIndexes {collection table : Str} {desired : List Str}
    (h : ∀ x ∈ c, x.tablename = table →
      like (indexPrefix extKey collection ++ "%".toList) x.indexname = true →
        x.indexname ∈ desired) :
    Idle c (fun _ => True) (dropStaleIndexes extKey collection table desired) := by
  rw [dropStaleIndexes, pattern_eq]
  refine idle_statement rfl fun rows hExec => ?_
  cases rows with
  | none => exact idle_throw
  | some names =>
    have hNone : names.filter (· ∉ desired) = [] := by
      rw [List.filter_eq_nil_iff]
      intro name hName
      obtain ⟨x, hx, rfl⟩ := List.mem_map.mp ((exec_listIndexes hExec).1.mem_iff.mp hName)
      simp only [List.mem_filter, Bool.and_eq_true, decide_eq_true_eq] at hx
      simpa using h x hx.1 hx.2.1 hx.2.2
    show Idle c _ (dropAll (names.filter (· ∉ desired)))
    rw [hNone]
    exact idle_pure trivial

theorem idle_reconcileSchema (h : ∀ col ∈ cols, Standing extKey col c) :
    Idle c (fun _ => True) (reconcileSchema extKey cols) := by
  induction cols with
  | nil => exact idle_pure trivial
  | cons col rest ih =>
    rw [List.forall_mem_cons] at h
    rw [reconcileSchema]
    cases hTable : tableName extKey col.name with
    | error e => exact idle_throw
    | ok table =>
      rw [tableName_eq hTable]
      refine idle_early (idle_statement rfl fun _ _ => idle_required) fun _ _ => ?_
      refine idle_early (idle_statement rfl fun _ _ => idle_required) fun _ _ => ?_
      refine idle_early (idle_declareIndexes h.1.2) fun desired hDesired => ?_
      rw [hDesired]
      exact idle_early (idle_dropStaleIndexes h.1.1) fun _ _ => ih h.2

end Again

section Converse

variable {extKey : Str} {col : CollectionDecl} {cols : List CollectionDecl} {c : Catalog}

theorem Exact.standing (h : Exact extKey col c) (hMade : Made extKey c)
    (hName : matchesIdentifier col.name = true)
    (hWritten : Inspected (col.table extKey) → ∀ idx ∈ col.declared,
      storedName extKey col idx = indexName extKey col.name idx.fields) :
    Standing extKey col c := by
  constructor
  · intro x hx hTable hLike
    have hBoth := ((hMade.rows x hx).inspected_iff hName).mp ⟨hTable, hLike⟩
    obtain ⟨idx, hIdx, rfl⟩ := h.only x hx hBoth.1
    exact mem_names.mpr ⟨idx, hIdx, (hWritten hBoth.2 idx hIdx).symm⟩
  · exact fun idx hIdx => ⟨_, h.all idx hIdx, rfl⟩

theorem fields_of_exprs {fields fields' : List Str}
    (h : fields.map pathExpr = fields'.map pathExpr) : fields = fields' :=
  List.map_injective_iff.mpr pathExpr_injective h

theorem Made.storedName (hMade : Made extKey c) {x : IndexRow} (hx : x ∈ c)
    (hTable : x.tablename = relation (col.table extKey)) {idx : IndexDecl}
    (hExprs : x.exprs = idx.fields.map pathExpr) : x.indexname = storedName extKey col idx := by
  obtain ⟨fields, hName, hFields⟩ := (hMade.rows x hx).onTable hTable
  rw [hName, fields_of_exprs (hFields.symm.trans hExprs)]
  rfl

variable (hMade : Made extKey c) (hCols : ∀ col ∈ cols, col.Accepted extKey)
  (hTables : cols.Pairwise fun a b => relation (a.table extKey) ≠ relation (b.table extKey))

include hMade hCols hTables

/-- The indexes on a collection's table are those left when it was reconciled. -/
theorem mem_foldl_iff {before after : List CollectionDecl} (hSplit : cols = before ++ col :: after)
    {x : IndexRow} (hTable : x.tablename = relation (col.table extKey)) :
    x ∈ cols.foldl (Catalog.reconcile extKey) c ↔
      x ∈ (before.foldl (Catalog.reconcile extKey) c).reconcile extKey col := by
  subst hSplit
  rw [List.forall_mem_append, List.forall_mem_cons] at hCols
  rw [List.pairwise_append, List.pairwise_cons] at hTables
  rw [List.foldl_append, List.foldl_cons]
  refine mem_foldl_other (made_reconcile (made_foldl hMade hCols.1) hCols.2.1) hCols.2.2 ?_
  exact fun col' h => hTable ▸ hTables.2.1.1 col' h

variable (hDeclared : ∀ col ∈ cols, AsDeclared extKey col (cols.foldl (Catalog.reconcile extKey) c))

include hDeclared

theorem once_of_declared : ∀ col ∈ cols, ∀ idx ∈ col.declared, ∀ col' ∈ cols,
    ∀ idx' ∈ col'.declared, storedName extKey col idx = storedName extKey col' idx' →
      col.name = col'.name ∧ idx = idx' := by
  intro col hCol idx hIdx col' hCol' idx' hIdx' hName
  have hEnd := made_foldl hMade hCols
  obtain ⟨x, hx, hTable, hExprs, hUnique⟩ := (hDeclared col hCol).2 idx hIdx
  obtain ⟨y, hy, hTable', hExprs', hUnique'⟩ := (hDeclared col' hCol').2 idx' hIdx'
  have hSame : x = y := by
    apply hEnd.eq_of_name hx hy
    rw [hEnd.storedName hx hTable hExprs, hEnd.storedName hy hTable' hExprs', hName]
  subst hSame
  have hCols : col = col' := by
    by_contra hNe
    have hSymm : Std.Symm fun a b : CollectionDecl =>
        relation (a.table extKey) ≠ relation (b.table extKey) := ⟨fun _ _ h => Ne.symm h⟩
    refine hTables.forall hCol hCol' hNe ?_
    rw [← hTable, ← hTable']
  refine ⟨congrArg CollectionDecl.name hCols, ?_⟩
  cases idx
  cases idx'
  rw [IndexDecl.mk.injEq]
  exact ⟨fields_of_exprs (hExprs.symm.trans hExprs'), hUnique.symm.trans hUnique'⟩

theorem distinguished_of_declared : Distinguished extKey cols c := by
  have hEnd := made_foldl hMade hCols
  have hOnce := once_of_declared hMade hCols hTables hDeclared
  constructor
  case once => exact hOnce
  case written =>
    intro col hCol hInspected idx hIdx
    obtain ⟨before, after, hSplit⟩ := List.append_of_mem hCol
    obtain ⟨x, hx, hTable, hExprs, -⟩ := (hDeclared col hCol).2 idx hIdx
    have hName := hEnd.storedName hx hTable hExprs
    have hThen := made_foldl hMade fun col' h => hCols col' (hSplit ▸ List.mem_append_left _ h)
    have hLeft := (mem_reconcile hThen (hCols col hCol)).mp
      ((mem_foldl_iff hMade hCols hTables hSplit hTable).mp hx)
    obtain ⟨idx', hIdx', hOther⟩ := mem_names.mp (hLeft.2 hTable hInspected)
    -- The name it was kept for is stored as the same one.
    have hSame : storedName extKey col idx = storedName extKey col idx' := by
      rw [storedName, storedName, hOther, hName]
      exact (relation_relation _).symm
    rw [← hName, ← hOther, (hOnce col hCol idx hIdx col hCol idx' hIdx' hSame).2]
  case known =>
    intro col hCol hUninspected x hx hTable
    obtain ⟨before, after, hSplit⟩ := List.append_of_mem hCol
    have hBefore : ∀ col' ∈ before, col'.Accepted extKey :=
      fun col' h => hCols col' (hSplit ▸ List.mem_append_left _ h)
    have hOther : ∀ col' ∈ before, x.tablename ≠ relation (col'.table extKey) := by
      intro col' h
      rw [hSplit, List.pairwise_append] at hTables
      exact hTable ▸ (hTables.2.2 col' h col List.mem_cons_self).symm
    have hThen := made_foldl hMade hBefore
    have hStill := (mem_foldl_other hMade hBefore hOther).mpr hx
    have hLast : x ∈ cols.foldl (Catalog.reconcile extKey) c := by
      refine (mem_foldl_iff hMade hCols hTables hSplit hTable).mpr ?_
      exact (mem_reconcile hThen (hCols col hCol)).mpr
        ⟨mem_declare_of_mem _ hStill, fun _ hInspected => absurd hInspected hUninspected⟩
    obtain ⟨idx, hIdx, hExprs, -⟩ := (hDeclared col hCol).1 x hLast hTable
    exact ⟨idx, hIdx, hEnd.storedName hLast hTable hExprs⟩
  case free =>
    intro before col after hSplit idx hIdx x hx hName
    have hCol : col ∈ cols := hSplit ▸ List.mem_append_right _ List.mem_cons_self
    have hBefore : ∀ col' ∈ before, col'.Accepted extKey :=
      fun col' h => hCols col' (hSplit ▸ List.mem_append_left _ h)
    by_cases hEarlier : ∃ earlier ∈ before, x.tablename = relation (earlier.table extKey)
    · exact .inr hEarlier
    · have hThen := made_foldl hMade hBefore
      have hStill := (mem_foldl_other hMade hBefore
        fun earlier h hTable => hEarlier ⟨earlier, h, hTable⟩).mpr hx
      obtain ⟨y, hy, hTable, hExprs, hUnique⟩ := (hDeclared col hCol).2 idx hIdx
      have hLeft := (mem_reconcile hThen (hCols col hCol)).mp
        ((mem_foldl_iff hMade hCols hTables hSplit hTable).mp hy)
      have hSame : x = y := by
        apply (made_declare hThen (hCols col hCol)).eq_of_name (mem_declare_of_mem _ hStill) hLeft.1
        rw [hName, hEnd.storedName hy hTable hExprs]
      rw [hSame]
      exact .inl ⟨hTable, hExprs, hUnique⟩

end Converse

/-- When a reconciliation of collections with tables of their own returns nil, the indexes
are the declared ones and reconciling again does nothing, exactly if the names told them
apart. -/
theorem reconciled_iff_distinguished {extKey : Str} {cols : List CollectionDecl} {c c' : Catalog}
    {t : List (Event SchemaHost)} (hReached : Reconciled extKey c)
    (hTables : cols.Pairwise fun a b => relation (a.table extKey) ≠ relation (b.table extKey))
    (hRuns : schema.Runs c (reconcileSchema extKey cols).run t (.ok ()) c') :
    ((∀ col ∈ cols, AsDeclared extKey col c') ∧ Settled extKey cols c') ↔
      Distinguished extKey cols c := by
  have hMade := hReached.made
  obtain ⟨rfl, hCols⟩ := runs_reconcileSchema hRuns
  constructor
  · intro h
    exact distinguished_of_declared hMade hCols hTables h.1
  · intro h
    have hExact := h.exact hMade hCols hTables
    refine ⟨fun col hCol => (hExact col hCol).asDeclared, ?_⟩
    have hStanding : ∀ col ∈ cols, Standing extKey col (cols.foldl (Catalog.reconcile extKey) c) :=
      fun col hCol => (hExact col hCol).standing (made_foldl hMade hCols) (hCols col hCol).2.1
        (h.written col hCol)
    exact fun t r c' hAgain => (idle_reconcileSchema hStanding t r c' hAgain).1

section Runs

/-- Every statement is executed, and the query finds the given names. -/
def found (names : List Str) : (o : SchemaOp) → schema.Choice o
  | .listIndexes _ _ => some names
  | .createTable _ | .addVersion _ | .createIndex _ _ _ _ | .dropIndex _ => Delivery.answered

def posts (indexes : List IndexDecl) : List CollectionDecl := [⟨"posts".toList, indexes⟩]

def slug (unique : Bool) : IndexDecl := ⟨["slug".toList], unique⟩

def slugRow (unique : Bool) : IndexRow :=
  storedIndex "blog".toList "posts".toList unique ["slug".toList]

theorem runs_found {cols : List CollectionDecl} {c c' : Catalog} (names : List Str)
    (h : schema.result (found names) c (reconcileSchema "blog".toList cols).run =
      some (.ok (), c')) :
    ∃ t, schema.Runs c (reconcileSchema "blog".toList cols).run t (.ok ()) c' := by
  obtain ⟨⟨t, r, c₁⟩, hReplay, hEq⟩ := Option.map_eq_some_iff.mp h
  cases hEq
  exact ⟨t, runs_of_replay hReplay⟩

def author : IndexDecl := ⟨["author".toList], false⟩

def authorRow : IndexRow := storedIndex "blog".toList "posts".toList false ["author".toList]

theorem reconciled_slug : Reconciled "blog".toList [slugRow false] := by
  have hFirst : schema.result (found [(slugRow false).indexname]) []
      (reconcileSchema "blog".toList (posts [slug false])).run =
        some (.ok (), [slugRow false]) := by
    decide +kernel
  obtain ⟨t, hRuns⟩ := runs_found _ hFirst
  exact .run .empty hRuns

/-- The next version declares another index, and the old one is dropped. -/
theorem reconciled_iff_posts :
    ∃ t, schema.Runs [slugRow false] (reconcileSchema "blog".toList (posts [author])).run t (.ok ())
        [authorRow] ∧
      (∀ col ∈ posts [author], AsDeclared "blog".toList col [authorRow]) ∧
        Settled "blog".toList (posts [author]) [authorRow] := by
  have hResult : schema.result (found [(slugRow false).indexname, authorRow.indexname])
      [slugRow false] (reconcileSchema "blog".toList (posts [author])).run =
        some (.ok (), [authorRow]) := by
    decide +kernel
  obtain ⟨t, hRuns⟩ := runs_found _ hResult
  have hOther : ∀ col ∈ posts [author], ∀ idx ∈ col.declared, ∀ x ∈ [slugRow false],
      x.indexname ≠ storedName "blog".toList col idx := by
    decide +kernel
  have hApart : Distinguished "blog".toList (posts [author]) [slugRow false] :=
    { once := by decide +kernel
      free := fun _ col _ hCols idx hIdx x hx hName =>
        absurd hName (hOther col (hCols ▸ by simp) idx hIdx x hx)
      written := by decide +kernel
      known := by decide +kernel }
  refine ⟨t, hRuns, ?_⟩
  exact (reconciled_iff_distinguished reconciled_slug (List.pairwise_singleton _ _) hRuns).mpr
    hApart

def joined : List IndexDecl :=
  [⟨["a".toList, "b_c".toList], false⟩, ⟨["a_b".toList, "c".toList], false⟩]

def joinedRow : IndexRow :=
  storedIndex "blog".toList "posts".toList false ["a".toList, "b_c".toList]

def mixed : List IndexDecl := [⟨["Slug".toList], false⟩]

/-- An index that the next version declares as unique stays as it was; of two indexes whose
fields are joined to one name the second one is missing; and an index on a field with an
upper-case letter is dropped as soon as it was created. -/
theorem reconciled_differs :
    (Reconciled "blog".toList [slugRow false] ∧
      (∃ t, schema.Runs [slugRow false] (reconcileSchema "blog".toList (posts [slug true])).run t
        (.ok ()) [slugRow false]) ∧
      ¬ AsDeclared "blog".toList ⟨"posts".toList, [slug true]⟩ [slugRow false]) ∧
    ((∃ t, schema.Runs [] (reconcileSchema "blog".toList (posts joined)).run t (.ok ())
        [joinedRow]) ∧ ¬ AsDeclared "blog".toList ⟨"posts".toList, joined⟩ [joinedRow]) ∧
    (∃ t, schema.Runs [] (reconcileSchema "blog".toList (posts mixed)).run t (.ok ()) []) ∧
      ¬ AsDeclared "blog".toList ⟨"posts".toList, mixed⟩ [] := by
  have hNext : schema.result (found [(slugRow false).indexname]) [slugRow false]
      (reconcileSchema "blog".toList (posts [slug true])).run =
        some (.ok (), [slugRow false]) := by
    decide +kernel
  have hJoined : schema.result (found [joinedRow.indexname]) []
      (reconcileSchema "blog".toList (posts joined)).run = some (.ok (), [joinedRow]) := by
    decide +kernel
  have hMixed : schema.result (found [(slugRow false).indexname]) []
      (reconcileSchema "blog".toList (posts mixed)).run = some (.ok (), []) := by
    decide +kernel
  refine ⟨⟨reconciled_slug, runs_found _ hNext, by decide +kernel⟩, ?_⟩
  exact ⟨⟨runs_found _ hJoined, by decide +kernel⟩, runs_found _ hMixed, by decide +kernel⟩

end Runs
end Moduless.DB
