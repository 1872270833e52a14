import Moduless.DB.SchemaEffects

/-!
The indexes a plugin's reconciliations can leave.

Every index is stored under the folded and cut form of the name it was declared with, on
the table of its collection, and no two have the same name. The pattern that lists the
indexes of a collection finds all of its table, although its underscores match any
character, or none.
-/

namespace Moduless.DB
open Go Interaction Program Machine

/-- What is stored for an index. -/
def storedIndex (extKey collection : Str) (unique : Bool) (fields : List Str) : IndexRow :=
  ⟨relation (indexName extKey collection fields),
    relation ("ext_".toList ++ (extKey ++ '_' :: collection)), unique, fields.map pathExpr⟩

/-- A row that some reconciliation of the plugin creates. -/
inductive MadeRow (extKey : Str) : IndexRow → Prop
  | intro (collection : Str) (unique : Bool) (fields : List Str)
      (hKey : matchesIdentifier extKey = true) (hName : matchesIdentifier collection = true)
      (hFields : ∀ f ∈ fields, matchesIdentifier f = true) :
      MadeRow extKey (storedIndex extKey collection unique fields)

structure Made (extKey : Str) (c : Catalog) : Prop where
  distinct : (c.map IndexRow.indexname).Nodup
  rows : ∀ x ∈ c, MadeRow extKey x

/-- The indexes that reconciliations of the plugin have left, whatever they declared and
however they ended. -/
inductive Reconciled (extKey : Str) : Catalog → Prop
  | empty : Reconciled extKey []
  | run {c c' : Catalog} {cols : List CollectionDecl} {t : List (Event SchemaHost)}
      {r : Except SchemaError Unit} : Reconciled extKey c →
      schema.Runs c (reconcileSchema extKey cols).run t r c' → Reconciled extKey c'

section Catalogs

variable {c : Catalog} {extKey collection table name pattern : Str} {unique : Bool}
  {exprs desired : List Str} {x y : IndexRow}

theorem Made.eq_of_name (h : Made extKey c) (hx : x ∈ c) (hy : y ∈ c)
    (hName : x.indexname = y.indexname) : x = y := List.inj_on_of_nodup_map h.distinct hx hy hName

theorem Made.sublist {c' : Catalog} (h : Made extKey c) (hSub : c'.Sublist c) : Made extKey c' :=
  ⟨h.distinct.sublist (hSub.map _), fun x hx => h.rows x (hSub.subset hx)⟩

theorem mem_create :
    x ∈ c.create unique name table exprs ↔
      x ∈ c ∨ (∀ y ∈ c, y.indexname ≠ relation name) ∧
        x = ⟨relation name, relation table, unique, exprs⟩ := by
  have hAny : (c.any fun y => y.indexname = relation name) = true ↔
      ¬ ∀ y ∈ c, y.indexname ≠ relation name := by simp
  unfold Catalog.create
  by_cases hTaken : (c.any fun y => y.indexname = relation name) = true
  · rw [if_pos hTaken]
    exact ⟨.inl, fun h => h.resolve_right fun hNew => hAny.mp hTaken hNew.1⟩
  · rw [if_neg hTaken]
    have hFree : ∀ y ∈ c, y.indexname ≠ relation name := not_not.mp (mt hAny.mpr hTaken)
    simp [and_iff_right hFree]

theorem Made.create {fields : List Str} (h : Made extKey c)
    (hKey : matchesIdentifier extKey = true) (hName : matchesIdentifier collection = true)
    (hFields : ∀ f ∈ fields, matchesIdentifier f = true) :
    Made extKey (c.create unique (indexName extKey collection fields)
      ("ext_".toList ++ (extKey ++ '_' :: collection)) (fields.map pathExpr)) := by
  unfold Catalog.create
  split
  next => exact h
  next hFree =>
    have hFree : ∀ y ∈ c, y.indexname ≠ relation (indexName extKey collection fields) := by
      simpa using hFree
    constructor
    · rw [List.map_append, List.nodup_append]
      refine ⟨h.distinct, by simp, ?_⟩
      intro n hn m hm
      obtain ⟨y, hy, rfl⟩ := List.mem_map.mp hn
      rw [List.map_singleton, List.mem_singleton] at hm
      rw [hm]
      exact hFree y hy
    · intro x hx
      cases List.mem_append.mp hx with
      | inl hOld => exact h.rows x hOld
      | inr hNew =>
        rw [List.mem_singleton.mp hNew]
        exact .intro collection unique fields hKey hName hFields

/-- The statements of the plugin's reconciliations. -/
def Issues (extKey : Str) : SchemaOp → Prop
  | .createIndex _ name table exprs => ∃ collection fields,
      matchesIdentifier extKey = true ∧ matchesIdentifier collection = true ∧
        (∀ f ∈ fields, matchesIdentifier f = true) ∧ name = indexName extKey collection fields ∧
          table = "ext_".toList ++ (extKey ++ '_' :: collection) ∧ exprs = fields.map pathExpr
  | .createTable _ | .addVersion _ | .listIndexes _ _ | .dropIndex _ => True

theorem Made.effect {o : SchemaOp} (h : Made extKey c) (hOp : Issues extKey o) :
    Made extKey (o.effect c) := by
  cases o with
  | createIndex unique name table exprs =>
    obtain ⟨collection, fields, hKey, hName, hFields, rfl, rfl, rfl⟩ := hOp
    exact h.create hKey hName hFields
  | dropIndex name => exact h.sublist List.filter_sublist
  | createTable _ | addVersion _ | listIndexes _ _ => exact h

theorem issues_declareIndexes {idxs : List IndexDecl} (hKey : matchesIdentifier extKey = true)
    (hName : matchesIdentifier collection = true) :
    (declareIndexes extKey collection ("ext_".toList ++ (extKey ++ '_' :: collection)) desired
      idxs).run.Uses (Issues extKey) := by
  induction idxs generalizing desired with
  | nil => trivial
  | cons idx rest ih =>
    rw [declareIndexes]
    split
    · exact ih
    · cases hExprs : idx.fields.mapM jsonPathExpr with
      | error e => trivial
      | ok exprs =>
        obtain ⟨rfl, hValid⟩ := mapM_jsonPathExpr hExprs
        refine uses_early (uses_lift ⟨?_, fun _ => trivial⟩ fun ok => ?_) fun _ => ih
        · exact ⟨collection, idx.fields, hKey, hName, hValid, rfl, rfl, rfl⟩
        · cases ok <;> trivial

theorem issues_dropAll (names : List Str) : (dropAll names).run.Uses (Issues extKey) := by
  induction names with
  | nil => trivial
  | cons name rest ih =>
    rw [dropAll]
    split
    · exact ih
    · refine uses_lift ⟨trivial, fun _ => trivial⟩ fun ok => ?_
      cases ok with
      | true => exact ih
      | false => trivial

theorem issues_reconcileSchema (cols : List CollectionDecl) :
    (reconcileSchema extKey cols).run.Uses (Issues extKey) := by
  induction cols with
  | nil => trivial
  | cons col rest ih =>
    rw [reconcileSchema]
    cases hTable : tableName extKey col.name with
    | error e => trivial
    | ok table =>
      obtain ⟨hKey, hName⟩ := tableName_ok hTable
      have hCreate : (createTable table).run.Uses (Issues extKey) := by
        refine uses_lift ⟨trivial, fun _ => trivial⟩ fun ok => ?_
        cases ok <;> trivial
      have hVersion : (addVersion table).run.Uses (Issues extKey) := by
        refine uses_lift ⟨trivial, fun _ => trivial⟩ fun ok => ?_
        cases ok <;> trivial
      refine uses_early hCreate fun _ => uses_early hVersion fun _ => ?_
      rw [tableName_eq hTable]
      refine uses_early (issues_declareIndexes hKey hName) fun desired => ?_
      refine uses_early (uses_lift ⟨trivial, fun _ => trivial⟩ fun rows => ?_) fun _ => ih
      cases rows with
      | none => trivial
      | some names => exact issues_dropAll _

theorem Reconciled.made (h : Reconciled extKey c) : Made extKey c := by
  induction h with
  | empty => exact ⟨List.nodup_nil, by simp⟩
  | run _ hRuns ih =>
    refine hRuns.invariant (issues_reconcileSchema _) (fun c o r c' hOp hMade hExec => ?_) ih
    cases exec_schema hExec with
    | inl hSame => exact hSame ▸ hMade
    | inr hEffect => exact hEffect ▸ hMade.effect hOp

theorem mem_declare_of_mem (idxs : List IndexDecl) (h : x ∈ c) :
    x ∈ c.declare extKey collection table idxs := by
  induction idxs generalizing c with
  | nil => exact h
  | cons idx rest ih => exact ih (mem_create.mpr (.inl h))

theorem mem_declare {idxs : List IndexDecl} (h : x ∈ c.declare extKey collection table idxs) :
    x ∈ c ∨ ∃ idx ∈ idxs, (∀ y ∈ c, y.indexname ≠ x.indexname) ∧
      x = ⟨relation (indexName extKey collection idx.fields), relation table, idx.unique,
        idx.fields.map pathExpr⟩ := by
  induction idxs generalizing c with
  | nil => exact .inl h
  | cons idx rest ih =>
    cases ih h with
    | inr hLater =>
      obtain ⟨idx', hMem, hFree, hRow⟩ := hLater
      have hOld : ∀ y ∈ c, y.indexname ≠ x.indexname :=
        fun y hy => hFree y (mem_create.mpr (.inl hy))
      exact .inr ⟨idx', List.mem_cons_of_mem _ hMem, hOld, hRow⟩
    | inl hFirst =>
      cases mem_create.mp hFirst with
      | inl hOld => exact .inl hOld
      | inr hNew =>
        refine .inr ⟨idx, List.mem_cons_self, ?_, hNew.2⟩
        rw [hNew.2]
        exact hNew.1

theorem exists_declare (c : Catalog) (extKey collection table : Str) {idxs : List IndexDecl}
    {idx : IndexDecl} (h : idx ∈ idxs) :
    ∃ x ∈ c.declare extKey collection table idxs,
      x.indexname = relation (indexName extKey collection idx.fields) := by
  induction idxs generalizing c with
  | nil => cases h
  | cons first rest ih =>
    cases List.mem_cons.mp h with
    | inr hRest => exact ih _ hRest
    | inl hFirst =>
      have hTaken : ∃ x ∈ c.create first.unique (indexName extKey collection first.fields) table
          (first.fields.map pathExpr),
          x.indexname = relation (indexName extKey collection idx.fields) := by
        rw [hFirst]
        by_cases hOld : ∃ y ∈ c,
            y.indexname = relation (indexName extKey collection first.fields)
        · obtain ⟨y, hy, hName⟩ := hOld
          exact ⟨y, mem_create.mpr (.inl hy), hName⟩
        · refine ⟨_, mem_create.mpr (.inr ⟨fun y hy hName => hOld ⟨y, hy, hName⟩, rfl⟩), rfl⟩
      obtain ⟨x, hx, hName⟩ := hTaken
      exact ⟨x, mem_declare_of_mem rest hx, hName⟩

theorem Made.declare {idxs : List IndexDecl} (h : Made extKey c)
    (hKey : matchesIdentifier extKey = true) (hName : matchesIdentifier collection = true)
    (hFields : ∀ idx ∈ idxs, ∀ f ∈ idx.fields, matchesIdentifier f = true) :
    Made extKey (c.declare extKey collection ("ext_".toList ++ (extKey ++ '_' :: collection))
      idxs) := by
  induction idxs generalizing c with
  | nil => exact h
  | cons idx rest ih =>
    refine ih (h.create hKey hName (hFields idx List.mem_cons_self)) ?_
    exact fun idx' hMem => hFields idx' (List.mem_cons_of_mem _ hMem)

end Catalogs

section Names

variable {extKey collection : Str} {fields : List Str} {x : IndexRow}

theorem indexName_eq (extKey collection : Str) (fields : List Str) :
    indexName extKey collection fields =
      "idx_".toList ++ ((extKey ++ '_' :: collection) ++ '_' :: join fields '_') := by
  have hAll : ∀ a b c d : Str, a ++ b ++ ['_'] ++ c ++ ['_'] ++ d =
      a ++ ((b ++ '_' :: c) ++ '_' :: d) := by
    intro a b c d
    simp
  exact hAll "idx_".toList extKey collection (join fields '_')

theorem indexPrefix_eq (extKey collection : Str) :
    indexPrefix extKey collection = "idx_".toList ++ (extKey ++ '_' :: (collection ++ ['_'])) := by
  have hAll : ∀ a b c : Str, a ++ b ++ ['_'] ++ c ++ ['_'] = a ++ (b ++ '_' :: (c ++ ['_'])) := by
    intro a b c
    simp
  exact hAll "idx_".toList extKey collection

theorem relation_append {p s : Str} (hLength : p.length = 4) (hFold : fold p = p) :
    relation (p ++ s) = p ++ (fold s).take 59 := by
  rw [relation, fold_append, hFold, List.take_append, hLength,
    List.take_of_length_le (show p.length ≤ 63 by omega)]

theorem identifierChar_join {c : Char} (hFields : ∀ f ∈ fields, matchesIdentifier f = true)
    (h : c ∈ join fields '_') : identifierChar c = true := by
  induction fields with
  | nil => cases h
  | cons f fields ih =>
    have hTail : ∀ f' ∈ fields, matchesIdentifier f' = true :=
      fun f' hf' => hFields f' (List.mem_cons_of_mem _ hf')
    have hFirst := identifierChar_of_matches (hFields f List.mem_cons_self)
    cases fields with
    | nil =>
      have hJoin : join [f] '_' = f := by simp [join]
      rw [hJoin] at h
      exact hFirst c h
    | cons f' rest =>
      have hJoin : join (f :: f' :: rest) '_' = f ++ '_' :: join (f' :: rest) '_' := by
        simp [join, List.intercalate]
      rw [hJoin, List.mem_append, List.mem_cons] at h
      rcases h with h | rfl | h
      · exact hFirst c h
      · rfl
      · exact ih hTail h

theorem MadeRow.identifier (h : MadeRow extKey x) : matchesIdentifier x.indexname = true := by
  cases h with
  | intro collection unique fields hKey hName hFields =>
    have hBody : ∀ c ∈ (extKey ++ '_' :: collection) ++ '_' :: join fields '_',
        identifierChar c = true := by
      intro c hc
      simp only [List.mem_append, List.mem_cons] at hc
      rcases hc with (hc | rfl | hc) | rfl | hc
      · exact identifierChar_of_matches hKey c hc
      · rfl
      · exact identifierChar_of_matches hName c hc
      · rfl
      · exact identifierChar_join hFields hc
    rw [storedIndex, indexName_eq, relation_append rfl (by decide)]
    have hRest : ((fold ((extKey ++ '_' :: collection) ++ '_' :: join fields '_')).take 59).all
        identifierChar = true := by
      rw [List.all_eq_true]
      intro c hc
      obtain ⟨d, hd, rfl⟩ := List.mem_map.mp (List.mem_of_mem_take hc)
      exact identifierChar_toLower (hBody d hd)
    exact hRest

theorem MadeRow.stored (h : MadeRow extKey x) : relation x.indexname = x.indexname := by
  cases h with
  | intro collection unique fields hKey hName hFields => exact relation_relation _

theorem mem_prune {c : Catalog} {table pattern : Str} {desired : List Str} (h : Made extKey c) :
    x ∈ c.prune table pattern desired ↔
      x ∈ c ∧
        ¬ (x.tablename = table ∧ like pattern x.indexname = true ∧ x.indexname ∉ desired) := by
  have hInspected : ∀ name, name ∈ c.list table pattern ↔
      ∃ y ∈ c, (y.tablename = table ∧ like pattern y.indexname = true) ∧ y.indexname = name := by
    intro name
    simp [Catalog.list, and_assoc]
  simp only [Catalog.prune, List.mem_filter, decide_eq_true_eq, hInspected]
  refine and_congr_right fun hx => ?_
  constructor
  · intro hKept hStale
    refine hKept x.indexname ⟨x, hx, ⟨hStale.1, hStale.2.1⟩, rfl⟩ hStale.2.2
      (h.rows x hx).identifier (h.rows x hx).stored.symm
  · intro hNot name hIn hDesired _ hName
    obtain ⟨y, hy, hMatch, rfl⟩ := hIn
    rw [(h.rows y hy).stored] at hName
    rw [h.eq_of_name hx hy hName] at hNot
    exact hNot ⟨hMatch.1, hMatch.2, hDesired⟩

theorem like_percent (s : Str) : like ['%'] s = true := by
  have hNil : ([] : Str) ∈ s.tails := (List.mem_tails [] s).mpr List.nil_suffix
  simp only [like, if_true, List.any_eq_true]
  exact ⟨[], hNil, rfl⟩

theorem like_cons {c : Char} {p : Str} (hc : c ≠ '%') (s : Str) :
    like (c :: p) s = true ↔ ∃ d t, s = d :: t ∧ (c = '_' ∨ c = d) ∧ like p t = true := by
  cases s with
  | nil => simp [like, hc]
  | cons d t => simp [like, hc]

theorem like_of_isPrefix {p s : Str} (hp : '%' ∉ p) (h : p <+: s) :
    like (p ++ ['%']) s = true := by
  induction p generalizing s with
  | nil => exact like_percent s
  | cons c p ih =>
    rw [List.mem_cons, not_or] at hp
    obtain ⟨t, rfl⟩ := h
    refine (like_cons (Ne.symm hp.1) _).mpr ⟨c, p ++ t, rfl, .inr rfl, ih hp.2 ⟨t, rfl⟩⟩

theorem length_le_of_like {p s : Str} (hp : '%' ∉ p) (h : like (p ++ ['%']) s = true) :
    p.length ≤ s.length := by
  induction p generalizing s with
  | nil => exact Nat.zero_le _
  | cons c p ih =>
    rw [List.mem_cons, not_or] at hp
    obtain ⟨d, t, rfl, -, hRest⟩ := (like_cons (Ne.symm hp.1) s).mp h
    exact Nat.succ_le_succ (ih hp.2 hRest)

theorem relation_indexName (extKey collection : Str) (fields : List Str) :
    relation (indexName extKey collection fields) = "idx_".toList ++
      (fold (extKey ++ '_' :: collection) ++ '_' :: fold (join fields '_')).take 59 := by
  rw [indexName_eq, relation_append rfl (by decide), fold_append (extKey ++ _)]
  rfl

theorem take_append_congr {n : Nat} {s s' : Str} (t : Str) (h : s.take n = s'.take n) :
    (s ++ t).take n = (s' ++ t).take n := by
  have hLength := congrArg List.length h
  rw [List.length_take, List.length_take] at hLength
  by_cases hShort : s.length < n
  · rw [List.take_of_length_le (by omega), List.take_of_length_le (by omega)] at h
    rw [h]
  · rw [List.take_append_of_le_length (by omega), List.take_append_of_le_length (by omega), h]

/-- An index on the table of a collection has a name that was declared for it, or for a
collection of which the table's name does not tell it apart. -/
theorem MadeRow.onTable (h : MadeRow extKey x)
    (hTable : x.tablename = relation ("ext_".toList ++ (extKey ++ '_' :: collection))) :
    ∃ fields, x.indexname = relation (indexName extKey collection fields) ∧
      x.exprs = fields.map pathExpr := by
  cases h with
  | intro other unique fields hKey hName hFields =>
    refine ⟨fields, ?_, rfl⟩
    rw [storedIndex, relation_append rfl (by decide), relation_append rfl (by decide)] at hTable
    have hBody := take_append_congr ('_' :: fold (join fields '_'))
      (List.append_cancel_left hTable)
    rw [storedIndex, relation_indexName, relation_indexName]
    exact congrArg ("idx_".toList ++ ·) hBody

theorem MadeRow.tablename_stored (h : MadeRow extKey x) : relation x.tablename = x.tablename := by
  cases h with
  | intro collection unique fields hKey hName hFields => exact relation_relation _

/-- Core finds the indexes of a table if its name is stored as written and leaves room for
the prefix. -/
def Inspected (table : Str) : Prop := relation table = table ∧ table.length < 63

instance (table : Str) : Decidable (Inspected table) := inferInstanceAs (Decidable (_ ∧ _))

theorem MadeRow.inspected_iff (h : MadeRow extKey x) (hName : matchesIdentifier collection = true) :
    (x.tablename = "ext_".toList ++ (extKey ++ '_' :: collection) ∧
        like (indexPrefix extKey collection ++ "%".toList) x.indexname = true) ↔
      x.tablename = relation ("ext_".toList ++ (extKey ++ '_' :: collection)) ∧
        Inspected ("ext_".toList ++ (extKey ++ '_' :: collection)) := by
  have hKey : matchesIdentifier extKey = true := by
    cases h
    assumption
  have hPercent : '%' ∉ indexPrefix extKey collection := by
    intro hMem
    have hNot : identifierChar '%' ≠ true := by decide
    rw [indexPrefix_eq] at hMem
    simp only [List.mem_append, List.mem_cons] at hMem
    rcases hMem with hMem | hMem | hMem | hMem | hMem
    · exact absurd hMem (by decide)
    · exact hNot (identifierChar_of_matches hKey _ hMem)
    · exact absurd hMem (by decide)
    · exact hNot (identifierChar_of_matches hName _ hMem)
    · exact absurd hMem (by decide)
  have hPrefix : (indexPrefix extKey collection).length =
      ("ext_".toList ++ (extKey ++ '_' :: collection)).length + 1 := by
    rw [indexPrefix_eq]
    simp
    omega
  constructor
  · intro hBoth
    have hStored := h.tablename_stored
    rw [hBoth.1] at hStored
    have hLong := length_le_of_like hPercent hBoth.2
    have hCut := (relation_eq_self.mp h.stored).2
    exact ⟨hBoth.1.trans hStored.symm, hStored, by omega⟩
  · intro hBoth
    obtain ⟨fields, hIndex, -⟩ := h.onTable hBoth.1
    refine ⟨hBoth.1.trans hBoth.2.1, like_of_isPrefix hPercent ?_⟩
    have hFold := (relation_eq_self.mp hBoth.2.1).1
    rw [fold_append] at hFold
    have hBody : fold (extKey ++ '_' :: collection) = extKey ++ '_' :: collection :=
      List.append_cancel_left hFold
    have hShort : (extKey ++ '_' :: collection).length < 59 := by
      have hLength := hBoth.2.2
      rw [List.length_append] at hLength
      have hFour : "ext_".toList.length = 4 := rfl
      omega
    have hCut := take_append_cons (x := fold (join fields '_')) (a := '_') hShort
    rw [hIndex, relation_indexName, hBody, indexPrefix_eq, hCut]
    refine (List.prefix_append_right_inj _).mpr ?_
    refine ⟨(fold (join fields '_')).take (59 - ((extKey ++ '_' :: collection).length + 1)), ?_⟩
    simp only [List.append_assoc, List.cons_append, List.nil_append]

theorem pathExpr_injective : Function.Injective pathExpr := by
  intro f g h
  exact List.append_cancel_left (List.append_cancel_right h)

end Names
end Moduless.DB
