import Moduless.DB.Find
import Moduless.DB.Paging

/-!
Filters on the wire and the two calls that take them.

`Find` and `Query` get the same filters, with an operator and any number of values.
`Query` reads all eleven operators. `Find` keeps the first value only and compares with
it, for equality where it does not know the operator.
-/

namespace Moduless.HostSvc
open Go DB

/-- `pb.Operator`; a number without a name is kept. -/
inductive WireOperator where
  | unspecified
  | eq | ne | gt | gte | lt | lte | like
  | isIn | between | isNull | isNotNull
  | unrecognized (n : Int)
  deriving DecidableEq

structure WireFilter where
  field : Str
  op : WireOperator
  values : List Text
  deriving DecidableEq

structure Filter where
  field : Str
  op : Str
  values : List Text
  deriving DecidableEq

def operatorName : WireOperator → Str
  | .ne => "!=".toList
  | .gt => ">".toList
  | .gte => ">=".toList
  | .lt => "<".toList
  | .lte => "<=".toList
  | .like => "LIKE".toList
  | .isIn => "IN".toList
  | .between => "BETWEEN".toList
  | .isNull => "IS NULL".toList
  | .isNotNull => "IS NOT NULL".toList
  | .unspecified | .eq | .unrecognized _ => "=".toList

def WireFilter.filter (f : WireFilter) : Filter := ⟨f.field, operatorName f.op, f.values⟩

def filtersFrom (fs : List WireFilter) : List Filter := fs.map WireFilter.filter

/-- `CMDSData.Find` passes on the first value, or the empty text. -/
def Filter.legacy (f : Filter) : DB.Filter := ⟨f.field, f.op, f.values.headD []⟩

def Filter.predicate (f : Filter) : Predicate := ⟨f.field, f.op, f.values⟩

def rpcFind (t : TextRules) (key collection : Str) (rows : List DocRow) (fs : List WireFilter)
    (limit offset : Int) : Except FindError (List DocRow) :=
  find t key collection rows ((filtersFrom fs).map Filter.legacy) limit offset

def rpcQuery (t : TextRules) (key collection : Str) (rows : List DocRow) (fs : List WireFilter)
    (sort : List SortField) (limit : Int) (cursor : Str) : Except QueryError QueryResult :=
  query t key collection rows ⟨(filtersFrom fs).map Filter.predicate, sort, limit, cursor⟩

/-- The comparison an operator asks for. -/
def WireOperator.comparison : WireOperator → Option Comparison
  | .unspecified | .eq | .unrecognized _ => some .eq
  | .ne => some .ne
  | .gt => some .gt
  | .gte => some .gte
  | .lt => some .lt
  | .lte => some .lte
  | .like => some .like
  | .isIn | .between | .isNull | .isNotNull => none

section Readings

variable (t : TextRules)

/-- What a filter asks of a document. -/
def WireFilter.Asks (f : WireFilter) (r : DocRow) : Prop :=
  let text := r.text t [f.field]
  match f.op.comparison with
  | some c => ∃ a, text = some a ∧ c.test t a (f.values.headD []) = true
  | none =>
    match f.op with
    | .isIn => ∃ a ∈ f.values, text = some a
    | .between =>
      ∃ lo hi a, f.values = [lo, hi] ∧ text = some a ∧ ¬ t.lt a lo ∧ ¬ t.lt hi a
    | .isNull => text = none
    | _ => text ≠ none

/-- The field has the first value of the filter as its text. -/
def WireFilter.IsFirst (f : WireFilter) (r : DocRow) : Prop :=
  r.text t [f.field] = some (f.values.headD [])

def AsksAll (fs : List WireFilter) (r : DocRow) : Prop := ∀ f ∈ fs, f.Asks t r

end Readings

/-- The filters of a list that compare with one value. -/
def comparing (fs : List WireFilter) : List WireFilter := fs.filter fun f => f.op.comparison.isSome

def remaining (fs : List WireFilter) : List WireFilter := fs.filter fun f => f.op.comparison.isNone

section Filters

variable {t : TextRules} {f : WireFilter} {r : DocRow}

theorem split_identifier {field : Str} (h : matchesIdentifier field = true) :
    split field '.' = [field] := by
  refine List.splitOn_eq_singleton fun hDot => ?_
  cases field with
  | nil => cases hDot
  | cons c rest =>
    obtain ⟨hFirst, hRest⟩ := Bool.and_eq_true_iff.mp h
    cases hDot with
    | head => cases hFirst
    | tail _ hDot => cases List.all_eq_true.mp hRest _ hDot

theorem normalizeOperator_name (op : WireOperator) :
    normalizeOperator (operatorName op) = op.comparison.getD .eq := by
  cases op <;> rfl

theorem operatorOf_name (op : WireOperator) : operatorOf (operatorName op) =
    match op.comparison, op with
    | some c, _ => some (.compare c)
    | none, .isIn => some .isIn
    | none, .between => some .between
    | none, .isNull => some .isNull
    | none, _ => some .isNotNull := by
  cases op <;> rfl

theorem legacy_holds_of_comparison {c : Comparison} (h : f.op.comparison = some c) :
    f.filter.legacy.holds t r = some true ↔ f.Asks t r := by
  simp only [WireFilter.Asks, DB.Filter.holds, WireFilter.filter, Filter.legacy,
    normalizeOperator_name, h, Option.getD_some, Option.map_eq_some_iff]

theorem legacy_holds_of_none (h : f.op.comparison = none) :
    f.filter.legacy.holds t r = some true ↔ f.IsFirst t r := by
  simp [WireFilter.IsFirst, DB.Filter.holds, WireFilter.filter, Filter.legacy,
    normalizeOperator_name, h, Comparison.test]

theorem predicate_holds_iff {n : Nat} {path : List Str} {out : Clause × List Text}
    (hField : matchesIdentifier f.field = true)
    (hClause : clauseFor n path f.filter.predicate = .ok out) :
    f.filter.predicate.holds t r = some true ↔ f.Asks t r := by
  obtain ⟨field, op, values⟩ := f
  simp only [clauseFor, WireFilter.filter, Filter.predicate, operatorOf_name] at hClause
  simp only [Predicate.holds, WireFilter.filter, Filter.predicate, split_identifier hField,
    operatorOf_name, WireFilter.Asks]
  cases hOp : op.comparison with
  | some c =>
    rw [hOp] at hClause
    cases values with
    | nil => cases hClause
    | cons v rest =>
      cases rest with
      | nil => simp only [Option.map_eq_some_iff, List.headD_cons]
      | cons w rest => cases hClause
  | none =>
    cases op with
    | isIn =>
      cases values with
      | nil => simp
      | cons v vs => simp [Option.map_eq_some_iff, and_comm]
    | between =>
      cases values with
      | nil => simp
      | cons lo rest =>
        cases rest with
        | nil => simp
        | cons hi rest => cases rest <;> simp [Option.map_eq_some_iff]
    | isNull => simp
    | isNotNull => simp [Option.isSome_iff_ne_none]
    | unspecified | eq | ne | gt | gte | lt | lte | like | unrecognized n => cases hOp

theorem forall_filters {P : WireFilter → Prop} {fs : List WireFilter} :
    (∀ f ∈ fs, P f) ↔ (∀ f ∈ comparing fs, P f) ∧ ∀ f ∈ remaining fs, P f := by
  constructor
  · exact fun h => ⟨fun f hf => h f (List.mem_of_mem_filter hf),
      fun f hf => h f (List.mem_of_mem_filter hf)⟩
  · rintro ⟨hComparing, hRemaining⟩ f hf
    cases hOp : f.op.comparison with
    | some c => exact hComparing f (List.mem_filter.mpr ⟨hf, by rw [hOp]; rfl⟩)
    | none => exact hRemaining f (List.mem_filter.mpr ⟨hf, by rw [hOp]; rfl⟩)

theorem buildWhere_accepts {n : Nat} {ps : List Predicate} {out : List Clause × List Text}
    (h : buildWhere n ps = .ok out) :
    ∀ p ∈ ps, ∃ n path clause, clauseFor n path p = .ok clause := by
  induction ps generalizing n out with
  | nil => simp
  | cons p ps ih =>
    obtain ⟨path, -, h⟩ := ok_of_bind h
    obtain ⟨clause, hClause, h⟩ := ok_of_bind h
    obtain ⟨_, hRest, -⟩ := ok_of_bind h
    exact List.forall_mem_cons.mpr ⟨⟨n, path, clause, hClause⟩, ih hRest⟩

/-- `Find` and `Query` read the comparisons alike; where `Query` reads another
operator, `Find` asks for the first value. -/
theorem filters_holds {fs : List WireFilter} {n : Nat} {out : List Clause × List Text}
    (hFields : ∀ f ∈ fs, matchesIdentifier f.field = true)
    (hWhere : buildWhere n ((filtersFrom fs).map Filter.predicate) = .ok out) :
    ((∀ f ∈ fs, f.filter.legacy.holds t r = some true) ↔
      AsksAll t (comparing fs) r ∧ ∀ f ∈ remaining fs, f.IsFirst t r) ∧
    ((∀ f ∈ fs, f.filter.predicate.holds t r = some true) ↔
      AsksAll t (comparing fs) r ∧ AsksAll t (remaining fs) r) := by
  have hAccepts := buildWhere_accepts hWhere
  constructor
  · rw [forall_filters]
    refine and_congr (forall₂_congr fun f hf => ?_) (forall₂_congr fun f hf => ?_)
    · obtain ⟨c, hOp⟩ := Option.isSome_iff_exists.mp (List.mem_filter.mp hf).2
      exact legacy_holds_of_comparison hOp
    · exact legacy_holds_of_none (Option.isNone_iff_eq_none.mp (List.mem_filter.mp hf).2)
  · rw [AsksAll, AsksAll, ← forall_filters]
    refine forall₂_congr fun f hf => ?_
    obtain ⟨n, path, clause, hClause⟩ := hAccepts f.filter.predicate
      (List.mem_map_of_mem (List.mem_map_of_mem hf))
    exact predicate_holds_iff (hFields f hf) hClause

end Filters

/-- The options of a query that asks for every match, by pages of the given size. -/
def queryAll (fs : List WireFilter) (pageSize : Int) : QueryOptions :=
  ⟨(filtersFrom fs).map Filter.predicate, [], pageSize, []⟩

theorem plan_of_accepted {t : TextRules} {key collection : Str} {rows : List DocRow}
    {fs : List WireFilter} {pageSize : Int} {first : QueryResult}
    (h : rpcQuery t key collection rows fs [] pageSize [] = .ok first) :
    (∃ table, tableName key collection = .ok table) ∧
      (∃ p, (queryAll fs pageSize).plan = .ok p) ∧
      ∃ out, buildWhere 0 ((filtersFrom fs).map Filter.predicate) = .ok out := by
  rw [rpcQuery, query] at h
  split at h
  · cases h
  · rename_i table hName
    obtain ⟨p, hPlan, -⟩ := ok_of_bind h
    obtain ⟨out, hWhere, -⟩ := ok_of_bind hPlan
    exact ⟨⟨table, hName⟩, ⟨p, hPlan⟩, out, hWhere⟩

/-- `Find` returns what `Query` returns over all its pages, exactly if the filters with
an operator of more than one value or of none agree on the documents that meet the
others, each such document meeting them if and only if the text of each of their fields is
the first value, or empty where there is no value, and if no page ends with an empty id
before the last one. -/
theorem find_agrees_query_iff (t : TextRules) {key collection : Str} (content : Collection)
    {created : List DocRow} (hCreated : created.Perm content.rows) {fs : List WireFilter}
    {limit pageSize : Int} (hLimit : content.rows.length < limit) {found : List DocRow}
    (hFind : rpcFind t key collection created fs limit 0 = .ok found) {first : QueryResult}
    (hQuery : rpcQuery t key collection content.rows fs [] pageSize [] = .ok first) :
    (∃ pages, Follows (rpcQuery t key collection content.rows fs [] pageSize) [] pages ∧
      ∀ r, r ∈ found ↔ r ∈ pages.flatMap QueryResult.rows) ↔
    (∀ r ∈ content.rows, AsksAll t (comparing fs) r →
      (AsksAll t (remaining fs) r ↔ ∀ f ∈ remaining fs, f.IsFirst t r)) ∧
    ∀ n b r, ((queryAll fs pageSize).listed t content.rows)[n]? = some b →
      ((queryAll fs pageSize).listed t content.rows)[n + 1]? = some r →
      clampLimit pageSize ∣ n + 1 → b.id ≠ [] := by
  obtain ⟨⟨table, hName⟩, ⟨p, hPlan⟩, out, hWhere⟩ := plan_of_accepted hQuery
  have hSelected := fun r => mem_find (r := r) hFind (hCreated.length_eq ▸ hLimit)
  simp only [filtersFrom, List.map_map, List.forall_mem_map] at hSelected
  have hReadings := fun r => filters_holds (t := t) (r := r) (hSelected r).1 hWhere
  have hFound : ∀ r, r ∈ found ↔ r ∈ content.rows ∧
      AsksAll t (comparing fs) r ∧ ∀ f ∈ remaining fs, f.IsFirst t r := fun r => by
    rw [(hSelected r).2, hCreated.mem_iff]
    exact and_congr_right fun _ => (hReadings r).1
  have hListed : ∀ r, r ∈ (queryAll fs pageSize).listed t content.rows ↔ r ∈ content.rows ∧
      AsksAll t (comparing fs) r ∧ AsksAll t (remaining fs) r := fun r => by
    rw [mem_listed_iff]
    exact and_congr_right fun _ => by
      simpa [queryAll, filtersFrom] using (hReadings r).2
  simp only [List.flatMap_def]
  refine (exists_follows_iff hName hPlan content fun pages =>
    ∀ r, r ∈ found ↔ r ∈ pages.flatten).trans ?_
  refine (exists_walk_unsorted_iff rfl fun rows => ∀ r, r ∈ found ↔ r ∈ rows).trans ?_
  simp only [hFound, hListed]
  refine and_congr_left fun _ => ⟨fun hAgree r hr hComparing => ?_, fun h r => ?_⟩
  · have h := hAgree r
    exact ⟨fun hAll => (h.mpr ⟨hr, hComparing, hAll⟩).2.2,
      fun hFirst => (h.mp ⟨hr, hComparing, hFirst⟩).2.2⟩
  · refine and_congr_right fun hr => and_congr_right fun hComparing => ?_
    exact (h r hr hComparing).symm

def titleFrom (v : Text) : List WireFilter := [⟨"title".toList, .gte, [v]⟩]

theorem find_agrees_query_titleFrom :
    ∃ pages, Follows (rpcQuery plainText "blog".toList "notes".toList notes.rows
        (titleFrom "a".toList) [] 1) [] pages ∧
      ∀ r, r ∈ notes.rows ↔ r ∈ pages.flatMap QueryResult.rows := by
  have hFind : rpcFind plainText "blog".toList "notes".toList notes.rows
      (titleFrom "a".toList) 3 0 = .ok notes.rows := rfl
  obtain ⟨first, hQuery⟩ : ∃ first, rpcQuery plainText "blog".toList "notes".toList notes.rows
      (titleFrom "a".toList) [] 1 [] = .ok first := ⟨_, rfl⟩
  refine (find_agrees_query_iff plainText notes (.refl _) (by decide) hFind hQuery).mpr ⟨?_, ?_⟩
  · exact fun r _ _ => ⟨fun _ _ hf => (nomatch hf), fun _ _ hf => (nomatch hf)⟩
  · intro n b r hb _ _
    have hNamed : ∀ r ∈ notes.rows, r.id ≠ [] := by decide
    exact hNamed b (mem_listed (List.mem_of_getElem? hb))

def titleIn (vs : List Text) : List WireFilter := [⟨"title".toList, .isIn, vs⟩]

/-- Of two notes with a title from the list, `Find` returns the one with its first. -/
theorem find_misses_second :
    ∃ found page, rpcFind plainText "blog".toList "notes".toList notes.rows
        (titleIn ["a".toList, "b".toList]) 100 0 = .ok found ∧
      Follows (rpcQuery plainText "blog".toList "notes".toList notes.rows
        (titleIn ["a".toList, "b".toList]) [] 100) [] [page] ∧
      titled "2".toList "b".toList [] ∈ page.rows ∧
      titled "2".toList "b".toList [] ∉ found := by
  refine ⟨[titled "1".toList "a".toList []], _, rfl, .last rfl rfl, ?_, ?_⟩
  · exact .tail _ (.head _)
  · intro h
    cases h with
    | tail _ h => cases h

end Moduless.HostSvc
