import Moduless.DB.QueryMeaning

/-!
Following the cursor of a query from page to page.

One call returns the page of the keyset at its cursor, so calls that come to an end go
through the pages of a walk. A last row without an id sends them back to the first page.
-/

namespace Moduless.DB
open Go Paging

/-- Calls that follow `NextCursor` until `HasMore` is false, with their results. -/
inductive Follows (call : Str → Except QueryError QueryResult) : Str → List QueryResult → Prop
  | last {cursor : Str} {page : QueryResult} (h : call cursor = .ok page)
      (hMore : page.hasMore = false) : Follows call cursor [page]
  | more {cursor : Str} {page : QueryResult} {pages : List QueryResult}
      (h : call cursor = .ok page) (hMore : page.hasMore = true)
      (rest : Follows call page.nextCursor pages) : Follows call cursor (page :: pages)

def pageCall (t : TextRules) (extKey collection : Str) (content : Collection) (o : QueryOptions)
    (cursor : Str) : Except QueryError QueryResult :=
  query t extKey collection content.rows { o with cursor }

def QueryResult.rows (r : QueryResult) : List DocRow := List.zipWith DocRow.mk r.ids r.documents

def resultOf (docs : List DocRow) (cursor : Str) (hasMore : Bool) : QueryResult :=
  ⟨docs.map DocRow.data, docs.map DocRow.id, cursor, hasMore⟩

@[simp] theorem rows_resultOf (docs : List DocRow) (cursor : Str) (hasMore : Bool) :
    (resultOf docs cursor hasMore).rows = docs := by
  simp [resultOf, QueryResult.rows, List.zipWith_map]

theorem bind_resultOf (x : Except QueryError Str) (docs : List DocRow) (hasMore : Bool) :
    (x.bind fun cursor => .ok (resultOf docs cursor hasMore)) =
      x.map (resultOf docs · hasMore) := by
  cases x <;> rfl

/-- The result of a call at a cursor of the keyset. -/
def answer (t : TextRules) (sort : List SortField) (q : Keyset DocRow CursorPayload)
    (c : Option CursorPayload) : Except QueryError QueryResult :=
  let hasMore := decide (q.limit < (q.left c).length)
  (nextCursor t (q.page c) hasMore sort).map (resultOf (q.page c) · hasMore)

section Answer

variable {t : TextRules} {sort : List SortField} {q : Keyset DocRow CursorPayload}
  {c : Option CursorPayload} {b : DocRow}

theorem answer_last (h : (q.left c).length ≤ q.limit) :
    answer t sort q c = .ok (resultOf (q.page c) [] false) := by
  have hMore : decide (q.limit < (q.left c).length) = false :=
    decide_eq_false (Nat.not_lt_of_le h)
  simp only [answer, hMore, nextCursor, Bool.false_and]
  cases (q.page c).getLast? <;> rfl

theorem answer_more (h : q.Ends c b) (hNamed : b.id ≠ []) :
    answer t sort q c = (sortKeysOf t b.data sort).map fun keys =>
      resultOf (q.page c) (encodeCursor ⟨keys, b.id⟩) true := by
  simp only [answer, decide_eq_true h.more, nextCursor, h.last, Bool.true_and,
    decide_eq_true hNamed, if_true]
  cases sortKeysOf t b.data sort <;> rfl

theorem answer_ok {page : QueryResult} (h : answer t sort q c = .ok page) :
    page.rows = q.page c ∧ page.hasMore = decide (q.limit < (q.left c).length) := by
  simp only [answer] at h
  cases hCursor : nextCursor t (q.page c) (decide (q.limit < (q.left c).length)) sort with
  | error e => rw [hCursor] at h; cases h
  | ok cursor =>
    rw [hCursor] at h
    cases h
    exact ⟨rows_resultOf _ _ _, rfl⟩

/-- A page with more gives the cursor of its last row, or none if that has no id. -/
theorem answer_cases {page : QueryResult} (h : q.Ends c b) (hOk : answer t sort q c = .ok page) :
    page.hasMore = true ∧ (b.id = [] ∧ page.nextCursor = [] ∨
      b.id ≠ [] ∧ ∃ keys, sortKeysOf t b.data sort = .ok keys ∧
        page.nextCursor = encodeCursor ⟨keys, b.id⟩) := by
  by_cases hNamed : b.id = []
  · simp only [answer, decide_eq_true h.more, nextCursor, h.last, hNamed] at hOk
    cases hOk
    exact ⟨rfl, .inl ⟨hNamed, rfl⟩⟩
  · rw [answer_more h hNamed] at hOk
    cases hKeys : sortKeysOf t b.data sort with
    | error e => rw [hKeys] at hOk; cases hOk
    | ok keys =>
      rw [hKeys] at hOk
      cases hOk
      exact ⟨rfl, .inr ⟨hNamed, keys, rfl, rfl⟩⟩

end Answer

section Call

variable {t : TextRules} (content : Collection)

theorem key_injective (t : TextRules) (o : QueryOptions) (paths : List (List Str)) :
    ∀ a ∈ o.matching t content.rows, ∀ b ∈ o.matching t content.rows,
      a.key t paths = b.key t paths → a = b :=
  fun _ ha _ hb h => List.inj_on_of_nodup_map content.distinct (List.mem_of_mem_filter ha)
    (List.mem_of_mem_filter hb) (DocRow.id_of_key h)

/-- Where a cursor of a call points to; the empty one points to the first page. -/
def positionOf (cursor : Str) : Option CursorPayload :=
  if cursor = [] then none else decodeCursor cursor

theorem positionOf_cursorText (c : Option CursorPayload) : positionOf (cursorText c) = c := by
  cases c with
  | none => rfl
  | some cur =>
    rw [positionOf, cursorText, if_neg (encodeCursor_ne_nil cur), decodeCursor_encodeCursor]

/-- The statement returns the rows that are left at its cursor, one more than the page has. -/
theorem run_statement {o : QueryOptions} {p : Plan} (hPlan : o.Planned p) {cursor : Str}
    {stmt : Select} {args : List Arg} (h : p.statement cursor = .ok (stmt, args)) :
    stmt.run t args content.rows =
      ((o.keyset t content.rows).left (positionOf cursor)).take (clampLimit o.limit + 1) := by
  unfold Plan.statement at h
  unfold positionOf
  split at h
  next hFirst =>
    cases h
    rw [if_pos hFirst]
    exact run_first t hPlan content.rows
  next hCursor =>
    rw [if_neg hCursor]
    cases hDecoded : decodeCursor cursor with
    | none => rw [hDecoded] at h; cases h
    | some cur =>
      rw [hDecoded] at h
      simp only at h
      split at h
      · cases h
      · cases h
        refine (run_after t hPlan content.rows cur).trans ?_
        exact congrArg (List.take _)
          (inOrder_filter (DocRow.length_key t o.paths) (key_injective content t o o.paths)
            (o.keeps t cur))

theorem query_eq {extKey collection table : Str} (hName : tableName extKey collection = .ok table)
    {o : QueryOptions} {p : Plan} (hPlan : o.plan = .ok p) {stmt : Select} {args : List Arg}
    (hStatement : p.statement o.cursor = .ok (stmt, args)) :
    query t extKey collection content.rows o =
      answer t o.sort (o.keyset t content.rows) (positionOf o.cursor) := by
  have hPlanned := planned hPlan
  have hScan : scan p.limit [] (stmt.run t args content.rows) =
      ((o.keyset t content.rows).page (positionOf o.cursor),
        decide (clampLimit o.limit <
          ((o.keyset t content.rows).left (positionOf o.cursor)).length)) := by
    rw [scan_eq _ _ _ (Nat.zero_le _), run_statement content hPlanned hStatement,
      List.nil_append, List.length_nil, Nat.sub_zero, Nat.zero_add, List.take_take,
      List.length_take, hPlanned.limit, Nat.min_eq_left (Nat.le_succ _)]
    congr 1
    exact decide_eq_decide.mpr (by omega)
  simp only [query, hName, hPlan, hStatement, hScan, bind, Except.bind]
  exact bind_resultOf _ _ _

theorem pageCall_eq {extKey collection table : Str}
    (hName : tableName extKey collection = .ok table) {o : QueryOptions} {p : Plan}
    (hPlan : o.plan = .ok p) (c : Option CursorPayload)
    (hLength : ∀ cur, c = some cur → cur.keys.length = o.paths.length) :
    pageCall t extKey collection content o (cursorText c) =
      answer t o.sort (o.keyset t content.rows) c := by
  have hStatement : ∃ stmt args, p.statement (cursorText c) = .ok (stmt, args) := by
    cases c with
    | none => exact ⟨_, _, if_pos rfl⟩
    | some cur =>
      have hMatch : ¬ cur.keys.length ≠ p.paths.length := by
        rw [(planned hPlan).paths]
        exact not_not_intro (hLength cur rfl)
      rw [Plan.statement, cursorText, if_neg (encodeCursor_ne_nil cur),
        decodeCursor_encodeCursor]
      exact ⟨_, _, if_neg hMatch⟩
  obtain ⟨stmt, args, hStatement⟩ := hStatement
  have hPlan' : ({ o with cursor := cursorText c } : QueryOptions).plan = .ok p := hPlan
  have hAnswer := query_eq (t := t) content hName hPlan' hStatement
  rw [positionOf_cursorText] at hAnswer
  exact hAnswer

theorem length_cursorOf {o : QueryOptions} {b : DocRow} {c : CursorPayload}
    (h : o.cursorOf t b = some c) : c.keys.length = o.paths.length := by
  obtain ⟨-, keys, hKeys, rfl⟩ := cursorOf_eq_some.mp h
  unfold sortKeysOf at hKeys
  split at hKeys
  next hSort => rw [← Except.ok.inj hKeys, QueryOptions.paths, hSort]; rfl
  next =>
    split at hKeys
    · cases hKeys
    · rw [← Except.ok.inj hKeys, QueryOptions.paths, List.length_map, List.length_map]

end Call

section Follows

variable {call : Str → Except QueryError QueryResult}

theorem Follows.unique {cursor : Str} {pages pages' : List QueryResult}
    (h : Follows call cursor pages) (h' : Follows call cursor pages') : pages = pages' := by
  induction h generalizing pages' with
  | last h hMore =>
    cases h' with
    | last h' _ => rw [h] at h'; cases h'; rfl
    | more h' hMore' _ => rw [h] at h'; cases h'; rw [hMore] at hMore'; cases hMore'
  | more h hMore _ ih =>
    cases h' with
    | last h' hMore' => rw [h] at h'; cases h'; rw [hMore] at hMore'; cases hMore'
    | more h' _ rest' => rw [h] at h'; cases h'; rw [ih rest']

variable {t : TextRules} {o : QueryOptions} {content : Collection}
  (hCall : ∀ c, (∀ cur, c = some cur → cur.keys.length = o.paths.length) →
    call (cursorText c) = answer t o.sort (o.keyset t content.rows) c)

include hCall

theorem follows_of_walk {c : Option CursorPayload} {pages : List (List DocRow)}
    (hWalk : (o.keyset t content.rows).Walk c pages)
    (hLength : ∀ cur, c = some cur → cur.keys.length = o.paths.length) :
    ∃ results, Follows call (cursorText c) results ∧ results.map QueryResult.rows = pages := by
  induction hWalk with
  | done hAll =>
    refine ⟨_, .last ((hCall _ hLength).trans (answer_last hAll)) rfl, ?_⟩
    rw [List.map_singleton, rows_resultOf]
  | next hEnds hCursor _ ih =>
    obtain ⟨results, hRest, hRows⟩ :=
      ih fun cur hcur => Option.some.inj hcur ▸ length_cursorOf hCursor
    obtain ⟨hNamed, keys, hKeys, rfl⟩ := cursorOf_eq_some.mp hCursor
    have hAnswer := (answer_more hEnds hNamed).trans (congrArg (Except.map _) hKeys)
    refine ⟨_, .more ((hCall _ hLength).trans hAnswer) rfl hRest, ?_⟩
    rw [List.map_cons, rows_resultOf, hRows]

/-- Calls that come to an end have made a cursor from every row at which a page ended: an
error stops them, and from the first page on they would be as many again. -/
theorem walk_from {first results : List QueryResult} {cursor : Str}
    (hFirst : Follows call [] first) (hFollows : Follows call cursor results)
    (hShort : results.length ≤ first.length) {c : Option CursorPayload}
    (hc : cursor = cursorText c)
    (hLength : ∀ cur, c = some cur → cur.keys.length = o.paths.length) :
    (o.keyset t content.rows).Walk c (results.map QueryResult.rows) := by
  induction hFollows generalizing c with
  | last hOk hMore =>
    subst hc
    obtain ⟨hRows, hHasMore⟩ := answer_ok ((hCall c hLength).symm.trans hOk)
    rw [hMore] at hHasMore
    rw [List.map_singleton, hRows]
    exact .done (Nat.le_of_not_lt (of_decide_eq_false hHasMore.symm))
  | @more _ page pages hOk hMore rest ih =>
    subst hc
    have hAnswer := (hCall c hLength).symm.trans hOk
    obtain ⟨hRows, hHasMore⟩ := answer_ok hAnswer
    rw [hMore] at hHasMore
    obtain ⟨b, hEnds⟩ := Keyset.exists_ends (of_decide_eq_true hHasMore.symm)
    obtain ⟨-, ⟨-, hNext⟩ | ⟨hNamed, keys, hKeys, hNext⟩⟩ := answer_cases hEnds hAnswer
    · rw [hNext] at rest
      have hLonger := congrArg List.length (rest.unique hFirst)
      rw [List.length_cons] at hShort
      omega
    · have hCursor := cursorOf_eq_some.mpr ⟨hNamed, keys, hKeys, rfl⟩
      rw [List.map_cons, hRows]
      exact .next hEnds hCursor (ih (Nat.le_of_succ_le hShort) hNext
        fun cur hcur => Option.some.inj hcur ▸ length_cursorOf hCursor)

end Follows

/-- The calls from the first page on and the walk through the pages. -/
theorem exists_follows_iff {t : TextRules} {extKey collection table : Str}
    (hName : tableName extKey collection = .ok table) {o : QueryOptions} {p : Plan}
    (hPlan : o.plan = .ok p) (content : Collection) (P : List (List DocRow) → Prop) :
    (∃ results, Follows (pageCall t extKey collection content o) [] results ∧
      P (results.map QueryResult.rows)) ↔
    ∃ pages, (o.keyset t content.rows).Walk none pages ∧ P pages := by
  have hCall := pageCall_eq (t := t) content hName hPlan
  constructor
  · rintro ⟨results, hFollows, hP⟩
    exact ⟨_, walk_from hCall hFollows hFollows (Nat.le_refl _) rfl (by simp), hP⟩
  · rintro ⟨pages, hWalk, hP⟩
    obtain ⟨results, hFollows, rfl⟩ := follows_of_walk hCall hWalk (by simp)
    exact ⟨results, hFollows, hP⟩

end Moduless.DB
