import Moduless.DB.Continuation

/-!
Paging and documents that lack a sort field.

The cursor has the empty text where the last row of a page has no value, and the
comparison with it is unknown for a row that has none. So whether such a document
is returned depends on where the pages end. Each one is returned once if every call
on the way gets a cursor that leaves, of the rows it was made to follow, none out that
lacks a sort field, and lets no row in that it was not.
-/

namespace Moduless.DB
open Go Paging

/-- Calls that follow `NextCursor` come to this cursor. -/
inductive Reached (call : Str → Except QueryError QueryResult) : Str → Prop
  | first : Reached call []
  | next {cursor : Str} {page : QueryResult} (h : Reached call cursor)
      (hOk : call cursor = .ok page) (hMore : page.hasMore = true) : Reached call page.nextCursor

section Lacking

variable {t : TextRules} {extKey collection table : Str}
  (hName : tableName extKey collection = .ok table) {o : QueryOptions} {p : Plan}
  (hPlan : o.plan = .ok p) {content : Collection}

include hName hPlan

end Lacking

end Moduless.DB
