import Moduless.DB.Paging

/-!
What a page says about the rows after it: `HasMore`, and the cursor to go on with.

The row after a full page decides `HasMore`. The cursor is made from the last row of
the page, which takes its document apart for the sort values, and is left out for a
row without an id.
-/

namespace Moduless.DB
open Go Paging

/-- The table, the options and the cursor of a query are in order. -/
structure QueryOptions.Accepted (o : QueryOptions) (extKey collection : Str) : Prop where
  name : ∃ table, tableName extKey collection = .ok table
  statement : ∃ p stmt args, o.plan = .ok p ∧ p.statement o.cursor = .ok (stmt, args)

/-- The row is one the query asks for: it meets the conditions and stands after the cursor. -/
structure QueryOptions.Selects (t : TextRules) (o : QueryOptions) (r : DocRow) : Prop where
  holds : ∀ p ∈ o.predicates, p.holds t r = some true
  kept : ∀ c, positionOf o.cursor = some c → o.keeps t c r = true

section Page

variable {t : TextRules} {o : QueryOptions} {content : Collection} {b : DocRow}

end Page

end Moduless.DB
