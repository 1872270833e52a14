import Moduless.DB.QueryMeaning

/-!
`Find`, the older read path with offset paging. It knows comparisons with one value
only, and takes any other operator for equality.
-/

namespace Moduless.DB
open Go

structure Filter where
  field : Str
  operator : Str
  value : Text
  deriving DecidableEq

inductive FindError where
  | name (e : NameError)
  | field (field : Str)
  deriving DecidableEq

def findOperators : List (Str × Comparison) :=
  [(">".toList, .gt), ("<".toList, .lt), (">=".toList, .gte), ("<=".toList, .lte),
    ("LIKE".toList, .like), ("!=".toList, .ne)]

def normalizeOperator (op : Str) : Comparison := (findOperators.lookup op).getD .eq

/-- The clauses of the filters and their arguments, of which the first has the number
`argIdx`. A field is one key of the document. -/
def findWhere (argIdx : Nat) : List Filter → Except FindError (List Clause × List Text)
  | [] => .ok ([], [])
  | f :: rest =>
    if matchesIdentifier f.field then do
      let (clauses, args) ← findWhere (argIdx + 1) rest
      .ok (.compare [f.field] (normalizeOperator f.operator) argIdx :: clauses, f.value :: args)
    else .error (.field f.field)

/-- `Find` on the rows of its table, given in the order of `created_at`; it returns the
documents of the rows it selects. -/
def find (t : TextRules) (extKey collection : Str) (rows : List DocRow) (filters : List Filter)
    (limit offset : Int) : Except FindError (List DocRow) :=
  match tableName extKey collection with
  | .error e => .error (.name e)
  | .ok _ => do
      let (clauses, args) ← findWhere 1 filters
      let limit := if limit ≤ 0 then 100 else limit
      let offset := if offset < 0 then 0 else offset
      let args := args.map .text ++ [.int limit.toNat, .int offset.toNat]
      let found := rows.filter fun r => clauses.all fun c => c.eval t args r = some true
      .ok ((found.drop offset.toNat).take limit.toNat)

/-- Whether a row meets a filter, `none` where it is unknown. -/
def Filter.holds (t : TextRules) (f : Filter) (r : DocRow) : Option Bool :=
  (r.text t [f.field]).map fun a => (normalizeOperator f.operator).test t a f.value

section Find

variable {t : TextRules} {r : DocRow}

theorem findWhere_holds {env : List Arg} {n : Nat} {fs : List Filter} {clauses : List Clause}
    {args : List Text} (h : findWhere (n + 1) fs = .ok (clauses, args))
    (hBound : BoundAt env n args) :
    clauses.map (·.eval t env r) = fs.map (·.holds t r) := by
  induction fs generalizing n clauses args with
  | nil => cases h; rfl
  | cons f fs ih =>
    rw [findWhere] at h
    split at h
    · obtain ⟨⟨rest, more⟩, hRest, h⟩ := ok_of_bind h
      cases h
      have hBound : BoundAt env n ([f.value] ++ more) := hBound
      have hFirst : argText env (n + 1) = some f.value := hBound 0 f.value rfl
      rw [List.map_cons, List.map_cons, ih hRest hBound.right]
      simp only [Clause.eval, hFirst]
      congr 1
      rw [Filter.holds]
      cases r.text t [f.field] <;> rfl
    · cases h

theorem findWhere_all {fs : List Filter} {clauses : List Clause} {args : List Text}
    (h : findWhere 1 fs = .ok (clauses, args)) (rest : List Arg) :
    (clauses.all fun c => c.eval t (args.map .text ++ rest) r = some true) = true ↔
      ∀ f ∈ fs, f.holds t r = some true := by
  have hMap := congrArg (List.all · fun b : Option Bool => b = some true)
    (findWhere_holds (t := t) (r := r) h (boundAt_text args rest))
  simp only [List.all_map] at hMap
  exact (Bool.eq_iff_iff.mp hMap).trans (by simp)

theorem findWhere_fields {n : Nat} {fs : List Filter} {clauses : List Clause} {args : List Text}
    (h : findWhere n fs = .ok (clauses, args)) : ∀ f ∈ fs, matchesIdentifier f.field = true := by
  induction fs generalizing n clauses args with
  | nil => simp
  | cons f fs ih =>
    rw [findWhere] at h
    split at h
    · rename_i hField
      obtain ⟨⟨rest, more⟩, hRest, -⟩ := ok_of_bind h
      exact List.forall_mem_cons.mpr ⟨hField, ih hRest⟩
    · cases h

theorem mem_find {extKey collection : Str} {rows found : List DocRow} {fs : List Filter}
    {limit : Int} (h : find t extKey collection rows fs limit 0 = .ok found)
    (hLimit : rows.length < limit) :
    (∀ f ∈ fs, matchesIdentifier f.field = true) ∧
      (r ∈ found ↔ r ∈ rows ∧ ∀ f ∈ fs, f.holds t r = some true) := by
  rw [find] at h
  split at h
  · cases h
  · obtain ⟨⟨clauses, args⟩, hWhere, h⟩ := ok_of_bind h
    have hRoom : ¬ limit ≤ 0 := by omega
    simp only [if_neg hRoom, if_neg (Int.lt_irrefl 0), Int.toNat_zero, List.drop_zero] at h
    rw [List.take_of_length_le (Nat.le_trans (List.length_filter_le _ _) (by omega))] at h
    refine ⟨findWhere_fields hWhere, ?_⟩
    rw [← Except.ok.inj h, List.mem_filter]
    exact and_congr_right fun _ => findWhere_all hWhere _

end Find
end Moduless.DB
