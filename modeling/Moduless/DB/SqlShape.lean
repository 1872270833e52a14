import Moduless.DB.QueryMeaning
import Moduless.DB.SqlText

/-!
What the texts of statements are made of.

Every fragment is a text of Core itself, an identifier, or a word of the fixed lists.
None of these contains a dollar sign and Core's texts do not begin with a digit, so
the placeholders of a text can be read back from it.
-/

namespace Moduless.DB
open Go Sql

/-- The texts Core writes into statements. -/
def coreTexts : List Str :=
  ["ext_".toList, "_".toList, ", ".toList, "(data->>'".toList, "')".toList,
    "(data#>>'\x7b".toList, ",".toList, "\x7d')".toList, " ".toList, " IN (".toList,
    ")".toList, " BETWEEN ".toList, " AND ".toList, " IS NULL".toList, " IS NOT NULL".toList,
    "FALSE".toList, "(".toList, ") < (".toList, ") > (".toList, " WHERE ".toList,
    " DESC".toList, " ASC".toList, "id".toList, "SELECT id, data FROM ".toList,
    " ORDER BY ".toList, " LIMIT ".toList, "*".toList, ")::numeric".toList, "SELECT ".toList,
    ")::float8".toList, " FROM ".toList, " GROUP BY ".toList]

def comparisons : List Comparison := [.eq, .ne, .gt, .gte, .lt, .lte, .like]

def aggregates : List AggFunc := [.count, .sum, .avg, .min, .max]

/-- The operators and functions that are written as they were asked for. -/
def sqlWords : List Str := comparisons.map Comparison.sql ++ aggregates.map AggFunc.sql

def Safe : Fragment → Prop
  | .fixed s => s ∈ coreTexts
  | .name s => matchesIdentifier s = true
  | .word s => s ∈ sqlWords
  | .hole _ => True

def AllSafe (fs : List Fragment) : Prop := ∀ f ∈ fs, Safe f

/-- Membership of a written text in a list of written texts, found by instance search: the
texts are compared as they are written and none of them is decoded. -/
class Listed (s : Str) (texts : List Str) : Prop where
  mem : s ∈ texts

instance Listed.tail {s t : Str} {texts : List Str} [h : Listed s texts] : Listed s (t :: texts) :=
  ⟨List.mem_cons_of_mem t h.mem⟩

instance Listed.head {s : Str} {texts : List Str} : Listed s (s :: texts) := ⟨List.mem_cons_self⟩

attribute [reducible] coreTexts

theorem safe_fixed (s : Str) [h : Listed s coreTexts] : Safe (.fixed s) := h.mem

section Safe

variable {f : Fragment} {fs gs : List Fragment}

theorem allSafe_nil : AllSafe [] := fun _ h => nomatch h

theorem allSafe_cons (hf : Safe f) (hfs : AllSafe fs) : AllSafe (f :: fs) := by
  intro g hg
  rcases List.mem_cons.mp hg with rfl | hg
  · exact hf
  · exact hfs g hg

theorem allSafe_append (hf : AllSafe fs) (hg : AllSafe gs) : AllSafe (fs ++ gs) :=
  fun f h => (List.mem_append.mp h).elim (hf f) (hg f)

theorem allSafe_intercalate {sep : List Fragment} {parts : List (List Fragment)}
    (hSep : AllSafe sep) (h : ∀ p ∈ parts, AllSafe p) : AllSafe (sep.intercalate parts) := by
  intro f hf
  rcases mem_intercalate hf with hf | ⟨p, hp, hf⟩
  · exact hSep f hf
  · exact h p hp f hf

theorem dollar_not_mem_identifier {s : Str} (h : matchesIdentifier s = true) : '$' ∉ s := by
  cases s with
  | nil => simp
  | cons c s =>
    simp only [matchesIdentifier, Bool.and_eq_true, List.all_eq_true] at h
    intro hMem
    rcases List.mem_cons.mp hMem with rfl | hMem
    · exact absurd h.1 (by decide)
    · exact absurd (h.2 '$' hMem) (by decide)

/-- A text with no placeholder in it that does not begin with a digit. -/
def PlainText (s : Str) : Prop := '$' ∉ s ∧ (s.head?.any fun c => !c.isDigit) = true

/-- A literal is the list of its characters, which is read without decoding it. -/
theorem plain_ofList {l : List Char}
    (h : (decide ('$' ∉ l) && l.head?.any fun c => !c.isDigit) = true) :
    PlainText (String.ofList l).toList := by
  rw [String.toList_ofList]
  obtain ⟨hDollar, hHead⟩ := Bool.and_eq_true_iff.mp h
  exact ⟨of_decide_eq_true hDollar, hHead⟩

theorem plain_coreTexts {s : Str} (hs : s ∈ coreTexts) : PlainText s := by
  delta coreTexts at hs
  repeat (rcases List.mem_cons.mp hs with rfl | hs; · exact plain_ofList rfl)
  cases hs

theorem plain_sqlWords {s : Str} (hs : s ∈ sqlWords) : PlainText s := by
  rcases List.mem_append.mp hs with hs | hs
  · obtain ⟨c, -, rfl⟩ := List.mem_map.mp hs
    cases c <;> exact plain_ofList rfl
  · obtain ⟨fn, -, rfl⟩ := List.mem_map.mp hs
    cases fn <;> exact plain_ofList rfl

theorem dollar_not_mem_of_safe (h : Safe f) (hHole : ∀ n, f ≠ .hole n) : '$' ∉ f.chars := by
  cases f with
  | hole n => exact absurd rfl (hHole n)
  | name s => exact dollar_not_mem_identifier h
  | fixed s => exact (plain_coreTexts h).1
  | word s => exact (plain_sqlWords h).1

theorem separated_of_safe (h : AllSafe fs) (hHoles : holes fs = []) : Separated fs := by
  induction fs with
  | nil => trivial
  | cons f fs ih =>
    have hRest : AllSafe fs := fun g hg => h g (List.mem_cons_of_mem _ hg)
    cases f with
    | hole n => simp at hHoles
    | fixed s | name s | word s =>
      exact ⟨dollar_not_mem_of_safe (h _ (by simp)) (by simp), ih hRest hHoles⟩

end Safe

section Parts

theorem safe_rowSign (descending : Bool) :
    Safe (.fixed (if descending then ") < (".toList else ") > (".toList)) := by
  cases descending with
  | true => exact safe_fixed ") < (".toList
  | false => exact safe_fixed ") > (".toList

theorem safe_comparison (c : Comparison) : Safe (.word c.sql) :=
  List.mem_append_left _ (List.mem_map_of_mem (by cases c <;> decide))

theorem safe_function (fn : AggFunc) : Safe (.word fn.sql) :=
  List.mem_append_right _ (List.mem_map_of_mem (by cases fn <;> decide))

theorem allSafe_comma : AllSafe commaSep := allSafe_cons (safe_fixed _) allSafe_nil

def PathOk (path : List Str) : Prop := ∀ seg ∈ path, matchesIdentifier seg = true

theorem pathOk_of_jsonPath {field : Str} {path : List Str} (h : jsonPath field = .ok path) :
    PathOk path := by
  have hCheck (segs : List Str) (hSegs : checkSegments field segs = .ok ()) : PathOk segs := by
    induction segs with
    | nil => exact fun _ h => nomatch h
    | cons seg segs ih =>
      rw [checkSegments] at hSegs
      split at hSegs
      next hSeg =>
        intro x hx
        rcases List.mem_cons.mp hx with rfl | hx
        · exact hSeg
        · exact ih hSegs x hx
      next => cases hSegs
  have hPath := jsonPath_eq h
  subst hPath
  unfold jsonPath at h
  split at h
  next => cases h
  next =>
    cases hAll : checkSegments field (split field '.') with
    | error e =>
      rw [hAll] at h
      cases h
    | ok u => exact hCheck _ hAll

theorem allSafe_path {path : List Str} (h : PathOk path) : AllSafe (pathSql path) := by
  have hNames : AllSafe (List.intercalate [.fixed ",".toList]
      (path.map fun part => [.name part])) := by
    refine allSafe_intercalate (allSafe_cons (safe_fixed _) allSafe_nil) fun p hp => ?_
    obtain ⟨part, hPart, rfl⟩ := List.mem_map.mp hp
    exact allSafe_cons (h part hPart) allSafe_nil
  unfold pathSql
  split
  next part =>
    exact allSafe_cons (safe_fixed _) (allSafe_cons (h part (by simp))
      (allSafe_cons (safe_fixed _) allSafe_nil))
  next =>
    exact allSafe_append (allSafe_cons (safe_fixed _) hNames)
      (allSafe_cons (safe_fixed _) allSafe_nil)

theorem holes_path (path : List Str) : holes (pathSql path) = [] := by
  unfold pathSql
  split
  next => rfl
  next parts _ =>
    rw [List.cons_append, holes_fixed, holes_append, holes_intercalate rfl, List.flatMap_map]
    simp only [holes_name, holes_nil, holes_fixed, List.append_nil, List.flatMap_eq_nil_iff,
      implies_true]

theorem allSafe_table {k c n : Str} (h : tableName k c = .ok n) : AllSafe (tableSql k c) := by
  unfold tableName at h
  split at h
  next => cases h
  next hKey =>
    split at h
    next => cases h
    next hColl =>
      exact allSafe_cons (safe_fixed _) (allSafe_cons (by simpa [Safe] using hKey)
        (allSafe_cons (safe_fixed _) (allSafe_cons (by simpa [Safe] using hColl) allSafe_nil)))

theorem text_table {k c n : Str} (h : tableName k c = .ok n) : Sql.text (tableSql k c) = n := by
  rw [tableName_eq h]
  simp only [tableSql, text_cons, text_nil, Fragment.chars, List.append_nil]
  rfl

theorem holes_holesSql (ns : List Nat) : holes (holesSql ns) = ns := by
  rw [holesSql, holes_intercalate rfl, List.flatMap_map]
  simp

theorem allSafe_holesSql (ns : List Nat) : AllSafe (holesSql ns) := by
  refine allSafe_intercalate allSafe_comma fun p hp => ?_
  obtain ⟨n, -, rfl⟩ := List.mem_map.mp hp
  exact allSafe_cons trivial allSafe_nil

theorem startsApart_cons {c : Char} {s : List Char} (h : c.isDigit = false) :
    StartsApart (c :: s) := by
  intro d hd
  cases hd
  exact h

theorem separated_comma {parts : List (List Fragment)} (h : ∀ p ∈ parts, Separated p) :
    Separated (commaSep.intercalate parts) :=
  separated_intercalate (separated_of_safe allSafe_comma rfl)
    (startsApart_cons rfl) (by decide)
    rfl h

theorem separated_holesSql (ns : List Nat) : Separated (holesSql ns) := by
  refine separated_comma fun p hp => ?_
  obtain ⟨n, -, rfl⟩ := List.mem_map.mp hp
  exact ⟨fun _ h => (nomatch h), trivial⟩

theorem allSafe_row {paths : List (List Str)} (h : ∀ path ∈ paths, PathOk path) :
    AllSafe (rowSql paths) := by
  refine allSafe_intercalate allSafe_comma fun p hp => ?_
  rcases List.mem_append.mp hp with hp | hp
  · obtain ⟨path, hPath, rfl⟩ := List.mem_map.mp hp
    exact allSafe_path (h path hPath)
  · rw [List.mem_singleton.mp hp]
    exact allSafe_cons (safe_fixed _) allSafe_nil

theorem holes_row (paths : List (List Str)) : holes (rowSql paths) = [] := by
  rw [rowSql, holes_intercalate rfl]
  simp [List.flatMap_map, holes_path]

end Parts

def Clause.PathsOk : Clause → Prop
  | .compare path _ _ | .isIn path _ | .between path _ _ | .isNull path | .isNotNull path =>
    PathOk path
  | .never => True
  | .after paths _ _ => ∀ path ∈ paths, PathOk path

def Clause.numbers : Clause → List Nat
  | .compare _ _ n => [n]
  | .isIn _ ns | .after _ _ ns => ns
  | .between _ lo hi => [lo, hi]
  | .isNull _ | .isNotNull _ | .never => []

section Clauses

theorem Clause.holes_sql (c : Clause) : holes c.sql = c.numbers := by
  cases c with
  | compare path c n | between path lo hi | isNull path | isNotNull path =>
    simp only [Clause.sql, Clause.numbers, holes_append, holes_path, holes_fixed, holes_word,
      holes_hole, holes_nil, List.nil_append]
  | isIn path ns =>
    simp only [Clause.sql, Clause.numbers, holes_append, holes_path, holes_fixed, holes_nil,
      holes_holesSql, List.nil_append, List.append_nil]
  | never => rfl
  | after paths descending ns =>
    simp only [Clause.sql, Clause.numbers, holes_append, holes_row, holes_fixed, holes_nil,
      holes_holesSql, List.nil_append, List.append_nil]

theorem Clause.allSafe_sql {c : Clause} (h : c.PathsOk) : AllSafe c.sql := by
  have hClose : AllSafe [.fixed ")".toList] := allSafe_cons (safe_fixed _) allSafe_nil
  cases c with
  | compare path c n =>
    exact allSafe_append (allSafe_path h) (allSafe_cons (safe_fixed _)
      (allSafe_cons (safe_comparison c) (allSafe_cons (safe_fixed _)
        (allSafe_cons trivial allSafe_nil))))
  | isIn path ns =>
    exact allSafe_append (allSafe_append (allSafe_path h)
      (allSafe_cons (safe_fixed _) (allSafe_holesSql ns))) hClose
  | between path lo hi =>
    exact allSafe_append (allSafe_path h) (allSafe_cons (safe_fixed _)
      (allSafe_cons trivial (allSafe_cons (safe_fixed _) (allSafe_cons trivial allSafe_nil))))
  | isNull path | isNotNull path =>
    exact allSafe_append (allSafe_path h) (allSafe_cons (safe_fixed _) allSafe_nil)
  | never => exact allSafe_cons (safe_fixed _) allSafe_nil
  | after paths descending ns =>
    exact allSafe_append (allSafe_append (allSafe_cons (safe_fixed _) (allSafe_row h))
      (allSafe_cons (safe_rowSign descending) (allSafe_holesSql ns))) hClose

theorem separated_fixed (s : Str) {fs : List Fragment} (hs : s ∈ coreTexts)
    (h : Separated fs) : Separated (.fixed s :: fs) :=
  ⟨dollar_not_mem_of_safe (f := .fixed s) hs (by simp), h⟩

/-- Core's texts do not begin with a digit. -/
theorem startsApart_fixed {s : Str} (hs : s ∈ coreTexts) (fs : List Fragment) :
    StartsApart (Sql.text (.fixed s :: fs)) := by
  have hHead := (plain_coreTexts hs).2
  cases s with
  | nil => simp at hHead
  | cons c s => exact startsApart_cons (by simpa using hHead)

theorem separated_path {path : List Str} (h : PathOk path) {fs : List Fragment}
    (hfs : Separated fs) : Separated (pathSql path ++ fs) :=
  separated_append_of_holes (separated_of_safe (allSafe_path h) (holes_path path)) hfs
    (holes_path path)

theorem separated_last (n : Nat) : Separated [.hole n] := ⟨fun _ h => (nomatch h), trivial⟩

theorem separated_bracket (ns : List Nat) : Separated (holesSql ns ++ [.fixed ")".toList]) :=
  separated_append (separated_holesSql ns) (separated_fixed _ (safe_fixed _) trivial)
    (startsApart_fixed (safe_fixed _) [])

theorem Clause.separated_sql {c : Clause} (h : c.PathsOk) : Separated c.sql := by
  cases c with
  | compare path c n =>
    refine separated_path h (separated_fixed _ (safe_fixed _) ⟨?_, ?_⟩)
    · exact dollar_not_mem_of_safe (safe_comparison c) (by simp)
    · exact separated_fixed _ (safe_fixed _) (separated_last n)
  | isIn path ns =>
    simp only [Clause.sql, List.append_assoc, List.cons_append]
    exact separated_path h (separated_fixed _ (safe_fixed _) (separated_bracket ns))
  | between path lo hi =>
    refine separated_path h (separated_fixed _ (safe_fixed _)
      ⟨startsApart_fixed (safe_fixed _) _, ?_⟩)
    exact separated_fixed _ (safe_fixed _) (separated_last hi)
  | isNull path | isNotNull path =>
    exact separated_path h (separated_fixed _ (safe_fixed _) trivial)
  | never => exact separated_fixed _ (safe_fixed _) trivial
  | after paths descending ns =>
    have hRow : Separated (rowSql paths) :=
      separated_of_safe (allSafe_row h) (holes_row paths)
    simp only [Clause.sql, List.append_assoc, List.cons_append]
    refine separated_fixed _ (safe_fixed _)
      (separated_append_of_holes hRow ?_ (holes_row paths))
    exact separated_fixed _ (safe_rowSign descending) (separated_bracket ns)

theorem holes_where (clauses : List Clause) :
    holes (whereSql clauses) = clauses.flatMap Clause.numbers := by
  unfold whereSql
  split
  next => rfl
  next =>
    rw [holes_fixed, holes_intercalate rfl, List.flatMap_map]
    simp only [Clause.holes_sql]

variable {clauses : List Clause} (h : ∀ c ∈ clauses, c.PathsOk)
include h

theorem allSafe_where : AllSafe (whereSql clauses) := by
  unfold whereSql
  split
  next => exact allSafe_nil
  next =>
    refine allSafe_cons (safe_fixed _) (allSafe_intercalate
      (allSafe_cons (safe_fixed _) allSafe_nil) fun p hp => ?_)
    obtain ⟨c, hc, rfl⟩ := List.mem_map.mp hp
    exact Clause.allSafe_sql (h c hc)

theorem separated_where : Separated (whereSql clauses) := by
  unfold whereSql
  split
  next => trivial
  next =>
    refine separated_fixed _ (safe_fixed _) (separated_intercalate
      (separated_fixed _ (safe_fixed _) trivial) (startsApart_fixed (safe_fixed _) [])
      (by decide) rfl fun p hp => ?_)
    obtain ⟨c, hc, rfl⟩ := List.mem_map.mp hp
    exact Clause.separated_sql (h c hc)

end Clauses

section Statements

variable {paths : List (List Str)} (hPaths : ∀ path ∈ paths, PathOk path)

theorem holes_order (paths : List (List Str)) (descending : Bool) :
    holes (orderSql paths descending) = [] := by
  rw [orderSql, holes_intercalate rfl,
      List.flatMap_append, List.flatMap_map, List.flatMap_singleton]
  simp only [direction, holes_append, holes_path, holes_fixed, holes_nil, List.append_nil,
    List.flatMap_eq_nil_iff, implies_true]

theorem holes_groups (groups : List (List Str)) : holes (groupSql groups) = [] := by
  unfold groupSql
  split
  next => rfl
  next =>
    rw [holes_fixed, holes_intercalate rfl]
    simp [List.flatMap_map, holes_path]

theorem safe_direction (descending : Bool) : Safe (direction descending) := by
  cases descending with
  | true => exact safe_fixed " DESC".toList
  | false => exact safe_fixed " ASC".toList

include hPaths

theorem allSafe_order (descending : Bool) : AllSafe (orderSql paths descending) := by
  refine allSafe_intercalate allSafe_comma fun p hp => ?_
  rcases List.mem_append.mp hp with hp | hp
  · obtain ⟨path, hPath, rfl⟩ := List.mem_map.mp hp
    exact allSafe_append (allSafe_path (hPaths path hPath))
      (allSafe_cons (safe_direction descending) allSafe_nil)
  · rw [List.mem_singleton.mp hp]
    exact allSafe_cons (safe_fixed _) (allSafe_cons (safe_direction descending) allSafe_nil)

theorem allSafe_groups : AllSafe (groupSql paths) := by
  unfold groupSql
  split
  next => exact allSafe_nil
  next =>
    refine allSafe_cons (safe_fixed _) (allSafe_intercalate allSafe_comma fun p hp => ?_)
    obtain ⟨path, hPath, rfl⟩ := List.mem_map.mp hp
    exact allSafe_path (hPaths path hPath)

end Statements
end Moduless.DB
