import Mathlib.Data.List.Forall2
import Moduless.Go.Segments
import Moduless.Pathmatch.Pattern

/-!
What a compiled pattern covers, in terms of the segments of a path.
-/

namespace Moduless.Pathmatch
open Go

/-- A segment of a pattern against a segment of a path. -/
def Accepts (want got : Str) : Prop := want = star ∨ want = got

theorem nextSegment_spec (path : Str) :
    (pathSegments path = [] ∧ (nextSegment path).1 = []) ∨
    ((nextSegment path).1 ≠ [] ∧
      pathSegments path = (nextSegment path).1 :: pathSegments (nextSegment path).2 ∧
      (EndsDouble path ↔ EndsDouble (nextSegment path).2)) := by
  have hPath : path =
      path.takeWhile (· = '/') ++ ((nextSegment path).1 ++ (nextSegment path).2) := by
    simp [nextSegment, List.takeWhile_append_dropWhile]
  by_cases hGot : (nextSegment path).1 = []
  · refine .inl ⟨?_, hGot⟩
    rw [← pathSegments_dropSlashes]
    cases hRest : path.dropWhile (· = '/') with
    | nil => rfl
    | cons c rest =>
      have hHead := List.head_dropWhile_not
        (· = '/') (l := path) (hRest ▸ List.cons_ne_nil c rest)
      simp only [hRest, List.head_cons, decide_eq_false_iff_not] at hHead
      simp [nextSegment, hRest, hHead] at hGot
  · refine .inr ⟨hGot, ?_, ?_⟩
    · rw [← pathSegments_dropSlashes]
      exact pathSegments_first hGot
    · obtain ⟨front, c, hFront⟩ := List.eq_nil_or_concat _ |>.resolve_left hGot
      have hc : c ≠ '/' := by
        have hSlash := not_mem_takeWhile_slash (path.dropWhile (· = '/'))
        rintro rfl
        refine hSlash ?_
        change '/' ∈ (nextSegment path).1
        simp [hFront]
      have hSplit : path = path.takeWhile (· = '/') ++ front ++ c :: (nextSegment path).2 := by
        conv_lhs => rw [hPath, hFront]
        simp
      conv_lhs => rw [hSplit]
      exact endsDouble_append hc

theorem matchSegments_cons {trailingAll : Bool} {want : Str} {segs : List Str} {path : Str}
    (hGot : (nextSegment path).1 ≠ []) :
    matchSegments trailingAll (want :: segs) path = true ↔
      Accepts want (nextSegment path).1 ∧
        matchSegments trailingAll segs (nextSegment path).2 = true := by
  simp only [matchSegments, if_neg hGot, Accepts]
  by_cases hStar : want = star
  · simp [hStar]
  · by_cases hSame : want = (nextSegment path).1 <;> simp [hStar, hSame]

theorem matchSegments_exact {segs : List Str} {path : Str} :
    matchSegments false segs path = true ↔
      List.Forall₂ Accepts segs (pathSegments path) ∧ ¬ EndsDouble path := by
  induction segs generalizing path with
  | nil =>
    rw [List.forall₂_nil_left_iff, pathSegments_eq_nil_and]
    simp [matchSegments]
  | cons want segs ih =>
    rcases nextSegment_spec path with ⟨hNil, hGot⟩ | ⟨hGot, hSegs, hEnd⟩
    · simp [matchSegments, hNil, hGot, List.forall₂_nil_right_iff]
    · rw [matchSegments_cons hGot, ih, hSegs, hEnd, List.forall₂_cons, and_assoc]

theorem matchSegments_all {segs : List Str} {path : Str} :
    matchSegments true segs path = true ↔
      List.Forall₂ Accepts segs ((pathSegments path).take segs.length) := by
  induction segs generalizing path with
  | nil => simp [matchSegments]
  | cons want segs ih =>
    rcases nextSegment_spec path with ⟨hNil, hGot⟩ | ⟨hGot, hSegs, -⟩
    · simp [matchSegments, hNil, hGot, List.forall₂_nil_right_iff]
    · rw [matchSegments_cons hGot, ih, hSegs, List.length_cons, List.take_succ_cons,
        List.forall₂_cons]

theorem matches_prefixed {c : Pattern} (hKind : c.kind = .kindPrefix) {path : Str} :
    c.matches path = true ↔ path = c.literal ∨ c.literal ++ ['/'] <+: path := by
  simp only [Pattern.matches, hKind]
  by_cases hPrefix : c.literal <+: path
  · obtain ⟨rest, rfl⟩ := hPrefix
    rw [if_neg (by simp), List.drop_left]
    cases rest with
    | nil => simp
    | cons a rest =>
      have hBelow : c.literal ++ ['/'] <+: c.literal ++ a :: rest ↔ a = '/' := by
        simp [List.prefix_append_right_inj, eq_comm (a := '/')]
      rw [hBelow]
      simp +contextual
  · have hNot : hasPrefix path c.literal = false := by
      rw [Bool.eq_false_iff, Ne, hasPrefix_iff]
      exact hPrefix
    rw [if_pos (by simp [hNot])]
    simp only [Bool.false_eq_true, false_iff, not_or]
    refine ⟨fun hEq => hPrefix (hEq ▸ List.prefix_refl _), fun hBelow => hPrefix ?_⟩
    exact (List.prefix_append _ _).trans hBelow

end Moduless.Pathmatch
