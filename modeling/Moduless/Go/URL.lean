import Mathlib.Data.List.Count
import Moduless.Go.Escape

/-!
`url.ParseRequestURI` for targets in origin form, those that begin with a slash.
A target with a scheme, an authority or `*` has no place in a message between
Core and a plugin; such a target counts as malformed here.
-/

namespace Moduless.Go

structure URL where
  path : Str
  rawQuery : Str
  forceQuery : Bool
  deriving DecidableEq

def isCTL (c : Char) : Bool := c.toNat < 0x20 || c.toNat = 0x7f

def beforeQuery (target : Str) : Str := target.takeWhile (· ≠ '?')

def afterQuery (target : Str) : Str := (target.dropWhile (· ≠ '?')).drop 1

/-- A lone question mark at the end. -/
def forcesQuery (target : Str) : Bool := hasSuffix target ['?'] && target.count '?' = 1

def parseRequestURI (target : Str) : Option URL :=
  if target.any isCTL then none
  else if !hasPrefix target ['/'] then none
  else
    (unescape (if forcesQuery target then target.dropLast else beforeQuery target)).map fun path =>
      ⟨path, if forcesQuery target then [] else afterQuery target, forcesQuery target⟩

section Query

variable {xs ys target : Str}

theorem beforeQuery_append (xs ys : Str) : beforeQuery (xs ++ '?' :: ys) = beforeQuery xs := by
  induction xs with
  | nil => rfl
  | cons c xs ih =>
    by_cases hc : c = '?'
    · simp [beforeQuery, hc]
    · simpa [beforeQuery, hc] using ih

theorem beforeQuery_eq_self_iff : beforeQuery xs = xs ↔ '?' ∉ xs := by
  rw [beforeQuery, List.takeWhile_eq_self_iff]
  constructor
  · intro h hMem
    simpa using h '?' hMem
  · intro h c hc
    simp only [decide_eq_true_iff]
    rintro rfl
    exact h hc

theorem slash_beforeQuery (h : ['/'] <+: xs) : ['/'] <+: beforeQuery xs := by
  obtain ⟨xs, rfl⟩ := h
  exact ⟨beforeQuery xs, rfl⟩

theorem afterQuery_append (h : '?' ∉ xs) : afterQuery (xs ++ '?' :: ys) = ys := by
  rw [afterQuery, List.dropWhile_append_of_pos]
  · rfl
  · intro c hc
    simp only [decide_eq_true_iff]
    rintro rfl
    exact h hc

theorem afterQuery_of_not_mem (h : '?' ∉ xs) : afterQuery xs = [] := by
  have hDrop : xs.dropWhile (· ≠ '?') = [] := by
    rw [List.dropWhile_eq_nil_iff]
    intro c hc
    simp only [decide_eq_true_iff]
    rintro rfl
    exact h hc
  rw [afterQuery, hDrop]
  rfl

theorem forcesQuery_cut (h : forcesQuery target = true) :
    target.dropLast = beforeQuery target ∧ afterQuery target = [] := by
  rw [forcesQuery, Bool.and_eq_true_iff, hasSuffix_iff, decide_eq_true_iff] at h
  obtain ⟨⟨xs, rfl⟩, hCount⟩ := h
  have hxs : '?' ∉ xs := by
    rw [← List.count_eq_zero]
    simpa using hCount
  refine ⟨?_, afterQuery_append hxs⟩
  rw [List.dropLast_concat, beforeQuery_append, beforeQuery_eq_self_iff.mpr hxs]

theorem parseRequestURI_eq (target : Str) : parseRequestURI target =
    if target.any isCTL then none
    else if !hasPrefix target ['/'] then none
    else (unescape (beforeQuery target)).map (⟨·, afterQuery target, forcesQuery target⟩) := by
  rw [parseRequestURI]
  cases hForce : forcesQuery target with
  | true =>
    rw [← (forcesQuery_cut hForce).1, (forcesQuery_cut hForce).2]
    rfl
  | false => rfl

theorem parseRequestURI_iff {path rawQuery : Str} :
    (∃ u, parseRequestURI target = some u ∧ u.path = path ∧ u.rawQuery = rawQuery) ↔
      target.any isCTL = false ∧ ['/'] <+: target ∧ Spells (beforeQuery target) path ∧
        afterQuery target = rawQuery := by
  rw [parseRequestURI_eq, ← unescape_iff]
  constructor
  · rintro ⟨u, hu, rfl, rfl⟩
    split_ifs at hu with hCTL hSlash
    obtain ⟨path, hPath, rfl⟩ := Option.map_eq_some_iff.mp hu
    exact ⟨by simpa using hCTL, hasPrefix_iff.mp (by simpa using hSlash), hPath, rfl⟩
  · rintro ⟨hCTL, hSlash, hPath, hQuery⟩
    refine ⟨⟨path, afterQuery target, forcesQuery target⟩, ?_, rfl, hQuery⟩
    rw [if_neg (by simp [hCTL]), if_neg (by simp [hasPrefix_iff.mpr hSlash]), hPath]
    rfl

end Query

end Moduless.Go
