import Moduless.Gateway.Path
import Moduless.Pathmatch.Coverage

/-!
The path filters are matched against and the path the backend serves.

Filters see the request's path as it was sent; the backend gets its sub-path
cleaned. A filter declared for what the backend serves runs exactly when the two
spellings are covered alike.
-/

namespace Moduless.Gateway
open Go Pathmatch

/-- The path a request is served under: its plugin and the sub-path handed over. -/
def dispatchedPath (key sub : Str) : Str := pluginAPIPrefix ++ key ++ sub

theorem cleanSubPath_shape (rest : Str) :
    cleanSubPath ('/' :: rest) = ['/'] ∨ ∃ front c tail, c ≠ '/' ∧ (tail = [] ∨ tail = ['/']) ∧
      cleanSubPath ('/' :: rest) = front ++ c :: tail := by
  have hSegs : ∀ w ∈ cleanSegments true (split rest '/'), w ≠ [] ∧ '/' ∉ w := fun w hw =>
    ⟨(mem_cleanSegments w hw).1, slash_not_mem_split w (mem_cleanSegments w hw).2⟩
  have hClean : clean ('/' :: rest) = '/' :: join (cleanSegments true (split rest '/')) '/' := rfl
  by_cases hNil : cleanSegments true (split rest '/') = []
  · refine .inl ?_
    simp [cleanSubPath, hClean, hNil, join]
  · obtain ⟨-, -, c, back, -, hBack, -, hc⟩ := join_ends hSegs hNil
    rw [hBack] at hClean
    refine .inr ⟨'/' :: back, c, if hasSuffix ('/' :: rest) ['/'] then ['/'] else [], hc, ?_, ?_⟩
    · split
      next => exact .inr rfl
      next => exact .inl rfl
    · have hSuffix : hasSuffix ('/' :: (back ++ [c])) ['/'] = false := by
        rw [Bool.eq_false_iff, Ne, hasSuffix_iff]
        rintro ⟨front, hFront⟩
        have hLast := congrArg List.getLast? hFront
        simp [List.getLast?_append, List.getLast?_cons] at hLast
        exact hc hLast.symm
      simp only [cleanSubPath, hClean, hSuffix, Bool.not_false, Bool.and_true]
      split <;> simp

theorem not_endsDouble {xs tail : Str} {c : Char} (hc : c ≠ '/')
    (hTail : tail = [] ∨ tail = ['/']) :
    ¬ EndsDouble (xs ++ c :: tail) := by
  rw [endsDouble_append hc]
  rcases hTail with rfl | rfl <;> decide

theorem hasPrefix_of_split {p key sub : Str} (h : splitPluginPath p = some (key, sub)) :
    pluginAPIPrefix <+: p := by
  unfold splitPluginPath at h
  by_contra hPrefix
  have hSame : trimPrefix p pluginAPIPrefix = p := by
    rw [trimPrefix, if_neg (by simpa using hPrefix)]
  simp [hSame] at h

theorem splitPluginPath_shape {p key sub : Str} (h : splitPluginPath p = some (key, sub)) :
    '/' ∉ key ∧ (sub = ['/'] ∨ ∃ front c tail, c ≠ '/' ∧ (tail = [] ∨ tail = ['/']) ∧
      sub = front ++ c :: tail) := by
  unfold splitPluginPath at h
  dsimp only at h
  split at h
  next => cases h
  next =>
    split at h
    next hSlash =>
      cases h
      refine ⟨not_mem_takeWhile_slash _, ?_⟩
      rcases dropWhile_ne_slash (trimPrefix p pluginAPIPrefix) with hNil | ⟨rest, hRest⟩
      · exact absurd (List.dropWhile_eq_nil_iff.mp hNil '/' hSlash) (by decide)
      · rw [hRest]
        exact cleanSubPath_shape rest
    next hSlash =>
      cases h
      exact ⟨hSlash, .inl rfl⟩

theorem dispatchedPath_single {p key sub : Str} (h : splitPluginPath p = some (key, sub))
    (hStar : '*' ∈ dispatchedPath key sub) : ¬ EndsDouble (dispatchedPath key sub) := by
  obtain ⟨hSlash, rfl | ⟨front, c, tail, hc, hTail, rfl⟩⟩ := splitPluginPath_shape h
  · have hPrefix : '*' ∉ pluginAPIPrefix := by decide
    simp only [dispatchedPath, List.mem_append, hPrefix, false_or, List.mem_singleton] at hStar
    have hKey : '*' ∈ key := hStar.resolve_right (by decide)
    obtain ⟨front, c, hFront⟩ :=
      List.eq_nil_or_concat key |>.resolve_left (List.ne_nil_of_mem hKey)
    have hc : c ≠ '/' := by
      rintro rfl
      simp [hFront] at hSlash
    rw [dispatchedPath, hFront, List.concat_eq_append, List.append_assoc, List.append_assoc,
      ← List.append_assoc]
    exact not_endsDouble hc (.inr rfl)
  · rw [dispatchedPath, ← List.append_assoc]
    exact not_endsDouble hc hTail

/-- The filters declared for what the backend serves are those that see the
request exactly when the request spells its path the way it is served, or differs
only beyond the reach of patterns. -/
theorem path_agreement_iff {p key sub : Str} (h : splitPluginPath p = some (key, sub)) :
    (∀ pattern c, compile pattern = .ok c →
      c.matches (dispatchedPath key sub) = true → c.matches p = true) ↔
    dispatchedPath key sub = p ∨ SpelledAlike (dispatchedPath key sub) p := by
  refine coveredLike_iff ?_ ?_ (dispatchedPath_single h)
  · exact ⟨"api/plugins/".toList ++ key ++ sub, rfl⟩
  · exact List.IsPrefix.trans ⟨"api/plugins/".toList, rfl⟩ (hasPrefix_of_split h)

/-- Slashes repeated after a starred key are seen by no pattern. -/
theorem path_agreement_starred : splitPluginPath "/api/plugins/a*//b".toList =
      some ("a*".toList, "/b".toList) ∧
    ∀ pattern c, compile pattern = .ok c →
      c.matches (dispatchedPath "a*".toList "/b".toList) = true →
      c.matches "/api/plugins/a*//b".toList = true := by
  refine ⟨by decide, (path_agreement_iff (by decide)).mpr
    (.inr ⟨by decide, ?_, by decide, by decide⟩)⟩
  exact .cons (.inr rfl) (.cons (.inr rfl) (.cons (.inr rfl) (.cons (.inr rfl) .nil)))

/-- A doubled slash hides a path from the pattern that names it. -/
theorem path_hidden : splitPluginPath "/api/plugins/a//b".toList = some ("a".toList, "/b".toList) ∧
    ∃ c, compile "/api/plugins/a/b".toList = .ok c ∧
      c.matches (dispatchedPath "a".toList "/b".toList) = true ∧
      c.matches "/api/plugins/a//b".toList = false :=
  ⟨by decide, _, rfl, by decide, by decide⟩

end Moduless.Gateway
