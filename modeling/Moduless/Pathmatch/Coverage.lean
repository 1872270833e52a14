import Moduless.Pathmatch.Compiled

/-!
Two spellings of a path under all patterns at once.

A pattern without stars tells any two paths apart, so a path without stars is
covered like another only if they are equal. A path with stars can only be
covered up to its first star literally, and by segments beyond; there repeated
slashes do not show.
-/

namespace Moduless.Pathmatch
open Go

/-- Every pattern that covers `d` covers `p`. -/
def CoveredLike (d p : Str) : Prop :=
  ∀ pattern c, compile pattern = .ok c → c.matches d = true → c.matches p = true

/-- The path up to the segment with its first star. -/
def starHead (d : Str) : Str := (d.takeWhile (· ≠ '*')).rdropWhile (· ≠ '/')

/-- What a pattern can tell of a segment: segments with stars are covered by a
wildcard or not at all. -/
def SegmentLike (a b : Str) : Prop := '*' ∈ a ∨ a = b

structure SpelledAlike (d p : Str) : Prop where
  star : '*' ∈ d
  segments : List.Forall₂ SegmentLike (pathSegments d) (pathSegments p)
  single : ¬ EndsDouble p
  head : starHead d <+: p

section StarHead

variable {d : Str}

theorem starHead_prefix (d : Str) : starHead d <+: d :=
  (List.rdropWhile_prefix _ _).trans (List.takeWhile_prefix _)

theorem star_not_mem_starHead (d : Str) : '*' ∉ starHead d := by
  intro h
  have hBefore := List.mem_takeWhile_imp ((List.rdropWhile_prefix _ _).mem h)
  simp at hBefore

theorem starHead_eq (hd : ['/'] <+: d) : ∃ L, starHead d = L ++ ['/'] := by
  have hne : starHead d ≠ [] := by
    obtain ⟨rest, rfl⟩ := hd
    intro hNil
    have hAll := List.rdropWhile_eq_nil_iff.mp hNil '/' (by simp)
    simp at hAll
  have hLast : (starHead d).getLast hne = '/' := by
    by_contra hNot
    exact List.rdropWhile_last_not (· ≠ '/') (d.takeWhile (· ≠ '*')) hne (decide_eq_true hNot)
  exact ⟨(starHead d).dropLast, by rw [← hLast, List.dropLast_append_getLast hne]⟩

theorem prefix_rdropWhile (L t : Str) : L ++ ['/'] <+: (L ++ ['/'] ++ t).rdropWhile (· ≠ '/') := by
  induction t using List.reverseRecOn with
  | nil => rw [List.append_nil, List.rdropWhile_concat_neg _ _ _ (by simp)]
  | append_singleton t c ih =>
    rw [← List.append_assoc, List.rdropWhile_concat]
    split
    next => exact ih
    next => exact (List.prefix_append _ _).trans (List.prefix_append _ _)

/-- Whatever a pattern can say literally about a path with stars lies in it. -/
theorem prefix_starHead {L : Str} (hStar : '*' ∉ L) (hL : L ++ ['/'] <+: d) :
    L ++ ['/'] <+: starHead d := by
  obtain ⟨rest, rfl⟩ := hL
  have hBefore : ∀ c ∈ L ++ ['/'], decide (c ≠ '*') = true := by
    intro c hc
    rw [decide_eq_true_eq]
    rintro rfl
    simp [hStar] at hc
  rw [starHead, List.takeWhile_append_of_pos hBefore]
  exact prefix_rdropWhile L _

end StarHead

/-- The segments of a path with a wildcard in the place of each that has a star. -/
def wildcards (d : Str) : List Str := (pathSegments d).map fun s => if '*' ∈ s then star else s

def wildcardPattern (d : Str) : Pattern :=
  { raw := '/' :: join (wildcards d) '/'
    kind := .kindSegments
    segs := wildcards d }

theorem accepts_wildcard (a b : Str) :
    Accepts (if '*' ∈ a then star else a) b ↔ SegmentLike a b := by
  unfold Accepts SegmentLike
  split
  next hStar => simp [hStar]
  next hStar =>
    have hne : a ≠ star := by
      rintro rfl
      exact hStar (by simp [star])
    simp [hStar, hne]

theorem compile_wildcards {d : Str} (h : '*' ∈ d) :
    compile (wildcardPattern d).raw = .ok (wildcardPattern d) := by
  refine compile_segments (fun w hw => ?_) (fun w hw => ?_) ?_
  · obtain ⟨s, hs, rfl⟩ := List.mem_map.mp hw
    split
    next => simp [star]
    next => exact mem_pathSegments s hs
  · obtain ⟨s, hs, rfl⟩ := List.mem_map.mp hw
    split
    next => exact .inl rfl
    next hStar => exact .inr hStar
  · obtain ⟨s, hs, hStar⟩ := (mem_iff_pathSegments (by decide)).mp h
    exact List.mem_map.mpr ⟨s, hs, if_pos hStar⟩

section Coverage

variable {d p : Str}

theorem wildcardPattern_matches {path : Str} : (wildcardPattern d).matches path = true ↔
    List.Forall₂ SegmentLike (pathSegments d) (pathSegments path) ∧ ¬ EndsDouble path := by
  have hSegs : List.Forall₂ Accepts (wildcards d) (pathSegments path) ↔
      List.Forall₂ SegmentLike (pathSegments d) (pathSegments path) := by
    simp only [wildcards, List.forall₂_map_left_iff, accepts_wildcard]
  rw [← hSegs]
  exact matchSegments_exact

/-- A path with stars is covered like another only if they are spelled alike. -/
theorem CoveredLike.spelledAlike (h : CoveredLike d p) (hd : ['/'] <+: d) (hp : ['/'] <+: p)
    (hStar : '*' ∈ d) (hEnd : ¬ EndsDouble d) : SpelledAlike d p := by
  have hSelf : List.Forall₂ SegmentLike (pathSegments d) (pathSegments d) :=
    List.forall₂_same.mpr fun s _ => .inr rfl
  obtain ⟨hSegs, hSingle⟩ :=
    wildcardPattern_matches.mp (h _ _ (compile_wildcards hStar)
      (wildcardPattern_matches.mpr ⟨hSelf, hEnd⟩))
  refine ⟨hStar, hSegs, hSingle, ?_⟩
  obtain ⟨L, hL⟩ := starHead_eq hd
  obtain ⟨rest, hRest⟩ := starHead_prefix d
  have hFree : '*' ∉ L := fun hIn => star_not_mem_starHead d (by simp [hL, hIn])
  rw [hL] at hRest ⊢
  by_cases hNil : L = []
  · rwa [hNil]
  · have hSlash : ['/'] <+: L := by
      obtain ⟨c, L', rfl⟩ := List.exists_cons_of_ne_nil hNil
      rw [← hRest] at hd
      simpa using hd
    have hMatch := h _ _ (compile_prefixed hSlash hFree)
      ((matches_prefixed rfl).mpr (.inr ⟨rest, hRest⟩))
    rcases (matches_prefixed rfl).mp hMatch with rfl | hBelow
    · -- `d` has the segment with the star beyond the literal, so `p` is longer
      have hMore : pathSegments rest ≠ [] := by
        have hIn : '*' ∈ rest := by
          rw [← hRest] at hStar
          simpa [hFree] using hStar
        obtain ⟨s, hs, -⟩ := (mem_iff_pathSegments (by decide)).mp hIn
        exact List.ne_nil_of_mem hs
      have hLength := hSegs.length_eq
      rw [← hRest, List.append_assoc, List.singleton_append, pathSegments_append,
        List.length_append] at hLength
      exact absurd (List.eq_nil_of_length_eq_zero (by simpa using hLength)) hMore
    · exact hBelow

theorem forall₂_accepts {segs as bs : List Str} (hSegs : ∀ s ∈ segs, s = star ∨ '*' ∉ s)
    (h : List.Forall₂ Accepts segs as) (hLike : List.Forall₂ SegmentLike as bs) :
    List.Forall₂ Accepts segs bs := by
  induction h generalizing bs with
  | nil =>
    cases hLike
    exact .nil
  | @cons w a segs as hAccepts _ ih =>
    cases hLike with
    | cons hab hRest =>
      refine .cons ?_ (ih (fun s hs => hSegs s (by simp [hs])) hRest)
      rcases hAccepts with hWild | rfl
      · exact .inl hWild
      · rcases hab with hIn | rfl
        · exact .inl ((hSegs w (by simp)).resolve_right fun hOut => hOut hIn)
        · exact .inr rfl

theorem SpelledAlike.coveredLike (h : SpelledAlike d p) : CoveredLike d p := by
  intro pattern c hCompile hMatch
  have hForm := compile_wellFormed hCompile
  cases hKind : c.kind with
  | kindAll => simp [Pattern.matches, hKind]
  | kindExact =>
    simp only [Pattern.matches, Pattern.WellFormed, hKind, decide_eq_true_eq] at hMatch hForm
    exact absurd h.star (hMatch ▸ hForm)
  | kindPrefix =>
    simp only [Pattern.WellFormed, hKind] at hForm
    rcases (matches_prefixed hKind).mp hMatch with rfl | hBelow
    · exact absurd h.star hForm
    · exact (matches_prefixed hKind).mpr (.inr ((prefix_starHead hForm hBelow).trans h.head))
  | kindSegments =>
    simp only [Pattern.matches, Pattern.WellFormed, hKind] at hMatch hForm ⊢
    cases hAll : c.trailingAll with
    | true =>
      rw [hAll, matchSegments_all] at hMatch
      rw [matchSegments_all]
      exact forall₂_accepts hForm hMatch (List.forall₂_take _ h.segments)
    | false =>
      rw [hAll, matchSegments_exact] at hMatch
      rw [matchSegments_exact]
      exact ⟨forall₂_accepts hForm hMatch.1 h.segments, h.single⟩

/-- When every pattern that covers one path covers the other. -/
theorem coveredLike_iff (hd : ['/'] <+: d) (hp : ['/'] <+: p) (hEnd : '*' ∈ d → ¬ EndsDouble d) :
    CoveredLike d p ↔ d = p ∨ SpelledAlike d p := by
  constructor
  · intro h
    by_cases hStar : '*' ∈ d
    · exact .inr (h.spelledAlike hd hp hStar (hEnd hStar))
    · have hMatch := h d _ (compile_exact hd hStar) (by simp [Pattern.matches])
      exact .inl (by simpa [Pattern.matches, eq_comm] using hMatch)
  · rintro (rfl | hAlike)
    · exact fun _ _ _ hMatch => hMatch
    · exact hAlike.coveredLike

end Coverage

end Moduless.Pathmatch
