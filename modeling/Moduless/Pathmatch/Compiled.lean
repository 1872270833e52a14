import Moduless.Pathmatch.Matching

/-!
What `Compile` accepts: the shape of every compiled pattern, and patterns of each
kind that compile.
-/

namespace Moduless.Pathmatch
open Go

/-- Stars stand only in whole segments of segment patterns. -/
def Pattern.WellFormed (c : Pattern) : Prop :=
  match c.kind with
  | .kindAll => True
  | .kindExact | .kindPrefix => '*' ∉ c.literal
  | .kindSegments => ∀ s ∈ c.segs, s = star ∨ '*' ∉ s

theorem containsStr_star {s : Str} : containsStr s star = true ↔ '*' ∈ s := by
  rw [containsStr_iff]
  exact List.singleton_infix_iff '*' s

theorem mem_of_mem_splitSegments {path : Str} {c : Char} :
    ∀ s ∈ splitSegments path, c ∈ s → c ∈ path := by
  intro s hs hc
  simp only [splitSegments] at hs
  split at hs
  next => cases hs
  next =>
    have hTrim : c ∈ trim path '/' := mem_of_mem_split s hs hc
    exact (List.dropWhile_suffix _).mem ((List.rdropWhile_prefix _ _).mem hTrim)

theorem exists_mem_splitSegments {path : Str} (h : '*' ∈ path) :
    ∃ s ∈ splitSegments path, '*' ∈ s := by
  obtain ⟨s, hs, hStar⟩ := (mem_iff_pathSegments (by decide)).mp h
  rw [← pathSegments_trim] at hs
  have hSplit : s ∈ split (trim path '/') '/' := List.mem_of_mem_filter hs
  have hne : trim path '/' ≠ [] := by
    intro hNil
    simp [hNil] at hs
  exact ⟨s, by rwa [splitSegments, if_neg hne], hStar⟩

theorem compileBody_wellFormed {pattern body : Str} {trailingAll : Bool} {c : Pattern}
    (h : compileBody pattern body trailingAll = .ok c) : c.WellFormed := by
  unfold compileBody at h
  split at h
  next => cases h
  next =>
    dsimp only at h
    split at h
    next => cases h
    next hWhole =>
      have hSegs : ∀ s ∈ splitSegments body, s = star ∨ '*' ∉ s := by
        intro s hs
        by_contra hNot
        rw [not_or, not_not] at hNot
        refine hWhole (List.any_eq_true.mpr ⟨s, hs, ?_⟩)
        simp [hNot.1, containsStr_star.mpr hNot.2]
      have hLiteral : (splitSegments body).contains star = false → '*' ∉ body := by
        intro hNone hStar
        obtain ⟨s, hs, hIn⟩ := exists_mem_splitSegments hStar
        rcases hSegs s hs with rfl | hOut
        · simp [hs] at hNone
        · exact hOut hIn
      split at h
      next hKind =>
        cases h
        exact hLiteral (by simpa using (Bool.and_eq_true_iff.mp hKind).1)
      next =>
        split at h
        next hKind =>
          cases h
          exact hLiteral (by simpa using hKind)
        next =>
          cases h
          exact hSegs

theorem compile_wellFormed {pattern : Str} {c : Pattern} (h : compile pattern = .ok c) :
    c.WellFormed := by
  unfold compile at h
  split at h
  next => cases h
  next =>
    split at h
    next =>
      cases h
      trivial
    next =>
      split at h
      next => cases h
      next =>
        split at h
        next => exact compileBody_wellFormed h
        next => exact compileBody_wellFormed h

theorem compileBody_starless {pattern body : Str} {trailingAll : Bool} (h : '*' ∉ body) :
    compileBody pattern body trailingAll =
      .ok { raw := pattern,
            kind := if trailingAll then .kindPrefix else .kindExact, literal := body } := by
  have hSegs : ∀ s ∈ splitSegments body, '*' ∉ s := fun s hs hStar =>
    h (mem_of_mem_splitSegments s hs hStar)
  have hDouble : containsStr body doubleStar = false := by
    rw [Bool.eq_false_iff, Ne, containsStr_iff]
    exact fun hInfix => h (hInfix.mem (by simp [doubleStar]))
  have hPartial : ((splitSegments body).any fun s => s ≠ star && containsStr s star) = false := by
    rw [List.any_eq_false]
    intro s hs hNot
    exact hSegs s hs (containsStr_star.mp (Bool.and_eq_true_iff.mp hNot).2)
  have hNone : (splitSegments body).contains star = false := by
    rw [Bool.eq_false_iff, Ne, List.contains_iff_mem]
    exact fun hs => hSegs star hs (by simp [star])
  unfold compileBody
  simp only [hDouble, hPartial, hNone, Bool.false_eq_true, if_false, Bool.not_false,
    Bool.true_and, if_true]
  cases trailingAll <;> rfl

theorem compile_exact {d : Str} (hSlash : ['/'] <+: d) (hStar : '*' ∉ d) :
    compile d = .ok { raw := d, kind := .kindExact, literal := d } := by
  have hne : d ≠ [] := by
    rintro rfl
    simp at hSlash
  have hAll : ¬ (d = doubleStar ∨ d = slashDoubleStar) := by
    rintro (rfl | rfl) <;> simp [doubleStar, slashDoubleStar] at hStar
  have hSuffix : ¬ hasSuffix d slashDoubleStar = true := by
    rw [hasSuffix_iff]
    exact fun h => hStar (h.mem (by simp [slashDoubleStar]))
  rw [compile, if_neg hne, if_neg hAll, if_neg (by simpa using hSlash), if_neg hSuffix,
    compileBody_starless hStar]
  rfl

theorem compile_prefixed {L : Str} (hSlash : ['/'] <+: L) (hStar : '*' ∉ L) :
    compile (L ++ slashDoubleStar) =
      .ok { raw := L ++ slashDoubleStar, kind := .kindPrefix, literal := L } := by
  have hne : L ++ slashDoubleStar ≠ [] := by simp [slashDoubleStar]
  obtain ⟨rest, rfl⟩ := hSlash
  have hAll : ¬ (['/'] ++ rest ++ slashDoubleStar = doubleStar ∨
      ['/'] ++ rest ++ slashDoubleStar = slashDoubleStar) := by
    rintro (h | h)
    · simp [doubleStar] at h
    · simpa [slashDoubleStar] using congrArg List.length h
  rw [compile, if_neg hne, if_neg hAll, if_neg (by simp), if_pos (by simp), trimSuffix_append,
    compileBody_starless hStar]
  rfl

/-- No two stars stand next to each other. -/
def NoDouble (a b : Char) : Prop := ¬ (a = '*' ∧ b = '*')

theorem not_doubleStar_infix {s : Str} (h : List.IsChain NoDouble s) : ¬ doubleStar <:+: s := by
  intro hInfix
  have hChain : List.IsChain NoDouble ['*', '*'] := h.infix hInfix
  simp [NoDouble] at hChain

theorem isChain_noDouble {w : Str} (h : w = star ∨ '*' ∉ w) : List.IsChain NoDouble w := by
  rcases h with rfl | hStar
  · exact .singleton _
  · refine (List.Pairwise.isChain ?_)
    rw [List.pairwise_iff_forall_sublist]
    rintro a b hSub ⟨rfl, -⟩
    exact hStar (hSub.subset (by simp))

theorem not_doubleStar_join {ws : List Str} (hStars : ∀ w ∈ ws, w = star ∨ '*' ∉ w) :
    ¬ doubleStar <:+: join ws '/' :=
  not_doubleStar_infix <|
    isChain_join (fun w hw => isChain_noDouble (hStars w hw)) (by simp [NoDouble])
      (by simp [NoDouble])

theorem not_doubleStar_rooted {ws : List Str} (hStars : ∀ w ∈ ws, w = star ∨ '*' ∉ w) :
    ¬ doubleStar <:+: '/' :: join ws '/' := by
  rw [List.infix_cons_iff, not_or]
  exact ⟨by simp [doubleStar], not_doubleStar_join hStars⟩

theorem compileBody_segments {pattern : Str} {trailingAll : Bool} {ws : List Str}
    (hws : ∀ w ∈ ws, w ≠ [] ∧ '/' ∉ w) (hStars : ∀ w ∈ ws, w = star ∨ '*' ∉ w)
    (hStar : star ∈ ws) :
    compileBody pattern ('/' :: join ws '/') trailingAll =
      .ok { raw := pattern, kind := .kindSegments, segs := ws, trailingAll := trailingAll } := by
  have hne : ws ≠ [] := List.ne_nil_of_mem hStar
  have hDouble : ¬ containsStr ('/' :: join ws '/') doubleStar = true := by
    rw [containsStr_iff]
    exact not_doubleStar_rooted hStars
  have hSegs : splitSegments ('/' :: join ws '/') = ws := by
    obtain ⟨c, front, -, -, hFront, -⟩ := join_ends hws hne
    rw [splitSegments, trim_join hws hne, if_neg (by simp [hFront]), split_join hws hne]
  have hPartial : (ws.any fun s => s ≠ star && containsStr s star) = false := by
    rw [List.any_eq_false]
    intro w hw hNot
    obtain ⟨hWhole, hIn⟩ := Bool.and_eq_true_iff.mp hNot
    exact (hStars w hw).elim (by simpa using hWhole) fun hOut => hOut (containsStr_star.mp hIn)
  rw [compileBody, if_neg hDouble]
  simp only [hSegs, hPartial, List.contains_iff_mem.mpr hStar]
  rfl

theorem compile_segments {ws : List Str} (hws : ∀ w ∈ ws, w ≠ [] ∧ '/' ∉ w)
    (hStars : ∀ w ∈ ws, w = star ∨ '*' ∉ w) (hStar : star ∈ ws) :
    compile ('/' :: join ws '/') =
      .ok { raw := '/' :: join ws '/', kind := .kindSegments, segs := ws } := by
  have hInfix := not_doubleStar_rooted hStars
  have hAll : ¬ ('/' :: join ws '/' = doubleStar ∨ '/' :: join ws '/' = slashDoubleStar) := by
    rintro (h | h)
    · exact hInfix (h ▸ List.infix_refl _)
    · exact hInfix (h ▸ ⟨['/'], [], rfl⟩)
  have hSuffix : ¬ hasSuffix ('/' :: join ws '/') slashDoubleStar = true := by
    rw [hasSuffix_iff]
    exact fun h => hInfix (List.IsInfix.trans ⟨['/'], [], rfl⟩ h.isInfix)
  rw [compile, if_neg (by simp), if_neg hAll, if_neg (by simp), if_neg hSuffix,
    compileBody_segments hws hStars hStar]

end Moduless.Pathmatch
