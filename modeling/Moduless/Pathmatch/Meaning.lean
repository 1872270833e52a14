import Moduless.Pathmatch.Compiled

/-!
What patterns mean: `Compile` accepts exactly the patterns whose stars stand in
whole segments, with two stars only in the last one, and the four kinds of
compiled pattern all compare the segments of the pattern with those of the path.
-/

namespace Moduless.Pathmatch
open Go

/-- A segment that is one star or has none. -/
def Whole (s : Str) : Prop := s = star ∨ '*' ∉ s

instance (s : Str) : Decidable (Whole s) := inferInstanceAs (Decidable (_ ∨ _))

/-- Every segment is whole, except that the last one may be two stars. -/
def Legal (segs : List Str) : Prop :=
  (∀ s ∈ segs.dropLast, Whole s) ∧ ∀ s ∈ segs.getLast?, Whole s ∨ s = doubleStar

/-- The segments of a pattern against those of a path, position by position. -/
def Covers (segs path : List Str) : Prop :=
  if segs.getLast? = some doubleStar then
    segs.dropLast.length ≤ path.length ∧ ∀ p ∈ segs.dropLast.zip path, Accepts p.1 p.2
  else segs.length = path.length ∧ ∀ p ∈ segs.zip path, Accepts p.1 p.2

instance (want got : Str) : Decidable (Accepts want got) := inferInstanceAs (Decidable (_ ∨ _))

instance (segs path : List Str) : Decidable (Covers segs path) :=
  inferInstanceAs (Decidable (ite _ _ _))

/-- Non-empty segments, as they stand between the slashes of a path. -/
def Plain (segs : List Str) : Prop := ∀ s ∈ segs, s ≠ [] ∧ '/' ∉ s

instance (segs : List Str) : Decidable (Plain segs) :=
  inferInstanceAs (Decidable (∀ s ∈ segs, s ≠ [] ∧ '/' ∉ s))

section Paths

variable {ws ss : List Str}

theorem pathSegments_rooted (h : Plain ss) : pathSegments ('/' :: join ss '/') = ss := by
  rw [pathSegments_slash]
  cases ss with
  | nil => rfl
  | cons s ss =>
    rw [pathSegments, split_join h (List.cons_ne_nil s ss), List.filter_eq_self]
    intro w hw
    simpa using (h w hw).1

theorem not_endsDouble_rooted (h : Plain ss) : ¬ EndsDouble ('/' :: join ss '/') := by
  cases ss with
  | nil => decide
  | cons s ss =>
    obtain ⟨-, -, d, back, -, hBack, -, hd⟩ := join_ends h (List.cons_ne_nil s ss)
    intro hDouble
    rw [hBack, ← List.cons_append, endsDouble_append hd] at hDouble
    simp [EndsDouble] at hDouble

theorem rooted_inj (hws : Plain ws) (hss : Plain ss) :
    '/' :: join ss '/' = '/' :: join ws '/' ↔ ss = ws := by
  constructor
  · intro h
    rw [← pathSegments_rooted hss, h, pathSegments_rooted hws]
  · rintro rfl
    rfl

theorem join_append (hws : ws ≠ []) (hss : ss ≠ []) :
    join (ws ++ ss) '/' = join ws '/' ++ '/' :: join ss '/' := by
  induction ws with
  | nil => exact absurd rfl hws
  | cons w ws ih =>
    cases ws with
    | nil =>
      cases ss with
      | nil => exact absurd rfl hss
      | cons s ss => simp [join]
    | cons w' ws =>
      rw [List.cons_append, List.cons_append, join_cons_cons, join_cons_cons,
        ← List.cons_append, ih (List.cons_ne_nil w' ws)]
      simp

theorem rooted_below (hws : Plain ws) (hss : Plain ss) (hne : ws ≠ []) :
    ('/' :: join ss '/' = '/' :: join ws '/' ∨
      '/' :: join ws '/' ++ ['/'] <+: '/' :: join ss '/') ↔ ws <+: ss := by
  rw [rooted_inj hws hss]
  constructor
  · rintro (rfl | ⟨rest, hRest⟩)
    · exact List.prefix_refl _
    · have hSegs := congrArg pathSegments hRest
      rw [List.append_assoc, List.singleton_append, pathSegments_append,
        pathSegments_rooted hws, pathSegments_rooted hss] at hSegs
      exact ⟨_, hSegs⟩
  · rintro ⟨more, rfl⟩
    cases more with
    | nil => exact .inl (List.append_nil ws)
    | cons m more =>
      refine .inr ⟨join (m :: more) '/', ?_⟩
      rw [join_append hne (List.cons_ne_nil m more)]
      simp

theorem eq_rooted {rest : Str} (h : ∀ s ∈ split rest '/', s ≠ []) :
    Plain (split rest '/') ∧ rest = join (split rest '/') '/' :=
  ⟨fun s hs => ⟨h s hs, slash_not_mem_split s hs⟩, (List.intercalate_splitOn '/').symm⟩

theorem split_slash (rest : Str) : split ('/' :: rest) '/' = [] :: split rest '/' := by
  simpa [split] using List.splitOn_append_cons_self (a := '/') [] rest

theorem split_append_slash (xs ys : Str) :
    split (xs ++ '/' :: ys) '/' = split xs '/' ++ split ys '/' :=
  List.splitOn_append_cons_self xs ys

end Paths

section Accepted

variable {pattern body : Str} {trailingAll : Bool}

theorem not_doubleStar_of_whole (h : ∀ s ∈ split body '/', Whole s) :
    ¬ doubleStar <:+: body := by
  have hBody : join (split body '/') '/' = body := List.intercalate_splitOn '/'
  rw [← hBody]
  exact not_doubleStar_join h

theorem whole_splitSegments :
    (∀ s ∈ splitSegments body, Whole s) ↔ ∀ s ∈ split body '/', Whole s := by
  have hSame : ∀ path, (∀ s ∈ split path '/', Whole s) ↔ ∀ s ∈ pathSegments path, Whole s := by
    intro path
    simp only [pathSegments, List.mem_filter, decide_eq_true_eq, and_imp]
    refine forall₂_congr fun s _ => ⟨fun h _ => h, fun h => ?_⟩
    by_cases hs : s = []
    · exact .inr (by simp [hs])
    · exact h hs
  rw [hSame body, ← pathSegments_trim, ← hSame, splitSegments]
  split
  next hNil => simp [hNil, split, Whole, List.splitOn_nil]
  next => rfl

theorem compileBody_accepts :
    (∃ c, compileBody pattern body trailingAll = .ok c) ↔ ∀ s ∈ split body '/', Whole s := by
  constructor
  · rintro ⟨c, h⟩
    rw [← whole_splitSegments]
    intro s hs
    by_contra hNot
    rw [Whole, not_or, not_not] at hNot
    have hPartial : ((splitSegments body).any fun s => s ≠ star && containsStr s star) = true :=
      List.any_eq_true.mpr ⟨s, hs, by simp [hNot.1, containsStr_star.mpr hNot.2]⟩
    rw [compileBody] at h
    split at h
    next => cases h
    next =>
      rw [if_pos hPartial] at h
      cases h
  · intro h
    have hDouble : ¬ containsStr body doubleStar = true := by
      rw [containsStr_iff]
      exact not_doubleStar_of_whole h
    have hPartial :
        ¬ ((splitSegments body).any fun s => s ≠ star && containsStr s star) = true := by
      rw [List.any_eq_true]
      rintro ⟨s, hs, hNot⟩
      obtain ⟨hWhole, hIn⟩ := Bool.and_eq_true_iff.mp hNot
      exact (whole_splitSegments.mpr h s hs).elim (by simpa using hWhole) fun hOut =>
        hOut (containsStr_star.mp hIn)
    rw [compileBody, if_neg hDouble]
    dsimp only
    rw [if_neg hPartial]
    split
    next => exact ⟨_, rfl⟩
    next =>
      split
      next => exact ⟨_, rfl⟩
      next => exact ⟨_, rfl⟩

theorem legal_append_doubleStar (segs : List Str) :
    Legal (segs ++ [doubleStar]) ↔ ∀ s ∈ segs, Whole s := by
  simp [Legal]

/-- Without two stars at the end, every segment is whole. -/
theorem legal_iff_whole {segs : List Str} (h : segs.getLast? ≠ some doubleStar) :
    Legal segs ↔ ∀ s ∈ segs, Whole s := by
  cases segs using List.reverseRecOn with
  | nil => simp [Legal]
  | append_singleton segs last =>
    have hLast : last ≠ doubleStar := by simpa using h
    simp only [Legal, List.dropLast_concat, List.getLast?_concat, Option.mem_some_iff,
      forall_eq', hLast, or_false, List.mem_append, List.mem_singleton]
    constructor
    · rintro ⟨hFront, hWhole⟩ s (hs | rfl)
      · exact hFront s hs
      · exact hWhole
    · exact fun h => ⟨fun s hs => h s (.inl hs), h last (.inr rfl)⟩

/-- A rooted pattern ends in `/**` when its last segment is two stars. -/
theorem hasSuffix_slashDoubleStar {rest : Str} :
    slashDoubleStar <:+ '/' :: rest ↔ (split ('/' :: rest) '/').getLast? = some doubleStar := by
  constructor
  · rintro ⟨front, hFront⟩
    rw [← hFront, show front ++ slashDoubleStar = front ++ '/' :: doubleStar from rfl,
      split_append_slash]
    simp [split, doubleStar, List.splitOn_eq_singleton]
  · intro h
    rw [split_slash] at h
    obtain ⟨front, hFront⟩ : ∃ front, split rest '/' = front ++ [doubleStar] := by
      cases hSplit : split rest '/' using List.reverseRecOn with
      | nil => exact absurd hSplit (List.splitOn_ne_nil '/' rest)
      | append_singleton front last =>
        rw [hSplit, ← List.cons_append, List.getLast?_concat, Option.some_inj] at h
        exact ⟨front, by rw [h]⟩
    have hRest : rest = join (front ++ [doubleStar]) '/' := by
      rw [← hFront]
      exact (List.intercalate_splitOn '/').symm
    cases front with
    | nil => exact ⟨[], by simp [hRest, join, slashDoubleStar, doubleStar]⟩
    | cons w front =>
      refine ⟨'/' :: join (w :: front) '/', ?_⟩
      rw [hRest, join_append (List.cons_ne_nil w front) (List.cons_ne_nil _ _)]
      simp [join, slashDoubleStar, doubleStar]

theorem compile_accepts : (∃ c, compile pattern = .ok c) ↔
    pattern = doubleStar ∨ ['/'] <+: pattern ∧ Legal (split pattern '/') := by
  by_cases hAll : pattern = doubleStar ∨ pattern = slashDoubleStar
  · have hne : pattern ≠ [] := by
      rintro rfl
      simp [doubleStar, slashDoubleStar] at hAll
    refine iff_of_true ⟨_, by rw [compile, if_neg hne, if_pos hAll]⟩ ?_
    refine hAll.imp id ?_
    rintro rfl
    refine ⟨⟨doubleStar, rfl⟩, ?_⟩
    rw [show slashDoubleStar = [] ++ '/' :: doubleStar from rfl, split_append_slash,
      show split doubleStar '/' = [doubleStar] by decide, legal_append_doubleStar]
    simp [split, Whole, List.splitOn_nil]
  · have hNot : pattern ≠ doubleStar := fun h => hAll (.inl h)
    simp only [hNot, false_or]
    cases pattern with
    | nil => simp [compile]
    | cons c rest =>
      rw [compile, if_neg (List.cons_ne_nil c rest), if_neg hAll]
      by_cases hc : c = '/'
      · subst hc
        rw [if_neg (by simp)]
        split
        next hSuffix =>
          rw [hasSuffix_iff] at hSuffix
          obtain ⟨body, hBody⟩ := hSuffix
          rw [← hBody, trimSuffix_append, compileBody_accepts,
            show body ++ slashDoubleStar = body ++ '/' :: doubleStar from rfl,
            split_append_slash, show split doubleStar '/' = [doubleStar] by decide,
            legal_append_doubleStar, iff_and_self]
          exact fun _ => (show body ++ slashDoubleStar = '/' :: rest from hBody) ▸ ⟨rest, rfl⟩
        next hSuffix =>
          rw [hasSuffix_iff, hasSuffix_slashDoubleStar] at hSuffix
          rw [compileBody_accepts, legal_iff_whole hSuffix, iff_and_self]
          exact fun _ => ⟨rest, rfl⟩
      · have hSlash : ¬ ['/'] <+: c :: rest := by simp [Ne.symm hc]
        have hNone : hasPrefix (c :: rest) ['/'] = false := by
          rwa [Bool.eq_false_iff, Ne, hasPrefix_iff]
        rw [if_pos (by rw [hNone]; rfl)]
        simp [hSlash]

end Accepted

section Matching

variable {ws ss : List Str} {pattern : Str} {trailingAll : Bool}

theorem star_not_mem_join (hWhole : ∀ w ∈ ws, Whole w) (hStar : star ∉ ws) :
    '*' ∉ '/' :: join ws '/' := by
  rw [List.mem_cons, not_or]
  refine ⟨by decide, ?_⟩
  induction ws with
  | nil => simp [join]
  | cons w ws ih =>
    rw [List.mem_cons, not_or] at hStar
    have hw : '*' ∉ w := (hWhole w (by simp)).resolve_left fun h => hStar.1 h.symm
    have hRest := ih (fun v hv => hWhole v (by simp [hv])) hStar.2
    cases ws with
    | nil => simpa [join] using hw
    | cons w' ws =>
      rw [join_cons_cons]
      simp [hw, hRest]

theorem forall₂_accepts_starless (hStar : star ∉ ws) :
    List.Forall₂ Accepts ws ss ↔ ws = ss := by
  induction ws generalizing ss with
  | nil => rw [List.forall₂_nil_left_iff, eq_comm]
  | cons w ws ih =>
    rw [List.mem_cons, not_or] at hStar
    cases ss with
    | nil => simp
    | cons s ss => simp [Accepts, Ne.symm hStar.1, ih hStar.2]

theorem forall₂_take_iff : List.Forall₂ Accepts ws (ss.take ws.length) ↔
    ws.length ≤ ss.length ∧ ∀ p ∈ ws.zip ss, Accepts p.1 p.2 := by
  induction ws generalizing ss with
  | nil => simp
  | cons w ws ih =>
    cases ss with
    | nil => simp
    | cons s ss =>
      rw [List.length_cons, List.take_succ_cons, List.forall₂_cons, ih]
      simp only [List.length_cons, Nat.add_le_add_iff_right, List.zip_cons_cons,
        List.forall_mem_cons]
      exact and_left_comm

theorem forall₂_zip_iff : List.Forall₂ Accepts ws ss ↔
    ws.length = ss.length ∧ ∀ p ∈ ws.zip ss, Accepts p.1 p.2 := by
  rw [List.forall₂_iff_zip]
  exact and_congr_right fun _ => ⟨fun h p hp => h hp, fun h _ _ hp => h _ hp⟩

theorem compileBody_matches {c : Pattern} (hws : Plain ws) (hss : Plain ss) (hne : ws ≠ [])
    (hWhole : ∀ w ∈ ws, Whole w)
    (h : compileBody pattern ('/' :: join ws '/') trailingAll = .ok c) :
    c.matches ('/' :: join ss '/') = true ↔
      if trailingAll then List.Forall₂ Accepts ws (ss.take ws.length)
      else List.Forall₂ Accepts ws ss := by
  by_cases hStar : star ∈ ws
  · rw [compileBody_segments hws hWhole hStar] at h
    cases h
    cases trailingAll with
    | true =>
      change matchSegments true ws _ = true ↔ _
      rw [matchSegments_all, pathSegments_rooted hss]
      rfl
    | false =>
      change matchSegments false ws _ = true ↔ _
      rw [matchSegments_exact, pathSegments_rooted hss, and_iff_left (not_endsDouble_rooted hss)]
      rfl
  · rw [compileBody_starless (star_not_mem_join hWhole hStar)] at h
    cases h
    cases trailingAll with
    | true =>
      rw [matches_prefixed rfl, rooted_below hws hss hne, if_pos rfl,
        forall₂_accepts_starless hStar, List.prefix_iff_eq_take]
    | false =>
      change decide ('/' :: join ss '/' = '/' :: join ws '/') = true ↔ List.Forall₂ Accepts ws ss
      rw [decide_eq_true_iff, rooted_inj hws hss, forall₂_accepts_starless hStar, eq_comm]

/-- Rooted patterns cover the paths that agree with their segments. -/
theorem compile_matches {c : Pattern} (hws : Plain ws) (hss : Plain ss) (hne : ws ≠ [])
    (h : compile ('/' :: join ws '/') = .ok c) :
    c.matches ('/' :: join ss '/') = true ↔ Covers ws ss := by
  have hLegal : Legal (split ('/' :: join ws '/') '/') :=
    ((compile_accepts.mp ⟨c, h⟩).resolve_left (by simp [doubleStar])).2
  have hSplit : split ('/' :: join ws '/') '/' = [] :: ws := by
    rw [split_slash, split_join hws hne]
  have hLast : (split ('/' :: join ws '/') '/').getLast? = ws.getLast? := by
    rw [hSplit, List.getLast?_cons_of_ne_nil hne]
  rw [compile, if_neg (List.cons_ne_nil _ _)] at h
  by_cases hDouble : ws.getLast? = some doubleStar
  · obtain ⟨front, rfl⟩ : ∃ front, ws = front ++ [doubleStar] :=
      ⟨ws.dropLast, (List.dropLast_append_getLast? doubleStar hDouble).symm⟩
    rw [Covers, if_pos hDouble, List.dropLast_concat]
    cases front with
    | nil =>
      rw [if_pos (.inr rfl)] at h
      cases h
      simp [Pattern.matches]
    | cons w front =>
      have hBody : '/' :: join (w :: front ++ [doubleStar]) '/' =
          '/' :: join (w :: front) '/' ++ slashDoubleStar := by
        rw [join_append (List.cons_ne_nil w front) (List.cons_ne_nil _ _)]
        simp [join, slashDoubleStar, doubleStar]
      have hWhole : ∀ v ∈ w :: front, Whole v := by
        rw [hSplit, ← List.cons_append, legal_append_doubleStar] at hLegal
        exact fun v hv => hLegal v (List.mem_cons_of_mem _ hv)
      have hFront : Plain (w :: front) := fun v hv => hws v (List.mem_append_left _ hv)
      have hAll : ¬ ('/' :: join (w :: front) '/' ++ slashDoubleStar = doubleStar ∨
          '/' :: join (w :: front) '/' ++ slashDoubleStar = slashDoubleStar) := by
        rintro (hEq | hEq)
        · simp [doubleStar] at hEq
        · have hLength := congrArg List.length hEq
          rw [List.length_append, List.length_cons] at hLength
          omega
      rw [hBody, if_neg hAll, if_neg (by simp), if_pos (by simp), trimSuffix_append] at h
      rw [compileBody_matches hFront hss (List.cons_ne_nil w front) hWhole h, if_pos rfl,
        forall₂_take_iff]
  · rw [Covers, if_neg hDouble]
    have hWhole : ∀ w ∈ ws, Whole w := by
      rw [legal_iff_whole (by rwa [hLast]), hSplit] at hLegal
      exact fun w hw => hLegal w (List.mem_cons_of_mem _ hw)
    have hSuffix : ¬ hasSuffix ('/' :: join ws '/') slashDoubleStar = true := by
      rw [hasSuffix_iff, hasSuffix_slashDoubleStar, hLast]
      exact hDouble
    have hAll : ¬ ('/' :: join ws '/' = doubleStar ∨ '/' :: join ws '/' = slashDoubleStar) := by
      rintro (hEq | hEq)
      · simp [doubleStar] at hEq
      · exact hSuffix (by rw [hEq]; rfl)
    rw [if_neg hAll, if_neg (by simp), if_neg hSuffix] at h
    rw [compileBody_matches hws hss hne hWhole h, if_neg Bool.false_ne_true, forall₂_zip_iff]

end Matching

section Sets

/-- What a set holds is what its patterns compile to, and it remembers whether one of
them covers everything. -/
theorem compileSetFrom_spec {s s' : PatternSet} {patterns : List Str}
    (h : compileSetFrom s patterns = .ok s') :
    ∃ cs, List.Forall₂ (fun p c => compile p = .ok c) patterns cs ∧
      s'.patterns = s.patterns ++ cs ∧
      s'.matchAll = (s.matchAll || cs.any fun c => c.kind = .kindAll) := by
  induction patterns generalizing s with
  | nil =>
    cases h
    exact ⟨[], .nil, (List.append_nil _).symm, (Bool.or_false _).symm⟩
  | cons p patterns ih =>
    rw [compileSetFrom] at h
    cases hc : compile p with
    | error e =>
      rw [hc] at h
      cases h
    | ok c =>
      rw [hc] at h
      obtain ⟨cs, hcs, hPatterns, hAll⟩ := ih h
      refine ⟨c :: cs, .cons hc hcs, ?_, ?_⟩
      · rw [hPatterns]
        simp
      · rw [hAll]
        simp [Bool.or_assoc]

theorem matches_of_kindAll {c : Pattern} (h : c.kind = .kindAll) (path : Str) :
    c.matches path = true := by
  simp [Pattern.matches, h]

theorem compileSet_matches {s : PatternSet} {patterns : List Str}
    (h : compileSet patterns = .ok s) (path : Str) :
    s.matches path = true ↔ ∃ p ∈ patterns, ∃ c, compile p = .ok c ∧ c.matches path = true := by
  obtain ⟨cs, hcs, hPatterns, hAll⟩ := compileSetFrom_spec h
  have hAny : s.matches path = true ↔ ∃ c ∈ cs, c.matches path = true := by
    simp only [PatternSet.matches, hPatterns, hAll, List.nil_append, Bool.false_or,
      Bool.or_eq_true, List.any_eq_true, decide_eq_true_eq]
    constructor
    · rintro (⟨c, hc, hKind⟩ | hMatch)
      · exact ⟨c, hc, matches_of_kindAll hKind path⟩
      · exact hMatch
    · exact .inr
  rw [hAny]
  clear hAny hPatterns hAll h
  induction hcs with
  | nil => simp
  | cons hc _ ih => simp [ih, hc]

end Sets

/-- Path patterns mean what they say. -/
theorem pattern_meaning :
    (∀ pattern, (∃ c, compile pattern = .ok c) ↔
      pattern = doubleStar ∨ ['/'] <+: pattern ∧ Legal (split pattern '/')) ∧
    (∀ pattern c, compile pattern = .ok c → (∀ s ∈ (split pattern '/').tail, s ≠ []) →
      ∀ ss, Plain ss → (c.matches ('/' :: join ss '/') = true ↔
        pattern = doubleStar ∨ Covers (split pattern '/').tail ss)) ∧
    ∀ patterns s, compileSet patterns = .ok s → ∀ path, s.matches path = true ↔
      ∃ p ∈ patterns, ∃ c, compile p = .ok c ∧ c.matches path = true := by
  refine ⟨fun _ => compile_accepts, ?_, fun _ _ => compileSet_matches⟩
  intro pattern c h hNonempty ss hss
  by_cases hAll : pattern = doubleStar
  · subst hAll
    cases h
    simp [Pattern.matches]
  · obtain ⟨rest, rfl⟩ := ((compile_accepts.mp ⟨c, h⟩).resolve_left hAll).1
    rw [List.singleton_append] at h hNonempty hAll ⊢
    rw [split_slash, List.tail_cons] at hNonempty ⊢
    obtain ⟨hPlain, hRest⟩ := eq_rooted hNonempty
    simp only [hAll, false_or]
    rw [hRest] at h
    exact compile_matches hPlain hss (List.splitOn_ne_nil '/' rest) h

/-- The pattern `/api/*/**` accepts `/api/orders/7` and not `/api`. -/
theorem pattern_meaning_api :
    ∃ c, compile "/api/*/**".toList = .ok c ∧
      c.matches "/api/orders/7".toList = true ∧ c.matches "/api".toList = false := by
  have hPlain : Plain ["api".toList, "orders".toList, "7".toList] := by
    decide
  refine ⟨_, rfl, ?_, rfl⟩
  refine (pattern_meaning.2.1 "/api/*/**".toList _ rfl (by decide) _ hPlain).mpr (.inr ?_)
  decide

end Moduless.Pathmatch
