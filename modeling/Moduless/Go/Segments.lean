import Moduless.Go.Words

/-!
The segments of a path: what stands between its slashes, without the empty
pieces that repeated slashes leave.
-/

namespace Moduless.Go

def pathSegments (path : Str) : List Str := (split path '/').filter (· ≠ [])

def EndsDouble (path : Str) : Prop := ['/', '/'] <:+ path

instance (path : Str) : Decidable (EndsDouble path) :=
  inferInstanceAs (Decidable (['/', '/'] <:+ path))

@[simp] theorem pathSegments_nil : pathSegments [] = [] := by
  simp [pathSegments, split, List.splitOn_nil]

theorem pathSegments_append (xs ys : Str) :
    pathSegments (xs ++ '/' :: ys) = pathSegments xs ++ pathSegments ys := by
  simp [pathSegments, split, List.splitOn_append_cons_self, List.filter_append]

@[simp] theorem pathSegments_slash (ys : Str) : pathSegments ('/' :: ys) = pathSegments ys := by
  simpa using pathSegments_append [] ys

theorem pathSegments_single {s : Str} (hSlash : '/' ∉ s) (hs : s ≠ []) : pathSegments s = [s] := by
  simp [pathSegments, split, List.splitOn_eq_singleton hSlash, hs]

theorem pathSegments_dropSlashes (path : Str) :
    pathSegments (path.dropWhile (· = '/')) = pathSegments path := by
  induction path with
  | nil => rfl
  | cons c path ih =>
    by_cases hc : c = '/'
    · simpa [hc] using ih
    · simp [hc]

theorem pathSegments_rdropSlashes (path : Str) :
    pathSegments (path.rdropWhile (· = '/')) = pathSegments path := by
  induction path using List.reverseRecOn with
  | nil => rfl
  | append_singleton path c ih =>
    by_cases hc : c = '/'
    · rw [List.rdropWhile_concat, if_pos (by simpa using hc), ih, hc, pathSegments_append,
        pathSegments_nil, List.append_nil]
    · rw [List.rdropWhile_concat, if_neg (by simpa using hc)]

theorem pathSegments_trim (path : Str) : pathSegments (trim path '/') = pathSegments path := by
  rw [trim, pathSegments_rdropSlashes, pathSegments_dropSlashes]

theorem dropWhile_ne_slash (path : Str) :
    path.dropWhile (· ≠ '/') = [] ∨ ∃ rest, path.dropWhile (· ≠ '/') = '/' :: rest := by
  cases hRest : path.dropWhile (· ≠ '/') with
  | nil => exact .inl rfl
  | cons c rest =>
    have hHead := List.head_dropWhile_not (· ≠ '/') (l := path) (hRest ▸ List.cons_ne_nil c rest)
    simp only [hRest, List.head_cons, decide_eq_false_iff_not, not_not] at hHead
    exact .inr ⟨rest, by rw [hHead]⟩

theorem not_mem_takeWhile_slash (path : Str) : '/' ∉ path.takeWhile (· ≠ '/') :=
  fun h => by simpa using List.mem_takeWhile_imp h

theorem pathSegments_first {path : Str} (h : path.takeWhile (· ≠ '/') ≠ []) :
    pathSegments path =
      path.takeWhile (· ≠ '/') :: pathSegments (path.dropWhile (· ≠ '/')) := by
  have hSplit := (List.takeWhile_append_dropWhile (p := (· ≠ '/')) (l := path)).symm
  have hFirst := pathSegments_single (not_mem_takeWhile_slash path) h
  rcases dropWhile_ne_slash path with hRest | ⟨rest, hRest⟩
  · rw [hRest, List.append_nil] at hSplit
    rw [hRest, pathSegments_nil, ← hFirst, ← hSplit]
  · rw [hRest] at hSplit
    rw [hRest, pathSegments_slash]
    conv_lhs => rw [hSplit]
    rw [pathSegments_append, hFirst, List.singleton_append]

theorem endsDouble_append {xs rest : Str} {c : Char} (hc : c ≠ '/') :
    EndsDouble (xs ++ c :: rest) ↔ EndsDouble rest := by
  rw [EndsDouble, EndsDouble, ← List.reverse_prefix, ← List.reverse_prefix]
  simp only [List.reverse_append, List.reverse_cons, List.append_assoc]
  generalize rest.reverse = l
  match l with
  | [] => simp [Ne.symm hc]
  | [a] => simp [Ne.symm hc]
  | a :: b :: l => simp

/-- Induction over a path by its pieces. -/
theorem path_induction {P : Str → Prop} (hLast : ∀ s, '/' ∉ s → P s)
    (hSlash : ∀ s rest, '/' ∉ s → P rest → P (s ++ '/' :: rest)) (path : Str) : P path := by
  induction hn : path.length using Nat.strong_induction_on generalizing path with
  | _ n ih =>
    have hSplit := (List.takeWhile_append_dropWhile (p := (· ≠ '/')) (l := path)).symm
    rcases dropWhile_ne_slash path with hRest | ⟨rest, hRest⟩
    · rw [hRest, List.append_nil] at hSplit
      rw [hSplit]
      exact hLast _ (not_mem_takeWhile_slash path)
    · rw [hRest] at hSplit
      have hShorter : rest.length < n := by
        rw [← hn, hSplit]
        simp
        omega
      rw [hSplit]
      exact hSlash _ rest (not_mem_takeWhile_slash path) (ih _ hShorter rest rfl)

theorem pathSegments_cons {s rest : Str} (hSlash : '/' ∉ s) :
    pathSegments (s ++ '/' :: rest) =
      if s = [] then pathSegments rest else s :: pathSegments rest := by
  rw [pathSegments_append]
  split
  next hs => simp [hs]
  next hs => simp [pathSegments_single hSlash hs]

theorem mem_pathSegments {path : Str} : ∀ s ∈ pathSegments path, s ≠ [] ∧ '/' ∉ s := by
  induction path using path_induction with
  | hLast s hSlash =>
    by_cases hs : s = []
    · simp [hs]
    · simp [pathSegments_single hSlash hs, hs, hSlash]
  | hSlash s rest hSlash ih =>
    rw [pathSegments_cons hSlash]
    split
    next => exact ih
    next hs =>
      intro s' hs'
      rcases List.mem_cons.mp hs' with rfl | hs'
      · exact ⟨hs, hSlash⟩
      · exact ih s' hs'

theorem mem_iff_pathSegments {path : Str} {c : Char} (hc : c ≠ '/') :
    c ∈ path ↔ ∃ s ∈ pathSegments path, c ∈ s := by
  induction path using path_induction with
  | hLast s hSlash =>
    by_cases hs : s = []
    · simp [hs]
    · simp [pathSegments_single hSlash hs]
  | hSlash s rest hSlash ih =>
    rw [pathSegments_cons hSlash, List.mem_append, List.mem_cons, ih]
    split
    next hs => simp [hs, hc]
    next hs => simp [hc]

theorem mem_of_mem_split {path : Str} {c : Char} : ∀ s ∈ split path '/', c ∈ s → c ∈ path := by
  induction path using path_induction with
  | hLast s hSlash => simp [split, List.splitOn_eq_singleton hSlash]
  | hSlash s rest hSlash ih =>
    simp only [split, List.splitOn_append_cons_self_of_not_mem hSlash] at ih ⊢
    intro s' hs' hc
    rcases List.mem_cons.mp hs' with rfl | hs'
    · exact List.mem_append_left _ hc
    · exact List.mem_append_right _ (List.mem_cons_of_mem _ (ih s' hs' hc))

theorem slash_not_mem_split {path : Str} : ∀ s ∈ split path '/', '/' ∉ s := by
  induction path using path_induction with
  | hLast s hSlash => simpa [split, List.splitOn_eq_singleton hSlash] using hSlash
  | hSlash s rest hSlash ih =>
    simp only [split, List.splitOn_append_cons_self_of_not_mem hSlash] at ih ⊢
    exact List.forall_mem_cons.mpr ⟨hSlash, ih⟩

/-- The pieces of a path are what stands between slashes or an end of it. -/
theorem mem_split_iff {path w : Str} (hw : '/' ∉ w) : w ∈ split path '/' ↔
    ∃ x y, path = x ++ w ++ y ∧ (x = [] ∨ ['/'] <:+ x) ∧ (y = [] ∨ ['/'] <+: y) := by
  constructor
  · intro h
    induction path using path_induction with
    | hLast s hSlash =>
      rw [split, List.splitOn_eq_singleton hSlash, List.mem_singleton] at h
      exact ⟨[], [], by simp [h], .inl rfl, .inl rfl⟩
    | hSlash s rest hSlash ih =>
      rw [split, List.splitOn_append_cons_self_of_not_mem hSlash, List.mem_cons] at h
      rcases h with rfl | h
      · exact ⟨[], '/' :: rest, by simp, .inl rfl, .inr ⟨rest, rfl⟩⟩
      · obtain ⟨x, y, rfl, hx, hy⟩ := ih h
        refine ⟨s ++ '/' :: x, y, by simp, .inr ?_, hy⟩
        rcases hx with rfl | ⟨x, rfl⟩
        · exact ⟨s, rfl⟩
        · exact ⟨s ++ '/' :: x, by simp⟩
  · rintro ⟨x, y, rfl, hx, hy⟩
    have hFront : w ∈ split (w ++ y) '/' := by
      rcases hy with rfl | ⟨y, rfl⟩
      · simp [split, List.splitOn_eq_singleton hw]
      · simp [split, List.splitOn_append_cons_self_of_not_mem hw]
    rcases hx with rfl | ⟨x, rfl⟩
    · exact hFront
    · have hSplit : split (x ++ ['/'] ++ w ++ y) '/' = split x '/' ++ split (w ++ y) '/' := by
        simp [split, List.splitOn_append_cons_self]
      rw [hSplit]
      exact List.mem_append_right _ hFront

theorem pathSegments_eq_nil_iff {path : Str} : pathSegments path = [] ↔ ∀ c ∈ path, c = '/' := by
  constructor
  · intro h c hc
    by_contra hSlash
    obtain ⟨s, hs, -⟩ := (mem_iff_pathSegments hSlash).mp hc
    simp [h] at hs
  · intro h
    rw [List.eq_nil_iff_forall_not_mem]
    intro s hs
    obtain ⟨hNil, hSlash⟩ := mem_pathSegments s hs
    obtain ⟨c, hc⟩ := List.exists_mem_of_ne_nil s hNil
    have hne : c ≠ '/' := fun hEq => hSlash (hEq ▸ hc)
    exact hne (h c ((mem_iff_pathSegments hne).mpr ⟨s, hs, hc⟩))

theorem pathSegments_eq_nil_and {path : Str} :
    pathSegments path = [] ∧ ¬ EndsDouble path ↔ path = [] ∨ path = ['/'] := by
  constructor
  · rintro ⟨hNil, hDouble⟩
    have hPath := List.eq_replicate_of_mem (pathSegments_eq_nil_iff.mp hNil)
    match path with
    | [] => exact .inl rfl
    | [c] => exact .inr hPath
    | c :: d :: rest =>
      refine absurd ?_ hDouble
      rw [hPath, List.length_cons, List.length_cons, Nat.add_assoc, List.replicate_add]
      exact List.suffix_append _ _
  · rintro (rfl | rfl)
    · exact ⟨rfl, by decide⟩
    · exact ⟨rfl, by decide⟩

theorem mem_cleanSegments {rooted : Bool} {segs : List Str} :
    ∀ s ∈ cleanSegments rooted segs, s ≠ [] ∧ s ∈ segs := by
  have hFold : ∀ (rest out : List Str), (∀ s ∈ out, s ≠ [] ∧ s ∈ segs) → rest ⊆ segs →
      ∀ s ∈ rest.foldl (cleanStep rooted) out, s ≠ [] ∧ s ∈ segs := by
    intro rest
    induction rest with
    | nil => exact fun out hOut _ => hOut
    | cons seg rest ih =>
      intro out hOut hRest
      refine ih _ ?_ fun s hs => hRest (List.mem_cons_of_mem _ hs)
      have hPush : seg ≠ [] → ∀ s ∈ seg :: out, s ≠ [] ∧ s ∈ segs := fun hne =>
        List.forall_mem_cons.mpr ⟨⟨hne, hRest List.mem_cons_self⟩, hOut⟩
      unfold cleanStep
      split
      next => exact hOut
      next hKeep =>
        have hne : seg ≠ [] := fun hNil => hKeep (.inl hNil)
        split
        next =>
          cases out with
          | nil =>
            cases rooted with
            | true => exact hOut
            | false => exact hPush hne
          | cons top out =>
            dsimp only
            split
            next => exact hPush hne
            next => exact fun s hs => hOut s (List.mem_cons_of_mem _ hs)
        next => exact hPush hne
  intro s hs
  exact hFold segs [] (by simp) (fun _ hs => hs) s (List.mem_reverse.mp hs)

theorem trim_join {ws : List Str} (hws : ∀ w ∈ ws, w ≠ [] ∧ '/' ∉ w) (hne : ws ≠ []) :
    trim ('/' :: join ws '/') '/' = join ws '/' := by
  obtain ⟨c, front, d, back, hFront, hBack, hc, hd⟩ := join_ends hws hne
  have hDrop : ('/' :: join ws '/').dropWhile (· = '/') = join ws '/' := by
    simp [hFront, hc]
  rw [trim, hDrop, hBack, List.rdropWhile_concat, if_neg (by simpa using hd)]

end Moduless.Go
