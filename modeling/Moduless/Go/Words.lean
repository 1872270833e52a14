import Mathlib.Data.List.Chain
import Moduless.Go.Builtin

/-!
Words that are joined with a separator: the segments of a path, the labels of a host
name. Words that are not empty and do not contain the separator can be read back, and
where the separator stands one list of words has been continued by another.
-/

namespace Moduless.Go

variable {us ws : List Str} {sep : Char}

theorem join_cons_cons (w w' : Str) (ws : List Str) :
    join (w :: w' :: ws) sep = w ++ sep :: join (w' :: ws) sep := by
  simp [join, List.intercalate_cons_cons]

theorem join_append (hus : us ≠ []) (hws : ws ≠ []) :
    join (us ++ ws) sep = join us sep ++ sep :: join ws sep := by
  induction us with
  | nil => exact absurd rfl hus
  | cons u us ih =>
    cases us with
    | nil =>
      obtain ⟨w, ws, rfl⟩ := List.exists_cons_of_ne_nil hws
      rw [List.singleton_append, join_cons_cons]
      simp [join]
    | cons u' us =>
      rw [List.cons_append, List.cons_append, join_cons_cons, join_cons_cons,
        ← List.cons_append, ih (List.cons_ne_nil _ _), List.append_assoc, List.cons_append]

theorem mem_join {c : Char} (h : c ∈ join ws sep) : c = sep ∨ ∃ w ∈ ws, c ∈ w := by
  induction ws with
  | nil => cases h
  | cons w ws ih =>
    cases ws with
    | nil => exact .inr ⟨w, by simp, by simpa [join] using h⟩
    | cons w' ws =>
      rw [join_cons_cons, List.mem_append, List.mem_cons] at h
      rcases h with h | h | h
      · exact .inr ⟨w, by simp, h⟩
      · exact .inl h
      · obtain hSep | ⟨v, hv, hc⟩ := ih h
        · exact .inl hSep
        · exact .inr ⟨v, List.mem_cons_of_mem _ hv, hc⟩

theorem join_ends (hws : ∀ w ∈ ws, w ≠ [] ∧ sep ∉ w) (hne : ws ≠ []) :
    ∃ c front d back, join ws sep = c :: front ∧ join ws sep = back ++ [d] ∧ c ≠ sep ∧ d ≠ sep := by
  have hChars : ∀ w ∈ ws, ∀ c ∈ w, c ≠ sep := fun w hw c hc hEq => (hws w hw).2 (hEq ▸ hc)
  induction ws with
  | nil => exact absurd rfl hne
  | cons w ws ih =>
    obtain ⟨c, front, rfl⟩ := List.exists_cons_of_ne_nil (hws w (by simp)).1
    have hc : c ≠ sep := hChars (c :: front) (by simp) c (by simp)
    cases ws with
    | nil =>
      obtain ⟨back, d, hBack⟩ := List.eq_nil_or_concat (c :: front) |>.resolve_left (by simp)
      refine ⟨c, front, d, back, by simp [join], by simp [join, hBack], hc, ?_⟩
      exact hChars (c :: front) (by simp) d (by simp [hBack])
    | cons w' ws =>
      obtain ⟨-, -, d, back, -, hBack, -, hd⟩ := ih (fun v hv => hws v (by simp [hv])) (by simp)
        fun v hv => hChars v (by simp [hv])
      refine ⟨c, front ++ sep :: join (w' :: ws) sep, d, (c :: front) ++ sep :: back,
        join_cons_cons _ _ _, ?_, hc, hd⟩
      rw [join_cons_cons, hBack]
      simp

theorem split_join (hws : ∀ w ∈ ws, w ≠ [] ∧ sep ∉ w) (hne : ws ≠ []) :
    split (join ws sep) sep = ws :=
  List.splitOn_intercalate sep (fun w hw => (hws w hw).2) hne

theorem split_append (xs ys : Str) : split (xs ++ sep :: ys) sep = split xs sep ++ split ys sep :=
  List.splitOn_append_cons_self ..

theorem join_inj (hus : ∀ w ∈ us, w ≠ [] ∧ sep ∉ w) (hne : us ≠ [])
    (hws : ∀ w ∈ ws, w ≠ [] ∧ sep ∉ w) (hne' : ws ≠ []) :
    join us sep = join ws sep ↔ us = ws := by
  constructor
  · intro h
    rw [← split_join hus hne, ← split_join hws hne', h]
  · rintro rfl
    rfl

theorem suffix_join_iff (hus : ∀ w ∈ us, w ≠ [] ∧ sep ∉ w) (hne : us ≠ [])
    (hws : ∀ w ∈ ws, w ≠ [] ∧ sep ∉ w) (hne' : ws ≠ []) :
    sep :: join ws sep <:+ join us sep ↔ ∃ more, more ≠ [] ∧ us = more ++ ws := by
  constructor
  · rintro ⟨front, hFront⟩
    refine ⟨split front sep, List.splitOn_ne_nil _ _, ?_⟩
    rw [← split_join hus hne, ← hFront, split_append, split_join hws hne']
  · rintro ⟨more, hMore, rfl⟩
    exact ⟨join more sep, (join_append hMore hne').symm⟩

theorem isChain_join {R : Char → Char → Prop} (hws : ∀ w ∈ ws, List.IsChain R w)
    (hLeft : ∀ c, R c sep) (hRight : ∀ c, R sep c) : List.IsChain R (join ws sep) := by
  induction ws with
  | nil => exact .nil
  | cons w ws ih =>
    cases ws with
    | nil => simpa [join] using hws w (by simp)
    | cons w' ws =>
      have hRest := ih fun v hv => hws v (by simp [hv])
      rw [join_cons_cons, List.isChain_append]
      refine ⟨hws w (by simp), ?_, ?_⟩
      · exact List.isChain_cons.mpr ⟨fun c _ => hRight c, hRest⟩
      · intro x _ y hy
        cases hy
        exact hLeft x

theorem map_join (f : Char → Char) (hSep : f sep = sep) (ws : List Str) :
    (join ws sep).map f = join (ws.map fun w => w.map f) sep := by
  induction ws with
  | nil => rfl
  | cons w ws ih =>
    cases ws with
    | nil => simp [join]
    | cons w' ws =>
      rw [join_cons_cons, List.map_append, List.map_cons, ih, hSep]
      exact (join_cons_cons _ _ _).symm

end Moduless.Go
