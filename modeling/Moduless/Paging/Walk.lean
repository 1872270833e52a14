import Mathlib.Data.List.Nodup

/-!
Paging through a fixed list of rows with a cursor.

A page is the first `limit` of the rows that the cursor keeps, and the next cursor
is made from its last row, if it can be. Where the rows that a cursor keeps are the
end of the list, a walk returns the rows in their order exactly if there is a cursor
at the end of every page and it keeps the row that comes next.
-/

namespace Moduless.Paging

structure Keyset (R C : Type) where
  rows : List R
  limit : Nat
  limit_pos : 0 < limit
  /-- The cursor that is made from the last row of a page. -/
  cursor : R → Option C
  keeps : C → R → Bool

namespace Keyset

variable {R C : Type} (q : Keyset R C)

/-- The rows that are left at a cursor, all of them without one. -/
def left : Option C → List R
  | none => q.rows
  | some c => q.rows.filter (q.keeps c)

def page (c : Option C) : List R := (q.left c).take q.limit

/-- The page at a cursor ends with this row and there are more. -/
structure Ends (c : Option C) (b : R) : Prop where
  more : q.limit < (q.left c).length
  last : (q.page c).getLast? = some b

inductive Walk : Option C → List (List R) → Prop
  | done {c : Option C} (h : (q.left c).length ≤ q.limit) : Walk c [q.page c]
  | next {c : Option C} {b : R} {c' : C} {pages : List (List R)} (h : q.Ends c b)
      (hCursor : q.cursor b = some c') (rest : Walk (some c') pages) : Walk c (q.page c :: pages)

/-- The cursors of a walk. -/
inductive Reached : Option C → Prop
  | first : Reached none
  | next {c : Option C} {b : R} {c' : C} (h : Reached c) (hEnds : q.Ends c b)
      (hCursor : q.cursor b = some c') : Reached (some c')

variable {q} {c : Option C} {b r : R} {pages : List (List R)}

theorem exists_ends (h : q.limit < (q.left c).length) : ∃ b, q.Ends c b := by
  have hne : q.page c ≠ [] := by
    intro hEmpty
    have hLength := congrArg List.length hEmpty
    simp only [page, List.length_take, List.length_nil] at hLength
    have hPos := q.limit_pos
    omega
  exact ⟨_, h, List.getLast?_eq_some_getLast hne⟩

section Interest

variable {S : R → R → Prop} (hOrder : q.rows.Pairwise S) (hAsymm : ∀ {a b}, S a b → ¬ S b a)

include hOrder hAsymm

variable {T : R → Prop} (hGoes : ∀ c b, q.Reached c → q.Ends c b → ∃ c', q.cursor b = some c' ∧
  ∀ r ∈ q.rows, (q.keeps c' r = true → S b r) ∧ (T r → S b r → q.keeps c' r = true))

include hGoes

end Interest

theorem filter_eq_drop {p : R → Bool} {rows : List R}
    (h : rows.Pairwise fun a b => p a = true → p b = true) :
    ∃ k, rows.filter p = rows.drop k := by
  induction rows with
  | nil => exact ⟨0, rfl⟩
  | cons a rows ih =>
    obtain ⟨hHead, hTail⟩ := List.pairwise_cons.mp h
    cases hp : p a with
    | false =>
      obtain ⟨k, hk⟩ := ih hTail
      exact ⟨k + 1, by rw [List.filter_cons_of_neg (by simp [hp]), hk, List.drop_succ_cons]⟩
    | true =>
      refine ⟨0, List.filter_eq_self.mpr (List.forall_mem_cons.mpr ⟨hp, ?_⟩)⟩
      exact fun b hb => hHead b hb hp

/-- A cursor keeps the end of the list, from a row after its own on. -/
structure Final (q : Keyset R C) : Prop where
  nodup : q.rows.Nodup
  keeps_self : ∀ {b c}, b ∈ q.rows → q.cursor b = some c → q.keeps c b = false
  keeps_mono : ∀ {b c}, b ∈ q.rows → q.cursor b = some c →
    q.rows.Pairwise fun a d => q.keeps c a = true → q.keeps c d = true

/-- There is a cursor at the end of every page, and it keeps the row that comes next. -/
def GoesOn (q : Keyset R C) : Prop :=
  ∀ n b r, q.rows[n]? = some b → q.rows[n + 1]? = some r → q.limit ∣ n + 1 →
    ∃ c, q.cursor b = some c ∧ q.keeps c r = true

section Final

variable (hFinal : q.Final) {k n : Nat} {c' : C}

include hFinal

theorem Final.left_some (hb : q.rows[n]? = some b) (hCursor : q.cursor b = some c') :
    ∃ k, n < k ∧ q.left (some c') = q.rows.drop k := by
  have hMem := List.mem_of_getElem? hb
  obtain ⟨k, hk⟩ := filter_eq_drop (hFinal.keeps_mono hMem hCursor)
  refine ⟨k, Nat.lt_of_not_le fun hle => ?_, hk⟩
  obtain ⟨i, rfl⟩ := Nat.exists_eq_add_of_le hle
  rw [← List.getElem?_drop, ← hk] at hb
  have hKept := (List.mem_filter.mp (List.mem_of_getElem? hb)).2
  rw [hFinal.keeps_self hMem hCursor] at hKept
  cases hKept

theorem Final.left_next (hb : q.rows[n]? = some b) (hr : q.rows[n + 1]? = some r)
    (hCursor : q.cursor b = some c') (hKept : q.keeps c' r = true) :
    q.left (some c') = q.rows.drop (n + 1) := by
  obtain ⟨k, hlt, hk⟩ := hFinal.left_some hb hCursor
  have hMem : r ∈ q.rows.drop k :=
    hk ▸ List.mem_filter.mpr ⟨List.mem_of_getElem? hr, hKept⟩
  obtain ⟨i, hi⟩ := List.getElem?_of_mem hMem
  rw [List.getElem?_drop, ← hr] at hi
  have hlt' := (List.getElem?_eq_some_iff.mp hr).1
  have hEq := (List.getElem?_inj hlt' hFinal.nodup).mp hi.symm
  rw [hk, show k = n + 1 by omega]

omit hFinal in
theorem Ends.getElem (hLeft : q.left c = q.rows.drop k) (h : q.Ends c b) :
    ∃ n, k + q.limit = n + 1 ∧ q.rows[n]? = some b ∧ n + 1 < q.rows.length := by
  obtain ⟨m, hm⟩ := Nat.exists_eq_add_of_lt q.limit_pos
  have hMore := h.more
  have hb := h.last
  rw [hLeft, List.length_drop] at hMore
  rw [page, hLeft, List.getLast?_eq_getElem?, List.length_take, List.length_drop,
    Nat.min_eq_left (Nat.le_of_lt hMore), List.getElem?_take_of_lt (by omega),
    List.getElem?_drop] at hb
  refine ⟨k + m, by omega, ?_, by omega⟩
  rw [← hb]
  congr 1
  omega

omit hFinal in
theorem flatten_next (hLeft : q.left c = q.rows.drop k) :
    (q.page c :: pages).flatten = q.rows.drop k ↔ pages.flatten = q.rows.drop (k + q.limit) := by
  have hCut : q.rows.drop k = q.page c ++ q.rows.drop (k + q.limit) := by
    rw [page, hLeft, ← List.drop_drop]
    exact (List.take_append_drop _ _).symm
  rw [List.flatten_cons, hCut, List.append_right_inj]

omit hFinal in
theorem Walk.head? (h : q.Walk c pages) : pages.flatten.head? = (q.left c).head? := by
  have hPos : q.limit ≠ 0 := Nat.ne_of_gt q.limit_pos
  cases h with
  | done => simp [page, hPos, List.head?_take]
  | next hEnds =>
    have hne := List.ne_nil_of_length_pos (Nat.lt_of_le_of_lt (Nat.zero_le _) hEnds.more)
    simp [page, hPos, List.head?_take, List.head?_eq_some_head hne]

theorem Walk.goesOn_from (h : q.Walk c pages) (hLeft : q.left c = q.rows.drop k)
    (hk : q.limit ∣ k) (hFlatten : pages.flatten = q.rows.drop k) (hle : k ≤ n)
    (hb : q.rows[n]? = some b) (hr : q.rows[n + 1]? = some r) (hn : q.limit ∣ n + 1) :
    ∃ c, q.cursor b = some c ∧ q.keeps c r = true := by
  have hlt := (List.getElem?_eq_some_iff.mp hr).1
  induction h generalizing k with
  | done hAll =>
    have hPage := Nat.le_of_dvd (by omega) (Nat.dvd_sub hn hk)
    rw [hLeft, List.length_drop] at hAll
    omega
  | @next c b' c' pages hEnds hCursor rest ih =>
    obtain ⟨m, hm, hb', hMore⟩ := hEnds.getElem hLeft
    obtain ⟨k', hlt', hk'⟩ := hFinal.left_some hb' hCursor
    have hRest := (flatten_next hLeft).mp hFlatten
    rw [hm] at hRest
    have hSame : m + 1 = k' := by
      apply (List.getElem?_inj hMore hFinal.nodup).mp
      rw [← List.head?_drop, ← List.head?_drop, ← hRest, rest.head?, hk']
    subst hSame
    by_cases hEq : n = m
    · subst hEq
      rw [hb] at hb'
      cases hb'
      have hKept : r ∈ q.left (some c') := by
        rw [hk']
        exact List.mem_of_getElem? (i := 0) (by rw [List.getElem?_drop]; exact hr)
      exact ⟨c', hCursor, (List.mem_filter.mp hKept).2⟩
    · have hPage := Nat.le_of_dvd (by omega) (Nat.dvd_sub hn hk)
      exact ih hk' (hm ▸ Nat.dvd_add hk (Nat.dvd_refl _)) hRest (by omega)

theorem exists_walk_from (h : q.GoesOn) (hLeft : q.left c = q.rows.drop k) (hk : q.limit ∣ k) :
    ∃ pages, q.Walk c pages ∧ pages.flatten = q.rows.drop k := by
  induction hn : q.rows.length - k using Nat.strongRecOn generalizing c k with
  | _ _ ih =>
    by_cases hMore : q.limit < (q.left c).length
    · obtain ⟨b, hEnds⟩ := exists_ends hMore
      obtain ⟨n, hEq, hb, hlt⟩ := hEnds.getElem hLeft
      have hPage : q.limit ∣ n + 1 := hEq ▸ Nat.dvd_add hk (Nat.dvd_refl _)
      have hr := List.getElem?_eq_getElem hlt
      obtain ⟨c', hCursor, hKept⟩ := h n b _ hb hr hPage
      have hNext := hFinal.left_next hb hr hCursor hKept
      have hPos := q.limit_pos
      obtain ⟨pages, hWalk, hFlatten⟩ := ih _ (by omega) hNext hPage rfl
      exact ⟨_, .next hEnds hCursor hWalk, (flatten_next hLeft).mpr (hEq ▸ hFlatten)⟩
    · have hLast := Nat.le_of_not_lt hMore
      refine ⟨_, .done hLast, ?_⟩
      rw [List.flatten_singleton, page, List.take_of_length_le hLast, hLeft]

/-- A walk that returns the rows in their order. -/
theorem exists_walk_iff : (∃ pages, q.Walk none pages ∧ pages.flatten = q.rows) ↔ q.GoesOn := by
  refine ⟨?_, fun h => exists_walk_from hFinal h (k := 0) rfl (Nat.dvd_zero _)⟩
  rintro ⟨pages, hWalk, hFlatten⟩ n b r
  exact hWalk.goesOn_from hFinal (k := 0) rfl (Nat.dvd_zero _) hFlatten (Nat.zero_le n)

/-- Where every cursor keeps the row that comes next, a walk has no other order. -/
theorem Walk.flatten_eq (hNext : ∀ {n b r c}, q.rows[n]? = some b → q.rows[n + 1]? = some r →
    q.cursor b = some c → q.keeps c r = true) (h : q.Walk c pages)
    (hLeft : q.left c = q.rows.drop k) : pages.flatten = q.rows.drop k := by
  induction h generalizing k with
  | done hAll => rw [List.flatten_singleton, page, List.take_of_length_le hAll, hLeft]
  | next hEnds hCursor _ ih =>
    obtain ⟨n, hEq, hb, hlt⟩ := hEnds.getElem hLeft
    have hr := List.getElem?_eq_getElem hlt
    have hKept := hNext hb hr hCursor
    exact (flatten_next hLeft).mpr (hEq ▸ ih (hFinal.left_next hb hr hCursor hKept))

end Final
end Keyset
end Moduless.Paging
