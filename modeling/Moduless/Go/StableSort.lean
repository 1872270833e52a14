import Mathlib.Data.List.Sort

/-!
Stable sorting. Two lists whose elements tie in the same order sort to the same
list, so a stable sort does not see how groups that never tie are arranged.
-/

namespace Moduless.Go

variable {α : Type} {le : α → α → Prop} [DecidableRel le]

def ties (le : α → α → Prop) [DecidableRel le] (x : α) (l : List α) : List α :=
  l.filter fun y => le x y ∧ le y x

theorem ties_orderedInsert (hTrans : ∀ a b c, le a b → le b c → le a c)
    (x a : α) (l : List α) :
    ties le x (l.orderedInsert le a) = ties le x (a :: l) := by
  induction l with
  | nil => rfl
  | cons b l ih =>
    simp only [List.orderedInsert_cons]
    split
    next => rfl
    next hab =>
      by_cases ha : le x a ∧ le a x
      · have hb : ¬ (le x b ∧ le b x) := fun hb => hab (hTrans a x b ha.2 hb.1)
        simp only [ties, List.filter_cons, ha, hb, and_self, decide_true, decide_false,
          if_true, Bool.false_eq_true, if_false] at ih ⊢
        exact ih
      · simp only [ties, List.filter_cons, ha, decide_false, Bool.false_eq_true,
          if_false] at ih ⊢
        rw [ih]

theorem ties_insertionSort (hTrans : ∀ a b c, le a b → le b c → le a c)
    (x : α) (l : List α) : ties le x (l.insertionSort le) = ties le x l := by
  induction l with
  | nil => rfl
  | cons a l ih =>
    rw [List.insertionSort_cons, ties_orderedInsert hTrans]
    simp only [ties, List.filter_cons] at ih ⊢
    rw [ih]

theorem sorted_eq_of_ties (hTotal : ∀ a b, le a b ∨ le b a)
    {l m : List α} (hl : l.Pairwise le) (hm : m.Pairwise le)
    (h : ∀ x, ties le x l = ties le x m) : l = m := by
  have hRefl (a : α) : le a a := (hTotal a a).elim id id
  induction l generalizing m with
  | nil =>
    cases m with
    | nil => rfl
    | cons b m =>
      have := h b
      simp [ties, hRefl b] at this
  | cons a l ih =>
    cases m with
    | nil =>
      have := h a
      simp [ties, hRefl a] at this
    | cons b m =>
      rw [List.pairwise_cons] at hl hm
      -- each head ties with an element of the other list, so the heads tie
      have hab : le a b := by
        have hmem : b ∈ ties le b (a :: l) := by
          rw [h b]
          simp [ties, hRefl b]
        simp only [ties, List.mem_filter, List.mem_cons] at hmem
        rcases hmem.1 with rfl | hmem
        · exact hRefl b
        · exact hl.1 b hmem
      have hba : le b a := by
        have hmem : a ∈ ties le a (b :: m) := by
          rw [← h a]
          simp [ties, hRefl a]
        simp only [ties, List.mem_filter, List.mem_cons] at hmem
        rcases hmem.1 with rfl | hmem
        · exact hRefl a
        · exact hm.1 a hmem
      have heq : a = b := by
        have := h a
        simp only [ties, List.filter_cons, hRefl a, hab, hba, and_self, decide_true,
          if_true, List.cons.injEq] at this
        exact this.1
      subst heq
      congr 1
      apply ih hl.2 hm.2
      intro x
      have := h x
      simp only [ties, List.filter_cons] at this ⊢
      split at this
      next => exact (List.cons.inj this).2
      next => exact this

theorem insertionSort_eq_of_ties (hTotal : ∀ a b, le a b ∨ le b a)
    (hTrans : ∀ a b c, le a b → le b c → le a c) {l m : List α}
    (h : ∀ x, ties le x l = ties le x m) :
    l.insertionSort le = m.insertionSort le := by
  have : Std.Total le := ⟨hTotal⟩
  have : IsTrans α le := ⟨hTrans⟩
  apply sorted_eq_of_ties hTotal (List.pairwise_insertionSort le l)
    (List.pairwise_insertionSort le m)
  intro x
  rw [ties_insertionSort hTrans, ties_insertionSort hTrans, h x]

end Moduless.Go
