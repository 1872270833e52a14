import Mathlib.Algebra.BigOperators.Group.Finset.Basic
import Mathlib.Algebra.BigOperators.Group.Finset.Piecewise
import Mathlib.Algebra.Order.BigOperators.Group.Finset
import Mathlib.Tactic.Linarith
import Mathlib.Tactic.Ring

/-!
Smooth weighted round-robin over an arbitrary finite set of candidates.

In each round every candidate that takes part gains its weight, one with the
largest counter is chosen, and the chosen one pays the total of the weights
handed out. The counters keep their sum whoever takes part. When all candidates
take part in every round, no counter falls to minus the total, and that bound
alone makes each cycle exact, however ties are broken.
-/

namespace Moduless.Balance

variable {ι : Type} [Fintype ι] [DecidableEq ι] {w c c' c'' : ι → ℤ} {R : Finset ι} {b : ι}

/-- One round: `R` takes part, `b` is chosen, the counters go from `c` to `c'`. -/
structure Round (w : ι → ℤ) (R : Finset ι) (c : ι → ℤ) (b : ι) (c' : ι → ℤ) : Prop where
  chosen : b ∈ R
  best : ∀ i ∈ R, c i + w i ≤ c b + w b
  next : ∀ i, c' i = c i + (if i ∈ R then w i else 0) - if i = b then ∑ j ∈ R, w j else 0

/-- Nothing is handed out that is not paid back. -/
theorem Round.sum_eq (h : Round w R c b c') : ∑ i, c' i = ∑ i, c i := by
  have hGain : ∑ i, (if i ∈ R then w i else 0) = ∑ j ∈ R, w j := by
    rw [Finset.sum_ite_mem, Finset.univ_inter]
  have hPay : ∑ i, (if i = b then ∑ j ∈ R, w j else 0) = ∑ j ∈ R, w j := by
    rw [Finset.sum_ite_eq' Finset.univ b, if_pos (Finset.mem_univ b)]
  simp only [h.next, Finset.sum_sub_distrib, Finset.sum_add_distrib, hGain, hPay]
  ring

/-- Rounds in which every candidate takes part, with the candidates chosen. -/
inductive Rounds (w : ι → ℤ) : (ι → ℤ) → List ι → (ι → ℤ) → Prop
  | nil (c : ι → ℤ) : Rounds w c [] c
  | cons {c c' c'' : ι → ℤ} {b : ι} {bs : List ι} (h : Round w Finset.univ c b c')
      (hRest : Rounds w c' bs c'') : Rounds w c (b :: bs) c''

theorem Rounds.sum_eq {bs : List ι} (h : Rounds w c bs c') : ∑ i, c' i = ∑ i, c i := by
  induction h with
  | nil => rfl
  | cons hRound _ ih => exact ih.trans hRound.sum_eq

theorem Rounds.counter {bs : List ι} (h : Rounds w c bs c') (i : ι) :
    c' i = c i + bs.length * w i - bs.count i * ∑ j, w j := by
  induction h with
  | nil => simp
  | @cons c c' c'' b bs hRound _ ih =>
    rw [ih, hRound.next, if_pos (Finset.mem_univ i), List.length_cons, List.count_cons]
    by_cases hb : i = b
    · simp only [hb, if_true, beq_self_eq_true]
      push_cast
      ring
    · simp only [hb, if_false, beq_eq_false_iff_ne.mpr (Ne.symm hb), Bool.false_eq_true]
      push_cast
      ring

section Bound

variable (hPos : ∀ i, 0 < w i)
include hPos

/-- The chosen counter is positive before it pays. -/
theorem Round.chosen_pos (h : Round w Finset.univ c b c') (hSum : ∑ i, c i = 0) :
    0 < c b + w b := by
  have hTotal : 0 < ∑ i, (c i + w i) := by
    rw [Finset.sum_add_distrib, hSum, zero_add]
    exact Finset.sum_pos (fun i _ => hPos i) ⟨b, Finset.mem_univ b⟩
  obtain ⟨i, -, hi⟩ := Finset.exists_lt_of_sum_lt
    (show ∑ _i : ι, (0 : ℤ) < ∑ i, (c i + w i) by simpa using hTotal)
  exact lt_of_lt_of_le hi (h.best i (Finset.mem_univ i))

theorem Round.above (h : Round w Finset.univ c b c') (hSum : ∑ i, c i = 0)
    (hAbove : ∀ i, -∑ j, w j < c i) (i : ι) : -∑ j, w j < c' i := by
  rw [h.next, if_pos (Finset.mem_univ i)]
  by_cases hb : i = b
  · rw [if_pos hb, hb]
    have := h.chosen_pos hPos hSum
    omega
  · rw [if_neg hb]
    have := hAbove i
    have := hPos i
    omega

theorem Rounds.above {bs : List ι} (h : Rounds w c bs c') (hSum : ∑ i, c i = 0)
    (hAbove : ∀ i, -∑ j, w j < c i) : ∀ i, -∑ j, w j < c' i := by
  induction h with
  | nil => exact hAbove
  | cons hRound _ ih =>
    exact ih (hRound.sum_eq.trans hSum) (hRound.above hPos hSum hAbove)

/-- A cycle as long as the total weight chooses each candidate as often as its
weight says, and ends where it began. -/
theorem Rounds.exact {bs : List ι} (h : Rounds w (fun _ => 0) bs c')
    (hLength : (bs.length : ℤ) = ∑ j, w j) :
    (∀ i, (bs.count i : ℤ) = w i) ∧ ∀ i, c' i = 0 := by
  have hTotal (i : ι) : 0 < ∑ j, w j :=
    Finset.sum_pos (fun j _ => hPos j) ⟨i, Finset.mem_univ i⟩
  have hCounter (i : ι) : c' i = (w i - bs.count i) * ∑ j, w j := by
    rw [h.counter i, hLength]
    ring
  -- a counter is a multiple of the total and above minus the total, so it is not negative
  have hNonneg (i : ι) : 0 ≤ c' i := by
    have hAbove := h.above hPos (by simp) (fun i => by simpa using hTotal i) i
    rw [hCounter i] at hAbove ⊢
    have hLess : -1 < w i - (bs.count i : ℤ) := by
      refine lt_of_mul_lt_mul_right ?_ (hTotal i).le
      rwa [neg_one_mul]
    exact mul_nonneg (by omega) (hTotal i).le
  have hZero (i : ι) : c' i = 0 := by
    have hSum : ∑ i, c' i = 0 := by simpa using h.sum_eq
    exact (Finset.sum_eq_zero_iff_of_nonneg fun i _ => hNonneg i).mp hSum i (Finset.mem_univ i)
  refine ⟨fun i => ?_, hZero⟩
  have hEq := hCounter i
  rw [hZero i, zero_eq_mul, or_iff_left (hTotal i).ne'] at hEq
  omega

end Bound

end Moduless.Balance
