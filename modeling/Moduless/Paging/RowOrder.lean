import Mathlib.Data.List.Forall2
import Mathlib.Data.List.Sort
import Mathlib.Order.RelClasses

/-!
How a database orders and compares rows of values, some of which may be missing.

The values are ordered by a strict total order. `sortsBefore` is the order of the
rows in a sorted result: the first column in which they differ decides, and a
missing value stands after all others or before them. `rowAfter` compares a row
with a row of known values: it is unknown as soon as it meets a missing value.
-/

namespace Moduless.Paging

variable {K : Type} (lt : K → K → Prop) [DecidableRel lt] [DecidableEq K]

/-- Whether a row stands after known values, `none` if that is unknown. -/
def rowAfter : List (Option K) → List K → Option Bool
  | some a :: as, c :: cs => if a = c then rowAfter as cs else some (decide (lt c a))
  | none :: _, _ :: _ => none
  | _, _ => some false

def valueBefore (nullsLast : Bool) : Option K → Option K → Bool
  | some a, some b => decide (lt a b)
  | some _, none => nullsLast
  | none, some _ => !nullsLast
  | none, none => false

def sortsBefore (nullsLast : Bool) : List (Option K) → List (Option K) → Bool
  | a :: as, b :: bs =>
    if a = b then sortsBefore nullsLast as bs else valueBefore lt nullsLast a b
  | _, _ => false

variable {lt} {nullsLast : Bool}

theorem rowAfter_cons {a c : K} {as : List (Option K)} {cs : List K} :
    rowAfter lt (some a :: as) (c :: cs) = some true ↔
      a = c ∧ rowAfter lt as cs = some true ∨ a ≠ c ∧ lt c a := by
  rw [rowAfter]
  by_cases h : a = c
  · simp [h]
  · simp [h]

/-- The values are those of the row, where it has one. -/
abbrev Agrees (a : List (Option K)) (cs : List K) : Prop :=
  List.Forall₂ (fun x c => ∀ y, x = some y → y = c) a cs

theorem rowAfter_self {a : List (Option K)} {cs : List K} (h : Agrees a cs) :
    rowAfter lt a cs ≠ some true := by
  induction h with
  | nil => simp [rowAfter]
  | @cons x c as cs hx _ ih =>
    cases x with
    | none => simp [rowAfter]
    | some x =>
      rw [Ne, rowAfter_cons, hx x rfl]
      simpa using ih

section Order

variable [IsStrictTotalOrder K lt]

theorem rowAfter_mono {a b : List (Option K)} {cs : List K} (h : rowAfter lt a cs = some true)
    (hAlike : a.map Option.isSome = b.map Option.isSome)
    (hBefore : sortsBefore lt nullsLast a b = true) : rowAfter lt b cs = some true := by
  induction cs generalizing a b with
  | nil =>
    cases a with
    | nil => cases h
    | cons x as => cases x <;> cases h
  | cons c cs ih =>
    match a, b with
    | [], _ | none :: _, _ => cases h
    | some _ :: _, [] => cases hAlike
    | some _ :: _, none :: _ => cases (List.cons.inj hAlike).1
    | some x :: as, some y :: bs =>
      rw [rowAfter_cons] at h ⊢
      rw [sortsBefore] at hBefore
      by_cases hxy : x = y
      · subst hxy
        rw [if_pos rfl] at hBefore
        exact h.imp_left fun h => ⟨h.1, ih h.2 (List.cons.inj hAlike).2 hBefore⟩
      · rw [if_neg (fun h => hxy (Option.some.inj h))] at hBefore
        have hlt : lt x y := of_decide_eq_true hBefore
        have hcy : lt c y := by
          obtain ⟨rfl, -⟩ | ⟨-, hcx⟩ := h
          · exact hlt
          · exact trans_of lt hcx hlt
        exact .inr ⟨fun hEq => irrefl_of lt c (hEq ▸ hcy), hcy⟩

omit [DecidableEq K] in
theorem valueBefore_trans {x y z : Option K} (hxy : valueBefore lt nullsLast x y = true)
    (hyz : valueBefore lt nullsLast y z = true) : valueBefore lt nullsLast x z = true := by
  cases x <;> cases y <;> cases z <;> simp_all [valueBefore]
  exact trans_of lt hxy hyz

omit [DecidableEq K] in
theorem valueBefore_asymm {x y : Option K} (hxy : valueBefore lt nullsLast x y = true) :
    valueBefore lt nullsLast y x = false := by
  cases x <;> cases y <;> simp_all [valueBefore]
  exact asymm_of lt hxy

omit [DecidableEq K] in
theorem valueBefore_total {x y : Option K} (h : x ≠ y) :
    valueBefore lt nullsLast x y = true ∨ valueBefore lt nullsLast y x = true := by
  match x, y with
  | none, none => exact absurd rfl h
  | none, some b | some b, none => cases nullsLast <;> simp [valueBefore]
  | some a, some b =>
    have hab : a ≠ b := fun hEq => h (congrArg some hEq)
    simpa [valueBefore, hab] using trichotomous_of lt a b

theorem sortsBefore_trans {a b c : List (Option K)} (hab : sortsBefore lt nullsLast a b = true)
    (hbc : sortsBefore lt nullsLast b c = true) : sortsBefore lt nullsLast a c = true := by
  induction a generalizing b c with
  | nil => cases hab
  | cons x as ih =>
    match b, c with
    | [], _ => cases hab
    | _ :: _, [] => cases hbc
    | y :: bs, z :: cs =>
      rw [sortsBefore] at hab hbc ⊢
      by_cases hxy : x = y
      · subst hxy
        rw [if_pos rfl] at hab
        by_cases hxz : x = z
        · rw [if_pos hxz] at hbc ⊢
          exact ih hab hbc
        · rw [if_neg hxz] at hbc ⊢
          exact hbc
      · rw [if_neg hxy] at hab
        by_cases hyz : y = z
        · subst hyz
          rw [if_neg hxy]
          exact hab
        · rw [if_neg hyz] at hbc
          have hxz : x ≠ z := by
            intro hEq
            subst hEq
            exact absurd hbc (by rw [valueBefore_asymm hab]; exact Bool.false_ne_true)
          rw [if_neg hxz]
          exact valueBefore_trans hab hbc

variable (lt nullsLast) in
theorem sortsBefore_total {a b : List (Option K)} (hLength : a.length = b.length) (h : a ≠ b) :
    sortsBefore lt nullsLast a b = true ∨ sortsBefore lt nullsLast b a = true := by
  induction a generalizing b with
  | nil =>
    cases b with
    | nil => exact absurd rfl h
    | cons => cases hLength
  | cons x as ih =>
    cases b with
    | nil => cases hLength
    | cons y bs =>
      simp only [sortsBefore, eq_comm (a := y)]
      by_cases hxy : x = y
      · simp only [hxy, if_true]
        refine ih (Nat.succ_inj.mp hLength) fun hEq => h ?_
        rw [hxy, hEq]
      · simp only [hxy, if_false]
        exact valueBefore_total hxy

omit [IsStrictTotalOrder K lt] in
theorem sortsBefore_irrefl (a : List (Option K)) : sortsBefore lt nullsLast a a = false := by
  induction a with
  | nil => rfl
  | cons x as ih => rw [sortsBefore, if_pos rfl, ih]

theorem sortsBefore_asymm {a b : List (Option K)} (h : sortsBefore lt nullsLast a b = true) :
    sortsBefore lt nullsLast b a = false := by
  cases hba : sortsBefore lt nullsLast b a with
  | false => rfl
  | true =>
    have hSelf := sortsBefore_trans h hba
    rw [sortsBefore_irrefl] at hSelf
    cases hSelf

end Order

section Sorting

variable {R : Type} (key : R → List (Option K))

variable (lt) in
/-- The rows of a sorted result. -/
def inOrder (nullsLast : Bool) (rows : List R) : List R :=
  rows.insertionSort fun a b => sortsBefore lt nullsLast (key b) (key a) = false

variable (lt nullsLast) in
theorem inOrder_perm (rows : List R) : (inOrder lt key nullsLast rows).Perm rows :=
  List.perm_insertionSort _ rows

variable [IsStrictTotalOrder K lt] {key} {n : Nat} (hKey : ∀ r, (key r).length = n)

include hKey

theorem inOrder_pairwise (rows : List R) : (inOrder lt key nullsLast rows).Pairwise
    fun a b => sortsBefore lt nullsLast (key b) (key a) = false := by
  have hTotal : Std.Total fun a b : R => sortsBefore lt nullsLast (key b) (key a) = false := by
    refine ⟨fun a b => ?_⟩
    cases h : sortsBefore lt nullsLast (key b) (key a) with
    | false => exact .inl rfl
    | true => exact .inr (sortsBefore_asymm h)
  have hTrans : IsTrans R fun a b => sortsBefore lt nullsLast (key b) (key a) = false := by
    refine ⟨fun a b c hab hbc => ?_⟩
    by_contra hca
    rw [Bool.not_eq_false] at hca
    by_cases hEq : key a = key b
    · rw [hEq, hbc] at hca
      cases hca
    · have hLength : (key a).length = (key b).length := by rw [hKey, hKey]
      rcases sortsBefore_total lt nullsLast hLength hEq with h | h
      · rw [sortsBefore_trans hca h] at hbc
        cases hbc
      · rw [h] at hab
        cases hab
  exact List.pairwise_insertionSort _ rows

variable {rows : List R} (hInj : ∀ a ∈ rows, ∀ b ∈ rows, key a = key b → a = b)

include hInj

omit [DecidableRel lt] [DecidableEq K] [IsStrictTotalOrder K lt] in
theorem length_eq_and_ne {a b : R} (ha : a ∈ rows) (hb : b ∈ rows) (hne : a ≠ b) :
    (key a).length = (key b).length ∧ key a ≠ key b :=
  ⟨(hKey a).trans (hKey b).symm, fun hEq => hne (hInj a ha b hb hEq)⟩

/-- Where the keys tell the rows apart, selecting and sorting can change places. -/
theorem inOrder_filter (p : R → Bool) :
    inOrder lt key nullsLast (rows.filter p) = (inOrder lt key nullsLast rows).filter p := by
  apply List.Perm.eq_of_pairwise _ (inOrder_pairwise hKey _) ((inOrder_pairwise hKey rows).filter p)
  · exact (inOrder_perm lt nullsLast key _).trans
      ((inOrder_perm lt nullsLast key rows).filter p).symm
  · intro a b ha hb hab hba
    have ha := List.mem_of_mem_filter ((inOrder_perm lt nullsLast key _).mem_iff.mp ha)
    have hb := (inOrder_perm lt nullsLast key rows).mem_iff.mp (List.mem_of_mem_filter hb)
    by_contra hne
    obtain ⟨hLength, hKeys⟩ := length_eq_and_ne hKey hInj ha hb hne
    rcases sortsBefore_total lt nullsLast hLength hKeys with h | h
    · rw [h] at hba
      cases hba
    · rw [h] at hab
      cases hab

theorem inOrder_strict (hNodup : rows.Nodup) : (inOrder lt key nullsLast rows).Pairwise
    fun a b => sortsBefore lt nullsLast (key a) (key b) = true := by
  have hDistinct := (inOrder_perm lt nullsLast key rows).nodup_iff.mpr hNodup
  refine ((inOrder_pairwise hKey rows).and hDistinct).imp_of_mem fun ha hb h => ?_
  have ha := (inOrder_perm lt nullsLast key rows).mem_iff.mp ha
  have hb := (inOrder_perm lt nullsLast key rows).mem_iff.mp hb
  obtain ⟨hLength, hKeys⟩ := length_eq_and_ne hKey hInj ha hb h.2
  exact (sortsBefore_total lt nullsLast hLength hKeys).resolve_right (by simp [h.1])

end Sorting
end Moduless.Paging
