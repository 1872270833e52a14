import Moduless.Manifest.CronMeaning

/-!
The loop of `parsePart` over the values of a part, for every step that `Atoi` reads.

A step close to the largest integer takes the count past it. The count is then negative,
which is below the end of the part, and the next step brings it back to a value that the
part may not stand for.
-/

namespace Moduless.Cron
open Go

/-- How often the body of `for ; v <= hi; v += step` runs. -/
def roundsFrom (hi step : Int) : Nat → Int → Option Nat
  | 0, _ => none
  | rounds + 1, v =>
    if v ≤ hi then (roundsFrom hi step rounds (int64 (v + step))).map (· + 1) else some 0

/-- The mask has bits for values between `lo` and `hi` only, all of them a number of steps
away from `lo`, and the loop that sets them is a short one. -/
structure Regular (lo hi step : Int) (mask : Mask) : Prop where
  between : ∀ i : Nat, mask.getLsbD i = true → lo ≤ i ∧ i ≤ hi
  congruent : ∀ i : Nat, mask.getLsbD i = true → step ∣ i - lo
  brief : ∃ rounds : Nat, roundsFrom hi step intValues lo = some rounds ∧ rounds ≤ hi - lo + 1

/-- The value after the first one is an integer of 64 bits; or it is not, but the one after
that is below zero and the part is long enough for the rounds made in vain. -/
def StepFits (lo hi step : Int) : Prop :=
  lo + step < 0x8000000000000000 ∨ lo + 2 * step < 0x10000000000000000 ∧ lo + 2 ≤ hi

section Loop

variable {lo hi step v : Int} {rounds n : Nat} {mask m : Mask}

theorem roundsFrom_stop (h : hi < v) : roundsFrom hi step (rounds + 1) v = some 0 := by
  rw [roundsFrom, if_neg (by omega)]

theorem roundsFrom_next (h : v ≤ hi) : roundsFrom hi step (rounds + 1) v =
    (roundsFrom hi step rounds (int64 (v + step))).map (· + 1) := by
  rw [roundsFrom, if_pos h]

/-- The rounds that are counted are those of the loop that sets the bits. -/
theorem isSome_roundsFrom (mask : Mask) :
    (roundsFrom hi step rounds v).isSome = (maskFrom hi step rounds v mask).isSome := by
  induction rounds generalizing v mask with
  | zero => rfl
  | succ rounds ih =>
    by_cases hEnd : hi < v
    · rw [roundsFrom_stop hEnd, maskFrom_stop hEnd]
      rfl
    · rw [roundsFrom_next (not_lt.mp hEnd), maskFrom_next (not_lt.mp hEnd), Option.isSome_map]
      exact ih _

/-- Where the count does not wrap around, each round takes it a step further. -/
theorem roundsFrom_le (hHi : hi < 64) (hStep : 0 < step)
    (hSmall : v ≤ hi → v + step < 0x8000000000000000) (hv : 0 ≤ v)
    (h : roundsFrom hi step rounds v = some n) : n = 0 ∨ (n : Int) ≤ hi - v + 1 := by
  induction rounds generalizing v n with
  | zero => cases h
  | succ rounds ih =>
    by_cases hEnd : hi < v
    · rw [roundsFrom_stop hEnd, Option.some_inj] at h
      exact .inl h.symm
    · rw [roundsFrom_next (not_lt.mp hEnd), int64_of_range (by omega) (by omega),
        Option.map_eq_some_iff] at h
      obtain ⟨n, hn, rfl⟩ := h
      have hRest := ih (by omega) (by omega) hn
      push_cast
      omega

theorem maskFrom_keeps (h : maskFrom hi step rounds v mask = some m) {i : Nat}
    (hi : mask.getLsbD i = true) : m.getLsbD i = true := by
  induction rounds generalizing v mask with
  | zero => cases h
  | succ rounds ih =>
    rw [maskFrom] at h
    split at h
    next =>
      refine ih h ?_
      rw [BitVec.getLsbD_or, hi, Bool.true_or]
    next =>
      cases h
      exact hi

section Wrap

variable (hHi : hi < 64) (hv : 0 ≤ v) (hLe : v ≤ hi) (hInt : step < 0x8000000000000000)
  (hWrap : 0x8000000000000000 ≤ v + step)
include hHi hv hLe hInt hWrap

theorem roundsFrom_two : roundsFrom hi step (rounds + 2) v =
    (roundsFrom hi step rounds (v + 2 * step - 0x10000000000000000)).map (· + 2) := by
  have hBack : v + step - 0x10000000000000000 + step = v + 2 * step - 0x10000000000000000 := by
    omega
  rw [roundsFrom_next hLe, int64_wrap hWrap (by omega), roundsFrom_next (by omega), hBack,
    int64_of_range (by omega) (by omega), Option.map_map]
  rfl

section Below

variable (hBelow : v + 2 * step < 0x10000000000000000)
include hBelow

theorem maskFrom_below : maskFrom hi step (rounds + 4) v mask = some (mask ||| bitAt v) := by
  rw [maskFrom_two hHi hv hLe hInt hWrap, maskFrom_vain (by omega) (by omega),
    int64_of_range (by omega) (by omega), maskFrom_stop (by omega)]

theorem roundsFrom_below : roundsFrom hi step (rounds + 4) v = some 3 := by
  rw [roundsFrom_two hHi hv hLe hInt hWrap, roundsFrom_next (by omega),
    int64_of_range (by omega) (by omega), roundsFrom_stop (by omega)]
  rfl

end Below

/-- A count that comes back to zero or above sets a bit below the first value. -/
theorem maskFrom_stray (hBack : 0x10000000000000000 ≤ v + 2 * step)
    (h : maskFrom hi step (rounds + 3) v mask = some m) :
    m.getLsbD (v + 2 * step - 0x10000000000000000).toNat = true := by
  rw [maskFrom_two hHi hv hLe hInt hWrap, maskFrom_next (by omega)] at h
  refine maskFrom_keeps h ?_
  rw [BitVec.getLsbD_or, (getLsbD_bitAt (by omega) (by omega)).mpr (by omega), Bool.or_true]

end Wrap

end Loop

section Parts

variable {lo hi step : Int} {m : Mask}

theorem intValues_eq_add_four : ∃ rest, intValues = rest + 4 :=
  ⟨intValues - 4, by decide⟩

theorem eq_of_firstBit (hLo : 0 ≤ lo) (hLt : lo < 64) {i : Nat}
    (hBit : ((0 : Mask) ||| bitAt lo).getLsbD i = true) : (i : Int) = lo := by
  rw [BitVec.getLsbD_or, getLsbD_emptyMask, Bool.false_or] at hBit
  exact (getLsbD_bitAt hLo hLt).mp hBit

theorem regular_of_fits (hLo : 0 ≤ lo) (hLe : lo ≤ hi) (hHi : hi < 64) (hStep : 0 < step)
    (hFits : lo + step < 0x8000000000000000) (h : maskFrom hi step intValues lo 0 = some m) :
    Regular lo hi step m := by
  obtain ⟨m', hm, hBits⟩ := maskFrom_spec intValues 0 hHi hStep (fun _ => hFits) hLo (by decide)
    (by simp only [intValues]; omega)
  cases h.symm.trans hm
  have hValue : ∀ i : Nat, m.getLsbD i = true → (i : Int) ∈ values lo hi step := by
    intro i hi
    rwa [hBits, getLsbD_emptyMask, or_iff_right Bool.false_ne_true] at hi
  refine ⟨fun i hBit => ?_, fun i hBit => ?_, ?_⟩
  · obtain ⟨hMax, k, hk⟩ := hValue i hBit
    have hPos : 0 ≤ (k : Int) * step := Int.mul_nonneg (Int.natCast_nonneg k) hStep.le
    exact ⟨by omega, hMax⟩
  · obtain ⟨-, k, hk⟩ := hValue i hBit
    exact ⟨k, by rw [hk, add_sub_cancel_left, mul_comm]⟩
  · have hSome : (roundsFrom hi step intValues lo).isSome = true := by
      rw [isSome_roundsFrom 0, h]
      rfl
    obtain ⟨n, hn⟩ := Option.isSome_iff_exists.mp hSome
    have hLen := roundsFrom_le hHi hStep (fun _ => hFits) hLo hn
    exact ⟨n, hn, by omega⟩

theorem regular_iff (hLo : 0 ≤ lo) (hLe : lo ≤ hi) (hHi : hi < 64) (hStep : 0 < step)
    (hInt : step < 0x8000000000000000) (h : maskFrom hi step intValues lo 0 = some m) :
    Regular lo hi step m ↔ StepFits lo hi step := by
  by_cases hFits : lo + step < 0x8000000000000000
  · exact iff_of_true (regular_of_fits hLo hLe hHi hStep hFits h) (.inl hFits)
  obtain ⟨rest, hRest⟩ := intValues_eq_add_four
  have hWrap := not_lt.mp hFits
  rw [StepFits, or_iff_right hFits]
  by_cases hBelow : lo + 2 * step < 0x10000000000000000
  · have hThree : roundsFrom hi step intValues lo = some 3 := by
      rw [hRest]
      exact roundsFrom_below hHi hLo hLe hInt hWrap hBelow
    rw [and_iff_right hBelow]
    constructor
    · rintro ⟨-, -, n, hn, hLen⟩
      cases hn.symm.trans hThree
      push_cast at hLen
      omega
    · intro hLong
      rw [hRest, maskFrom_below hHi hLo hLe hInt hWrap hBelow, Option.some_inj] at h
      subst h
      refine ⟨fun i hBit => ?_, fun i hBit => ?_, 3, hThree, by push_cast; omega⟩
      · rw [eq_of_firstBit hLo (by omega) hBit]
        exact ⟨le_rfl, hLe⟩
      · rw [eq_of_firstBit hLo (by omega) hBit, sub_self]
        exact dvd_zero step
  · refine iff_of_false (fun hRegular => ?_) (fun hCond => hBelow hCond.1)
    rw [hRest] at h
    have hStray := maskFrom_stray hHi hLo hLe hInt hWrap (not_lt.mp hBelow) h
    have hBetween := (hRegular.between _ hStray).1
    omega

theorem Part.lo_le_hi {min max : Int} {s : Str} (h : Part Unsigned min max s lo hi step)
    (hOrder : min ≤ max) : lo ≤ hi := by
  have hSpan : ∀ {s : Str}, Span Unsigned min max s lo hi → lo ≤ hi := by
    intro s hSpan
    cases hSpan with
    | every => exact hOrder
    | value => exact le_rfl
    | range _ _ hLe => exact hLe
  cases h with
  | plain h => exact hSpan h
  | stepped h => exact hSpan h

end Parts

/-- An accepted part has a mask as its text says, set in at most one round for each value
of its range, if and only if its step does not take the count past the largest integer,
or does so without setting a bit and in a range of three values or more. -/
theorem parsePart_regular_iff {min max : Int} {s : Str} {m : Mask} (hRange : FieldRange min max)
    (h : (parsePart min max s).run = some (.ok m)) :
    ∃ lo hi step, Part Unsigned min max s lo hi step ∧
      (Regular lo hi step m ↔ StepFits lo hi step) := by
  obtain ⟨hMin, hOrder, hMax⟩ := hRange
  obtain ⟨lo, hi, step, hPart, hMask⟩ := parsePart_ok.mp h
  obtain ⟨hLo, hHi, hPos, hInt⟩ := hPart.bounds
  exact ⟨lo, hi, step, hPart, regular_iff (by omega) (hPart.lo_le_hi hOrder) (by omega) hPos hInt
    hMask⟩

/-- Every quarter of an hour. -/
theorem parsePart_regular_iff_quarters :
    FieldRange 0 59 ∧ (parsePart 0 59 "*/15".toList).run = some (.ok 35185445863425#64) ∧
      ∃ lo hi step, Part Unsigned 0 59 "*/15".toList lo hi step ∧
        (Regular lo hi step 35185445863425#64 ↔ StepFits lo hi step) :=
  ⟨minute_range, by decide +kernel, parsePart_regular_iff minute_range (by decide +kernel)⟩

/-- Minute 5 with the largest step there is. -/
def farStep : Str := "5/9223372036854775807".toList

/-- The part stands for minute 5 and is set for minutes 3 and 1 too, in seven rounds. -/
theorem far_step_strays :
    Part Unsigned 0 59 farStep 5 5 0x7fffffffffffffff ∧
      (parsePart 0 59 farStep).run = some (.ok 0b101010#64) ∧
      roundsFrom 5 0x7fffffffffffffff intValues 5 = some 7 ∧
      ¬ Regular 5 5 0x7fffffffffffffff 0b101010#64 := by
  have hSpan : Span Unsigned 0 59 "5".toList 5 5 :=
    .value ⟨by decide +kernel, by decide⟩ (by decide) (by decide)
  refine ⟨.stepped hSpan (t := "9223372036854775807".toList) (by decide +kernel) (by decide),
    by decide +kernel, by decide +kernel, fun h => ?_⟩
  exact absurd (h.between 3 (by decide)).1 (by decide)

end Moduless.Cron
