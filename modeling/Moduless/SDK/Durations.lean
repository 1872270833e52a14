import Moduless.SDK.Client

/-!
Durations on the wire.

A duration crosses as whole seconds in 32 bits. Up to the largest number of seconds that
these can hold, rounding up keeps it at least as long as it was, and a longer duration
never becomes a shorter one. The first duration past that arrives as a negative number.
-/

namespace Moduless.SDK
open Go Rpc

/-- The largest number of seconds the wire can carry. -/
def maxWireSeconds : Int := 2147483647

theorem wholeSeconds_of_le {d : Int} (hPos : 0 < d) (hMax : d ≤ maxWireSeconds * second) :
    wholeSeconds d = (d + second - 1) / second := by
  have hSecond : second = 1000000000 := rfl
  have hWire : maxWireSeconds = 2147483647 := rfl
  rw [hWire, hSecond] at hMax
  rw [wholeSeconds, if_neg (Int.not_le.mpr hPos), hSecond, int64_of_range (by omega) (by omega),
    Int.tdiv_eq_ediv_of_nonneg (by omega), int32_of_range (by omega) (by omega)]

/-- The durations up to a bound survive the wire exactly where the bound is not more than the
wire can carry. -/
theorem wholeSeconds_faithful_iff (longest : Int) :
    (∀ d d', 0 < d → d ≤ d' → d' ≤ longest →
        1 ≤ wholeSeconds d ∧
          (d ≤ maxWireSeconds * second → d ≤ wholeSeconds d * second) ∧
          wholeSeconds d ≤ wholeSeconds d') ↔
      longest ≤ maxWireSeconds * second := by
  have hSecond : second = 1000000000 := rfl
  constructor
  · intro h
    -- the first duration that is too long is already negative on the wire
    by_contra hLonger
    have hFirst := (h (maxWireSeconds * second + 1) longest (by decide) (by omega) le_rfl).1
    exact absurd hFirst (by decide)
  · intro hLongest d d' hPos hLess hBound
    rw [wholeSeconds_of_le hPos (by omega), wholeSeconds_of_le (by omega) (by omega)]
    rw [hSecond]
    refine ⟨by omega, fun _ => by omega, by omega⟩

/-- A delay of 2³² seconds is none, and the longest lock is asked for with a negative time. -/
theorem long_duration_lost :
    wholeSeconds (4294967296 * second) = 0 ∧ wholeSeconds 0x7fffffffffffffff = -633437443 ∧
      wholeSeconds (2147483648 * second) < wholeSeconds second := by
  decide

end Moduless.SDK
