import Mathlib.Algebra.Order.Ring.Int
import Moduless.PluginHost.Manager

/-!
The delay before a restart. `backoffFor` doubles the first delay once for each further
crash, in 64-bit arithmetic, and looks at the cap after each doubling.

The closed form it is compared with is taken over the integers and does not wrap around.
-/

namespace Moduless.PluginHost
open Go Pipeline

/-- The configuration that `NewSupervisor` keeps: what is not positive gets its default. -/
def newSupervisor (cfg : SupervisorConfig) : SupervisorConfig where
  pollInterval := if cfg.pollInterval ≤ 0 then second else cfg.pollInterval
  initialBackoff := if cfg.initialBackoff ≤ 0 then second else cfg.initialBackoff
  maxBackoff := if cfg.maxBackoff ≤ 0 then 60 * second else cfg.maxBackoff
  crashThreshold := if cfg.crashThreshold ≤ 0 then 5 else cfg.crashThreshold
  crashWindow := if cfg.crashWindow ≤ 0 then 5 * (60 * second) else cfg.crashWindow

namespace SupervisorConfig

/-- The delays double from the first one up to the cap. -/
structure Exponential (cfg : SupervisorConfig) : Prop where
  closed : ∀ n, 1 ≤ n →
    cfg.backoffFor n = min (cfg.initialBackoff * 2 ^ (n - 1).toNat) cfg.maxBackoff
  capped : ∀ n, 1 ≤ n → cfg.backoffFor n ≤ cfg.maxBackoff
  monotone : ∀ m n, 1 ≤ m → m ≤ n → cfg.backoffFor m ≤ cfg.backoffFor n

/-- The first delay is within the cap, and doubling it, once at least, reaches the cap with
a number that a duration can hold. -/
def ReachesCap (cfg : SupervisorConfig) : Prop :=
  cfg.initialBackoff ≤ cfg.maxBackoff ∧ ∃ k : Nat,
    cfg.maxBackoff ≤ cfg.initialBackoff * 2 ^ (k + 1) ∧
      cfg.initialBackoff * 2 ^ (k + 1) < 0x8000000000000000

section Loop

variable {cfg : SupervisorConfig} {b : Int}

theorem double_pow (b : Int) (n : Nat) : b * 2 ^ (n + 1) = b * 2 * 2 ^ n := by
  rw [pow_succ', mul_assoc]

theorem double_le_pow (hPos : 0 < b) (n : Nat) : b * 2 ≤ b * 2 ^ (n + 1) := by
  rw [double_pow]
  exact le_mul_of_one_le_right (by omega) (one_le_pow₀ (by decide))

theorem backoffLoop_eq_min {k : Nat} (hPos : 0 < b) (hCap : b ≤ cfg.maxBackoff)
    (hReach : cfg.maxBackoff ≤ b * 2 ^ (k + 1)) (hFits : b * 2 ^ (k + 1) < 0x8000000000000000)
    (n : Nat) : cfg.backoffLoop b n = min (b * 2 ^ n) cfg.maxBackoff := by
  induction n generalizing b k with
  | zero => rw [backoffLoop, pow_zero, mul_one, min_eq_left hCap]
  | succ n ih =>
    have hDouble : int64 (b * 2) = b * 2 :=
      int64_of_range (by omega) ((double_le_pow hPos k).trans_lt hFits)
    simp only [backoffLoop, hDouble]
    by_cases hEnd : b * 2 ≥ cfg.maxBackoff
    · rw [if_pos hEnd, min_eq_right (le_trans hEnd (double_le_pow hPos n))]
    · rw [if_neg hEnd, double_pow]
      cases k with
      | zero => exact absurd (by simpa using hReach) hEnd
      | succ k =>
        rw [double_pow] at hReach hFits
        exact ih (by omega) (by omega) hReach hFits

/-- A doubling that does not fit takes the delay below what it was. -/
theorem int64_double_lt (hWraps : 0x8000000000000000 ≤ b * 2) : int64 (b * 2) < b := by
  by_cases hFits : b < 0x8000000000000000
  · rw [int64_wrap hWraps (by omega)]
    omega
  · have hLt : int64 (b * 2) < 0x8000000000000000 := by
      have hMod := Int.bmod_lt (x := b * 2) (m := 0x10000000000000000) (by decide)
      rw [int64]
      omega
    omega

/-- Where the loop follows the closed form, the first doubling fits. -/
theorem double_fits_of_closed (hCap : b ≤ cfg.maxBackoff)
    (h : ∀ n, cfg.backoffLoop b n = min (b * 2 ^ n) cfg.maxBackoff) :
    b * 2 < 0x8000000000000000 := by
  by_contra hWraps
  have hLess := int64_double_lt (not_lt.mp hWraps)
  have hMin : b ≤ min (b * 2) cfg.maxBackoff := le_min (by omega) hCap
  have hOnce := h 1
  simp only [backoffLoop, pow_one] at hOnce
  rw [if_neg (by omega)] at hOnce
  exact absurd hLess (not_lt.mpr (hMin.trans hOnce.ge))

/-- Where the loop follows the closed form for every number of rounds, the doublings
reach the cap before they stop fitting. -/
theorem reaches_of_closed {gap : Nat} (hGap : b + gap ≥ cfg.maxBackoff) (hPos : 0 < b)
    (hCap : b ≤ cfg.maxBackoff)
    (h : ∀ n, cfg.backoffLoop b n = min (b * 2 ^ n) cfg.maxBackoff) :
    ∃ k : Nat, cfg.maxBackoff ≤ b * 2 ^ (k + 1) ∧ b * 2 ^ (k + 1) < 0x8000000000000000 := by
  -- The distance to the cap shrinks with each doubling that stays below it.
  induction gap generalizing b with
  | zero =>
    have hFits := double_fits_of_closed hCap h
    have hEnd : b * 2 ≥ cfg.maxBackoff := by omega
    exact ⟨0, by simpa using hEnd, by simpa using hFits⟩
  | succ gap ih =>
    have hFits := double_fits_of_closed hCap h
    by_cases hEnd : b * 2 ≥ cfg.maxBackoff
    · exact ⟨0, by simpa using hEnd, by simpa using hFits⟩
    · have hNext : ∀ n, cfg.backoffLoop (b * 2) n = min (b * 2 * 2 ^ n) cfg.maxBackoff := by
        intro n
        have hStep := h (n + 1)
        rwa [backoffLoop, int64_of_range (by omega) hFits, if_neg hEnd, double_pow] at hStep
      obtain ⟨k, hReach, hSmall⟩ := ih (b := b * 2) (by push_cast at hGap; omega) (by omega)
        (by omega) hNext
      rw [← double_pow] at hReach hSmall
      exact ⟨k + 1, hReach, hSmall⟩

theorem exponential_of_closed (hPos : 0 < cfg.initialBackoff)
    (h : ∀ n, cfg.backoffLoop cfg.initialBackoff n =
      min (cfg.initialBackoff * 2 ^ n) cfg.maxBackoff) : cfg.Exponential where
  closed n _ := h (n - 1).toNat
  capped n _ := by
    rw [backoffFor, h]
    exact min_le_right _ _
  monotone m n _ hmn := by
    rw [backoffFor, backoffFor, h, h]
    refine min_le_min_right _ (mul_le_mul_of_nonneg_left ?_ hPos.le)
    exact pow_le_pow_right₀ (by decide) (by omega)

end Loop

theorem exponential_iff_reachesCap {cfg : SupervisorConfig} (hPos : 0 < cfg.initialBackoff) :
    cfg.Exponential ↔ cfg.ReachesCap := by
  constructor
  · intro h
    have hLoop : ∀ n, cfg.backoffLoop cfg.initialBackoff n =
        min (cfg.initialBackoff * 2 ^ n) cfg.maxBackoff := by
      intro n
      have hClosed := h.closed (n + 1) (by omega)
      rwa [backoffFor, add_sub_cancel_right, Int.toNat_natCast] at hClosed
    have hFirst := hLoop 0
    rw [backoffLoop, pow_zero, mul_one] at hFirst
    have hCap : cfg.initialBackoff ≤ cfg.maxBackoff := left_eq_inf.mp hFirst
    have hGap : cfg.maxBackoff ≤ cfg.initialBackoff + (Int.toNat cfg.maxBackoff : Int) :=
      le_add_of_nonneg_of_le hPos.le (Int.self_le_toNat _)
    exact ⟨hCap, reaches_of_closed hGap hPos hCap hLoop⟩
  · rintro ⟨hCap, k, hReach, hFits⟩
    exact exponential_of_closed hPos (backoffLoop_eq_min hPos hCap hReach hFits)

end SupervisorConfig

theorem newSupervisor_initialBackoff_pos (cfg : SupervisorConfig) :
    0 < (newSupervisor cfg).initialBackoff := by
  simp only [newSupervisor]
  split
  next => decide
  next h => exact not_le.mp h

/-- A supervisor waits as documented for every number of crashes, if and only if its first
delay is within the cap and its doublings fit until they reach it. -/
theorem backoff_exponential_iff (cfg : SupervisorConfig) :
    (newSupervisor cfg).Exponential ↔ (newSupervisor cfg).ReachesCap :=
  SupervisorConfig.exponential_iff_reachesCap (newSupervisor_initialBackoff_pos cfg)

/-- Two minutes for the first delay and no cap given, so that it is one minute. -/
def slowStart : SupervisorConfig := ⟨0, 120 * second, 0, 0, 0⟩

/-- Delays that cannot be doubled. -/
def hugeStart : SupervisorConfig := ⟨0, 0x4000000000000000, 0x7fffffffffffffff, 0, 0⟩

/-- The first delay is above the cap and the second one shorter; a doubling that wraps
around gives a negative delay. -/
theorem backoff_above_cap :
    (newSupervisor slowStart).maxBackoff = 60 * second ∧
      (newSupervisor slowStart).backoffFor 1 = 120 * second ∧
      (newSupervisor slowStart).backoffFor 2 = 60 * second ∧
      (newSupervisor hugeStart).backoffFor 2 = -0x8000000000000000 ∧
      ¬ (newSupervisor slowStart).Exponential := by
  refine ⟨by decide, by decide, by decide, by decide, fun h => ?_⟩
  exact absurd (h.capped 1 le_rfl) (by decide)

end Moduless.PluginHost
