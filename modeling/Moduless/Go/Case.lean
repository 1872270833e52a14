import Mathlib
import Moduless.Go.Builtin

/-!
The case of ASCII letters. A letter moves by 32 and any other character stays where it is,
so nothing becomes a character that has no case.
-/

namespace Moduless.Go

theorem toLower_cases (c : Char) :
    (¬ (65 ≤ c.toNat ∧ c.toNat ≤ 90) ∧ c.toLower = c) ∨
      (65 ≤ c.toNat ∧ c.toNat ≤ 90 ∧ c.toLower.toNat = c.toNat + 32) := by
  have hUpper : (c.val ≥ 'A'.val ∧ c.val ≤ 'Z'.val) ↔ 65 ≤ c.toNat ∧ c.toNat ≤ 90 := by
    simp only [UInt32.le_iff_toNat_le, ge_iff_le]
    rfl
  by_cases h : c.val ≥ 'A'.val ∧ c.val ≤ 'Z'.val
  · have hNat := hUpper.mp h
    refine .inr ⟨hNat.1, hNat.2, ?_⟩
    rw [Char.toLower, dif_pos h]
    have hMod : (c.toNat + 32) % 2 ^ 32 = c.toNat + 32 := Nat.mod_eq_of_lt (by omega)
    exact (UInt32.toNat_add _ _).trans hMod
  · refine .inl ⟨mt hUpper.mpr h, ?_⟩
    rw [Char.toLower, dif_neg h]

theorem toLower_toLower (c : Char) : c.toLower.toLower = c.toLower := by
  cases toLower_cases c with
  | inl hSame => rw [hSame.2, hSame.2]
  | inr hUpper =>
    cases toLower_cases c.toLower with
    | inl hSame => exact hSame.2
    | inr hAgain => omega

theorem toLower_eq_iff {c d : Char} (hd : d.toNat < 65) : c.toLower = d ↔ c = d := by
  constructor
  · rintro rfl
    rcases toLower_cases c with ⟨-, hSame⟩ | ⟨hUpper, -, hLower⟩
    · exact hSame.symm
    · omega
  · rintro rfl
    rcases toLower_cases c with ⟨-, hSame⟩ | ⟨hUpper, -, -⟩
    · exact hSame
    · omega

end Moduless.Go
