import Mathlib.Data.List.Basic

/-!
Names joined with a separator and cut to a length.

Two pairs give the same name when the cut hides the difference, or when the
separator stands inside one of the parts.
-/

namespace Moduless.DB

variable {α : Type}

/-- When `k₁ sep c₁` and `k₂ sep c₂` agree in their first `n` characters. -/
inductive Clash (sep : α) (n : Nat) (k₁ c₁ k₂ c₂ : List α) : Prop
  | sameKey (hKey : k₁ = k₂)
      (hRest : c₁.take (n - (k₁.length + 1)) = c₂.take (n - (k₁.length + 1)))
  | shiftRight (w : List α) (hKey : k₂ = k₁ ++ sep :: w)
      (hRest : c₁.take (n - (k₁.length + 1)) = (w ++ sep :: c₂).take (n - (k₁.length + 1)))
  | shiftLeft (w : List α) (hKey : k₁ = k₂ ++ sep :: w)
      (hRest : (w ++ sep :: c₁).take (n - (k₂.length + 1)) = c₂.take (n - (k₂.length + 1)))
  | longKeys (h₁ : n ≤ k₁.length) (h₂ : n ≤ k₂.length) (hKey : k₁.take n = k₂.take n)

section Clash

variable {sep : α} {n : Nat} {k₁ c₁ k₂ c₂ : List α}

theorem Clash.symm (h : Clash sep n k₁ c₁ k₂ c₂) : Clash sep n k₂ c₂ k₁ c₁ := by
  cases h with
  | sameKey hKey hRest =>
    subst hKey
    exact .sameKey rfl hRest.symm
  | shiftRight w hKey hRest => exact .shiftLeft w hKey hRest.symm
  | shiftLeft w hKey hRest => exact .shiftRight w hKey hRest.symm
  | longKeys h₁ h₂ hKey => exact .longKeys h₂ h₁ hKey.symm

theorem take_append_cons {u x : List α} {a : α} (hn : u.length < n) :
    (u ++ a :: x).take n = u ++ a :: x.take (n - (u.length + 1)) := by
  obtain ⟨m, rfl⟩ := Nat.exists_eq_add_of_lt hn
  have hRest : u.length + m + 1 - u.length = m + 1 := by omega
  have hTail : u.length + m + 1 - (u.length + 1) = m := by omega
  rw [List.take_append, List.take_of_length_le (by omega), hRest, hTail, List.take_succ_cons]

theorem take_append_cons_inj {u v x y : List α} {a b : α} (hLength : u.length = v.length)
    (hn : u.length < n) (h : (u ++ a :: x).take n = (v ++ b :: y).take n) :
    u = v ∧ a = b ∧ x.take (n - (u.length + 1)) = y.take (n - (u.length + 1)) := by
  rw [take_append_cons hn, take_append_cons (hLength ▸ hn), ← hLength] at h
  obtain ⟨hPre, hRest⟩ := List.append_inj h hLength
  obtain ⟨hHead, hTail⟩ := List.cons.inj hRest
  exact ⟨hPre, hHead, hTail⟩

theorem take_append_cons_congr {u x y : List α} {a : α}
    (h : x.take (n - (u.length + 1)) = y.take (n - (u.length + 1))) :
    (u ++ a :: x).take n = (u ++ a :: y).take n := by
  by_cases hn : u.length < n
  · rw [take_append_cons hn, take_append_cons hn, h]
  · rw [List.take_append_of_le_length (by omega), List.take_append_of_le_length (by omega)]

private theorem clash_of_le (hLength : k₁.length ≤ k₂.length)
    (h : (k₁ ++ sep :: c₁).take n = (k₂ ++ sep :: c₂).take n) : Clash sep n k₁ c₁ k₂ c₂ := by
  by_cases hLong : n ≤ k₁.length
  · rw [List.take_append_of_le_length hLong, List.take_append_of_le_length (by omega)] at h
    exact .longKeys hLong (by omega) h
  · rcases Nat.eq_or_lt_of_le hLength with hEq | hLt
    · obtain ⟨hKey, -, hRest⟩ := take_append_cons_inj hEq (by omega) h
      exact .sameKey hKey hRest
    · obtain ⟨a, w, hDrop⟩ := List.exists_cons_of_ne_nil
        (show k₂.drop k₁.length ≠ [] by simpa using hLt)
      have hSplit : k₂ = k₂.take k₁.length ++ a :: w := by
        rw [← hDrop, List.take_append_drop]
      have hTake : k₁.length = (k₂.take k₁.length).length := by simp; omega
      rw [hSplit, List.append_assoc, List.cons_append] at h
      obtain ⟨hKey, hSep, hRest⟩ := take_append_cons_inj hTake (by omega) h
      refine .shiftRight w ?_ hRest
      rw [hSep]
      conv_rhs => rw [hKey]
      exact hSplit

theorem take_join_eq_iff :
    (k₁ ++ sep :: c₁).take n = (k₂ ++ sep :: c₂).take n ↔ Clash sep n k₁ c₁ k₂ c₂ := by
  constructor
  · intro h
    rcases Nat.le_total k₁.length k₂.length with hLe | hLe
    · exact clash_of_le hLe h
    · exact (clash_of_le hLe h.symm).symm
  · intro h
    cases h with
    | sameKey hKey hRest =>
      subst hKey
      exact take_append_cons_congr hRest
    | shiftRight w hKey hRest =>
      rw [hKey, List.append_assoc, List.cons_append]
      exact take_append_cons_congr hRest
    | shiftLeft w hKey hRest =>
      rw [hKey, List.append_assoc, List.cons_append]
      exact take_append_cons_congr hRest
    | longKeys h₁ h₂ hKey =>
      rw [List.take_append_of_le_length h₁, List.take_append_of_le_length h₂, hKey]

theorem not_clash (h₁ : sep ∉ k₁) (h₂ : sep ∉ k₂) (hn₁ : k₁.length + 1 + c₁.length ≤ n)
    (hn₂ : k₂.length + 1 + c₂.length ≤ n) (hne : (k₁, c₁) ≠ (k₂, c₂)) :
    ¬ Clash sep n k₁ c₁ k₂ c₂ := by
  intro h
  cases h with
  | sameKey hKey hRest =>
    subst hKey
    rw [List.take_of_length_le (by omega), List.take_of_length_le (by omega)] at hRest
    exact hne (by rw [hRest])
  | shiftRight w hKey _ => exact h₂ (by simp [hKey])
  | shiftLeft w hKey _ => exact h₁ (by simp [hKey])
  | longKeys hLong _ _ => omega

end Clash

end Moduless.DB
