import Moduless.DB.CutName
import Moduless.Go.Case

/-!
The tables documents are kept in: how `tableName` builds a name from a plugin's
key and a collection, and which table PostgreSQL takes it for.
-/

namespace Moduless.DB
open Go

/-- `identifierRE`: a letter, then letters, digits and underscores. -/
def matchesIdentifier : Str → Bool
  | [] => false
  | c :: rest => c.isAlpha && rest.all fun c => c.isAlphanum || c = '_'

inductive NameError where
  | extensionKey (name : Str)
  | collection (name : Str)
  deriving DecidableEq

def tableName (extKey collection : Str) : Except NameError Str :=
  if !matchesIdentifier extKey then .error (.extensionKey extKey)
  else if !matchesIdentifier collection then .error (.collection collection)
  else .ok ("ext_".toList ++ extKey ++ "_".toList ++ collection)

def fold (name : Str) : Str := name.map Char.toLower

/-- The table an unquoted identifier denotes: PostgreSQL folds it to lower case and
keeps 63 bytes. -/
def relation (name : Str) : Str := (fold name).take 63

/-- Two pairs share a table: their folded names agree in the 59 bytes after `ext_`. -/
def SharesTable (k₁ c₁ k₂ c₂ : Str) : Prop := Clash '_' 59 (fold k₁) (fold c₁) (fold k₂) (fold c₂)

theorem tableName_eq {k c n : Str} (h : tableName k c = .ok n) :
    n = "ext_".toList ++ (k ++ '_' :: c) := by
  unfold tableName at h
  split at h
  next => cases h
  next =>
    split at h
    next => cases h
    next =>
      cases h
      simp

theorem relation_eq {k c n : Str} (h : tableName k c = .ok n) :
    relation n = "ext_".toList ++ (fold k ++ '_' :: fold c).take 59 := by
  have hUnderscore : Char.toLower '_' = '_' := by decide
  have hExt : ("ext_".toList.map Char.toLower) = "ext_".toList := by decide
  rw [tableName_eq h, relation, fold, List.map_append, hExt, List.map_append, List.map_cons,
    hUnderscore]
  exact (List.take_append : ("ext_".toList ++ _).take _ = _)

theorem relation_eq_iff {k₁ c₁ n₁ k₂ c₂ n₂ : Str} (h₁ : tableName k₁ c₁ = .ok n₁)
    (h₂ : tableName k₂ c₂ = .ok n₂) :
    relation n₁ = relation n₂ ↔ SharesTable k₁ c₁ k₂ c₂ := by
  rw [relation_eq h₁, relation_eq h₂, List.append_cancel_left_eq]
  exact take_join_eq_iff

section Fold

def identifierChar (c : Char) : Bool := c.isAlphanum || c = '_'

theorem identifierChar_iff (c : Char) :
    identifierChar c = true ↔
      (65 ≤ c.toNat ∧ c.toNat ≤ 90) ∨ (97 ≤ c.toNat ∧ c.toNat ≤ 122) ∨
        (48 ≤ c.toNat ∧ c.toNat ≤ 57) ∨ c.toNat = 95 := by
  have hUnderscore : c = '_' ↔ c.toNat = 95 := by
    constructor
    · intro h
      rw [h]
      rfl
    · intro h
      exact Char.ext (UInt32.toNat_inj.mp h)
  simp only [identifierChar, Char.isAlphanum, Char.isAlpha, Char.isUpper, Char.isLower,
    Char.isDigit, UInt32.le_iff_toNat_le, ge_iff_le, Bool.or_eq_true, Bool.and_eq_true,
    decide_eq_true_eq, hUnderscore, or_assoc]
  rfl

theorem identifierChar_toLower {c : Char} (h : identifierChar c = true) :
    identifierChar c.toLower = true := by
  rw [identifierChar_iff] at h ⊢
  cases toLower_cases c with
  | inl hSame => rwa [hSame.2]
  | inr hUpper => omega

theorem identifierChar_of_matches {s : Str} (h : matchesIdentifier s = true) :
    ∀ c ∈ s, identifierChar c = true := by
  cases s with
  | nil => cases h
  | cons c s =>
    simp only [matchesIdentifier, Bool.and_eq_true, List.all_eq_true] at h
    refine List.forall_mem_cons.mpr ⟨?_, h.2⟩
    rw [identifierChar, Char.isAlphanum, h.1]
    rfl

theorem fold_append (s t : Str) : fold (s ++ t) = fold s ++ fold t := List.map_append

theorem length_fold (s : Str) : (fold s).length = s.length := List.length_map _

theorem fold_fold (s : Str) : fold (fold s) = fold s := by
  simp only [fold, List.map_map]
  exact List.map_congr_left fun c _ => toLower_toLower c

theorem relation_relation (s : Str) : relation (relation s) = relation s := by
  rw [relation, relation, fold, List.map_take, List.take_take, Nat.min_self]
  exact congrArg (List.take 63) (fold_fold s)

theorem relation_eq_self {s : Str} : relation s = s ↔ fold s = s ∧ s.length ≤ 63 := by
  constructor
  · intro h
    have hShort : s.length ≤ 63 := by
      rw [← h, relation]
      exact List.length_take_le _ _
    rw [relation, List.take_of_length_le (by rw [length_fold]; exact hShort)] at h
    exact ⟨h, hShort⟩
  · intro h
    rw [relation, h.1, List.take_of_length_le h.2]

end Fold
end Moduless.DB
