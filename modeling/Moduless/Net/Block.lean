import Mathlib.Data.List.Basic
import Mathlib.Data.Nat.Basic
import Mathlib.Tactic.Ring

/-!
Blocks of network addresses.

An address is a list of bytes, the most significant one first. A block is written as a
network address and a number of leading bits, and holds the addresses of the same length
that agree with the network address on those bits.
-/

namespace Moduless.Net

/-- The number an address is the big-endian form of. -/
def value (a : List UInt8) : Nat := a.foldl (fun n b => n * 256 + b.toNat) 0

structure Block where
  network : List UInt8
  bits : Nat

/-- The leading `bits` bits of an address, as a number. -/
def leading (bits : Nat) (a : List UInt8) : Nat := value a / 2 ^ (8 * a.length - bits)

def Block.Contains (b : Block) (a : List UInt8) : Prop :=
  a.length = b.network.length ∧ leading b.bits a = leading b.bits b.network

instance (b : Block) (a : List UInt8) : Decidable (b.Contains a) :=
  inferInstanceAs (Decidable (_ ∧ _))

private theorem digits_inj {m m' n n' b : Nat} (hn : n < b) (hn' : n' < b) :
    m * b + n = m' * b + n' ↔ m = m' ∧ n = n' := by
  constructor
  · intro h
    have hHigh := congrArg (· / b) h
    have hLow := congrArg (· % b) h
    have hPos : 0 < b := Nat.zero_lt_of_lt hn
    simp only [Nat.mul_add_mod_self_right, Nat.mod_eq_of_lt hn, Nat.mod_eq_of_lt hn'] at hLow
    simp only [Nat.add_comm _ n, Nat.add_comm _ n', Nat.add_mul_div_right _ _ hPos,
      Nat.div_eq_of_lt hn, Nat.div_eq_of_lt hn', Nat.zero_add] at hHigh
    exact ⟨hHigh, hLow⟩
  · intro h
    rw [h.1, h.2]

section Value

variable {a a' : List UInt8}

private theorem foldl_value (a : List UInt8) (n : Nat) :
    a.foldl (fun n b => n * 256 + b.toNat) n = n * 256 ^ a.length + value a := by
  induction a generalizing n with
  | nil => simp [value]
  | cons b a ih =>
    have hCons : value (b :: a) = b.toNat * 256 ^ a.length + value a := by
      simpa [value] using ih (0 * 256 + b.toNat)
    rw [List.foldl_cons, ih, hCons, List.length_cons]
    ring

theorem value_append (a a' : List UInt8) :
    value (a ++ a') = value a * 256 ^ a'.length + value a' := by
  rw [value, List.foldl_append, foldl_value a']
  rfl

theorem value_cons (b : UInt8) (a : List UInt8) :
    value (b :: a) = b.toNat * 256 ^ a.length + value a := by
  have h := value_append [b] a
  simpa [value] using h

theorem value_lt (a : List UInt8) : value a < 256 ^ a.length := by
  induction a with
  | nil => simp [value]
  | cons b a ih =>
    have hb : b.toNat + 1 ≤ 256 := b.toNat_lt
    rw [value_cons, List.length_cons]
    calc b.toNat * 256 ^ a.length + value a
        < b.toNat * 256 ^ a.length + 256 ^ a.length := Nat.add_lt_add_left ih _
      _ = (b.toNat + 1) * 256 ^ a.length := (Nat.succ_mul _ _).symm
      _ ≤ 256 * 256 ^ a.length := Nat.mul_le_mul_right _ hb
      _ = 256 ^ (a.length + 1) := by ring

theorem value_inj (hLen : a.length = a'.length) : value a = value a' ↔ a = a' := by
  induction a generalizing a' with
  | nil => simp [List.length_eq_zero_iff.mp hLen.symm]
  | cons b a ih =>
    cases a' with
    | nil => cases hLen
    | cons b' a' =>
      have hLen' : a.length = a'.length := Nat.succ.inj hLen
      have hLt : value a < 256 ^ a'.length := hLen' ▸ value_lt a
      rw [value_cons, value_cons, hLen', digits_inj hLt (value_lt a'), UInt8.toNat_inj,
        ih hLen', List.cons.injEq]

theorem leading_append (p s : List UInt8) (x : UInt8) {bits k : Nat} (hk : k ≤ 8)
    (hBits : bits + k = 8 * (p.length + 1)) :
    leading bits (p ++ x :: s) = value p * 2 ^ (8 - k) + x.toNat / 2 ^ k := by
  have hRest : 8 * (p ++ x :: s).length - bits = 8 * s.length + k := by
    simp only [List.length_append, List.length_cons]
    omega
  have hByte : (256 : Nat) = 2 ^ (8 - k) * 2 ^ k := by
    rw [← pow_add, Nat.sub_add_cancel hk]
    rfl
  have hValue : value (p ++ x :: s) = (value p * 256 + x.toNat) * 256 ^ s.length + value s := by
    rw [value_append, value_cons, List.length_cons]
    ring
  have hWhole : value (p ++ x :: s) / 256 ^ s.length = value p * 256 + x.toNat := by
    rw [hValue, Nat.add_comm, Nat.add_mul_div_right _ _ (Nat.pow_pos (show 0 < 256 by omega)),
      Nat.div_eq_of_lt (value_lt s), Nat.zero_add]
  rw [leading, hRest, pow_add, ← Nat.div_div_eq_div_mul, pow_mul, show 2 ^ 8 = 256 from rfl, hWhole]
  nth_rewrite 1 [hByte]
  rw [← Nat.mul_assoc, Nat.add_comm, Nat.add_mul_div_right _ _ (Nat.pow_pos (by omega)),
    Nat.add_comm]

end Value

/-- Membership in a block, byte by byte: the whole bytes of its prefix agree, and the
upper `8 - k` bits of the next one. -/
theorem Block.contains_iff (p p' s s' : List UInt8) (x x' : UInt8) {bits k : Nat} (hk : k ≤ 8)
    (hBits : bits + k = 8 * (p.length + 1)) (hp : p.length = p'.length)
    (hs : s.length = s'.length) :
    (Block.mk (p' ++ x' :: s') bits).Contains (p ++ x :: s) ↔
      p = p' ∧ x.toNat / 2 ^ k = x'.toNat / 2 ^ k := by
  have hPart : ∀ y : UInt8, y.toNat / 2 ^ k < 2 ^ (8 - k) := by
    intro y
    apply Nat.div_lt_of_lt_mul
    rw [← pow_add, Nat.add_sub_cancel' hk]
    exact y.toNat_lt
  unfold Block.Contains
  rw [leading_append p s x hk hBits, leading_append p' s' x' hk (hp ▸ hBits)]
  rw [digits_inj (hPart x) (hPart x'), value_inj hp]
  exact and_iff_right (by simp [hp, hs])

theorem and_mask_eq_iff {x c : UInt8} {k : Nat} (hk : k ≤ 8) (hc : 2 ^ k ∣ c.toNat) :
    x &&& UInt8.ofNat (256 - 2 ^ k) = c ↔ x.toNat / 2 ^ k = c.toNat / 2 ^ k := by
  have hAll : ∀ k ≤ 8, ∀ n < 256, n &&& (256 - 2 ^ k) % 256 = n / 2 ^ k * 2 ^ k := by
    decide +kernel
  rw [← UInt8.toNat_inj, UInt8.toNat_and, UInt8.toNat_ofNat', hAll k hk _ x.toNat_lt]
  nth_rewrite 1 [← Nat.div_mul_cancel hc]
  exact Nat.mul_left_inj (Nat.pow_pos (by omega)).ne'

end Moduless.Net
