import Mathlib.Data.List.Basic

/-!
The unpadded URL alphabet of Go's `encoding/base64`. Three bytes are written as
four digits of six bits; one or two bytes that are left over take two or three
digits.
-/

namespace Moduless.Go.Base64

def alphabet : List Char :=
  "ABCDEFGHIJKLMNOPQRSTUVWXYZabcdefghijklmnopqrstuvwxyz0123456789-_".toList

def digit (n : Nat) : Char := alphabet.getD n 'A'

def digitValue (c : Char) : Option Nat := alphabet.findIdx? (· = c)

/-- Three bytes as one number. -/
def word (a b c : UInt8) : Nat := a.toNat * 65536 + b.toNat * 256 + c.toNat

/-- The digits of a byte string, as numbers below 64. -/
def sextets : List UInt8 → List Nat
  | a :: b :: c :: rest =>
    word a b c / 262144 :: word a b c / 4096 % 64 :: word a b c / 64 % 64 ::
      word a b c % 64 :: sextets rest
  | [a, b] => [word a b 0 / 262144, word a b 0 / 4096 % 64, word a b 0 / 64 % 64]
  | [a] => [word a 0 0 / 262144, word a 0 0 / 4096 % 64]
  | [] => []

/-- `RawURLEncoding.EncodeToString`. -/
def encode (bytes : List UInt8) : List Char := (sextets bytes).map digit

/-- The first `n` of the three bytes that four digits stand for. -/
def octets (n w x y z : Nat) : List UInt8 :=
  let v := w * 262144 + x * 4096 + y * 64 + z
  [UInt8.ofNat (v / 65536), UInt8.ofNat (v / 256), UInt8.ofNat v].take n

/-- A last group of one digit is an error; bits that do not fill a byte are dropped. -/
def bytesOf : List Nat → Option (List UInt8)
  | w :: x :: y :: z :: rest => (bytesOf rest).map (octets 3 w x y z ++ ·)
  | [w, x, y] => some (octets 2 w x y 0)
  | [w, x] => some (octets 1 w x 0 0)
  | [_] => none
  | [] => some []

/-- `RawURLEncoding.DecodeString`, which passes over line ends. -/
def decode (s : List Char) : Option (List UInt8) :=
  ((s.filter fun c => c ≠ '\r' ∧ c ≠ '\n').mapM digitValue).bind bytesOf

theorem digitValue_digit : ∀ n < 64, digitValue (digit n) = some n := by
  decide +kernel

theorem digit_ne_lineEnd : ∀ n < 64, digit n ≠ '\r' ∧ digit n ≠ '\n' := by
  decide +kernel

theorem word_lt (a b c : UInt8) : word a b c < 262144 * 64 := by
  have ha := a.toNat_lt
  have hb := b.toNat_lt
  have hc := c.toNat_lt
  unfold word
  omega

theorem sextets_lt (bytes : List UInt8) : ∀ n ∈ sextets bytes, n < 64 := by
  induction bytes using sextets.induct with
  | case1 a b c rest ih =>
    have hWord := word_lt a b c
    simp only [sextets, List.forall_mem_cons]
    exact ⟨by omega, by omega, by omega, by omega, ih⟩
  | case2 a b =>
    have hWord := word_lt a b 0
    simp only [sextets, List.forall_mem_cons]
    exact ⟨by omega, by omega, by omega, by simp⟩
  | case3 a =>
    have hWord := word_lt a 0 0
    simp only [sextets, List.forall_mem_cons]
    exact ⟨by omega, by omega, by simp⟩
  | case4 => simp [sextets]

theorem ofNat_eq {n : Nat} {b : UInt8} (h : n % 256 = b.toNat) : UInt8.ofNat n = b := by
  apply UInt8.toNat_inj.mp
  rw [UInt8.toNat_ofNat']
  exact h

theorem octets_word {a b c : UInt8} {w x y z : Nat} (n : Nat)
    (h : w * 262144 + x * 4096 + y * 64 + z = word a b c) :
    octets n w x y z = [a, b, c].take n := by
  have hb := b.toNat_lt
  have hc := c.toNat_lt
  have ha := a.toNat_lt
  have hFirst : UInt8.ofNat (word a b c / 65536) = a := ofNat_eq (by unfold word; omega)
  have hSecond : UInt8.ofNat (word a b c / 256) = b := ofNat_eq (by unfold word; omega)
  have hThird : UInt8.ofNat (word a b c) = c := ofNat_eq (by unfold word; omega)
  rw [octets, h, hFirst, hSecond, hThird]

theorem bytesOf_sextets (bytes : List UInt8) : bytesOf (sextets bytes) = some bytes := by
  induction bytes using sextets.induct with
  | case1 a b c rest ih =>
    have hWord := word_lt a b c
    rw [sextets, bytesOf, ih, octets_word (a := a) (b := b) (c := c) 3 (by omega)]
    rfl
  | case2 a b =>
    have hWord : word a b 0 = a.toNat * 65536 + b.toNat * 256 := Nat.add_zero _
    rw [sextets, bytesOf, octets_word (a := a) (b := b) (c := 0) 2 (by omega)]
    rfl
  | case3 a =>
    have hWord : word a 0 0 = a.toNat * 65536 + 0 * 256 := Nat.add_zero _
    rw [sextets, bytesOf, octets_word (a := a) (b := 0) (c := 0) 1 (by omega)]
    rfl
  | case4 => rfl

theorem mapM_digitValue {l : List Nat} (h : ∀ n ∈ l, n < 64) :
    (l.map digit).mapM digitValue = some l := by
  induction l with
  | nil => rfl
  | cons n l ih =>
    rw [List.forall_mem_cons] at h
    rw [List.map_cons, List.mapM_cons, digitValue_digit n h.1, ih h.2]
    rfl

theorem decode_encode (bytes : List UInt8) : decode (encode bytes) = some bytes := by
  have hLines : (encode bytes).filter (fun c => c ≠ '\r' ∧ c ≠ '\n') = encode bytes := by
    apply List.filter_eq_self.mpr
    intro c hc
    obtain ⟨n, hn, rfl⟩ := List.mem_map.mp hc
    exact decide_eq_true (digit_ne_lineEnd n (sextets_lt bytes n hn))
  rw [decode, hLines, encode, mapM_digitValue (sextets_lt bytes)]
  exact bytesOf_sextets bytes

end Moduless.Go.Base64
