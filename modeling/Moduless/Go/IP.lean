import Mathlib
import Moduless.Net.Block

/-!
Go's `net.IP`: four bytes or sixteen, where sixteen bytes may be an IPv4 address mapped
into IPv6. The predicates look at the IPv4 form first, as the package does.
-/

namespace Moduless.Go
open Net

inductive IP where
  | v4 (x : Fin 4 → UInt8)
  | v6 (x : Fin 16 → UInt8)
  deriving DecidableEq

namespace IP

def bytes : IP → List UInt8
  | .v4 x => List.ofFn x
  | .v6 x => List.ofFn x

/-- Ten zero bytes and `ff:ff`, which Go tests within `To4`. -/
def isMapped (x : Fin 16 → UInt8) : Bool :=
  ((List.ofFn x).take 10).all (· = 0) && x 10 = 0xff && x 11 = 0xff

def to4 : IP → Option (Fin 4 → UInt8)
  | .v4 x => some x
  | .v6 x => if isMapped x then some ![x 12, x 13, x 14, x 15] else none

/-- `IP.Equal`: an IPv4 address and the same address in IPv6 form are equal. -/
def equal : IP → IP → Bool
  | .v4 x, .v4 y => x = y
  | .v6 x, .v6 y => x = y
  | .v4 x, .v6 y | .v6 y, .v4 x => (IP.v6 y).to4 = some x

def ipv4zero : IP := .v6 ![0, 0, 0, 0, 0, 0, 0, 0, 0, 0, 0xff, 0xff, 0, 0, 0, 0]

def ipv6unspecified : IP := .v6 ![0, 0, 0, 0, 0, 0, 0, 0, 0, 0, 0, 0, 0, 0, 0, 0]

def ipv6loopback : IP := .v6 ![0, 0, 0, 0, 0, 0, 0, 0, 0, 0, 0, 0, 0, 0, 0, 1]

/-- A test of the IPv4 form where there is one, and of the sixteen bytes otherwise. -/
def either (four : (Fin 4 → UInt8) → Bool) (sixteen : (Fin 16 → UInt8) → Bool) (ip : IP) : Bool :=
  match ip.to4 with
  | some x => four x
  | none =>
    match ip with
    | .v6 x => sixteen x
    | .v4 _ => false

def isUnspecified (ip : IP) : Bool := ip.equal ipv4zero || ip.equal ipv6unspecified

def isLoopback (ip : IP) : Bool := ip.either (fun x => x 0 = 127) fun x => (v6 x).equal ipv6loopback

def isPrivate : IP → Bool :=
  either (fun x => x 0 = 10 || (x 0 = 172 && x 1 &&& 0xf0 = 16) || (x 0 = 192 && x 1 = 168))
    fun x => x 0 &&& 0xfe = 0xfc

def isMulticast : IP → Bool := either (fun x => x 0 &&& 0xf0 = 0xe0) fun x => x 0 = 0xff

def isInterfaceLocalMulticast : IP → Bool
  | .v4 _ => false
  | .v6 x => x 0 = 0xff && x 1 &&& 0x0f = 0x01

def isLinkLocalMulticast : IP → Bool :=
  either (fun x => x 0 = 224 && x 1 = 0 && x 2 = 0) fun x => x 0 = 0xff && x 1 &&& 0x0f = 0x02

def isLinkLocalUnicast : IP → Bool :=
  either (fun x => x 0 = 169 && x 1 = 254) fun x => x 0 = 0xfe && x 1 &&& 0xc0 = 0x80

section Forms

variable {ip : IP} {x : Fin 4 → UInt8} {y : Fin 16 → UInt8}
  {four : (Fin 4 → UInt8) → Bool} {sixteen : (Fin 16 → UInt8) → Bool}

theorem isMapped_iff : isMapped y = true ↔
    List.ofFn y = [0, 0, 0, 0, 0, 0, 0, 0, 0, 0, 0xff, 0xff, y 12, y 13, y 14, y 15] := by
  simp [isMapped, List.ofFn_succ, and_assoc]

theorem to4_v6_eq_some : (IP.v6 y).to4 = some x ↔
    isMapped y = true ∧ ![y 12, y 13, y 14, y 15] = x := by
  rw [to4, Option.ite_none_right_eq_some, Option.some.injEq]

theorem either_of_to4 (h : ip.to4 = some x) : ip.either four sixteen = four x := by
  simp only [either, h]

theorem either_v6 (h : (IP.v6 y).to4 = none) : (IP.v6 y).either four sixteen = sixteen y := by
  simp only [either, h]

theorem ipv4zero_to4 : ipv4zero.to4 = some 0 := by decide

theorem isUnspecified_of_to4 (h : ip.to4 = some x) : ip.isUnspecified = true ↔ x = 0 := by
  cases ip with
  | v4 x' =>
    cases h
    have hZero := ipv4zero_to4
    have hNone : ipv6unspecified.to4 = none := by decide
    simp only [isUnspecified, ipv4zero, ipv6unspecified, equal] at hZero hNone ⊢
    simp [hZero, hNone, eq_comm]
  | v6 y =>
    have hForm := to4_v6_eq_some.mp h
    have hBytes := isMapped_iff.mp hForm.1
    have hEq : ∀ z, y = z ↔ List.ofFn y = List.ofFn z := fun z => List.ofFn_inj.symm
    have hLow : x = 0 ↔ y 12 = 0 ∧ y 13 = 0 ∧ y 14 = 0 ∧ y 15 = 0 := by
      rw [← hForm.2]
      simp [funext_iff, Fin.forall_fin_succ]
    simp only [isUnspecified, ipv4zero, ipv6unspecified, equal, hEq, hBytes, hLow]
    simp [List.ofFn_succ]

end Forms

end IP
end Moduless.Go
