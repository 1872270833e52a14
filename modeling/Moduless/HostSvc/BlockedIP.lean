import Moduless.Go.Builtin
import Moduless.Go.IP

/-!
The addresses that a plugin's requests may not reach, and those that Core refuses.

What is not globally routable is stated as blocks of addresses; `blockedIP` asks the
predicates of Go's `net.IP`. An IPv6 address may carry an IPv4 address, in ways that
besides the mapped form and the well-known translation prefix are left open.
-/

namespace Moduless.Egress
open Go Net

def Within (bs : List Block) (a : List UInt8) : Prop := ∃ b ∈ bs, b.Contains a

instance (bs : List Block) (a : List UInt8) : Decidable (Within bs a) :=
  inferInstanceAs (Decidable (∃ b ∈ bs, b.Contains a))

/-- Loopback, private, link-local, unspecified and multicast addresses of IPv4. -/
def special4 : List Block :=
  [⟨[127, 0, 0, 0], 8⟩, ⟨[10, 0, 0, 0], 8⟩, ⟨[172, 16, 0, 0], 12⟩, ⟨[192, 168, 0, 0], 16⟩,
    ⟨[169, 254, 0, 0], 16⟩, ⟨[0, 0, 0, 0], 32⟩, ⟨[224, 0, 0, 0], 4⟩]

/-- This network, the shared address space and the reserved block. -/
def reserved4 : List Block := [⟨[0, 0, 0, 0], 8⟩, ⟨[100, 64, 0, 0], 10⟩, ⟨[240, 0, 0, 0], 4⟩]

/-- Unspecified, loopback, private, link-local and multicast addresses of IPv6. -/
def special6 : List Block :=
  [⟨[0, 0, 0, 0, 0, 0, 0, 0, 0, 0, 0, 0, 0, 0, 0, 0], 128⟩,
    ⟨[0, 0, 0, 0, 0, 0, 0, 0, 0, 0, 0, 0, 0, 0, 0, 1], 128⟩,
    ⟨[0xfc, 0, 0, 0, 0, 0, 0, 0, 0, 0, 0, 0, 0, 0, 0, 0], 7⟩,
    ⟨[0xfe, 0x80, 0, 0, 0, 0, 0, 0, 0, 0, 0, 0, 0, 0, 0, 0], 10⟩,
    ⟨[0xff, 0, 0, 0, 0, 0, 0, 0, 0, 0, 0, 0, 0, 0, 0, 0], 8⟩]

def NotRoutable4 (a : List UInt8) : Prop := Within (special4 ++ reserved4) a

instance (a : List UInt8) : Decidable (NotRoutable4 a) :=
  inferInstanceAs (Decidable (Within _ a))

/-- Addresses of a block that carry an IPv4 address from the byte `offset` on. -/
structure Embedding where
  block : Block
  offset : Nat

namespace Embedding

def embedded (e : Embedding) (a : List UInt8) : List UInt8 := (a.drop e.offset).take 4

def Hides (e : Embedding) (a : List UInt8) : Prop :=
  e.block.Contains a ∧ NotRoutable4 (e.embedded a)

instance (e : Embedding) (a : List UInt8) : Decidable (e.Hides a) :=
  inferInstanceAs (Decidable (_ ∧ _))

/-- `::ffff:0:0/96`. -/
def mapped : Embedding := ⟨⟨[0, 0, 0, 0, 0, 0, 0, 0, 0, 0, 0xff, 0xff, 0, 0, 0, 0], 96⟩, 12⟩

/-- `64:ff9b::/96`. -/
def translated : Embedding :=
  ⟨⟨[0, 0x64, 0xff, 0x9b, 0, 0, 0, 0, 0, 0, 0, 0, 0, 0, 0, 0], 96⟩, 12⟩

end Embedding

/-- Not globally routable, where `more` are further ways to carry an IPv4 address. -/
def NotRoutable (more : List Embedding) : IP → Prop
  | .v4 x => NotRoutable4 (List.ofFn x)
  | .v6 x => Within special6 (List.ofFn x) ∨
      ∃ e ∈ Embedding.mapped :: Embedding.translated :: more, e.Hides (List.ofFn x)

instance (more : List Embedding) (ip : IP) : Decidable (NotRoutable more ip) :=
  match ip with
  | .v4 _ => inferInstanceAs (Decidable (NotRoutable4 _))
  | .v6 _ => inferInstanceAs (Decidable (_ ∨ ∃ e ∈ _, Embedding.Hides e _))

def blockedIP (ip : IP) : Bool × Str :=
  if ip.isLoopback then (true, "loopback address".toList)
  else if ip.isPrivate then (true, "private address".toList)
  else if ip.isLinkLocalUnicast || ip.isLinkLocalMulticast then (true, "link-local address".toList)
  else if ip.isUnspecified then (true, "unspecified address".toList)
  else if ip.isMulticast then (true, "multicast address".toList)
  else if ip.isInterfaceLocalMulticast then (true, "interface-local address".toList)
  else (false, [])

/-- The special addresses, where a mapped address counts as the IPv4 address. -/
def Special (ip : IP) : Prop :=
  (∃ x, ip.to4 = some x ∧ Within special4 (List.ofFn x)) ∨
    (ip.to4 = none ∧ Within special6 ip.bytes)

/-- An IPv4 address, mapped or not, of a reserved block, or an address that is not special
and carries an IPv4 address that is not routable. -/
def Missed (more : List Embedding) (ip : IP) : Prop :=
  (∃ x, ip.to4 = some x ∧ x ≠ 0 ∧ Within reserved4 (List.ofFn x)) ∨
    (∃ x, ip = .v6 x ∧ ¬ Special ip ∧
      ∃ e ∈ Embedding.translated :: more, e.Hides (List.ofFn x))

section Bytes

variable {x : Fin 4 → UInt8} {y : Fin 16 → UInt8}

theorem within_cons {b : Block} {bs : List Block} {a : List UInt8} :
    Within (b :: bs) a ↔ b.Contains a ∨ Within bs a := by
  simp only [Within, List.mem_cons, exists_eq_or_imp]

theorem not_within_nil {a : List UInt8} : ¬ Within [] a := by simp [Within]

theorem within_append {bs bs' : List Block} {a : List UInt8} :
    Within (bs ++ bs') a ↔ Within bs a ∨ Within bs' a := by
  simp only [Within, List.mem_append, or_and_right, exists_or]

theorem contains_first4 {c : UInt8} {bits k : Nat} (hk : k ≤ 8) (hBits : bits + k = 8) :
    (Block.mk [c, 0, 0, 0] bits).Contains (List.ofFn x) ↔
      (x 0).toNat / 2 ^ k = c.toNat / 2 ^ k := by
  have h := Block.contains_iff [] [] [x 1, x 2, x 3] [0, 0, 0] (x 0) c hk hBits rfl rfl
  simpa using h

theorem contains_second4 {c d : UInt8} {bits k : Nat} (hk : k ≤ 8) (hBits : bits + k = 16) :
    (Block.mk [c, d, 0, 0] bits).Contains (List.ofFn x) ↔
      x 0 = c ∧ (x 1).toNat / 2 ^ k = d.toNat / 2 ^ k := by
  have h := Block.contains_iff [x 0] [c] [x 2, x 3] [0, 0] (x 1) d hk hBits rfl rfl
  simpa using h

theorem contains_first6 {c : UInt8} {bits k : Nat} (hk : k ≤ 8) (hBits : bits + k = 8) :
    (Block.mk [c, 0, 0, 0, 0, 0, 0, 0, 0, 0, 0, 0, 0, 0, 0, 0] bits).Contains (List.ofFn y) ↔
      (y 0).toNat / 2 ^ k = c.toNat / 2 ^ k := by
  have h := Block.contains_iff [] []
    [y 1, y 2, y 3, y 4, y 5, y 6, y 7, y 8, y 9, y 10, y 11, y 12, y 13, y 14, y 15]
    [0, 0, 0, 0, 0, 0, 0, 0, 0, 0, 0, 0, 0, 0, 0] (y 0) c hk hBits rfl rfl
  simpa using h

theorem contains_second6 {c d : UInt8} {bits k : Nat} (hk : k ≤ 8) (hBits : bits + k = 16) :
    (Block.mk [c, d, 0, 0, 0, 0, 0, 0, 0, 0, 0, 0, 0, 0, 0, 0] bits).Contains (List.ofFn y) ↔
      y 0 = c ∧ (y 1).toNat / 2 ^ k = d.toNat / 2 ^ k := by
  have h := Block.contains_iff [y 0] [c]
    [y 2, y 3, y 4, y 5, y 6, y 7, y 8, y 9, y 10, y 11, y 12, y 13, y 14, y 15]
    [0, 0, 0, 0, 0, 0, 0, 0, 0, 0, 0, 0, 0, 0] (y 1) d hk hBits rfl rfl
  simpa using h

theorem contains_single {a a' : List UInt8} {bits : Nat} (hLen : a.length = a'.length)
    (hBits : bits = 8 * a'.length) : (Block.mk a' bits).Contains a ↔ a = a' := by
  simp only [Block.Contains, leading, hLen, hBits, Nat.sub_self, pow_zero, Nat.div_one, true_and]
  exact value_inj hLen

theorem within_special4 :
    Within special4 (List.ofFn x) ↔
      x 0 = 127 ∨ x 0 = 10 ∨ (x 0 = 172 ∧ (x 1).toNat / 16 = 1) ∨ (x 0 = 192 ∧ x 1 = 168) ∨
        (x 0 = 169 ∧ x 1 = 254) ∨ x = 0 ∨ (x 0).toNat / 16 = 14 := by
  have hZero : List.ofFn x = [0, 0, 0, 0] ↔ x = 0 := List.ofFn_inj (g := (0 : Fin 4 → UInt8))
  have hByte : ∀ b c : UInt8, b.toNat = c.toNat ↔ b = c := fun _ _ => UInt8.toNat_inj
  simp only [special4, within_cons, not_within_nil, or_false]
  rw [contains_first4 (k := 0) (by omega) rfl, contains_first4 (k := 0) (by omega) rfl,
    contains_second4 (k := 4) (by omega) rfl, contains_second4 (k := 0) (by omega) rfl,
    contains_second4 (k := 0) (by omega) rfl, contains_single (by simp) (by simp), hZero,
    contains_first4 (k := 4) (by omega) rfl]
  simp only [pow_zero, Nat.div_one, hByte]
  rfl

theorem within_reserved4 :
    Within reserved4 (List.ofFn x) ↔
      x 0 = 0 ∨ (x 0 = 100 ∧ (x 1).toNat / 64 = 1) ∨ (x 0).toNat / 16 = 15 := by
  have hByte : ∀ b c : UInt8, b.toNat = c.toNat ↔ b = c := fun _ _ => UInt8.toNat_inj
  simp only [reserved4, within_cons, not_within_nil, or_false]
  rw [contains_first4 (k := 0) (by omega) rfl, contains_second4 (k := 6) (by omega) rfl,
    contains_first4 (k := 4) (by omega) rfl]
  simp only [pow_zero, Nat.div_one, hByte]
  rfl

theorem within_special6 :
    Within special6 (List.ofFn y) ↔
      IP.v6 y = IP.ipv6unspecified ∨ IP.v6 y = IP.ipv6loopback ∨ (y 0).toNat / 2 = 126 ∨
        (y 0 = 0xfe ∧ (y 1).toNat / 64 = 2) ∨ y 0 = 0xff := by
  have hSingle : ∀ z : Fin 16 → UInt8, List.ofFn y = List.ofFn z ↔ IP.v6 y = IP.v6 z := by
    intro z
    rw [List.ofFn_inj, IP.v6.injEq]
  have hByte : ∀ b c : UInt8, b.toNat = c.toNat ↔ b = c := fun _ _ => UInt8.toNat_inj
  simp only [special6, within_cons, not_within_nil, or_false]
  rw [contains_single (by simp) (by simp), contains_single (by simp) (by simp),
    contains_first6 (k := 1) (by omega) rfl,
    contains_second6 (k := 6) (by omega) rfl, contains_first6 (k := 0) (by omega) rfl]
  simp only [pow_zero, Nat.div_one, hByte]
  exact or_congr (hSingle ![0, 0, 0, 0, 0, 0, 0, 0, 0, 0, 0, 0, 0, 0, 0, 0])
    (or_congr (hSingle ![0, 0, 0, 0, 0, 0, 0, 0, 0, 0, 0, 0, 0, 0, 0, 1]) Iff.rfl)

end Bytes

section Blocked

variable {ip : IP} {x : Fin 4 → UInt8} {y : Fin 16 → UInt8}

theorem blockedIP_fst (ip : IP) :
    (blockedIP ip).1 = (ip.isLoopback || ip.isPrivate ||
      (ip.isLinkLocalUnicast || ip.isLinkLocalMulticast) || ip.isUnspecified || ip.isMulticast ||
        ip.isInterfaceLocalMulticast) := by
  unfold blockedIP
  cases ip.isLoopback <;> cases ip.isPrivate <;>
    cases (ip.isLinkLocalUnicast || ip.isLinkLocalMulticast) <;> cases ip.isUnspecified <;>
    cases ip.isMulticast <;> cases ip.isInterfaceLocalMulticast <;> rfl

theorem not_interfaceLocal (h : ip.to4 = some x) : ip.isInterfaceLocalMulticast = false := by
  cases ip with
  | v4 x => rfl
  | v6 y =>
    have hBytes := IP.isMapped_iff.mp (IP.to4_v6_eq_some.mp h).1
    have hFirst : y 0 = 0 := (List.cons.inj hBytes).1
    simp [IP.isInterfaceLocalMulticast, hFirst]

theorem blockedIP_four (h : ip.to4 = some x) :
    (blockedIP ip).1 = true ↔ Within special4 (List.ofFn x) := by
  have hPrivate : x 1 &&& 0xf0 = 16 ↔ (x 1).toNat / 16 = 1 :=
    and_mask_eq_iff (k := 4) (by omega) (by decide)
  have hMulti : x 0 &&& 0xf0 = 0xe0 ↔ (x 0).toNat / 16 = 14 :=
    and_mask_eq_iff (k := 4) (by omega) (by decide)
  have hLocal : x 0 = 224 → (x 0).toNat / 16 = 14 := by
    intro hx
    rw [hx]
    rfl
  simp only [blockedIP_fst, Bool.or_eq_true, IP.isLoopback, IP.isPrivate, IP.isLinkLocalUnicast,
    IP.isLinkLocalMulticast, IP.isMulticast, IP.either_of_to4 h, IP.isUnspecified_of_to4 h,
    not_interfaceLocal h, within_special4, Bool.and_eq_true, decide_eq_true_eq, hPrivate, hMulti]
  grind

theorem blockedIP_six (h : (IP.v6 y).to4 = none) :
    (blockedIP (.v6 y)).1 = true ↔ Within special6 (List.ofFn y) := by
  have hPrivate : y 0 &&& 0xfe = 0xfc ↔ (y 0).toNat / 2 = 126 :=
    and_mask_eq_iff (k := 1) (by omega) (by decide)
  have hLocal : y 1 &&& 0xc0 = 0x80 ↔ (y 1).toNat / 64 = 2 :=
    and_mask_eq_iff (k := 6) (by omega) (by decide)
  have hZero : IP.v6 y ≠ IP.ipv4zero := by
    intro hEq
    rw [hEq, IP.ipv4zero_to4] at h
    exact Option.some_ne_none _ h
  have hEqual : ∀ z, (IP.v6 y).equal (.v6 z) = true ↔ IP.v6 y = .v6 z := by
    simp [IP.equal]
  have hMapped : (IP.v6 y).equal IP.ipv4zero = true ↔ IP.v6 y = IP.ipv4zero := hEqual _
  have hUnspecified : (IP.v6 y).equal IP.ipv6unspecified = true ↔ IP.v6 y = IP.ipv6unspecified :=
    hEqual _
  have hLoopback : (IP.v6 y).equal IP.ipv6loopback = true ↔ IP.v6 y = IP.ipv6loopback := hEqual _
  simp only [blockedIP_fst, Bool.or_eq_true, IP.isLoopback, IP.isPrivate, IP.isLinkLocalUnicast,
    IP.isLinkLocalMulticast, IP.isMulticast, IP.isInterfaceLocalMulticast, IP.isUnspecified,
    IP.either_v6 h, within_special6, Bool.and_eq_true, decide_eq_true_eq, hPrivate, hLocal,
    hMapped, hUnspecified, hLoopback, hZero, false_or]
  generalize (IP.v6 y = IP.ipv6loopback) = loopback, (IP.v6 y = IP.ipv6unspecified) = unspecified
  grind

theorem blockedIP_iff (ip : IP) : (blockedIP ip).1 = true ↔ Special ip := by
  cases h : ip.to4 with
  | some x =>
    rw [blockedIP_four h]
    simp [Special, h]
  | none =>
    cases ip with
    | v4 x => cases h
    | v6 y =>
      rw [blockedIP_six h]
      simp [Special, h, IP.bytes]

/-- The reserved blocks are apart from the special ones, the unspecified address aside. -/
theorem not_special_of_reserved (h : Within reserved4 (List.ofFn x)) (hx : x ≠ 0) :
    ¬ Within special4 (List.ofFn x) := by
  rw [within_reserved4] at h
  rw [within_special4]
  simp only [← UInt8.toNat_inj, hx, false_or] at h ⊢
  simp only [UInt8.toNat_ofNat] at h ⊢
  omega

theorem mapped_hides_iff :
    Embedding.mapped.Hides (List.ofFn y) ↔
      ∃ x, (IP.v6 y).to4 = some x ∧ NotRoutable4 (List.ofFn x) := by
  have hBlock : Embedding.mapped.block.Contains (List.ofFn y) ↔ IP.isMapped y = true := by
    have h := Block.contains_iff [y 0, y 1, y 2, y 3, y 4, y 5, y 6, y 7, y 8, y 9, y 10]
      [0, 0, 0, 0, 0, 0, 0, 0, 0, 0, 0xff] [y 12, y 13, y 14, y 15] [0, 0, 0, 0] (y 11) 0xff
      (Nat.zero_le 8) (show 96 + 0 = 96 from rfl) rfl rfl
    rw [IP.isMapped_iff]
    refine h.trans ?_
    simp only [pow_zero, Nat.div_one, UInt8.toNat_inj, List.cons.injEq, and_true, List.ofFn_succ]
    simp [and_assoc]
  have hLow : Embedding.mapped.embedded (List.ofFn y) = List.ofFn ![y 12, y 13, y 14, y 15] := rfl
  simp only [Embedding.Hides, hBlock, hLow, IP.to4_v6_eq_some]
  constructor
  · intro h
    exact ⟨_, ⟨h.1, rfl⟩, h.2⟩
  · intro h
    obtain ⟨x, hForm, hRoute⟩ := h
    exact ⟨hForm.1, hForm.2 ▸ hRoute⟩

theorem to4_of_special6 (h : Within special6 (List.ofFn y)) : (IP.v6 y).to4 = none := by
  rw [within_special6] at h
  apply Option.eq_none_iff_forall_ne_some.mpr
  intro x hForm
  have hBytes := IP.isMapped_iff.mp (IP.to4_v6_eq_some.mp hForm).1
  have hFirst : y 0 = 0 := (List.cons.inj hBytes).1
  have hTenth : y 10 = 0xff := congrArg (fun l => l.getD 10 0) hBytes
  simp only [IP.ipv6unspecified, IP.ipv6loopback, IP.v6.injEq, hFirst] at h
  rcases h with rfl | rfl | h | h | h
  · exact absurd hTenth (by decide)
  · exact absurd hTenth (by decide)
  · exact absurd h (by decide)
  · exact absurd h.1 (by decide)
  · exact absurd h (by decide)

theorem missed_iff {more : List Embedding} {ip : IP} :
    Missed more ip ↔ NotRoutable more ip ∧ ¬ Special ip := by
  constructor
  · intro h
    cases h with
    | inl hReserved =>
      obtain ⟨x, hForm, hx, hIn⟩ := hReserved
      have hNot : NotRoutable4 (List.ofFn x) := within_append.mpr (.inr hIn)
      have hSpecial : ¬ Special ip := by
        simp only [Special, hForm, Option.some.injEq, exists_eq_left', reduceCtorEq, false_and,
          or_false]
        exact not_special_of_reserved hIn hx
      refine ⟨?_, hSpecial⟩
      cases ip with
      | v4 x' =>
        cases hForm
        exact hNot
      | v6 y => exact .inr ⟨_, List.mem_cons_self, mapped_hides_iff.mpr ⟨x, hForm, hNot⟩⟩
    | inr hCarried =>
      obtain ⟨y, rfl, hSpecial, e, he, hHides⟩ := hCarried
      exact ⟨.inr ⟨e, List.mem_cons_of_mem _ he, hHides⟩, hSpecial⟩
  · intro h
    have hFour : ∀ x, ip.to4 = some x → NotRoutable4 (List.ofFn x) → Missed more ip := by
      intro x hForm hNot
      have hOut : ¬ Within special4 (List.ofFn x) := fun hIn => h.2 (.inl ⟨x, hForm, hIn⟩)
      refine .inl ⟨x, hForm, ?_, (within_append.mp hNot).resolve_left hOut⟩
      intro hx
      apply hOut
      rw [within_special4]
      simp [hx]
    cases ip with
    | v4 x => exact hFour x rfl h.1
    | v6 y =>
      have hNot : Within special6 (List.ofFn y) ∨
          ∃ e ∈ Embedding.mapped :: Embedding.translated :: more, e.Hides (List.ofFn y) := h.1
      cases hNot with
      | inl hIn =>
        exact absurd (.inr ⟨to4_of_special6 hIn, hIn⟩) h.2
      | inr hCarried =>
        obtain ⟨e, he, hHides⟩ := hCarried
        cases List.mem_cons.mp he with
        | inl hMapped =>
          obtain ⟨x, hForm, hRoute⟩ := mapped_hides_iff.mp (hMapped ▸ hHides)
          exact hFour x hForm hRoute
        | inr hOther => exact .inr ⟨y, rfl, h.2, e, hOther, hHides⟩

/-- Core refuses an address that is not routable unless it is one of the missed ones. -/
theorem blocked_of_notRoutable_iff {more : List Embedding} {ip : IP} :
    (NotRoutable more ip → (blockedIP ip).1 = true) ↔ ¬ Missed more ip := by
  rw [blockedIP_iff, missed_iff, not_and, not_not]

end Blocked
end Moduless.Egress
