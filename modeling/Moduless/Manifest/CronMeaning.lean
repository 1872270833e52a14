import Mathlib.Data.Set.Basic
import Mathlib.Tactic.Ring
import Moduless.Manifest.Cron

/-!
What a cron expression means, by the values that each part of a field stands for,
and that `ParseSchedule` and `Matches` follow it.

The parts of a field are described over the numerals that may stand alone or open a
range. The end of a range and a step are whatever `Atoi` reads.
-/

namespace Moduless.Cron
open Go

/-- The values `lo`, `lo + step`, `lo + 2 * step` and so on up to `hi`. -/
def values (lo hi step : Int) : Set Int := {v | v ≤ hi ∧ ∃ k : Nat, v = lo + k * step}

/-- A part without its step, with the first and the last value it stands for. -/
inductive Span (numeral : Str → Int → Prop) (min max : Int) : Str → Int → Int → Prop
  | every : Span numeral min max everyValue min max
  | value {s : Str} {n : Int} : numeral s n → min ≤ n → n ≤ max → Span numeral min max s n n
  | range {a b : Str} {lo hi : Int} : numeral a lo → atoi b = some hi → lo ≤ hi → min ≤ lo →
      hi ≤ max → Span numeral min max (a ++ '-' :: b) lo hi

/-- A part, with the first and the last value and the step. -/
inductive Part (numeral : Str → Int → Prop) (min max : Int) : Str → Int → Int → Int → Prop
  | plain {s : Str} {lo hi : Int} : Span numeral min max s lo hi → Part numeral min max s lo hi 1
  | stepped {s t : Str} {lo hi n : Int} : Span numeral min max s lo hi → atoi t = some n → 0 < n →
      Part numeral min max (s ++ '/' :: t) lo hi n

/-- Every part of the field is one that a field of this range may have. -/
def FieldLegal (numeral : Str → Int → Prop) (min max : Int) (field : Str) : Prop :=
  ∀ p ∈ split field ',', ∃ lo hi step, Part numeral min max p lo hi step

/-- A value that one of the parts of the field stands for. -/
def Selects (numeral : Str → Int → Prop) (min max : Int) (field : Str) (v : Int) : Prop :=
  ∃ p ∈ split field ',', ∃ lo hi step, Part numeral min max p lo hi step ∧ v ∈ values lo hi step

/-- Whatever `Atoi` reads. -/
def AnyNumeral (s : Str) (n : Int) : Prop := atoi s = some n

/-- What `Atoi` reads, written without a minus sign. -/
def Unsigned (s : Str) (n : Int) : Prop := atoi s = some n ∧ '-' ∉ s

/-- The step of a part, if it has one, is below two to the power of 31. The other numbers
of a part are bounded by the range of the field. -/
def SmallStep (part : Str) : Prop :=
  ∀ base t n, part = base ++ '/' :: t → atoi t = some n → n < 0x80000000

section Loop

variable {lo hi step v : Int} {rounds : Nat} {mask : Mask}

theorem mem_values_iff (h : lo ≤ hi) :
    v ∈ values lo hi step ↔ v = lo ∨ v ∈ values (lo + step) hi step := by
  constructor
  · rintro ⟨hv, k, rfl⟩
    cases k with
    | zero => exact .inl (by simp)
    | succ k => exact .inr ⟨hv, k, by push_cast; ring⟩
  · rintro (rfl | ⟨hv, k, rfl⟩)
    · exact ⟨h, 0, by simp⟩
    · exact ⟨hv, k + 1, by push_cast; ring⟩

theorem not_mem_values (h : hi < lo) (hStep : 0 < step) : v ∉ values lo hi step := by
  rintro ⟨hv, k, rfl⟩
  have hk : 0 ≤ (k : Int) * step :=
    Int.mul_nonneg (Int.natCast_nonneg k) hStep.le
  omega

theorem getLsbD_emptyMask (i : Nat) : (0 : Mask).getLsbD i = false := BitVec.getLsbD_zero

theorem getLsbD_bitAt {i : Nat} (hv : 0 ≤ v) (hLt : v < 64) :
    (bitAt v).getLsbD i = true ↔ (i : Int) = v := by
  rw [bitAt, if_pos ⟨hv, hLt⟩, BitVec.getLsbD_twoPow, Bool.and_eq_true, decide_eq_true_iff,
    decide_eq_true_iff]
  omega

theorem maskFrom_stop (h : hi < v) : maskFrom hi step (rounds + 1) v mask = some mask := by
  rw [maskFrom, if_neg (by omega)]

theorem maskFrom_next (h : v ≤ hi) : maskFrom hi step (rounds + 1) v mask =
    maskFrom hi step rounds (int64 (v + step)) (mask ||| bitAt v) := by
  rw [maskFrom, if_pos h]

/-- Where the count does not wrap around, the loop sets the bits of the values. -/
theorem maskFrom_spec (rounds : Nat) (mask : Mask) (hHi : hi < 64) (hStep : 0 < step)
    (hSmall : v ≤ hi → v + step < 0x8000000000000000) (hv : 0 ≤ v) (hPos : 1 ≤ rounds)
    (hRounds : hi - v + 2 ≤ rounds) :
    ∃ m, maskFrom hi step rounds v mask = some m ∧
      ∀ i : Nat, m.getLsbD i = true ↔ mask.getLsbD i = true ∨ (i : Int) ∈ values v hi step := by
  induction rounds generalizing v mask with
  | zero => omega
  | succ rounds ih =>
    by_cases hEnd : hi < v
    · refine ⟨mask, maskFrom_stop hEnd, fun i => ?_⟩
      rw [or_iff_left (not_mem_values hEnd hStep)]
    · have hWrap : int64 (v + step) = v + step := int64_of_range (by omega) (by omega)
      obtain ⟨m, hm, hBits⟩ := ih (v := v + step) (mask ||| bitAt v) (by omega)
        (by omega) (by omega) (by push_cast at hRounds; omega)
      refine ⟨m, ?_, fun i => ?_⟩
      · rw [maskFrom_next (not_lt.mp hEnd), hWrap, hm]
      · rw [hBits, BitVec.getLsbD_or, Bool.or_eq_true, getLsbD_bitAt hv (by omega),
          mem_values_iff (not_lt.mp hEnd), or_assoc]

theorem maskFrom_vain (hNeg : v < 0) (h : v ≤ hi) : maskFrom hi step (rounds + 1) v mask =
    maskFrom hi step rounds (int64 (v + step)) mask := by
  have hBit : bitAt v = 0 := by rw [bitAt, if_neg (by omega)]
  rw [maskFrom_next h, hBit]
  simp

theorem maskFrom_two (hHi : hi < 64) (hv : 0 ≤ v) (hLe : v ≤ hi)
    (hInt : step < 0x8000000000000000) (hWrap : 0x8000000000000000 ≤ v + step) :
    maskFrom hi step (rounds + 2) v mask =
      maskFrom hi step rounds (v + 2 * step - 0x10000000000000000) (mask ||| bitAt v) := by
  have hBack : v + step - 0x10000000000000000 + step = v + 2 * step - 0x10000000000000000 := by
    omega
  rw [maskFrom_next hLe, int64_wrap hWrap (by omega), maskFrom_vain (by omega) (by omega), hBack,
    int64_of_range (by omega) (by omega)]

/-- With a step so large that the count wraps around, two rounds take it back to a smaller
value than before, or past the end. -/
theorem maskFrom_wraps (hHi : hi < 64) (hLarge : 0x7fffffffffffffc0 ≤ step)
    (hInt : step < 0x8000000000000000) {n : Nat} (hv : 0 ≤ v) (hn : v ≤ n)
    (hRounds : 2 * n + 4 ≤ rounds) : ∃ m, maskFrom hi step rounds v mask = some m := by
  induction n using Nat.strong_induction_on generalizing v rounds mask with
  | _ n ih =>
    obtain ⟨rest, rfl⟩ := Nat.exists_eq_add_of_le' (show 4 ≤ rounds by omega)
    by_cases hEnd : hi < v
    · exact ⟨mask, maskFrom_stop hEnd⟩
    by_cases hWrap : v + step < 0x8000000000000000
    · rw [maskFrom_next (not_lt.mp hEnd), int64_of_range (by omega) hWrap]
      exact ⟨_, maskFrom_stop (by omega)⟩
    rw [maskFrom_two hHi hv (not_lt.mp hEnd) hInt (not_lt.mp hWrap)]
    by_cases hNeg : v + 2 * step < 0x10000000000000000
    · rw [maskFrom_next (by omega), int64_of_range (by omega) (by omega)]
      exact ⟨_, maskFrom_stop (by omega)⟩
    · exact ih (n - 1) (by omega) (by omega) (by omega) (by omega)

theorem maskFrom_returns (mask : Mask) (hHi : hi < 64) (hStep : 0 < step)
    (hInt : step < 0x8000000000000000) (hv : 0 ≤ v) (hLt : v < 64) :
    ∃ m, maskFrom hi step intValues v mask = some m := by
  by_cases hSmall : step < 0x7fffffffffffffc0
  · obtain ⟨m, hm, -⟩ := maskFrom_spec intValues mask hHi hStep (by omega) hv
      (by decide) (by simp only [intValues]; omega)
    exact ⟨m, hm⟩
  · exact maskFrom_wraps (n := 64) hHi (by omega) hInt hv (by omega) (by decide)

end Loop

section Parts

variable {min max lo hi step : Int} {s : Str}

theorem atoi_ne_every {n : Int} (h : atoi s = some n) : s ≠ everyValue := by
  rintro rfl
  exact not_mem_of_atoi (c := '*') h (by decide) (by simp [everyValue])

/-- The range of a part is read as its span. -/
theorem span_iff : Span Unsigned min max s lo hi ↔
    parseRange s min max = .ok (lo, hi) ∧ min ≤ lo ∧ hi ≤ max := by
  constructor
  · intro h
    cases h with
    | every => exact ⟨by rw [parseRange, if_pos rfl], le_rfl, le_rfl⟩
    | value hs hLo hHi =>
      refine ⟨?_, hLo, hHi⟩
      rw [parseRange, if_neg (atoi_ne_every hs.1), cut_eq_none.mpr hs.2]
      simp only [hs.1]
    | @range a b _ _ ha hb hLe hLo hHi =>
      refine ⟨?_, hLo, hHi⟩
      have hne : a ++ '-' :: b ≠ everyValue := by
        intro hEq
        have hDash : '-' ∈ everyValue := hEq ▸ by simp
        simp [everyValue] at hDash
      rw [parseRange, if_neg hne, cut_append ha.2]
      simp only [ha.1, hb, if_neg (not_lt.mpr hLe)]
  · rintro ⟨h, hLo, hHi⟩
    rw [parseRange] at h
    split at h
    next hEvery =>
      cases h
      rw [hEvery]
      exact .every
    next =>
      cases hCut : cut s '-' with
      | none =>
        rw [hCut] at h
        cases hs : atoi s with
        | none => simp [hs] at h
        | some n =>
          simp only [hs] at h
          cases h
          exact .value ⟨hs, cut_eq_none.mp hCut⟩ hLo hHi
      | some ab =>
        obtain ⟨a, b⟩ := ab
        obtain ⟨rfl, ha⟩ := cut_eq_some.mp hCut
        rw [hCut] at h
        cases hLow : atoi a with
        | none => simp [hLow] at h
        | some x =>
          cases hHigh : atoi b with
          | none => simp [hLow, hHigh] at h
          | some y =>
            simp only [hLow, hHigh] at h
            split at h
            next => cases h
            next hOrder =>
              cases h
              exact .range ⟨hLow, ha⟩ hHigh (not_lt.mp hOrder) hLo hHi

theorem slash_not_mem_span (h : Span Unsigned min max s lo hi) : '/' ∉ s := by
  cases h with
  | every => decide
  | value hs => exact not_mem_of_atoi hs.1 (by decide)
  | range ha hb =>
    rw [List.mem_append, List.mem_cons, not_or, not_or]
    exact ⟨not_mem_of_atoi ha.1 (by decide), by decide, not_mem_of_atoi hb (by decide)⟩

theorem part_iff : Part Unsigned min max s lo hi step ↔
    ∃ base, parseStep s = .ok (base, step) ∧ Span Unsigned min max base lo hi := by
  constructor
  · intro h
    cases h with
    | plain hSpan =>
      refine ⟨s, ?_, hSpan⟩
      rw [parseStep, cut_eq_none.mpr (slash_not_mem_span hSpan)]
    | stepped hSpan ht hPos =>
      refine ⟨_, ?_, hSpan⟩
      rw [parseStep, cut_append (slash_not_mem_span hSpan)]
      simp only [ht, if_neg (not_le.mpr hPos)]
  · rintro ⟨base, h, hSpan⟩
    rw [parseStep] at h
    cases hCut : cut s '/' with
    | none =>
      rw [hCut] at h
      cases h
      exact .plain hSpan
    | some bt =>
      obtain ⟨b, t⟩ := bt
      obtain ⟨rfl, -⟩ := cut_eq_some.mp hCut
      rw [hCut] at h
      cases ht : atoi t with
      | none => simp [ht] at h
      | some n =>
        simp only [ht] at h
        split at h
        next => cases h
        next hPos =>
          cases h
          exact .stepped hSpan ht (not_le.mp hPos)

theorem Part.unique {lo' hi' step' : Int} (h : Part Unsigned min max s lo hi step)
    (h' : Part Unsigned min max s lo' hi' step') : lo = lo' ∧ hi = hi' ∧ step = step' := by
  obtain ⟨base, hStep, hSpan⟩ := part_iff.mp h
  obtain ⟨base', hStep', hSpan'⟩ := part_iff.mp h'
  cases hStep.symm.trans hStep'
  cases (span_iff.mp hSpan).1.symm.trans (span_iff.mp hSpan').1
  exact ⟨rfl, rfl, rfl⟩

theorem Part.bounds (h : Part Unsigned min max s lo hi step) :
    min ≤ lo ∧ hi ≤ max ∧ 0 < step ∧ step < 0x8000000000000000 := by
  obtain ⟨base, -, hSpan⟩ := part_iff.mp h
  obtain ⟨-, hLo, hHi⟩ := span_iff.mp hSpan
  cases h with
  | plain => exact ⟨hLo, hHi, by decide, by decide⟩
  | stepped _ ht hPos => exact ⟨hLo, hHi, hPos, atoi_lt ht⟩

theorem Part.lo_le_max (h : Part Unsigned min max s lo hi step) (hOrder : min ≤ max) :
    lo ≤ max := by
  have hSpan : ∀ {s : Str}, Span Unsigned min max s lo hi → lo ≤ max := by
    intro s hSpan
    cases hSpan with
    | every => exact hOrder
    | value _ _ hHi => exact hHi
    | range _ _ hLe _ hHi => exact hLe.trans hHi
  cases h with
  | plain h => exact hSpan h
  | stepped h => exact hSpan h

theorem Part.step_lt (h : Part Unsigned min max s lo hi step) (hSmall : SmallStep s) :
    step < 0x80000000 := by
  cases h with
  | plain => decide
  | stepped _ ht => exact hSmall _ _ _ rfl ht

theorem parsePart_ok {m : Mask} : (parsePart min max s).run = some (.ok m) ↔
    ∃ lo hi step, Part Unsigned min max s lo hi step ∧
      maskFrom hi step intValues lo 0 = some m := by
  simp only [parsePart, run_bind_ok, ExceptT.run_mk, Option.some_inj, Prod.exists, part_iff,
    span_iff]
  constructor
  · rintro ⟨base, step, hStep, lo, hi, hRange, h⟩
    split at h
    next => simp at h
    next hBounds =>
      exact ⟨lo, hi, step, ⟨base, hStep, hRange, by omega, by omega⟩, run_lift_ok.mp h⟩
  · rintro ⟨lo, hi, step, ⟨base, hStep, hRange, hLo, hHi⟩, h⟩
    refine ⟨base, step, hStep, lo, hi, hRange, ?_⟩
    rw [if_neg (by omega)]
    exact run_lift_ok.mpr h

end Parts

/-- The range of a field fits into a mask. -/
structure FieldRange (min max : Int) : Prop where
  nonneg : 0 ≤ min
  order : min ≤ max
  lt : max < 64

section Fields

variable {min max : Int} {s : Str} {parts : List Str} {mask m : Mask}

theorem parsePart_returns (hRange : FieldRange min max) : (parsePart min max s).Returns := by
  obtain ⟨hMin, hOrder, hMax⟩ := hRange
  unfold parsePart
  refine returns_bind ⟨_, rfl⟩ fun stepped hStep => ?_
  refine returns_bind ⟨_, rfl⟩ fun range hSpan => ?_
  split
  next => exact ⟨_, rfl⟩
  next hBounds =>
    have hPart : Part Unsigned min max s range.1 range.2 stepped.2 := by
      rw [part_iff]
      refine ⟨stepped.1, Option.some.inj hStep, ?_⟩
      rw [span_iff]
      exact ⟨Option.some.inj hSpan, by omega, by omega⟩
    obtain ⟨hLo, hHi, hPos, hInt⟩ := hPart.bounds
    have hLoMax := hPart.lo_le_max hOrder
    exact returns_lift (maskFrom_returns _ (by omega) hPos hInt (by omega) (by omega))

theorem parsePart_accepts (hRange : FieldRange min max) :
    (∃ m, (parsePart min max s).run = some (.ok m)) ↔
      ∃ lo hi step, Part Unsigned min max s lo hi step := by
  obtain ⟨hMin, hOrder, hMax⟩ := hRange
  constructor
  · rintro ⟨m, hm⟩
    obtain ⟨lo, hi, step, hPart, -⟩ := parsePart_ok.mp hm
    exact ⟨lo, hi, step, hPart⟩
  · rintro ⟨lo, hi, step, hPart⟩
    obtain ⟨hLo, hHi, hPos, hInt⟩ := hPart.bounds
    have hLoMax := hPart.lo_le_max hOrder
    obtain ⟨m, hm⟩ := maskFrom_returns 0 (by omega : hi < 64) hPos hInt
      (by omega : 0 ≤ lo) (by omega)
    exact ⟨m, parsePart_ok.mpr ⟨lo, hi, step, hPart, hm⟩⟩

theorem parsePart_bits (hRange : FieldRange min max) (hSmall : SmallStep s)
    (h : (parsePart min max s).run = some (.ok m)) (i : Nat) :
    m.getLsbD i = true ↔
      ∃ lo hi step, Part Unsigned min max s lo hi step ∧ (i : Int) ∈ values lo hi step := by
  obtain ⟨hMin, hOrder, hMax⟩ := hRange
  obtain ⟨lo, hi, step, hPart, hMask⟩ := parsePart_ok.mp h
  obtain ⟨hLo, hHi, hPos, -⟩ := hPart.bounds
  have hStep := hPart.step_lt hSmall
  obtain ⟨m', hMask', hBits⟩ := maskFrom_spec intValues 0
    (by omega : hi < 64) hPos (by omega) (by omega : 0 ≤ lo) (by decide)
    (by simp only [intValues]; omega)
  cases hMask.symm.trans hMask'
  rw [hBits, getLsbD_emptyMask, or_iff_right Bool.false_ne_true]
  constructor
  · exact fun hValue => ⟨lo, hi, step, hPart, hValue⟩
  · rintro ⟨lo', hi', step', hPart', hValue⟩
    obtain ⟨rfl, rfl, rfl⟩ := hPart.unique hPart'
    exact hValue

theorem parseParts_returns (hRange : FieldRange min max) :
    (parseParts min max parts mask).Returns := by
  induction parts generalizing mask with
  | nil => exact ⟨_, rfl⟩
  | cons p parts ih => exact returns_bind (parsePart_returns hRange) fun m _ => ih

theorem parseParts_accepts (mask : Mask) (hRange : FieldRange min max) :
    (∃ m, (parseParts min max parts mask).run = some (.ok m)) ↔
      ∀ p ∈ parts, ∃ lo hi step, Part Unsigned min max p lo hi step := by
  induction parts generalizing mask with
  | nil => exact iff_of_true ⟨_, rfl⟩ (by simp)
  | cons p parts ih =>
    rw [List.forall_mem_cons, ← parsePart_accepts hRange]
    simp only [parseParts, run_bind_ok]
    constructor
    · rintro ⟨m, mp, hp, hm⟩
      exact ⟨⟨mp, hp⟩, (ih _).mp ⟨m, hm⟩⟩
    · rintro ⟨⟨mp, hp⟩, hRest⟩
      obtain ⟨m, hm⟩ := (ih _).mpr hRest
      exact ⟨m, mp, hp, hm⟩

theorem parseParts_bits (hRange : FieldRange min max) (hSmall : ∀ p ∈ parts, SmallStep p)
    (h : (parseParts min max parts mask).run = some (.ok m)) (i : Nat) :
    m.getLsbD i = true ↔ mask.getLsbD i = true ∨
      ∃ p ∈ parts, ∃ lo hi step, Part Unsigned min max p lo hi step ∧
        (i : Int) ∈ values lo hi step := by
  induction parts generalizing mask with
  | nil =>
    cases h
    simp
  | cons p parts ih =>
    rw [List.forall_mem_cons] at hSmall
    simp only [parseParts, run_bind_ok] at h
    obtain ⟨mp, hp, hm⟩ := h
    rw [ih hSmall.2 hm, BitVec.getLsbD_or, Bool.or_eq_true,
      parsePart_bits hRange hSmall.1 hp i, List.exists_mem_cons_iff, or_assoc]

/-- A field that is one star is read like any other list of parts. -/
theorem parseField_eq (field : Str) : parseField field min max =
    parseParts min max (split field ',') 0 >>= fun mask =>
      pure (mask, decide (field ≠ everyValue)) := by
  by_cases h : field = everyValue
  · have hPart : parsePart min max everyValue = liftM (fullMask min max) := by
      have hRange : ExceptT.mk (some (parseRange everyValue min max)) =
          (pure (min, max) : Parsing PartError (Int × Int)) := by
        rw [parseRange, if_pos rfl]
        rfl
      have hStep : ExceptT.mk (some (parseStep everyValue)) =
          (pure (everyValue, 1) : Parsing PartError (Str × Int)) := rfl
      rw [parsePart, hStep, pure_bind, hRange, pure_bind, if_neg (by omega)]
      rfl
    have hParts : parseParts min max (split everyValue ',') 0 = liftM (fullMask min max) := by
      change (parsePart min max everyValue >>= fun m => pure (0 ||| m)) = _
      rw [hPart]
      simp
    rw [parseField, if_pos h, h, hParts]
    simp
  · rw [parseField, if_neg h]
    simp [h]

variable {field : Str}

theorem parseField_returns (hRange : FieldRange min max) : (parseField field min max).Returns := by
  rw [parseField_eq]
  exact returns_bind (parseParts_returns hRange) fun _ _ => ⟨_, rfl⟩

theorem parseField_accepts (hRange : FieldRange min max) :
    (∃ r, (parseField field min max).run = some (.ok r)) ↔ FieldLegal Unsigned min max field := by
  rw [FieldLegal, ← parseParts_accepts 0 hRange, parseField_eq]
  simp only [run_bind_ok]
  constructor
  · rintro ⟨r, m, hm, -⟩
    exact ⟨m, hm⟩
  · rintro ⟨m, hm⟩
    exact ⟨_, m, hm, rfl⟩

theorem parseField_spec (hRange : FieldRange min max) (hSmall : ∀ p ∈ split field ',', SmallStep p)
    {r : Mask × Bool} (h : (parseField field min max).run = some (.ok r)) :
    r.2 = decide (field ≠ everyValue) ∧
      ∀ i : Nat, r.1.getLsbD i = true ↔ Selects Unsigned min max field i := by
  rw [parseField_eq] at h
  simp only [run_bind_ok] at h
  obtain ⟨m, hm, hr⟩ := h
  cases hr
  refine ⟨rfl, fun i => ?_⟩
  rw [parseParts_bits hRange hSmall hm i, getLsbD_emptyMask, or_iff_right Bool.false_ne_true,
    Selects]

end Fields

theorem minute_range : FieldRange 0 59 := ⟨by decide, by decide, by decide⟩

theorem hour_range : FieldRange 0 23 := ⟨by decide, by decide, by decide⟩

theorem dom_range : FieldRange 1 31 := ⟨by decide, by decide, by decide⟩

theorem month_range : FieldRange 1 12 := ⟨by decide, by decide, by decide⟩

theorem dow_range : FieldRange 0 6 := ⟨by decide, by decide, by decide⟩

section Schedules

theorem and_twoPow_eq_zero {w n : Nat} (x : BitVec w) (h : n < w) :
    x &&& BitVec.twoPow w n = 0 ↔ ¬ x.getLsbD n = true := by
  rw [BitVec.and_twoPow]
  split
  next hBit =>
    simp only [hBit, not_true_eq_false, iff_false]
    intro hZero
    have hGet := congrArg (·.getLsbD n) hZero
    simp [h] at hGet
  next hBit => simp [hBit]

theorem matches_iff (s : Schedule) (t : Civil) : s.matches t = true ↔
    s.minute.getLsbD t.minute = true ∧ s.hour.getLsbD t.hour = true ∧
      s.month.getLsbD t.month = true ∧
      if s.domRestricted ∧ s.dowRestricted then
        s.dom.getLsbD t.day = true ∨ s.dow.getLsbD t.weekday = true
      else s.dom.getLsbD t.day = true ∧ s.dow.getLsbD t.weekday = true := by
  obtain ⟨minute, hour, day, month, weekday, hMinute, hHour, -, hDay, -, hMonth, hWeekday⟩ := t
  simp only [Schedule.matches]
  simp only [and_twoPow_eq_zero s.minute (show minute < 64 by omega),
    and_twoPow_eq_zero s.hour (show hour < 32 by omega),
    and_twoPow_eq_zero s.month (show month < 16 by omega), ne_eq,
    and_twoPow_eq_zero s.dom hDay, and_twoPow_eq_zero s.dow (show weekday < 8 by omega), not_not]
  cases s.minute.getLsbD minute <;> cases s.hour.getLsbD hour <;> cases s.month.getLsbD month <;>
    cases s.domRestricted <;> cases s.dowRestricted <;> simp

variable {expr minute hour dom month dow : Str}

theorem parseSchedule_ok (hFields : fields expr = [minute, hour, dom, month, dow]) {s : Schedule} :
    (parseSchedule expr).run = some (.ok s) ↔ ∃ m h d mo w,
      (parseField minute 0 59).run = some (.ok m) ∧ (parseField hour 0 23).run = some (.ok h) ∧
      (parseField dom 1 31).run = some (.ok d) ∧ (parseField month 1 12).run = some (.ok mo) ∧
      (parseField dow 0 6).run = some (.ok w) ∧
      s = ⟨m.1, h.1.setWidth 32, d.1.setWidth 32, mo.1.setWidth 16, w.1.setWidth 8, d.2, w.2⟩ := by
  rw [parseSchedule, hFields]
  simp only [run_bind_ok, run_adapt_ok]
  constructor
  · rintro ⟨m, hm, h, hh, d, hd, mo, hmo, w, hw, hs⟩
    cases hs
    exact ⟨m, h, d, mo, w, hm, hh, hd, hmo, hw, rfl⟩
  · rintro ⟨m, h, d, mo, w, hm, hh, hd, hmo, hw, rfl⟩
    exact ⟨m, hm, h, hh, d, hd, mo, hmo, w, hw, rfl⟩

theorem parseSchedule_returns (expr : Str) : (parseSchedule expr).Returns := by
  unfold parseSchedule
  split
  next =>
    refine returns_bind (returns_adapt (parseField_returns minute_range)) fun _ _ => ?_
    refine returns_bind (returns_adapt (parseField_returns hour_range)) fun _ _ => ?_
    refine returns_bind (returns_adapt (parseField_returns dom_range)) fun _ _ => ?_
    refine returns_bind (returns_adapt (parseField_returns month_range)) fun _ _ => ?_
    refine returns_bind (returns_adapt (parseField_returns dow_range)) fun _ _ => ?_
    exact ⟨_, rfl⟩
  next => exact ⟨_, rfl⟩

/-- `ParseSchedule` as its callers see it. -/
def readSchedule (expr : Str) : Except ScheduleError Schedule :=
  (parseSchedule expr).run.get (Option.isSome_iff_exists.mpr (parseSchedule_returns expr))

theorem parseSchedule_accepts (hFields : fields expr = [minute, hour, dom, month, dow]) :
    (∃ s, (parseSchedule expr).run = some (.ok s)) ↔
      FieldLegal Unsigned 0 59 minute ∧ FieldLegal Unsigned 0 23 hour ∧
      FieldLegal Unsigned 1 31 dom ∧ FieldLegal Unsigned 1 12 month ∧
      FieldLegal Unsigned 0 6 dow := by
  rw [← parseField_accepts minute_range, ← parseField_accepts hour_range,
    ← parseField_accepts dom_range, ← parseField_accepts month_range,
    ← parseField_accepts dow_range]
  simp only [parseSchedule_ok hFields]
  constructor
  · rintro ⟨s, m, h, d, mo, w, hm, hh, hd, hmo, hw, -⟩
    exact ⟨⟨m, hm⟩, ⟨h, hh⟩, ⟨d, hd⟩, ⟨mo, hmo⟩, ⟨w, hw⟩⟩
  · rintro ⟨⟨m, hm⟩, ⟨h, hh⟩, ⟨d, hd⟩, ⟨mo, hmo⟩, ⟨w, hw⟩⟩
    exact ⟨_, m, h, d, mo, w, hm, hh, hd, hmo, hw, rfl⟩

/-- Cutting a mask down keeps the bits of the values that a time can have. -/
theorem getLsbD_setWidth_lt {w i : Nat} (mask : Mask) (h : i < w) :
    (mask.setWidth w).getLsbD i = mask.getLsbD i := by
  rw [BitVec.getLsbD_setWidth, decide_eq_true h, Bool.true_and]

theorem parseSchedule_matches (hFields : fields expr = [minute, hour, dom, month, dow])
    (hSmall : ∀ f ∈ fields expr, ∀ p ∈ split f ',', SmallStep p) {s : Schedule}
    (hOk : (parseSchedule expr).run = some (.ok s)) (t : Civil) : s.matches t = true ↔
      Selects Unsigned 0 59 minute t.minute ∧ Selects Unsigned 0 23 hour t.hour ∧
      Selects Unsigned 1 12 month t.month ∧
      if dom ≠ everyValue ∧ dow ≠ everyValue then
        Selects Unsigned 1 31 dom t.day ∨ Selects Unsigned 0 6 dow t.weekday
      else Selects Unsigned 1 31 dom t.day ∧ Selects Unsigned 0 6 dow t.weekday := by
  rw [hFields] at hSmall
  obtain ⟨m, h, d, mo, w, hm, hh, hd, hmo, hw, rfl⟩ := (parseSchedule_ok hFields).mp hOk
  obtain ⟨-, hMinute⟩ := parseField_spec minute_range (hSmall minute (by simp)) hm
  obtain ⟨-, hHour⟩ := parseField_spec hour_range (hSmall hour (by simp)) hh
  obtain ⟨hDomStar, hDom⟩ := parseField_spec dom_range (hSmall dom (by simp)) hd
  obtain ⟨-, hMonth⟩ := parseField_spec month_range (hSmall month (by simp)) hmo
  obtain ⟨hDowStar, hDow⟩ := parseField_spec dow_range (hSmall dow (by simp)) hw
  obtain ⟨minute, hour, day, month, weekday, hMinute', hHour', -, hDay', -, hMonth', hWeekday'⟩ := t
  rw [matches_iff]
  simp only [getLsbD_setWidth_lt h.1 (show hour < 32 by omega), getLsbD_setWidth_lt d.1 hDay',
    getLsbD_setWidth_lt mo.1 (show month < 16 by omega),
    getLsbD_setWidth_lt w.1 (show weekday < 8 by omega), hMinute, hHour, hDom, hMonth, hDow,
    hDomStar, hDowStar, decide_eq_true_eq]

end Schedules

/-- Cron expressions mean what cron says, where the numbers that stand alone or open a
range are written without a minus sign. -/
theorem schedule_meaning {expr minute hour dom month dow : Str}
    (hFields : fields expr = [minute, hour, dom, month, dow])
    (hSmall : ∀ f ∈ fields expr, ∀ p ∈ split f ',', SmallStep p) :
    (parseSchedule expr).Returns ∧
    ((∃ s, (parseSchedule expr).run = some (.ok s)) ↔
      FieldLegal Unsigned 0 59 minute ∧ FieldLegal Unsigned 0 23 hour ∧
      FieldLegal Unsigned 1 31 dom ∧ FieldLegal Unsigned 1 12 month ∧
      FieldLegal Unsigned 0 6 dow) ∧
    ∀ s, (parseSchedule expr).run = some (.ok s) → ∀ t : Civil, s.matches t = true ↔
      Selects Unsigned 0 59 minute t.minute ∧ Selects Unsigned 0 23 hour t.hour ∧
      Selects Unsigned 1 12 month t.month ∧
      if dom ≠ everyValue ∧ dow ≠ everyValue then
        Selects Unsigned 1 31 dom t.day ∨ Selects Unsigned 0 6 dow t.weekday
      else Selects Unsigned 1 31 dom t.day ∧ Selects Unsigned 0 6 dow t.weekday :=
  ⟨parseSchedule_returns expr, parseSchedule_accepts hFields,
    fun _ h t => parseSchedule_matches hFields hSmall h t⟩

section Samples

variable {numeral : Str → Int → Prop} {min max : Int} {s : Str} {lo hi v : Int}

theorem fieldLegal_span (hSplit : split s ',' = [s]) (h : Span numeral min max s lo hi) :
    FieldLegal numeral min max s := by
  intro p hp
  rw [hSplit, List.mem_singleton] at hp
  rw [hp]
  exact ⟨lo, hi, 1, .plain h⟩

theorem fieldLegal_every : FieldLegal numeral min max everyValue :=
  fieldLegal_span (by decide) .every

theorem selects_span (hSplit : split s ',' = [s]) (h : Span numeral min max s lo hi)
    (hLo : lo ≤ v) (hHi : v ≤ hi) : Selects numeral min max s v :=
  ⟨s, by simp [hSplit], lo, hi, 1, .plain h, hHi, (v - lo).toNat, by omega⟩

theorem smallStep_of_not_mem {part : Str} (h : '/' ∉ part) : SmallStep part := by
  rintro base t n rfl
  simp at h

end Samples

def noon : Civil :=
  ⟨30, 12, 15, 6, 1, by decide, by decide, by decide, by decide, by decide, by decide, by decide⟩

/-- At half past twelve every day. -/
theorem schedule_meaning_noon :
    fields "30 12 * * *".toList =
      ["30".toList, "12".toList, everyValue, everyValue, everyValue] ∧
    ∃ s, (parseSchedule "30 12 * * *".toList).run = some (.ok s) ∧ s.matches noon = true := by
  have hFields : fields "30 12 * * *".toList =
      ["30".toList, "12".toList, everyValue, everyValue, everyValue] := by decide
  have hSmall : ∀ f ∈ fields "30 12 * * *".toList, ∀ p ∈ split f ',', SmallStep p := by
    have hNone : ∀ f ∈ fields "30 12 * * *".toList, ∀ p ∈ split f ',', '/' ∉ p := by decide
    exact fun f hf p hp => smallStep_of_not_mem (hNone f hf p hp)
  have hMinute : Span Unsigned 0 59 "30".toList 30 30 :=
    .value ⟨by decide, by decide⟩ (by decide) (by decide)
  have hHour : Span Unsigned 0 23 "12".toList 12 12 :=
    .value ⟨by decide, by decide⟩ (by decide) (by decide)
  have hMeaning := schedule_meaning hFields hSmall
  obtain ⟨s, hs⟩ := hMeaning.2.1.mpr ⟨fieldLegal_span (by decide) hMinute,
    fieldLegal_span (by decide) hHour, fieldLegal_every, fieldLegal_every, fieldLegal_every⟩
  have hEvery : ∀ {min max v : Int}, min ≤ v → v ≤ max → Selects Unsigned min max everyValue v :=
    selects_span (by decide) .every
  refine ⟨hFields, s, hs, (hMeaning.2.2 s hs noon).mpr ⟨selects_span (by decide) hMinute le_rfl
    le_rfl, selects_span (by decide) hHour le_rfl le_rfl, hEvery (by decide) (by decide), ?_⟩⟩
  exact ⟨hEvery (by decide) (by decide), hEvery (by decide) (by decide)⟩

/-- `Atoi` reads `-0` as zero, but a part with a minus sign is taken for a range. -/
theorem minus_zero_refused :
    fields "-0 * * * *".toList =
      ["-0".toList, everyValue, everyValue, everyValue, everyValue] ∧
    (∀ f ∈ fields "-0 * * * *".toList, ∀ p ∈ split f ',', SmallStep p) ∧
    FieldLegal AnyNumeral 0 59 "-0".toList ∧ FieldLegal AnyNumeral 0 23 everyValue ∧
    FieldLegal AnyNumeral 1 31 everyValue ∧ FieldLegal AnyNumeral 1 12 everyValue ∧
    FieldLegal AnyNumeral 0 6 everyValue ∧
    (parseSchedule "-0 * * * *".toList).run =
      some (.error (.badField "-0 * * * *".toList .minute (.badRangeStart []))) := by
  have hNone : ∀ f ∈ fields "-0 * * * *".toList, ∀ p ∈ split f ',', '/' ∉ p := by decide
  have hZero : atoi "-0".toList = some 0 := by decide
  refine ⟨by decide, fun f hf p hp => smallStep_of_not_mem (hNone f hf p hp), ?_,
    fieldLegal_every, fieldLegal_every, fieldLegal_every, fieldLegal_every, by decide⟩
  exact fieldLegal_span (by decide) (.value hZero (by decide) (by decide))

end Moduless.Cron
