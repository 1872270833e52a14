import Moduless.Go.Builtin

/-!
Go's `strconv.Atoi`, `strings.Cut`, `strings.SplitN` with two parts, `strings.Fields`,
`strings.TrimSpace`, and the letters that `strings.ToUpper` makes ASCII ones. Text is a list
of code points here, as the last three read it; every separator is ASCII.
-/

namespace Moduless.Go

/-- The value of a run of decimal digits. -/
def decimal (digits : Str) : Nat :=
  digits.foldl (fun n c => 10 * n + (c.toNat - '0'.toNat)) 0

/-- The sign of a number, and what follows it. -/
def cutSign : Str → Bool × Str
  | '-' :: rest => (true, rest)
  | '+' :: rest => (false, rest)
  | s => (false, s)

/-- `strconv.Atoi` where an `int` has 64 bits. -/
def atoi (s : Str) : Option Int :=
  let digits := (cutSign s).2
  if digits = [] || digits.any fun c => !c.isDigit then none
  else
    let n : Int := if (cutSign s).1 then -decimal digits else decimal digits
    if n < -0x8000000000000000 ∨ 0x8000000000000000 ≤ n then none else some n

/-- `strings.Cut` at a character. -/
def cut (s : Str) (sep : Char) : Option (Str × Str) :=
  if sep ∈ s then some (s.takeWhile (· ≠ sep), (s.dropWhile (· ≠ sep)).tail) else none

/-- `strings.SplitN` at a character, with at most two parts. -/
def splitTwo (s : Str) (sep : Char) : List Str :=
  match cut s sep with
  | none => [s]
  | some (before, after) => [before, after]

def unicodeIsSpace (c : Char) : Bool :=
  c = ' ' || c = '\t' || c = '\n' || c = '\x0b' || c = '\x0c' || c = '\r' ||
    [0x85, 0xa0, 0x1680, 0x2028, 0x2029, 0x202f, 0x205f, 0x3000].contains c.toNat ||
    (0x2000 ≤ c.toNat && c.toNat ≤ 0x200a)

/-- `strings.Fields`. -/
def fields (s : Str) : List Str := (s.splitOnP unicodeIsSpace).filter (· ≠ [])

def trimSpace (s : Str) : Str := (s.dropWhile unicodeIsSpace).rdropWhile unicodeIsSpace

/-- `unicode.ToUpper` as far as it gives ASCII letters: two letters outside ASCII have
one as their upper case. -/
def toUpper (c : Char) : Char :=
  if c.toNat = 0x131 then 'I' else if c.toNat = 0x17f then 'S' else c.toUpper

/-- `strings.ToUpper(strings.TrimSpace(s))`. -/
def trimUpper (s : Str) : Str := (trimSpace s).map toUpper

section Cut

variable {s a b : Str} {sep : Char}

theorem cut_append (h : sep ∉ a) : cut (a ++ sep :: b) sep = some (a, b) := by
  have hAll : ∀ c ∈ a, decide (c ≠ sep) = true := fun c hc =>
    decide_eq_true fun hEq => h (hEq ▸ hc)
  rw [cut, if_pos (by simp), List.takeWhile_append_of_pos hAll, List.dropWhile_append_of_pos hAll]
  simp

theorem append_sep_inj {a' b' : Str} (h : sep ∉ a) (h' : sep ∉ a') :
    a ++ sep :: b = a' ++ sep :: b' ↔ a = a' ∧ b = b' := by
  constructor
  · intro hEq
    have hCut := cut_append (b := b) h
    rw [hEq, cut_append h'] at hCut
    exact ⟨(Prod.mk.inj (Option.some.inj hCut)).1.symm, (Prod.mk.inj (Option.some.inj hCut)).2.symm⟩
  · rintro ⟨rfl, rfl⟩
    rfl

theorem cut_eq_none : cut s sep = none ↔ sep ∉ s := by
  simp [cut]

theorem cut_eq_some : cut s sep = some (a, b) ↔ s = a ++ sep :: b ∧ sep ∉ a := by
  constructor
  · intro h
    have hMem : sep ∈ s := by
      by_contra hNot
      rw [cut_eq_none.mpr hNot] at h
      cases h
    obtain ⟨front, back, rfl, hFront⟩ := List.eq_append_cons_of_mem hMem
    rw [cut_append hFront] at h
    cases h
    exact ⟨rfl, hFront⟩
  · rintro ⟨rfl, h⟩
    exact cut_append h

end Cut

section Atoi

variable {s : Str} {n : Int}

theorem atoi_chars (h : atoi s = some n) : ∀ c ∈ s, c.isDigit = true ∨ c = '-' ∨ c = '+' := by
  have hDigits : ∀ c ∈ (cutSign s).2, c.isDigit = true := by
    rw [atoi] at h
    split at h
    next => cases h
    next hBad =>
      intro c hc
      by_contra hNot
      refine hBad (Bool.or_eq_true_iff.mpr (.inr (List.any_eq_true.mpr ⟨c, hc, ?_⟩)))
      simpa using hNot
  have hSign : s = (cutSign s).2 ∨ ∃ c, (c = '-' ∨ c = '+') ∧ s = c :: (cutSign s).2 := by
    unfold cutSign
    split
    next => exact .inr ⟨'-', .inl rfl, rfl⟩
    next => exact .inr ⟨'+', .inr rfl, rfl⟩
    next => exact .inl rfl
  intro c hc
  rcases hSign with hSame | ⟨sign, hSign, hCons⟩
  · exact .inl (hDigits c (hSame ▸ hc))
  · rw [hCons, List.mem_cons] at hc
    rcases hc with rfl | hc
    · exact .inr hSign
    · exact .inl (hDigits c hc)

theorem not_mem_of_atoi {c : Char} (h : atoi s = some n)
    (hc : ¬ (c.isDigit = true ∨ c = '-' ∨ c = '+')) : c ∉ s :=
  fun hMem => hc (atoi_chars h c hMem)

theorem atoi_lt (h : atoi s = some n) : n < 0x8000000000000000 := by
  simp only [atoi, Option.ite_none_left_eq_some, Option.some_inj] at h
  omega

end Atoi

theorem int64_of_range {x : Int} (hLow : -0x8000000000000000 ≤ x)
    (hHigh : x < 0x8000000000000000) : int64 x = x := by
  rw [int64, Int.bmod_def]
  omega

theorem int32_of_range {x : Int} (hLow : -0x80000000 ≤ x) (hHigh : x < 0x80000000) :
    int32 x = x := by
  rw [int32, Int.bmod_def]
  omega

/-- Past the largest number the count goes on at the smallest one. -/
theorem int64_wrap {x : Int} (hLow : 0x8000000000000000 ≤ x)
    (hHigh : x < 0x10000000000000000) : int64 x = x - 0x10000000000000000 := by
  rw [int64, Int.bmod_def]
  omega

end Moduless.Go
