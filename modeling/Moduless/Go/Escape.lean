import Moduless.Go.Segments

/-!
Percent-encoding, as `net/url` takes it apart, and how a decoded text is spelled.

`Spells` relates a text to what it decodes to. It composes: the parts of a text
spell the parts of what is decoded. Only a hexadecimal digit can stand inside an
escape, so a text can be cut before any other character.
-/

namespace Moduless.Go

def hexDigits : Str := "0123456789abcdefABCDEF".toList

def isHex (c : Char) : Bool := hexDigits.contains c

def unhex (c : Char) : Nat :=
  if c.isDigit then c.toNat - '0'.toNat
  else if c.isLower then c.toNat - 'a'.toNat + 10
  else c.toNat - 'A'.toNat + 10

/-- The byte an escape stands for. -/
def escaped (a b : Char) : Char := Char.ofNat (16 * unhex a + unhex b)

/-- `url.unescape` for a path: `none` for a malformed escape. -/
def unescape : Str → Option Str
  | [] => some []
  | c :: s =>
    if c = '%' then
      match s with
      | a :: b :: rest =>
        if isHex a && isHex b then (unescape rest).map (escaped a b :: ·) else none
      | _ => none
    else (unescape s).map (c :: ·)

/-- The text decodes to the second one. -/
inductive Spells : Str → Str → Prop
  | nil : Spells [] []
  | plain {c : Char} {s d : Str} : c ≠ '%' → Spells s d → Spells (c :: s) (c :: d)
  | escape {a b : Char} {s d : Str} : isHex a = true → isHex b = true → Spells s d →
      Spells ('%' :: a :: b :: s) (escaped a b :: d)

theorem unescape_iff {s d : Str} : unescape s = some d ↔ Spells s d := by
  constructor
  · intro h
    induction s using unescape.induct generalizing d with
    | case1 =>
      cases h
      exact .nil
    | case2 a b s hHex ih =>
      rw [unescape.eq_def] at h
      simp only [hHex, if_true] at h
      obtain ⟨d, hd, rfl⟩ := Option.map_eq_some_iff.mp h
      obtain ⟨ha, hb⟩ := Bool.and_eq_true_iff.mp hHex
      exact .escape ha hb (ih hd)
    | case3 a b s hHex =>
      rw [unescape.eq_def] at h
      simp [hHex] at h
    | case4 s hShort =>
      rw [unescape.eq_def] at h
      simp only [if_true] at h
      cases h
    | case5 c s hc ih =>
      rw [unescape.eq_def] at h
      simp only [hc, if_false] at h
      obtain ⟨d, hd, rfl⟩ := Option.map_eq_some_iff.mp h
      exact .plain hc (ih hd)
  · intro h
    induction h with
    | nil => rfl
    | plain hc _ ih =>
      rw [unescape.eq_def]
      simp only [hc, if_false, ih, Option.map_some]
    | escape ha hb _ ih =>
      rw [unescape.eq_def]
      simp only [ha, hb, Bool.and_self, if_true, ih, Option.map_some]

namespace Spells

variable {s x y d dx dy : Str}

theorem split_decoded (h : Spells s (dx ++ dy)) :
    ∃ x y, s = x ++ y ∧ Spells x dx ∧ Spells y dy := by
  induction dx generalizing s with
  | nil => exact ⟨[], s, rfl, .nil, h⟩
  | cons c dx ih =>
    cases h with
    | plain hc h =>
      obtain ⟨x, y, rfl, hx, hy⟩ := ih h
      exact ⟨c :: x, y, rfl, .plain hc hx, hy⟩
    | escape ha hb h =>
      obtain ⟨x, y, rfl, hx, hy⟩ := ih h
      exact ⟨_ :: _ :: _ :: x, y, rfl, .escape ha hb hx, hy⟩

theorem cut {c : Char} (hc : isHex c = false) (h : Spells (x ++ c :: y) d) :
    ∃ dx dy, d = dx ++ dy ∧ Spells x dx ∧ Spells (c :: y) dy := by
  generalize hs : x ++ c :: y = s at h
  induction h generalizing x with
  | nil => simp at hs
  | @plain e s d he h ih =>
    cases x with
    | nil =>
      obtain ⟨rfl, rfl⟩ := List.cons.inj hs
      exact ⟨[], c :: d, rfl, .nil, .plain he h⟩
    | cons e' x =>
      simp only [List.cons_append, List.cons.injEq] at hs
      obtain ⟨rfl, hs⟩ := hs
      obtain ⟨dx, dy, rfl, hx, hy⟩ := ih hs
      exact ⟨e' :: dx, dy, rfl, .plain he hx, hy⟩
  | @escape a b s d ha hb h ih =>
    match x, hs with
    | [], hs =>
      obtain ⟨rfl, rfl⟩ := List.cons.inj hs
      exact ⟨[], _, rfl, .nil, .escape ha hb h⟩
    | [_], hs =>
      simp only [List.cons_append, List.nil_append, List.cons.injEq] at hs
      obtain ⟨-, rfl, -⟩ := hs
      simp [hc] at ha
    | [_, _], hs =>
      simp only [List.cons_append, List.nil_append, List.cons.injEq] at hs
      obtain ⟨-, -, rfl, -⟩ := hs
      simp [hc] at hb
    | e₁ :: e₂ :: e₃ :: x, hs =>
      simp only [List.cons_append, List.cons.injEq] at hs
      obtain ⟨rfl, rfl, rfl, hRest⟩ := hs
      obtain ⟨dx, dy, rfl, hx, hy⟩ := ih hRest
      exact ⟨_ :: dx, dy, rfl, .escape ha hb hx, hy⟩

theorem of_single {c : Char} (hc : Spells x [c]) (h : Spells (x ++ y) d) :
    ∃ dy, d = c :: dy ∧ Spells y dy := by
  cases hc with
  | plain hne hc =>
    cases hc
    cases h with
    | plain _ h => exact ⟨_, rfl, h⟩
    | escape _ _ _ => exact absurd rfl hne
  | escape ha hb hc =>
    cases hc
    cases h with
    | plain hne _ => exact absurd rfl hne
    | escape _ _ h => exact ⟨_, rfl, h⟩

theorem length_add (h : Spells s d) : d.length + 2 * s.count '%' = s.length := by
  induction h with
  | nil => rfl
  | plain hc _ ih =>
    rw [List.length_cons, List.length_cons, List.count_cons_of_ne hc]
    omega
  | @escape a b s d ha hb _ ih =>
    have hne : ∀ c, isHex c = true → c ≠ '%' := by
      rintro c hHex rfl
      exact absurd hHex (by decide)
    rw [List.length_cons, List.count_cons_self, List.count_cons_of_ne (hne a ha),
      List.count_cons_of_ne (hne b hb), List.length_cons, List.length_cons, List.length_cons]
    omega

theorem length_le (h : Spells s d) : d.length ≤ s.length := by
  have hLength := h.length_add
  omega

theorem slash (h : Spells s d) (hs : ['/'] <+: s) : ['/'] <+: d := by
  obtain ⟨s, rfl⟩ := hs
  cases h with
  | plain _ h => exact ⟨_, rfl⟩

theorem self (h : '%' ∉ s) : Spells s s := by
  induction s with
  | nil => exact .nil
  | cons c s ih =>
    rw [List.mem_cons, not_or] at h
    exact .plain (Ne.symm h.1) (ih h.2)

theorem eq_self_iff (h : Spells s d) : d = s ↔ '%' ∉ s := by
  constructor
  · rintro rfl
    have hLength := h.length_add
    exact List.count_eq_zero.mp (by omega)
  · intro hs
    have hSelf := unescape_iff.mpr (self hs)
    rw [unescape_iff.mpr h] at hSelf
    exact Option.some.inj hSelf

theorem singleton_iff {c : Char} {spellings : List Str} (hPlain : [c] ∈ spellings)
    (hEscape : (hexDigits.all fun a => hexDigits.all fun b =>
      escaped a b ≠ c || spellings.contains ['%', a, b]) = true)
    (hAll : ∀ w ∈ spellings, unescape w = some [c]) : Spells s [c] ↔ s ∈ spellings := by
  constructor
  · intro h
    cases h with
    | plain hc h =>
      cases h
      exact hPlain
    | @escape a b _ _ ha hb h =>
      cases h
      have hRow := List.all_eq_true.mp hEscape a (List.contains_iff_mem.mp ha)
      have hPair := List.all_eq_true.mp hRow b (List.contains_iff_mem.mp hb)
      simpa using hPair
  · exact fun h => unescape_iff.mp (hAll s h)

end Spells

def slashSpellings : List Str := ["/".toList, "%2f".toList, "%2F".toList]

def dotSpellings : List Str := [".".toList, "%2e".toList, "%2E".toList]

theorem spells_slash {w : Str} : Spells w ['/'] ↔ w ∈ slashSpellings :=
  Spells.singleton_iff (by decide) (by decide) (by decide)

theorem spells_dot {w : Str} : Spells w ['.'] ↔ w ∈ dotSpellings :=
  Spells.singleton_iff (by decide) (by decide) (by decide)

/-- A segment of one or two dots stands between slashes, however these are
spelled. -/
def HidesDots (raw : Str) : Prop :=
  ∃ before dots after, raw = before ++ dots ++ after ∧
    (before = [] ∨ ∃ w ∈ slashSpellings, w <:+ before) ∧
    (dots ∈ dotSpellings ∨ ∃ d₁ ∈ dotSpellings, ∃ d₂ ∈ dotSpellings, dots = d₁ ++ d₂) ∧
    (after = [] ∨ ∃ w ∈ slashSpellings, w <+: after)

section Dots

variable {raw d : Str}

theorem Spells.cut_slash {before rest : Str} (h : Spells (before ++ rest) d)
    (hBefore : before = [] ∨ ∃ w ∈ slashSpellings, w <:+ before) :
    ∃ x y, d = x ++ y ∧ (x = [] ∨ ['/'] <:+ x) ∧ Spells rest y := by
  rcases hBefore with rfl | ⟨w, hw, b, rfl⟩
  · exact ⟨[], d, rfl, .inl rfl, h⟩
  · obtain ⟨c, w', rfl, hc⟩ : ∃ c w', w = c :: w' ∧ isHex c = false := by
      simp only [slashSpellings, List.mem_cons, List.not_mem_nil, or_false] at hw
      rcases hw with rfl | rfl | rfl
      all_goals exact ⟨_, _, rfl, rfl⟩
    rw [List.append_assoc, List.cons_append] at h
    obtain ⟨x, y, rfl, -, hy⟩ := h.cut hc
    obtain ⟨y, rfl, hRest⟩ := (spells_slash.mpr hw).of_single hy
    exact ⟨x ++ ['/'], y, by simp, .inr ⟨x, rfl⟩, hRest⟩

theorem Spells.starts_iff {rest y : Str} (h : Spells rest y) :
    (rest = [] ∨ ∃ w ∈ slashSpellings, w <+: rest) ↔ (y = [] ∨ ['/'] <+: y) := by
  constructor
  · rintro (rfl | ⟨w, hw, rest, rfl⟩)
    · cases h
      exact .inl rfl
    · obtain ⟨y, rfl, -⟩ := (spells_slash.mpr hw).of_single h
      exact .inr ⟨y, rfl⟩
  · rintro (rfl | ⟨y, rfl⟩)
    · cases h
      exact .inl rfl
    · obtain ⟨w, rest, rfl, hw, -⟩ := h.split_decoded
      exact .inr ⟨w, spells_slash.mp hw, rest, rfl⟩

theorem Spells.ends_slash {before x : Str} (h : Spells before x) (hx : x = [] ∨ ['/'] <:+ x) :
    before = [] ∨ ∃ w ∈ slashSpellings, w <:+ before := by
  rcases hx with rfl | ⟨x, rfl⟩
  · cases h
    exact .inl rfl
  · obtain ⟨b, w, rfl, -, hw⟩ := h.split_decoded
    exact .inr ⟨w, spells_slash.mp hw, b, rfl⟩

/-- A text hides dots exactly if what it decodes to has a dot segment. -/
theorem Spells.hidesDots_iff (h : Spells raw d) :
    HidesDots raw ↔ ['.'] ∈ split d '/' ∨ ['.', '.'] ∈ split d '/' := by
  rw [mem_split_iff (by decide), mem_split_iff (by decide)]
  constructor
  · rintro ⟨before, dots, after, rfl, hBefore, hDots, hAfter⟩
    rw [List.append_assoc] at h
    obtain ⟨x, y, rfl, hx, hRest⟩ := h.cut_slash hBefore
    rcases hDots with hDot | ⟨d₁, h₁, d₂, h₂, rfl⟩
    · obtain ⟨y, rfl, hy⟩ := (spells_dot.mpr hDot).of_single hRest
      exact .inl ⟨x, y, by simp, hx, hy.starts_iff.mp hAfter⟩
    · rw [List.append_assoc] at hRest
      obtain ⟨y₁, rfl, hRest₁⟩ := (spells_dot.mpr h₁).of_single hRest
      obtain ⟨y, rfl, hy⟩ := (spells_dot.mpr h₂).of_single hRest₁
      exact .inr ⟨x, y, by simp, hx, hy.starts_iff.mp hAfter⟩
  · have hSpelled : ∀ {x seg y : Str}, d = x ++ seg ++ y → (x = [] ∨ ['/'] <:+ x) →
        (y = [] ∨ ['/'] <+: y) → ∃ before dots after, raw = before ++ dots ++ after ∧
          (before = [] ∨ ∃ w ∈ slashSpellings, w <:+ before) ∧ Spells dots seg ∧
          (after = [] ∨ ∃ w ∈ slashSpellings, w <+: after) := by
      rintro x seg y rfl hx hy
      obtain ⟨front, after, rfl, hFront, hAfter⟩ := h.split_decoded
      obtain ⟨before, dots, rfl, hBefore, hDots⟩ := hFront.split_decoded
      exact ⟨before, dots, after, rfl, hBefore.ends_slash hx, hDots, hAfter.starts_iff.mpr hy⟩
    rintro (⟨x, y, hd, hx, hy⟩ | ⟨x, y, hd, hx, hy⟩)
    · obtain ⟨before, dots, after, hRaw, hBefore, hDots, hAfter⟩ := hSpelled hd hx hy
      exact ⟨before, dots, after, hRaw, hBefore, .inl (spells_dot.mp hDots), hAfter⟩
    · obtain ⟨before, dots, after, hRaw, hBefore, hDots, hAfter⟩ := hSpelled hd hx hy
      have hTwo : Spells dots (['.'] ++ ['.']) := hDots
      obtain ⟨d₁, d₂, rfl, h₁, h₂⟩ := hTwo.split_decoded
      exact ⟨before, _, after, hRaw, hBefore,
        .inr ⟨d₁, spells_dot.mp h₁, d₂, spells_dot.mp h₂, rfl⟩, hAfter⟩

theorem not_hidesDots (hDot : '.' ∉ raw) (hPercent : '%' ∉ raw) : ¬ HidesDots raw := by
  have hMem : ∀ w ∈ dotSpellings, '.' ∈ w ∨ '%' ∈ w := by decide
  have hFree : ∀ w ∈ dotSpellings, ¬ w <:+: raw := by
    intro w hw hIn
    rcases hMem w hw with hMem | hMem
    · exact hDot (hIn.subset hMem)
    · exact hPercent (hIn.subset hMem)
  rintro ⟨before, dots, after, rfl, -, hDots, -⟩
  rcases hDots with hDots | ⟨d₁, h₁, d₂, -, rfl⟩
  · exact hFree dots hDots ⟨before, after, rfl⟩
  · exact hFree d₁ h₁ ⟨before, d₂ ++ after, by simp⟩

end Dots

end Moduless.Go
