import Mathlib.Data.List.Basic

/-!
Texts with numbered placeholders, as they are sent to a database together with a
list of arguments.

A text is put together from fragments: what the program itself writes, names it was
given, words it chose from a list, and placeholders. `placeholders` reads the
numbers back from the characters, and finds the ones that were put in as long as
nothing else in the text looks like one.
-/

namespace Moduless.Sql

inductive Fragment where
  | fixed (s : List Char)
  | name (s : List Char)
  | word (s : List Char)
  | hole (n : Nat)
  deriving DecidableEq

def Fragment.chars : Fragment → List Char
  | .fixed s | .name s | .word s => s
  | .hole n => '$' :: Nat.toDigits 10 n

def text (fs : List Fragment) : List Char := fs.flatMap Fragment.chars

/-- The placeholders among the fragments, from left to right. -/
def holes (fs : List Fragment) : List Nat :=
  fs.filterMap fun
    | .hole n => some n
    | _ => none

/-- Reads the placeholders of a text; `some n` is one whose digits so far make `n`. -/
def scanHoles : Option Nat → List Char → List Nat
  | none, [] => []
  | some n, [] => [n]
  | none, c :: cs => if c = '$' then scanHoles (some 0) cs else scanHoles none cs
  | some n, c :: cs =>
    if c.isDigit then scanHoles (some (10 * n + (c.toNat - '0'.toNat))) cs
    else n :: if c = '$' then scanHoles (some 0) cs else scanHoles none cs

def placeholders (s : List Char) : List Nat := scanHoles none s

/-- The text does not go on with a digit. -/
def StartsApart (s : List Char) : Prop := ∀ c ∈ s.head?, c.isDigit = false

/-- Placeholders stand apart from what follows, and there are no others. -/
def Separated : List Fragment → Prop
  | [] => True
  | .hole _ :: rest => StartsApart (text rest) ∧ Separated rest
  | f :: rest => '$' ∉ f.chars ∧ Separated rest

@[simp] theorem text_nil : text [] = [] := rfl

@[simp] theorem text_cons (f : Fragment) (fs : List Fragment) :
    text (f :: fs) = f.chars ++ text fs := rfl

@[simp] theorem text_append (fs gs : List Fragment) : text (fs ++ gs) = text fs ++ text gs := by
  simp [text]

@[simp] theorem holes_nil : holes [] = [] := rfl

@[simp] theorem holes_append (fs gs : List Fragment) : holes (fs ++ gs) = holes fs ++ holes gs := by
  simp [holes]

@[simp] theorem holes_fixed (s : List Char) (fs : List Fragment) :
    holes (.fixed s :: fs) = holes fs := rfl

@[simp] theorem holes_name (s : List Char) (fs : List Fragment) :
    holes (.name s :: fs) = holes fs := rfl

@[simp] theorem holes_word (s : List Char) (fs : List Fragment) :
    holes (.word s :: fs) = holes fs := rfl

@[simp] theorem holes_hole (n : Nat) (fs : List Fragment) :
    holes (.hole n :: fs) = n :: holes fs := rfl

theorem startsApart_append {s u : List Char} (hs : StartsApart s) (hu : StartsApart u) :
    StartsApart (s ++ u) := by
  cases s with
  | nil => exact hu
  | cons c s => exact hs

theorem startsApart_of_ne {s u : List Char} (hs : StartsApart s) (hne : s ≠ []) :
    StartsApart (s ++ u) := by
  cases s with
  | nil => exact absurd rfl hne
  | cons c s => exact hs

theorem separated_append {fs gs : List Fragment} (hf : Separated fs) (hg : Separated gs)
    (hApart : StartsApart (text gs)) : Separated (fs ++ gs) := by
  induction fs with
  | nil => exact hg
  | cons f fs ih =>
    cases f with
    | hole n =>
      refine ⟨?_, ih hf.2⟩
      change StartsApart (text (fs ++ gs))
      rw [text_append]
      exact startsApart_append hf.1 hApart
    | fixed s | name s | word s => exact ⟨hf.1, ih hf.2⟩

theorem separated_append_of_holes {fs gs : List Fragment} (hf : Separated fs)
    (hg : Separated gs) (hHoles : holes fs = []) : Separated (fs ++ gs) := by
  induction fs with
  | nil => exact hg
  | cons f fs ih =>
    cases f with
    | hole n => simp at hHoles
    | fixed s | name s | word s => exact ⟨hf.1, ih hf.2 hHoles⟩

theorem scanHoles_none_append {s : List Char} (h : '$' ∉ s) (u : List Char) :
    scanHoles none (s ++ u) = scanHoles none u := by
  induction s with
  | nil => rfl
  | cons c s ih =>
    rw [List.mem_cons, not_or] at h
    rw [List.cons_append, scanHoles, if_neg (Ne.symm h.1), ih h.2]

theorem scanHoles_digits {ds : List Char} (h : ∀ c ∈ ds, c.isDigit = true) (n : Nat)
    (u : List Char) :
    scanHoles (some n) (ds ++ u) = scanHoles (some (Nat.ofDigitChars 10 ds n)) u := by
  induction ds generalizing n with
  | nil => rfl
  | cons c ds ih =>
    rw [List.cons_append, scanHoles, if_pos (h c (by simp)),
      ih (fun c' hc' => h c' (by simp [hc'])), Nat.ofDigitChars_cons]

theorem scanHoles_apart (n : Nat) {u : List Char} (h : StartsApart u) :
    scanHoles (some n) u = n :: scanHoles none u := by
  cases u with
  | nil => rfl
  | cons c u =>
    have hc : c.isDigit = false := h c rfl
    rw [scanHoles, scanHoles, hc]
    rfl

theorem placeholders_text {fs : List Fragment} (h : Separated fs) :
    placeholders (text fs) = holes fs := by
  induction fs with
  | nil => rfl
  | cons f fs ih =>
    cases f with
    | hole n =>
      have hDigits : ∀ c ∈ Nat.toDigits 10 n, c.isDigit = true := fun c hc =>
        Nat.isDigit_of_mem_toDigits (by decide) (by decide) hc
      have hNumber : Nat.ofDigitChars 10 (Nat.toDigits 10 n) 0 = n :=
        Nat.ofDigitChars_toDigits (by decide) (by decide)
      rw [text_cons, Fragment.chars, placeholders, List.cons_append, scanHoles, if_pos rfl,
        scanHoles_digits hDigits, hNumber, scanHoles_apart n h.1, holes_hole]
      exact congrArg _ (ih h.2)
    | fixed s | name s | word s =>
      rw [text_cons, placeholders, scanHoles_none_append h.1]
      exact ih h.2

section Joined

variable {sep : List Fragment} {parts : List (List Fragment)}

theorem holes_intercalate (hSep : holes sep = []) :
    holes (sep.intercalate parts) = parts.flatMap holes := by
  induction parts with
  | nil => rfl
  | cons p parts ih =>
    cases parts with
    | nil => simp [List.intercalate]
    | cons q parts =>
      rw [List.intercalate_cons_cons, holes_append, holes_append, hSep, List.append_nil, ih]
      rfl

theorem mem_intercalate {f : Fragment} (h : f ∈ sep.intercalate parts) :
    f ∈ sep ∨ ∃ p ∈ parts, f ∈ p := by
  induction parts with
  | nil => simp [List.intercalate] at h
  | cons p parts ih =>
    cases parts with
    | nil => exact .inr ⟨p, by simp, by simpa [List.intercalate] using h⟩
    | cons q parts =>
      rw [List.intercalate_cons_cons, List.mem_append, List.mem_append] at h
      rcases h with (h | h) | h
      · exact .inr ⟨p, by simp, h⟩
      · exact .inl h
      · exact (ih h).imp_right fun ⟨p', hp', hf⟩ => ⟨p', by simp [hp'], hf⟩

theorem separated_intercalate (hSep : Separated sep) (hApart : StartsApart (text sep))
    (hne : text sep ≠ []) (hHoles : holes sep = []) (h : ∀ p ∈ parts, Separated p) :
    Separated (sep.intercalate parts) := by
  induction parts with
  | nil => trivial
  | cons p parts ih =>
    cases parts with
    | nil => simpa [List.intercalate] using h p (by simp)
    | cons q parts =>
      rw [List.intercalate_cons_cons, List.append_assoc]
      refine separated_append (h p (by simp)) ?_ ?_
      · exact separated_append_of_holes hSep (ih fun p' hp' => h p' (by simp [hp'])) hHoles
      · rw [text_append]
        exact startsApart_of_ne hApart hne

end Joined
end Moduless.Sql
