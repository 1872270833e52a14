import Mathlib.Data.List.Infix
import Mathlib.Data.List.DropRight
import Mathlib.Order.Basic

/-!
The parts of Go's `strings` and `path` packages and of its fixed-width integers
that the gateway uses. A Go string is a sequence of bytes; it is written here
as a list with one character for each byte.
-/

namespace Moduless.Go

abbrev Str := List Char

instance lawfulBEq_str : LawfulBEq Str := inferInstance

/-- A 64-bit integer after wrapping arithmetic. -/
def int64 (x : Int) : Int := Int.bmod x 0x10000000000000000

/-- A number cut down to 32 bits. -/
def int32 (x : Int) : Int := Int.bmod x 0x100000000

/-- A duration in nanoseconds. -/
abbrev Duration := Int

def millisecond : Duration := 1000000

def second : Duration := 1000 * millisecond

def hasPrefix (s p : Str) : Bool := p.isPrefixOf s

def hasSuffix (s p : Str) : Bool := p.isSuffixOf s

def trimPrefix (s p : Str) : Str := if hasPrefix s p then s.drop p.length else s

def trimSuffix (s p : Str) : Str := if hasSuffix s p then s.take (s.length - p.length) else s

def containsStr (s p : Str) : Bool := s.tails.any fun t => hasPrefix t p

/-- `strings.Trim` with a cutset of one character. -/
def trim (s : Str) (c : Char) : Str := (s.dropWhile (· = c)).rdropWhile (· = c)

def split (s : Str) (c : Char) : List Str := s.splitOn c

def join (l : List Str) (c : Char) : Str := [c].intercalate l

/-- One element of a path in the loop of `path.Clean`; `out` holds the elements
kept so far, the last one first. -/
def cleanStep (rooted : Bool) (out : List Str) (seg : Str) : List Str :=
  if seg = [] ∨ seg = ['.'] then out
  else if seg = ['.', '.'] then
    match out with
    | [] => if rooted then [] else [seg]
    | top :: rest => if top = ['.', '.'] then seg :: out else rest
  else seg :: out

def cleanSegments (rooted : Bool) (segs : List Str) : List Str :=
  (segs.foldl (cleanStep rooted) []).reverse

/-- `path.Clean`. -/
def clean (p : Str) : Str :=
  match p with
  | [] => ['.']
  | '/' :: rest => '/' :: join (cleanSegments true (split rest '/')) '/'
  | _ =>
    match cleanSegments false (split p '/') with
    | [] => ['.']
    | segs => join segs '/'

@[simp] theorem hasPrefix_iff {s p : Str} : hasPrefix s p = true ↔ p <+: s :=
  List.isPrefixOf_iff_prefix

@[simp] theorem hasSuffix_iff {s p : Str} : hasSuffix s p = true ↔ p <:+ s :=
  List.isSuffixOf_iff_suffix

theorem trimSuffix_append (s p : Str) : trimSuffix (s ++ p) p = s := by
  simp [trimSuffix]

theorem containsStr_iff {s p : Str} : containsStr s p = true ↔ p <:+: s := by
  simp only [containsStr, List.any_eq_true, List.mem_tails, hasPrefix_iff]
  constructor
  · rintro ⟨t, hSuffix, hPrefix⟩
    exact hPrefix.isInfix.trans hSuffix.isInfix
  · rintro ⟨a, b, rfl⟩
    exact ⟨p ++ b, ⟨a, by simp⟩, ⟨b, rfl⟩⟩

end Moduless.Go
