import Moduless.Go.Escape

/-!
JSON, as Go's `encoding/json` writes strings and reads texts.

`Json ν` are the JSON values whose numbers are kept as a `ν`. A text is a list of
its characters; `parse` keeps the literal of a number. A string may be written
with escapes; an escaped surrogate counts only together with its other half.
-/

namespace Moduless.Go

inductive Json (ν : Type) where
  | null
  | bool (b : Bool)
  | num (n : ν)
  | str (s : List Char)
  | arr (items : List (Json ν))
  | obj (members : List (List Char × Json ν))

namespace Json

variable {ν : Type}

mutual

/-- How deeply arrays and objects are nested. -/
def depth : Json ν → Nat
  | .null | .bool _ | .num _ | .str _ => 0
  | .arr items => depthItems items + 1
  | .obj members => depthMembers members + 1

def depthItems : List (Json ν) → Nat
  | [] => 0
  | v :: rest => max v.depth (depthItems rest)

def depthMembers : List (List Char × Json ν) → Nat
  | [] => 0
  | m :: rest => max (depthMember m) (depthMembers rest)

def depthMember : List Char × Json ν → Nat
  | (_, v) => v.depth

end

mutual

/-- Every number in a value is as asked. -/
def allNumbers (ok : ν → Bool) : Json ν → Bool
  | .null | .bool _ | .str _ => true
  | .num n => ok n
  | .arr items => allItems ok items
  | .obj members => allMembers ok members

def allItems (ok : ν → Bool) : List (Json ν) → Bool
  | [] => true
  | v :: rest => v.allNumbers ok && allItems ok rest

def allMembers (ok : ν → Bool) : List (List Char × Json ν) → Bool
  | [] => true
  | m :: rest => allMember ok m && allMembers ok rest

def allMember (ok : ν → Bool) : List Char × Json ν → Bool
  | (_, v) => v.allNumbers ok

end

/-- The scanner of `encoding/json` refuses deeper texts. -/
def maxNestingDepth : Nat := 10000

def hexDigit (n : Nat) : Char := "0123456789abcdef".toList.getD n '0'

/-- The escape of a character by its number. -/
def escapeCode (n : Nat) : List Char :=
  ['\x5c', 'u', hexDigit (n / 4096 % 16), hexDigit (n / 256 % 16), hexDigit (n / 16 % 16),
    hexDigit (n % 16)]

/-- The characters with an escape of their own, and its letter. -/
def shortEscapes : List (Char × Char) :=
  [('\x22', '\x22'), ('\x5c', '\x5c'), ('\x08', 'b'), ('\x0c', 'f'), ('\n', 'n'), ('\r', 'r'),
    ('\t', 't')]

/-- `json.Marshal` also escapes what could end a script or a line in a page. -/
def unsafeInPage : List Char := ['<', '>', '&', '\u2028', '\u2029']

def quoteChar (c : Char) : List Char :=
  match shortEscapes.lookup c with
  | some e => ['\x5c', e]
  | none => if c.toNat < 0x20 ∨ c ∈ unsafeInPage then escapeCode c.toNat else [c]

/-- A string as `json.Marshal` writes it. -/
def quote (s : List Char) : List Char := '\x22' :: (s.flatMap quoteChar ++ ['\x22'])

/-- A piece of a string literal: a character, or the number in an escape. -/
inductive Piece where
  | char (c : Char)
  | code (n : Nat)

def escapeOf (e : Char) : Option Char :=
  if e = '/' then some '/' else (shortEscapes.find? (·.2 = e)).map (·.1)

/-- The pieces of a string literal after its first quote, and what follows it. -/
def pieces : List Char → Option (List Piece × List Char)
  | [] => none
  | c :: rest =>
    if c = '\x22' then some ([], rest)
    else if c = '\x5c' then
      match rest with
      | [] => none
      | e :: rest =>
        if e = 'u' then
          match rest with
          | d₁ :: d₂ :: d₃ :: d₄ :: rest =>
            if isHex d₁ && isHex d₂ && isHex d₃ && isHex d₄ then
              let n := 4096 * unhex d₁ + 256 * unhex d₂ + 16 * unhex d₃ + unhex d₄
              (pieces rest).map fun p => (.code n :: p.1, p.2)
            else none
          | _ => none
        else
          match escapeOf e with
          | some c => (pieces rest).map fun p => (.char c :: p.1, p.2)
          | none => none
    else if c.toNat < 0x20 then none
    else (pieces rest).map fun p => (.char c :: p.1, p.2)

def isHigh (n : Nat) : Bool := 0xD800 ≤ n && n < 0xDC00

def isLow (n : Nat) : Bool := 0xDC00 ≤ n && n < 0xE000

/-- Half a surrogate pair stands for no character. -/
def single (n : Nat) : Char := if isHigh n || isLow n then '\ufffd' else Char.ofNat n

def chars : List Piece → List Char
  | [] => []
  | .char c :: rest => c :: chars rest
  | .code n :: .code m :: rest =>
    if isHigh n && isLow m then
      Char.ofNat (0x10000 + (n - 0xD800) * 0x400 + (m - 0xDC00)) :: chars rest
    else single n :: chars (.code m :: rest)
  | .code n :: rest => single n :: chars rest

def parseString (cs : List Char) : Option (List Char × List Char) :=
  (pieces cs).map fun p => (chars p.1, p.2)

def skipSpace (cs : List Char) : List Char :=
  cs.dropWhile fun c => c = ' ' || c = '\t' || c = '\n' || c = '\r'

def digits (cs : List Char) : Option (List Char × List Char) :=
  match cs.span Char.isDigit with
  | ([], _) => none
  | (ds, rest) => some (ds, rest)

def parseSign : List Char → List Char × List Char
  | '-' :: rest => (['-'], rest)
  | cs => ([], cs)

def parseFraction : List Char → Option (List Char × List Char)
  | '.' :: rest => (digits rest).map fun p => ('.' :: p.1, p.2)
  | cs => some ([], cs)

def parseExponent : List Char → Option (List Char × List Char)
  | e :: rest =>
    if e = 'e' ∨ e = 'E' then
      match rest with
      | '+' :: rest => (digits rest).map fun p => (e :: '+' :: p.1, p.2)
      | '-' :: rest => (digits rest).map fun p => (e :: '-' :: p.1, p.2)
      | rest => (digits rest).map fun p => (e :: p.1, p.2)
    else some ([], e :: rest)
  | [] => some ([], [])

/-- The literal of a number; no zero stands before another digit. -/
def parseNumber (cs : List Char) : Option (List Char × List Char) := do
  let (sign, cs) := parseSign cs
  let (int, cs) ← digits cs
  if int.head? = some '0' ∧ int ≠ ['0'] then none
  else
    let (frac, cs) ← parseFraction cs
    let (exp, cs) ← parseExponent cs
    some (sign ++ int ++ frac ++ exp, cs)

mutual

/-- One value and what follows it. -/
def parseValue : Nat → List Char → Option (Json (List Char) × List Char)
  | 0, _ => none
  | fuel + 1, cs =>
    match skipSpace cs with
    | '\x22' :: rest => (parseString rest).map fun p => (.str p.1, p.2)
    | '[' :: rest =>
      match skipSpace rest with
      | ']' :: rest => some (.arr [], rest)
      | rest => (parseItems fuel rest).map fun p => (.arr p.1, p.2)
    | '\x7b' :: rest =>
      match skipSpace rest with
      | '\x7d' :: rest => some (.obj [], rest)
      | rest => (parseMembers fuel rest).map fun p => (.obj p.1, p.2)
    | 'n' :: 'u' :: 'l' :: 'l' :: rest => some (.null, rest)
    | 't' :: 'r' :: 'u' :: 'e' :: rest => some (.bool true, rest)
    | 'f' :: 'a' :: 'l' :: 's' :: 'e' :: rest => some (.bool false, rest)
    | rest => (parseNumber rest).map fun p => (.num p.1, p.2)

def parseItems : Nat → List Char → Option (List (Json (List Char)) × List Char)
  | 0, _ => none
  | fuel + 1, cs =>
    match parseValue fuel cs with
    | none => none
    | some (v, rest) =>
      match skipSpace rest with
      | ',' :: rest => (parseItems fuel rest).map fun p => (v :: p.1, p.2)
      | ']' :: rest => some ([v], rest)
      | _ => none

def parseMembers :
    Nat → List Char → Option (List (List Char × Json (List Char)) × List Char)
  | 0, _ => none
  | fuel + 1, cs =>
    match skipSpace cs with
    | '\x22' :: rest =>
      match parseString rest with
      | none => none
      | some (name, rest) =>
        match skipSpace rest with
        | ':' :: rest =>
          match parseValue fuel rest with
          | none => none
          | some (v, rest) =>
            match skipSpace rest with
            | ',' :: rest =>
              (parseMembers fuel rest).map fun p => ((name, v) :: p.1, p.2)
            | '\x7d' :: rest => some ([(name, v)], rest)
            | _ => none
        | _ => none
    | _ => none

end

/-- A whole text. Every character takes at most two steps. -/
def parse (cs : List Char) : Option (Json (List Char)) :=
  match parseValue (2 * cs.length + 2) cs with
  | none => none
  | some (v, rest) =>
    if skipSpace rest = [] ∧ v.depth ≤ maxNestingDepth then some v else none

/-- How `quoteChar` writes a character, as the reader sees it. -/
def pieceOf (c : Char) : Piece :=
  if shortEscapes.lookup c = none ∧ (c.toNat < 0x20 ∨ c ∈ unsafeInPage) then .code c.toNat
  else .char c

theorem unhex_hexDigit : ∀ n < 16, isHex (hexDigit n) = true ∧ unhex (hexDigit n) = n := by
  decide

theorem pieces_escapeCode {n : Nat} (hn : n < 65536) (rest : List Char) :
    pieces (escapeCode n ++ rest) = (pieces rest).map fun p => (.code n :: p.1, p.2) := by
  obtain ⟨h₁, v₁⟩ := unhex_hexDigit (n / 4096 % 16) (by omega)
  obtain ⟨h₂, v₂⟩ := unhex_hexDigit (n / 256 % 16) (by omega)
  obtain ⟨h₃, v₃⟩ := unhex_hexDigit (n / 16 % 16) (by omega)
  obtain ⟨h₄, v₄⟩ := unhex_hexDigit (n % 16) (by omega)
  have hSum : 4096 * (n / 4096 % 16) + 256 * (n / 256 % 16) + 16 * (n / 16 % 16) + n % 16 = n := by
    omega
  simp only [escapeCode, List.cons_append, List.nil_append]
  rw [pieces.eq_def]
  simp only [Char.reduceEq, if_false, if_true, h₁, h₂, h₃, h₄, v₁, v₂, v₃, v₄, hSum, Bool.and_self]

theorem shortEscapes_read : ∀ p ∈ shortEscapes, escapeOf p.2 = some p.1 ∧ p.2 ≠ 'u' := by
  decide

theorem pieces_short {c e : Char} (h : shortEscapes.lookup c = some e) (rest : List Char) :
    pieces ('\x5c' :: e :: rest) = (pieces rest).map fun p => (.char c :: p.1, p.2) := by
  obtain ⟨l₁, l₂, hSplit, -⟩ := List.lookup_eq_some_iff.mp h
  obtain ⟨hRead, hLetter⟩ := shortEscapes_read (c, e) (by simp [hSplit])
  rw [pieces.eq_def]
  simp only [Char.reduceEq, if_false, if_true, if_neg hLetter, hRead]

theorem pieces_plain {c : Char} (h : shortEscapes.lookup c = none) (hc : ¬ c.toNat < 0x20)
    (rest : List Char) :
    pieces (c :: rest) = (pieces rest).map fun p => (.char c :: p.1, p.2) := by
  have hQuote : c ≠ '\x22' := by
    intro hEq
    rw [hEq] at h
    exact absurd h (by decide)
  have hSlash : c ≠ '\x5c' := by
    intro hEq
    rw [hEq] at h
    exact absurd h (by decide)
  rw [pieces.eq_def]
  simp only [if_neg hQuote, if_neg hSlash, if_neg hc]

theorem unsafeInPage_lt : ∀ c ∈ unsafeInPage, c.toNat < 0xD800 := by
  simp only [unsafeInPage, List.forall_mem_cons]
  exact ⟨by decide, by decide, by decide, by decide, by decide,
    fun _ h => absurd h List.not_mem_nil⟩

theorem pieces_quoteChar (c : Char) (rest : List Char) :
    pieces (quoteChar c ++ rest) = (pieces rest).map fun p => (pieceOf c :: p.1, p.2) := by
  cases h : shortEscapes.lookup c with
  | some e =>
    have hPiece : pieceOf c = .char c := if_neg fun hCode => by simp [h] at hCode
    have hQuote : quoteChar c = ['\x5c', e] := by rw [quoteChar, h]
    rw [hPiece, hQuote]
    exact pieces_short h rest
  | none =>
    by_cases hCode : c.toNat < 0x20 ∨ c ∈ unsafeInPage
    · have hPiece : pieceOf c = .code c.toNat := if_pos ⟨h, hCode⟩
      have hQuote : quoteChar c = escapeCode c.toNat := by simp only [quoteChar, h, if_pos hCode]
      have hSmall : c.toNat < 0xD800 := hCode.elim (fun h => by omega) (unsafeInPage_lt c)
      rw [hPiece, hQuote]
      exact pieces_escapeCode (by omega) rest
    · have hPiece : pieceOf c = .char c := if_neg fun h => hCode h.2
      have hQuote : quoteChar c = [c] := by simp only [quoteChar, h, if_neg hCode]
      rw [hPiece, hQuote]
      exact pieces_plain h (fun h => hCode (.inl h)) rest

theorem pieces_quoted (s rest : List Char) :
    pieces (s.flatMap quoteChar ++ '\x22' :: rest) = some (s.map pieceOf, rest) := by
  induction s with
  | nil =>
    rw [pieces.eq_def]
    rfl
  | cons c s ih =>
    rw [List.flatMap_cons, List.append_assoc, pieces_quoteChar, ih]
    rfl

theorem single_char {c : Char} (h : c.toNat < 0xD800) : single c.toNat = c := by
  have hHigh : isHigh c.toNat = false := by simp [isHigh]; omega
  have hLow : isLow c.toNat = false := by simp [isLow]; omega
  rw [single, hHigh, hLow]
  exact Char.ofNat_toNat c

theorem pieceOf_cases (c : Char) :
    pieceOf c = .char c ∨ pieceOf c = .code c.toNat ∧ c.toNat < 0xD800 := by
  unfold pieceOf
  split
  · rename_i h
    exact .inr ⟨rfl, h.2.elim (fun h => by omega) (unsafeInPage_lt c)⟩
  · exact .inl rfl

/-- What is written as a number is no surrogate, so nothing is joined. -/
theorem chars_code {n : Nat} (hn : n < 0xD800) (ps : List Piece) :
    chars (.code n :: ps) = single n :: chars ps := by
  have hHigh : isHigh n = false := by simp [isHigh]; omega
  cases ps with
  | nil => rfl
  | cons p ps =>
    cases p with
    | char c => rfl
    | code m => rw [chars, hHigh]; rfl

theorem chars_pieceOf (s : List Char) : chars (s.map pieceOf) = s := by
  induction s with
  | nil => rfl
  | cons c s ih =>
    rw [List.map_cons]
    rcases pieceOf_cases c with h | ⟨h, hc⟩
    · rw [h, chars, ih]
    · rw [h, chars_code hc, ih, single_char hc]

/-- What `json.Marshal` writes for a string is read back. -/
theorem parseString_quoted (s rest : List Char) :
    parseString (s.flatMap quoteChar ++ '\x22' :: rest) = some (s, rest) := by
  rw [parseString, pieces_quoted, Option.map_some, chars_pieceOf]

theorem quote_append (name cs : List Char) :
    quote name ++ cs = '\x22' :: (name.flatMap quoteChar ++ '\x22' :: cs) := by
  simp [quote]

theorem skipSpace_quote (name cs : List Char) :
    skipSpace (quote name ++ cs) = quote name ++ cs := by
  rw [quote_append]
  rfl

theorem parseValue_quote (fuel : Nat) (s rest : List Char) :
    parseValue (fuel + 1) (quote s ++ rest) = some (.str s, rest) := by
  rw [parseValue, skipSpace_quote, quote_append]
  simp only [parseString_quoted, Option.map_some]

theorem parseItems_last {fuel : Nat} {cs rest : List Char} {v : Json (List Char)}
    (h : parseValue fuel cs = some (v, ']' :: rest)) :
    parseItems (fuel + 1) cs = some ([v], rest) := by
  rw [parseItems, h]
  rfl

theorem parseItems_cons {fuel : Nat} {cs rest : List Char} {v : Json (List Char)}
    (h : parseValue fuel cs = some (v, ',' :: rest)) :
    parseItems (fuel + 1) cs = (parseItems fuel rest).map fun p => (v :: p.1, p.2) := by
  rw [parseItems, h]
  rfl

theorem parseValue_arr {fuel : Nat} {cs rest : List Char} {items : List (Json (List Char))}
    (h : parseItems fuel ('\x22' :: cs) = some (items, rest)) :
    parseValue (fuel + 1) ('[' :: '\x22' :: cs) = some (.arr items, rest) := by
  have hBracket : skipSpace ('[' :: '\x22' :: cs) = '[' :: '\x22' :: cs := rfl
  have hQuote : skipSpace ('\x22' :: cs) = '\x22' :: cs := rfl
  rw [parseValue, hBracket]
  simp only [hQuote]
  change (parseItems fuel ('\x22' :: cs)).map _ = _
  rw [h]
  rfl

theorem parseValue_obj {fuel : Nat} {cs rest : List Char}
    {members : List (List Char × Json (List Char))}
    (h : parseMembers fuel ('\x22' :: cs) = some (members, rest)) :
    parseValue (fuel + 1) ('\x7b' :: '\x22' :: cs) = some (.obj members, rest) := by
  have hBrace : skipSpace ('\x7b' :: '\x22' :: cs) = '\x7b' :: '\x22' :: cs := rfl
  have hQuote : skipSpace ('\x22' :: cs) = '\x22' :: cs := rfl
  rw [parseValue, hBrace]
  simp only [hQuote]
  change (parseMembers fuel ('\x22' :: cs)).map _ = _
  rw [h]
  rfl

theorem parse_of_parseValue {cs : List Char} {v : Json (List Char)}
    (h : parseValue (2 * cs.length + 2) cs = some (v, [])) (hDepth : v.depth ≤ maxNestingDepth) :
    parse cs = some v := by
  rw [parse, h]
  exact if_pos ⟨rfl, hDepth⟩

theorem parseMembers_last {fuel : Nat} (name : List Char) {cs rest : List Char}
    {v : Json (List Char)}
    (h : parseValue fuel cs = some (v, '\x7d' :: rest)) :
    parseMembers (fuel + 1) (quote name ++ ':' :: cs) = some ([(name, v)], rest) := by
  have hColon : skipSpace (':' :: cs) = ':' :: cs := rfl
  have hBrace : skipSpace ('\x7d' :: rest) = '\x7d' :: rest := rfl
  rw [parseMembers, skipSpace_quote, quote_append]
  simp only [parseString_quoted, hColon, h, hBrace]

theorem parseMembers_cons {fuel : Nat} (name : List Char) {cs rest : List Char}
    {v : Json (List Char)}
    (h : parseValue fuel cs = some (v, ',' :: rest)) :
    parseMembers (fuel + 1) (quote name ++ ':' :: cs) =
      (parseMembers fuel rest).map fun p => ((name, v) :: p.1, p.2) := by
  have hColon : skipSpace (':' :: cs) = ':' :: cs := rfl
  have hComma : skipSpace (',' :: rest) = ',' :: rest := rfl
  rw [parseMembers, skipSpace_quote, quote_append]
  simp only [parseString_quoted, hColon, h, hComma]

end Json
end Moduless.Go
