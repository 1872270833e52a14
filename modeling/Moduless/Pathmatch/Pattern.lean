import Moduless.Go.Builtin

/-!
Path globs: what `Compile` accepts and which paths a compiled pattern covers.
-/

namespace Moduless.Pathmatch
open Go

inductive Kind where
  | kindAll
  | kindExact
  | kindPrefix
  | kindSegments
  deriving DecidableEq

inductive PatternError where
  | emptyPattern
  | mustStartWithSlash (pattern : Str)
  | doubleStarNotFinal (pattern : Str)
  | starNotWholeSegment (pattern : Str)
  deriving DecidableEq

/-- `literal` is the path of an exact pattern, and the path before the final
`/**` of a prefix pattern; `segs` and `trailingAll` are read for segment
patterns only. -/
structure Pattern where
  raw : Str
  kind : Kind
  literal : Str := []
  segs : List Str := []
  trailingAll : Bool := false
  deriving DecidableEq

def star : Str := "*".toList

def doubleStar : Str := "**".toList

def slashDoubleStar : Str := "/**".toList

def splitSegments (path : Str) : List Str :=
  let trimmed := trim path '/'
  if trimmed = [] then [] else split trimmed '/'

/-- The part of `Compile` after the checks on the whole pattern: `body` is the
pattern without its final `/**`. -/
def compileBody (pattern body : Str) (trailingAll : Bool) : Except PatternError Pattern :=
  if containsStr body doubleStar then .error (.doubleStarNotFinal pattern)
  else
    let segs := splitSegments body
    if segs.any fun s => s ≠ star && containsStr s star then .error (.starNotWholeSegment pattern)
    else
      let hasWildcard := segs.contains star
      if !hasWildcard && trailingAll then
        .ok { raw := pattern, kind := .kindPrefix, literal := body }
      else if !hasWildcard then
        .ok { raw := pattern, kind := .kindExact, literal := body }
      else
        .ok { raw := pattern, kind := .kindSegments, segs := segs, trailingAll := trailingAll }

def compile (pattern : Str) : Except PatternError Pattern :=
  if pattern = [] then .error .emptyPattern
  else if pattern = doubleStar ∨ pattern = slashDoubleStar then
    .ok { raw := pattern, kind := .kindAll }
  else if !hasPrefix pattern ['/'] then .error (.mustStartWithSlash pattern)
  else if hasSuffix pattern slashDoubleStar then
    compileBody pattern (trimSuffix pattern slashDoubleStar) true
  else compileBody pattern pattern false

/-- The first path segment and the remainder; leading slashes are skipped. -/
def nextSegment (path : Str) : Str × Str :=
  let path := path.dropWhile (· = '/')
  (path.takeWhile (· ≠ '/'), path.dropWhile (· ≠ '/'))

def matchSegments (trailingAll : Bool) : List Str → Str → Bool
  | [], rest => trailingAll || rest = [] || rest = ['/']
  | want :: segs, rest =>
    let (got, rest) := nextSegment rest
    if got = [] then false
    else if want ≠ star && want ≠ got then false
    else matchSegments trailingAll segs rest

def Pattern.matches (p : Pattern) (path : Str) : Bool :=
  match p.kind with
  | .kindAll => true
  | .kindExact => path = p.literal
  | .kindPrefix =>
    if !hasPrefix path p.literal then false
    else
      let rest := path.drop p.literal.length
      rest = [] || rest = ['/'] || rest.head? = some '/'
  | .kindSegments => matchSegments p.trailingAll p.segs path

/-- A group of patterns; a path matches if any member does. -/
structure PatternSet where
  patterns : List Pattern
  matchAll : Bool
  deriving DecidableEq

def compileSetFrom (s : PatternSet) : List Str → Except PatternError PatternSet
  | [] => .ok s
  | raw :: rest =>
    match compile raw with
    | .error e => .error e
    | .ok p =>
      compileSetFrom ⟨s.patterns ++ [p], s.matchAll || p.kind = .kindAll⟩ rest

def compileSet (patterns : List Str) : Except PatternError PatternSet :=
  compileSetFrom ⟨[], false⟩ patterns

def PatternSet.matches (s : PatternSet) (path : Str) : Bool :=
  s.matchAll || s.patterns.any fun p => p.matches path

end Moduless.Pathmatch
