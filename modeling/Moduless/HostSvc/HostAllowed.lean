import Moduless.Go.Case
import Moduless.Go.Strconv
import Moduless.Go.Words

/-!
Which hosts a plugin may reach.

`hostAllowed` compares texts. What the texts stand for are sequences of labels that are
compared without regard to case, and a dot at the end makes no difference to the name.
The host loses such a dot before it is compared and a pattern does not, so that a pattern
with a dot at the end matches nothing, not even the host that is written in the same way.
Texts are lists of characters here, not of bytes.
-/

namespace Moduless.Egress
open Go

/-- The case mapping of `strings.ToLower`. Dots and stars have no case, and no other
character has one of them as its lower case. -/
structure CaseMap where
  lower : Char → Char
  dot : ∀ c, lower c = '.' ↔ c = '.'
  star : ∀ c, lower c = '*' ↔ c = '*'

namespace CaseMap

/-- The case mapping of ASCII texts. -/
def ascii : CaseMap where
  lower := Char.toLower
  dot _ := toLower_eq_iff (by decide)
  star _ := toLower_eq_iff (by decide)

def toLower (cm : CaseMap) (s : Str) : Str := s.map cm.lower

end CaseMap

/-- `strings.CutPrefix`. -/
def cutPrefix (s p : Str) : Option Str := if hasPrefix s p then some (s.drop p.length) else none

/-- One turn of the loop, for a host that has been trimmed and lowered. -/
def patternAllows (cm : CaseMap) (host p : Str) : Bool :=
  let p := cm.toLower (trimSpace p)
  if p = [] then false
  else if p = host then true
  else
    match cutPrefix p "*.".toList with
    | some suffix => hasSuffix host ('.' :: suffix)
    | none => false

def hostAllowed (cm : CaseMap) (host : Str) (patterns : List Str) : Bool :=
  patterns.any (patternAllows cm (cm.toLower (trimSuffix host ".".toList)))

/-- A name of labels that are not empty, with or without a dot at the end. -/
structure HostName where
  labels : List Str
  dotted : Bool
  nonempty : labels ≠ []
  wellFormed : ∀ l ∈ labels, l ≠ [] ∧ ∀ c ∈ l, c ≠ '.' ∧ unicodeIsSpace c = false

theorem wellFormed_of_check {ls : List Str}
    (h : (ls.all fun l => !l.isEmpty && l.all fun c => c != '.' && !unicodeIsSpace c) = true) :
    ∀ l ∈ ls, l ≠ [] ∧ ∀ c ∈ l, c ≠ '.' ∧ unicodeIsSpace c = false := by
  simpa using h

inductive Pattern where
  | name (n : HostName)
  | wildcard (n : HostName)

namespace HostName

def text (n : HostName) : Str := join n.labels '.' ++ if n.dotted then ['.'] else []

/-- The labels without regard to case. -/
def folded (cm : CaseMap) (n : HostName) : List Str := n.labels.map cm.toLower

end HostName

def Pattern.text : Pattern → Str
  | .name n => n.text
  | .wildcard n => "*.".toList ++ n.text

/-- The pattern is the host, or a star and some labels that the host has after at least one
of its own. -/
def Matches (cm : CaseMap) (p : Str) (host : HostName) : Prop :=
  ∃ n : HostName, (p = n.text ∧ n.folded cm = host.folded cm) ∨
    (p = "*.".toList ++ n.text ∧ ∃ more, more ≠ [] ∧ host.folded cm = more ++ n.folded cm)

namespace HostName

variable (cm : CaseMap) (n : HostName)

theorem words : ∀ l ∈ n.labels, l ≠ [] ∧ '.' ∉ l :=
  fun l hl => ⟨(n.wellFormed l hl).1, fun hDot => ((n.wellFormed l hl).2 '.' hDot).1 rfl⟩

theorem folded_words : ∀ l ∈ n.folded cm, l ≠ [] ∧ '.' ∉ l := by
  intro l hl
  obtain ⟨k, hk, rfl⟩ := List.mem_map.mp hl
  refine ⟨by simpa [CaseMap.toLower] using (n.words k hk).1, fun hDot => ?_⟩
  obtain ⟨c, hc, hLower⟩ := List.mem_map.mp hDot
  rw [cm.dot] at hLower
  exact (n.words k hk).2 (hLower ▸ hc)

theorem folded_ne_nil : n.folded cm ≠ [] := by simpa [folded] using n.nonempty

theorem toLower_join : cm.toLower (join n.labels '.') = join (n.folded cm) '.' :=
  map_join cm.lower ((cm.dot '.').mpr rfl) n.labels

theorem toLower_text (h : n.dotted = false) : cm.toLower n.text = join (n.folded cm) '.' := by
  rw [text, h, if_neg Bool.false_ne_true, List.append_nil, n.toLower_join]

theorem not_dot_suffix {ws : List Str} (hws : ∀ w ∈ ws, w ≠ [] ∧ '.' ∉ w) (hne : ws ≠ []) :
    ¬ ['.'] <:+ join ws '.' := by
  obtain ⟨-, -, d, back, -, hBack, -, hd⟩ := join_ends hws hne
  rw [hBack]
  rintro ⟨front, hFront⟩
  have hLast := List.append_inj_right' hFront rfl
  exact hd (by simpa using hLast.symm)

theorem trimSuffix_text : trimSuffix n.text ".".toList = join n.labels '.' := by
  rw [text]
  cases n.dotted with
  | true => exact trimSuffix_append _ _
  | false =>
    rw [if_neg Bool.false_ne_true, List.append_nil, trimSuffix, if_neg]
    rw [hasSuffix_iff]
    exact not_dot_suffix n.words n.nonempty

theorem text_inj {m n : HostName} (h : m.text = n.text) :
    m.labels = n.labels ∧ m.dotted = n.dotted := by
  have hLabels : m.labels = n.labels := by
    apply (join_inj m.words m.nonempty n.words n.nonempty).mp
    rw [← trimSuffix_text, ← trimSuffix_text, h]
  refine ⟨hLabels, ?_⟩
  rw [text, text, hLabels, List.append_cancel_left_eq] at h
  revert h
  cases m.dotted <;> cases n.dotted <;> simp

theorem not_space : ∀ c ∈ n.text, unicodeIsSpace c = false := by
  intro c hc
  have hDot : unicodeIsSpace '.' = false := by decide
  rcases List.mem_append.mp hc with hc | hc
  · obtain rfl | ⟨l, hl, hc⟩ := mem_join hc
    · exact hDot
    · exact ((n.wellFormed l hl).2 c hc).2
  · revert hc
    cases n.dotted <;> simp +contextual [hDot]

theorem trimSpace_text : trimSpace n.text = n.text := by
  have hNot := n.not_space
  rw [trimSpace, List.dropWhile_eq_self_iff.mpr, List.rdropWhile_eq_self_iff.mpr]
  · intro hne
    simp [hNot _ (List.getLast_mem hne)]
  · intro hl
    simp [hNot _ (List.getElem_mem hl)]

end HostName

/-- A star is a label like any other. -/
def Pattern.asName : Pattern → HostName
  | .name n => n
  | .wildcard n =>
    { labels := ['*'] :: n.labels
      dotted := n.dotted
      nonempty := List.cons_ne_nil _ _
      wellFormed := List.forall_mem_cons.mpr
        ⟨wellFormed_of_check rfl _ (List.mem_singleton_self ['*']), n.wellFormed⟩ }

theorem Pattern.text_asName (p : Pattern) : p.asName.text = p.text := by
  cases p with
  | name n => rfl
  | wildcard n =>
    obtain ⟨l, ls, hLabels⟩ := List.exists_cons_of_ne_nil n.nonempty
    simp only [asName, HostName.text, text, hLabels, join_cons_cons]
    rfl

section Matching

variable {cm : CaseMap} {host m : HostName}

theorem cutPrefix_eq_some {s p suffix : Str} : cutPrefix s p = some suffix ↔ s = p ++ suffix := by
  rw [cutPrefix]
  split
  next h =>
    obtain ⟨rest, rfl⟩ := hasPrefix_iff.mp h
    simp
  next h =>
    rw [hasPrefix_iff] at h
    refine ⟨nofun, ?_⟩
    rintro rfl
    exact absurd (List.prefix_append _ _) h

theorem patternAllows_iff_text {h p : Str} (hTrim : trimSpace p = p) (hne : p ≠ []) :
    patternAllows cm h p = true ↔ cm.toLower p = h ∨
      ∃ suffix, cm.toLower p = "*.".toList ++ suffix ∧ '.' :: suffix <:+ h := by
  have hLower : cm.toLower p ≠ [] := by simpa [CaseMap.toLower] using hne
  rw [patternAllows, hTrim]
  simp only [hLower, if_false]
  by_cases hEq : cm.toLower p = h
  · simp [hEq]
  · simp only [hEq, if_false, false_or]
    cases hCut : cutPrefix (cm.toLower p) "*.".toList with
    | none =>
      simp only [Bool.false_eq_true, false_iff]
      rintro ⟨suffix, hSuffix, -⟩
      rw [← cutPrefix_eq_some, hCut] at hSuffix
      cases hSuffix
    | some suffix =>
      simp only [← cutPrefix_eq_some, hCut, Option.some.injEq, hasSuffix_iff,
        exists_eq_left']

theorem toLower_eq_star_iff (hPlain : m.dotted = false) :
    (∃ suffix, cm.toLower m.text = "*.".toList ++ suffix ∧
        '.' :: suffix <:+ join (host.folded cm) '.') ↔
      ∃ rest, rest ≠ [] ∧ m.folded cm = ['*'] :: rest ∧
        ∃ more, more ≠ [] ∧ host.folded cm = more ++ rest := by
  rw [m.toLower_text cm hPlain]
  constructor
  · rintro ⟨suffix, hSuffix, hHost⟩
    have hFolded : m.folded cm = ['*'] :: split suffix '.' := by
      rw [← split_join (m.folded_words cm) (m.folded_ne_nil cm), hSuffix]
      exact split_append ['*'] suffix
    have hne : split suffix '.' ≠ [] := List.splitOn_ne_nil _ _
    have hRest : ∀ l ∈ split suffix '.', l ≠ [] ∧ '.' ∉ l := fun l hl =>
      m.folded_words cm l (hFolded ▸ List.mem_cons_of_mem _ hl)
    have hJoin : join (split suffix '.') '.' = suffix := List.intercalate_splitOn _
    refine ⟨split suffix '.', hne, hFolded, ?_⟩
    apply (suffix_join_iff (host.folded_words cm) (host.folded_ne_nil cm) hRest hne).mp
    rw [hJoin]
    exact hHost
  · rintro ⟨rest, hne, hFolded, hHost⟩
    have hRest : ∀ l ∈ rest, l ≠ [] ∧ '.' ∉ l := fun l hl =>
      m.folded_words cm l (hFolded ▸ List.mem_cons_of_mem _ hl)
    refine ⟨join rest '.', ?_, ?_⟩
    · obtain ⟨l, ls, rfl⟩ := List.exists_cons_of_ne_nil hne
      rw [hFolded, join_cons_cons]
      rfl
    · exact (suffix_join_iff (host.folded_words cm) (host.folded_ne_nil cm) hRest hne).mpr hHost

theorem toLower_star {l : Str} : cm.toLower l = ['*'] ↔ l = ['*'] := by
  constructor
  · intro h
    obtain ⟨c, rest, rfl, hc, hRest⟩ := List.map_eq_cons_iff.mp h
    rw [(cm.star c).mp hc, List.map_eq_nil_iff.mp hRest]
  · rintro rfl
    simp [CaseMap.toLower, (cm.star '*').mpr rfl]

theorem matches_iff (hPlain : m.dotted = false) :
    Matches cm m.text host ↔ m.folded cm = host.folded cm ∨
      ∃ rest, rest ≠ [] ∧ m.folded cm = ['*'] :: rest ∧
        ∃ more, more ≠ [] ∧ host.folded cm = more ++ rest := by
  constructor
  · rintro ⟨n, ⟨hText, hSame⟩ | ⟨hText, hHost⟩⟩
    · left
      rw [HostName.folded, (HostName.text_inj hText).1]
      exact hSame
    · right
      have hName : m.text = (Pattern.wildcard n).asName.text := by
        rw [hText, Pattern.text_asName, Pattern.text]
      refine ⟨n.folded cm, n.folded_ne_nil cm, ?_, hHost⟩
      rw [HostName.folded, (HostName.text_inj hName).1]
      exact congrArg (· :: n.folded cm) (toLower_star.mpr rfl)
  · rintro (hSame | ⟨rest, hne, hFolded, hHost⟩)
    · exact ⟨m, .inl ⟨rfl, hSame⟩⟩
    · obtain ⟨l, ls, hLabels, hStar, rfl⟩ := List.map_eq_cons_iff.mp hFolded
      rw [toLower_star] at hStar
      subst hStar
      let n : HostName :=
        { labels := ls
          dotted := false
          nonempty := fun hNil => hne (by rw [hNil]; rfl)
          wellFormed := fun k hk => m.wellFormed k (hLabels ▸ List.mem_cons_of_mem _ hk) }
      refine ⟨n, .inr ⟨?_, hHost⟩⟩
      change m.text = (Pattern.wildcard n).text
      rw [← Pattern.text_asName, HostName.text, HostName.text, hLabels, hPlain]
      rfl

theorem patternAllows_iff : patternAllows cm (join (host.folded cm) '.') m.text = true ↔
    m.dotted = false ∧ Matches cm m.text host := by
  have hNonempty : m.text ≠ [] := by
    obtain ⟨c, front, -, -, hFront, -⟩ := join_ends m.words m.nonempty
    simp [HostName.text, hFront]
  rw [patternAllows_iff_text m.trimSpace_text hNonempty]
  by_cases hPlain : m.dotted = false
  · rw [toLower_eq_star_iff hPlain, matches_iff hPlain, m.toLower_text cm hPlain,
      join_inj (m.folded_words cm) (m.folded_ne_nil cm) (host.folded_words cm)
        (host.folded_ne_nil cm)]
    simp only [hPlain, true_and]
  · have hEnds : ['.'] <:+ cm.toLower m.text := by
      rw [HostName.text, if_pos (by simpa using hPlain), CaseMap.toLower,
        List.map_append, List.map_singleton, (cm.dot '.').mpr rfl]
      exact List.suffix_append _ _
    have hHost := HostName.not_dot_suffix (host.folded_words cm) (host.folded_ne_nil cm)
    rw [iff_false_right (fun hBoth => hPlain hBoth.1)]
    simp only [not_or, not_exists, not_and]
    refine ⟨fun hEq => hHost (hEq ▸ hEnds), fun suffix hSuffix hAfter => hHost ?_⟩
    rw [hSuffix] at hEnds
    have hRest : ['.'] <:+ '.' :: suffix := by
      rcases List.suffix_cons_iff.mp hEnds with hAll | hRest
      · cases hAll
      · exact hRest
    exact hRest.trans hAfter

end Matching

/-- The host is allowed where a pattern matches it, unless all that match it are written with
a dot at the end. -/
theorem hostAllowed_matches_iff (cm : CaseMap) (host : HostName) (patterns : List Pattern) :
    (hostAllowed cm host.text (patterns.map Pattern.text) = true ↔
        ∃ p ∈ patterns, Matches cm p.text host) ↔
      ((∃ p ∈ patterns, Matches cm p.text host) →
        ∃ p ∈ patterns, p.asName.dotted = false ∧ Matches cm p.text host) := by
  have hAllowed : hostAllowed cm host.text (patterns.map Pattern.text) = true ↔
      ∃ p ∈ patterns, p.asName.dotted = false ∧ Matches cm p.text host := by
    rw [hostAllowed, host.trimSuffix_text, host.toLower_join, List.any_map, List.any_eq_true]
    simp only [Function.comp_apply, ← Pattern.text_asName, patternAllows_iff]
  rw [hAllowed]
  constructor
  · intro h
    exact h.mpr
  · intro h
    refine ⟨?_, h⟩
    rintro ⟨p, hp, -, hMatch⟩
    exact ⟨p, hp, hMatch⟩

/-- `example.com` with a dot at the end. -/
def exampleDotted : HostName where
  labels := ["example".toList, "com".toList]
  dotted := true
  nonempty := List.cons_ne_nil _ _
  wellFormed := wellFormed_of_check rfl

/-- A host is not allowed by the pattern that is the host itself. -/
theorem dotted_pattern_refused :
    exampleDotted.text = "example.com.".toList ∧
      hostAllowed .ascii "example.com.".toList ["example.com.".toList] = false ∧
      Matches .ascii "example.com.".toList exampleDotted :=
  ⟨by decide, by decide, exampleDotted, .inl ⟨by decide, rfl⟩⟩

end Moduless.Egress
