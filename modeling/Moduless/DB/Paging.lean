import Moduless.DB.Follows

/-!
Paging where every document has the sort fields as strings. It is exact as long as Core
can decode the documents at which pages end, where a number that does not fit a float,
in any field of such a document, makes the call fail, and as long as the comparison with
the cursor does not meet a path that the database reads as NULL.
-/

namespace Moduless.DB
open Go Paging

/-- The order of the result: by the sort values and then by the id. -/
def QueryOptions.before (t : TextRules) (o : QueryOptions) (a b : DocRow) : Prop :=
  sortsBefore (t.order o.descending) (!o.descending) (a.key t o.paths) (b.key t o.paths) = true

instance (t : TextRules) (o : QueryOptions) (a b : DocRow) : Decidable (o.before t a b) :=
  inferInstanceAs (Decidable (_ = true))

section Rendering

variable {t : TextRules}

/-- Core finds the values that the database finds; what is missing is empty. -/
theorem lookupPath_eq (path : List Str) (v : Jsonb) :
    lookupPath t v path = ((extract v path).map (render t)).getD [] := by
  induction path generalizing v with
  | nil =>
    rw [lookupPath, extract]
    rfl
  | cons seg rest ih =>
    cases v with
    | obj members =>
      rw [lookupPath, extract, ih]
      cases hMember : members.lookup seg with
      | some x => rfl
      | none => cases rest <;> rfl
    | null | bool | num | str | arr => rfl

theorem obj_of_extract {path : List Str} {v w : Jsonb} (hPath : path ≠ [])
    (h : extract v path = some w) : ∃ members, v = .obj members := by
  cases path with
  | nil => exact absurd rfl hPath
  | cons seg rest =>
    cases v with
    | obj members => exact ⟨members, rfl⟩
    | null | bool | num | str | arr => cases h

theorem unmarshalMap_obj {members : List (Text × Jsonb)} :
    unmarshalMap (.obj members) =
      if decodes (.obj members) then some (.obj members) else none := rfl

end Rendering

/-- The documents differ in a sort field, or else in their ids, before the database meets a
path that it reads as NULL. -/
def Apart (a b : DocRow) : List (List Str) → Prop
  | [] => True
  | path :: rest => hasNullSegment path = false ∧
      (extract a.data path ≠ extract b.data path ∨ Apart a b rest)

/-- The document has a string at every path. -/
def Carries (r : DocRow) (paths : List (List Str)) : Prop :=
  ∀ path ∈ paths, ∃ v, extract r.data path = some (.str v)

section Strings

variable {t : TextRules} {r : DocRow} {path : List Str} {paths : List (List Str)}

theorem lookupPath_string {v : Text} (h : extract r.data path = some (.str v)) :
    lookupPath t r.data path = v := by
  rw [lookupPath_eq, h]
  rfl

theorem text_string {v : Text} (h : extract r.data path = some (.str v)) :
    r.text t path = if hasNullSegment path then none else some v := by
  rw [DocRow.text, h]
  rfl

theorem sortKeysOf_strings {sort : List SortField} {keys : List Text}
    (h : ∀ s ∈ sort, ∃ v, extract r.data (split s.field '.') = some (.str v)) :
    sortKeysOf t r.data sort = .ok keys ↔ (sort = [] ∨ decodes r.data = true) ∧
      keys = sort.map fun s => lookupPath t r.data (split s.field '.') := by
  unfold sortKeysOf
  split
  next hSort => simp [hSort]
  next hSort =>
    obtain ⟨s, hs⟩ := List.exists_mem_of_ne_nil _ hSort
    obtain ⟨v, hv⟩ := h s hs
    obtain ⟨members, hObj⟩ := obj_of_extract (List.splitOn_ne_nil _ _) hv
    rw [hObj, unmarshalMap_obj, or_iff_right hSort]
    cases decodes (.obj members) with
    | false => simp
    | true =>
      simp only [if_true, true_and, Except.ok.injEq]
      exact eq_comm

theorem agrees_key (h : Carries r paths) :
    Agrees (r.key t paths) (paths.map (lookupPath t r.data) ++ [r.id]) := by
  refine List.rel_append ?_ (.cons (fun y hy => (Option.some.inj hy).symm) .nil)
  rw [List.forall₂_map_left_iff, List.forall₂_map_right_iff, List.forall₂_same]
  intro path hPath y hy
  obtain ⟨v, hv⟩ := h path hPath
  rw [text_string hv] at hy
  split at hy
  · cases hy
  · rw [lookupPath_string hv, Option.some.inj hy]

/-- Which columns are NULL does not depend on the document. -/
theorem isSome_key (h : Carries r paths) :
    (r.key t paths).map Option.isSome = paths.map (!hasNullSegment ·) ++ [true] := by
  rw [DocRow.key, List.map_append, List.map_map]
  congr 1
  refine List.map_congr_left fun path hPath => ?_
  obtain ⟨v, hv⟩ := h path hPath
  rw [Function.comp_apply, text_string hv]
  cases hasNullSegment path <;> rfl

/-- Of two rows in order, the later one stands after the values of the first exactly if
they differ before NULL is met. -/
theorem rowAfter_iff_apart {lt : Text → Text → Prop} [DecidableRel lt] {nullsLast : Bool}
    {a b : DocRow} (ha : Carries a paths) (hb : Carries b paths)
    (hBefore : sortsBefore lt nullsLast (a.key t paths) (b.key t paths) = true) :
    rowAfter lt (b.key t paths) (paths.map (lookupPath t a.data) ++ [a.id]) = some true ↔
      Apart a b paths := by
  induction paths with
  | nil =>
    simp only [DocRow.key, List.map_nil, List.nil_append, sortsBefore] at hBefore ⊢
    split at hBefore
    · cases hBefore
    next hne =>
      have hlt : lt a.id b.id := of_decide_eq_true hBefore
      refine iff_of_true (rowAfter_cons.mpr (.inr ⟨fun hEq => hne ?_, hlt⟩)) trivial
      rw [hEq]
  | cons path rest ih =>
    obtain ⟨⟨v, hv⟩, ha⟩ := List.forall_mem_cons.mp ha
    obtain ⟨⟨w, hw⟩, hb⟩ := List.forall_mem_cons.mp hb
    simp only [DocRow.key, List.map_cons, List.cons_append, text_string hv, text_string hw,
      lookupPath_string hv, sortsBefore, Apart, hv, hw] at hBefore ⊢
    cases hNull : hasNullSegment path with
    | true => simp [rowAfter]
    | false =>
      simp only [hNull, Bool.false_eq_true, if_false] at hBefore ⊢
      rw [rowAfter_cons]
      by_cases hvw : v = w
      · subst hvw
        rw [if_pos rfl] at hBefore
        simpa [DocRow.key] using ih ha hb hBefore
      · rw [if_neg (fun h => hvw (Option.some.inj h))] at hBefore
        have hlt : lt v w := of_decide_eq_true hBefore
        simp [hlt, hvw, Ne.symm hvw]

end Strings

section Exact

variable {t : TextRules} {o : QueryOptions} {content : Collection}

theorem listed_strict : (o.listed t content.rows).Pairwise (o.before t) :=
  inOrder_strict (DocRow.length_key t o.paths) (key_injective content t o o.paths)
    ((content.distinct.of_map _).filter _)

theorem mem_listed_iff {r : DocRow} : r ∈ o.listed t content.rows ↔
    r ∈ content.rows ∧ ∀ p ∈ o.predicates, p.holds t r = some true := by
  rw [QueryOptions.listed, sorted, (inOrder_perm _ _ _ _).mem_iff, QueryOptions.matching,
    List.mem_filter]
  simp

theorem mem_listed {r : DocRow} (h : r ∈ o.listed t content.rows) : r ∈ content.rows :=
  (mem_listed_iff.mp h).1

theorem before_irrefl (r : DocRow) : ¬ o.before t r r := by
  rw [QueryOptions.before, sortsBefore_irrefl]
  exact Bool.false_ne_true

variable (hStrings : ∀ r ∈ content.rows, ∀ s ∈ o.sort,
  ∃ v, extract r.data (split s.field '.') = some (.str v))

include hStrings

theorem carries {r : DocRow} (hr : r ∈ o.listed t content.rows) : Carries r o.paths :=
  List.forall_mem_map.mpr (hStrings r (mem_listed hr))

theorem cursorOf_strings {r : DocRow} (hr : r ∈ o.listed t content.rows) {c : CursorPayload} :
    o.cursorOf t r = some c ↔ r.id ≠ [] ∧ (o.sort = [] ∨ decodes r.data = true) ∧
      c = ⟨o.paths.map (lookupPath t r.data), r.id⟩ := by
  simp only [cursorOf_eq_some, sortKeysOf_strings (hStrings r (mem_listed hr)), and_assoc,
    exists_and_left, exists_eq_left, QueryOptions.paths, List.map_map]
  rfl

theorem keyset_final : (o.keyset t content.rows).Final where
  nodup := by
    refine listed_strict.imp ?_
    rintro a _ hBefore rfl
    exact before_irrefl a hBefore
  keeps_self := by
    intro b c hb hCursor
    obtain ⟨-, -, rfl⟩ := (cursorOf_strings hStrings hb).mp hCursor
    exact decide_eq_false (rowAfter_self (agrees_key (carries hStrings hb)))
  keeps_mono := by
    intro b c _ _
    refine listed_strict.imp_of_mem fun ha hd hBefore hKept => ?_
    refine decide_eq_true (rowAfter_mono (of_decide_eq_true hKept) ?_ hBefore)
    rw [isSome_key (carries hStrings ha), isSome_key (carries hStrings hd)]

theorem keeps_next_iff {n : Nat} {b r : DocRow} {c : CursorPayload}
    (hb : (o.listed t content.rows)[n]? = some b)
    (hr : (o.listed t content.rows)[n + 1]? = some r) (hCursor : o.cursorOf t b = some c) :
    o.keeps t c r = true ↔ Apart b r o.paths := by
  have hbMem := List.mem_of_getElem? hb
  have hrMem := List.mem_of_getElem? hr
  obtain ⟨hlt, rfl⟩ := List.getElem?_eq_some_iff.mp hb
  obtain ⟨hlt', rfl⟩ := List.getElem?_eq_some_iff.mp hr
  have hBefore := List.pairwise_iff_getElem.mp (listed_strict (o := o)) n (n + 1) hlt hlt'
    (Nat.lt_succ_self n)
  obtain ⟨-, -, rfl⟩ := (cursorOf_strings hStrings hbMem).mp hCursor
  rw [QueryOptions.keeps, decide_eq_true_eq]
  exact rowAfter_iff_apart (carries hStrings hbMem) (carries hStrings hrMem) hBefore

omit hStrings in
/-- A query without sort fields goes through all that match, as long as no page ends with
an empty id. -/
theorem exists_walk_unsorted_iff (hSort : o.sort = []) (P : List DocRow → Prop) :
    (∃ pages, (o.keyset t content.rows).Walk none pages ∧ P pages.flatten) ↔
      P (o.listed t content.rows) ∧ ∀ n b r, (o.listed t content.rows)[n]? = some b →
        (o.listed t content.rows)[n + 1]? = some r → clampLimit o.limit ∣ n + 1 → b.id ≠ [] := by
  have hStrings : ∀ r ∈ content.rows, ∀ s ∈ o.sort,
      ∃ v, extract r.data (split s.field '.') = some (.str v) := by simp [hSort]
  have hExact := Keyset.exists_walk_iff (keyset_final (t := t) hStrings)
  have hNext : ∀ {n b r c}, (o.listed t content.rows)[n]? = some b →
      (o.listed t content.rows)[n + 1]? = some r → o.cursorOf t b = some c →
      o.keeps t c r = true := fun hb hr hCursor =>
    (keeps_next_iff hStrings hb hr hCursor).mpr (by rw [QueryOptions.paths, hSort]; trivial)
  constructor
  · rintro ⟨pages, hWalk, hP⟩
    have hFlatten : pages.flatten = o.listed t content.rows :=
      hWalk.flatten_eq (k := 0) (keyset_final hStrings) hNext rfl
    refine ⟨hFlatten ▸ hP, fun n b r hb hr hn => ?_⟩
    obtain ⟨c, hCursor, -⟩ := hExact.mp ⟨pages, hWalk, hFlatten⟩ n b r hb hr hn
    exact (cursorOf_eq_some.mp hCursor).1
  · rintro ⟨hP, hNamed⟩
    obtain ⟨pages, hWalk, hFlatten⟩ := hExact.mpr fun n b r hb hr hn =>
      have hCursor := (cursorOf_strings hStrings (List.mem_of_getElem? hb)).mpr
        ⟨hNamed n b r hb hr hn, .inl hSort, rfl⟩
      ⟨_, hCursor, hNext hb hr hCursor⟩
    exact ⟨pages, hWalk, hFlatten.symm ▸ hP⟩

end Exact

/-- Texts in the order of their characters. -/
def plainText : TextRules where
  lt := fun a b => a < b
  decidable := inferInstance
  strict := inferInstance
  like := fun a v => a = v
  numeric := fun _ => []
  nested := fun _ => []
  float := fun _ => []
  marshal := fun _ => []

def titled (id title : Text) (more : List (Text × Jsonb)) : DocRow :=
  ⟨id, .obj (("title".toList, .str title) :: more)⟩

def notes : Collection :=
  ⟨[titled "2".toList "b".toList [], titled "1".toList "a".toList []], by decide⟩

end Moduless.DB
