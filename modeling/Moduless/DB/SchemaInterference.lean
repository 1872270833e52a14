import Moduless.DB.SchemaEffects

/-!
Reconciling a schema while other work on the database goes on.

The services of several plugins are built at the same time, so between two statements the
indexes of other tables may change. Whether the indexes of some tables stay as they are
then depends on the rows on these tables alone: a name that is taken by an index of another
table may be free when it is come to.
-/

namespace Moduless.CollectionDecl
open DB

/-- The indexes of a collection up to the first one with an invalid field, at which the
reconciliation ends. -/
def created (col : CollectionDecl) : List IndexDecl :=
  col.declared.takeWhile fun idx => idx.fields.all matchesIdentifier

end Moduless.CollectionDecl

namespace Moduless.DB
open Go Interaction Program Machine

/-- What a database can hold: no two indexes have the same name, and names that were written
without quotes have been folded and cut. -/
structure Catalog.Valid (c : Catalog) : Prop where
  distinct : (c.map IndexRow.indexname).Nodup
  stored : ∀ x ∈ c, relation x.indexname = x.indexname

/-- The program runs, and before each statement other work leaves the indexes on the tables
alone. -/
inductive RunsAmid {α : Type} (tables : List Str) : Catalog → Program SchemaHost α → Catalog → Prop
  | ret (c : Catalog) (a : α) : RunsAmid tables c (.ret a) c
  | call {c c₁ c₂ c' : Catalog} {o : SchemaOp} {k : o.Ans → Program SchemaHost α} {r : o.Ans}
      (hSame : SameOn tables c c₁) (hValid : c₁.Valid) (hExec : schema.Exec c₁ ⟨o, r⟩ c₂)
      (hRest : RunsAmid tables c₂ (k r) c') : RunsAmid tables c (.call o k) c'

/-- No statement touches the indexes of the tables, whatever the others have become. -/
def Avoids {α : Type} (tables : List Str) (c : Catalog) : Program SchemaHost α → Prop
  | .ret _ => True
  | .call o k => ∀ c₁, SameOn tables c c₁ → c₁.Valid →
      Harmless tables c₁ o ∧ ∀ r c₂, schema.Exec c₁ ⟨o, r⟩ c₂ → Avoids tables c (k r)

section Amid

variable {tables : List Str} {c c₁ c₂ c' : Catalog} {α : Type} {p : Program SchemaHost α}

theorem Catalog.Valid.sublist (h : c.Valid) (hSub : c'.Sublist c) : c'.Valid :=
  ⟨h.distinct.sublist (hSub.map _), fun x hx => h.stored x (hSub.subset hx)⟩

theorem Catalog.Valid.effect (h : c.Valid) (o : SchemaOp) : (o.effect c).Valid := by
  cases o with
  | createTable | addVersion | listIndexes => exact h
  | dropIndex name => exact h.sublist List.filter_sublist
  | createIndex unique name table exprs =>
    show (c.create unique name table exprs).Valid
    unfold Catalog.create
    split
    · exact h
    next hFree =>
      refine ⟨?_, fun x hx => ?_⟩
      · rw [List.map_append, List.nodup_append]
        refine ⟨h.distinct, List.nodup_singleton _, ?_⟩
        rintro _ hOld _ hNew rfl
        obtain ⟨x, hx, hName⟩ := List.mem_map.mp hOld
        refine hFree (List.any_eq_true.mpr ⟨x, hx, decide_eq_true ?_⟩)
        rw [hName, List.mem_singleton.mp hNew]
      · rcases List.mem_append.mp hx with hx | hx
        · exact h.stored x hx
        · rw [List.mem_singleton.mp hx]
          exact relation_relation name

theorem Catalog.Valid.exec {o : SchemaOp} {r : o.Ans} (h : c.Valid)
    (hExec : schema.Exec c ⟨o, r⟩ c') : c'.Valid := by
  rcases exec_schema hExec with rfl | rfl
  · exact h
  · exact h.effect o

theorem runsAmid_of_runs {t : List (Event SchemaHost)} {a : α} (hRuns : schema.Runs c p t a c')
    (h : c.Valid) : RunsAmid tables c p c' := by
  induction hRuns with
  | ret => exact .ret _ _
  | call hExec _ ih => exact .call (.refl _ _) h hExec (ih (h.exec hExec))

theorem runsAmid_failing (h : c.Valid) (p : Program SchemaHost α) : RunsAmid tables c p c := by
  induction p with
  | ret a => exact .ret c a
  | call o k ih => exact .call (.refl _ _) h (exec_failure c o) (ih _)

theorem Avoids.sameOn (h : Avoids tables c p) (hRuns : RunsAmid tables c₁ p c')
    (hSame : SameOn tables c c₁) : SameOn tables c c' := by
  induction hRuns with
  | ret => exact hSame
  | @call _ c₁ c₂ _ o k r hOther hValid hExec _ ih =>
    obtain ⟨hHarmless, hRest⟩ := h c₁ (hSame.trans hOther) hValid
    refine ih (hRest r c₂ hExec) ((hSame.trans hOther).trans ?_)
    rcases exec_schema hExec with rfl | rfl
    · exact .refl _ _
    · exact (sameOn_effect_iff c₁ o).mpr hHarmless

theorem RunsAmid.after_other (hSame : SameOn tables c c₁) (hRuns : RunsAmid tables c₁ p c') :
    ∃ c₂, RunsAmid tables c p c₂ ∧ SameOn tables c₂ c' := by
  cases hRuns with
  | ret => exact ⟨c, .ret c _, hSame⟩
  | call hOther hValid hExec hRest =>
    exact ⟨c', .call (hSame.trans hOther) hValid hExec hRest, .refl _ _⟩

/-- A program that always leaves the indexes of the tables as they are has no statement that
could touch them: the rest may fail right after it. -/
theorem avoids_of_sameOn (h : ∀ c', RunsAmid tables c p c' → SameOn tables c c') :
    Avoids tables c p := by
  induction p with
  | ret => trivial
  | call o k ih =>
    intro c₁ hSame hValid
    have hHere : ∀ {r c₂}, schema.Exec c₁ ⟨o, r⟩ c₂ → SameOn tables c c₂ := fun hExec =>
      h _ (.call hSame hValid hExec (runsAmid_failing (hValid.exec hExec) _))
    refine ⟨?_, fun r c₂ hExec => ih r fun c' hRuns => ?_⟩
    · obtain ⟨r, hEffect⟩ := exec_effect c₁ o
      exact (sameOn_effect_iff c₁ o).mp (hSame.symm.trans (hHere hEffect))
    · obtain ⟨c₃, hRest, hEnd⟩ := hRuns.after_other (hHere hExec).symm
      exact (h c₃ (.call hSame hValid hExec hRest)).trans hEnd

end Amid

/-- Nothing is to be created or dropped on the tables. For each collection the
reconciliation comes to, the names of its indexes are taken by indexes on the tables, and
the indexes on its table under its prefix are declared. -/
def LeavesIndexes (tables : List Str) (c : Catalog) (extKey : Str) : List CollectionDecl → Prop
  | [] => True
  | col :: rest =>
    matchesIdentifier extKey = true → matchesIdentifier col.name = true →
      (relation (col.table extKey) ∈ tables → ∀ idx ∈ col.created, ∃ x ∈ c,
        x.tablename ∈ tables ∧ x.indexname = relation (indexName extKey col.name idx.fields)) ∧
      ((∀ idx ∈ col.declared, idx.fields.all matchesIdentifier = true) →
        (col.table extKey ∈ tables → ∀ x ∈ c, x.tablename = col.table extKey →
          like (indexPrefix extKey col.name ++ "%".toList) x.indexname = true →
          matchesIdentifier x.indexname = true → x.indexname ∈ col.names extKey) ∧
        LeavesIndexes tables c extKey rest)

section LeavesIndexes

variable {tables : List Str} {c : Catalog} (hc : c.Valid) {α β : Type}

include hc

theorem harmless_create_iff {unique : Bool} {name table : Str} {exprs : List Str} :
    (∀ c₁, SameOn tables c c₁ → c₁.Valid →
      Harmless tables c₁ (.createIndex unique name table exprs)) ↔
    (relation table ∈ tables → ∃ x ∈ c, x.tablename ∈ tables ∧ x.indexname = relation name) := by
  constructor
  · intro h hTable
    have hSame : SameOn tables c (c.filter (·.tablename ∈ tables)) := by
      intro x hx
      simp [hx]
    obtain ⟨x, hx, hName⟩ := h _ hSame (hc.sublist List.filter_sublist) hTable
    obtain ⟨hx, hOn⟩ := List.mem_filter.mp hx
    exact ⟨x, hx, of_decide_eq_true hOn, hName⟩
  · intro h c₁ hSame _ hTable
    obtain ⟨x, hx, hOn, hName⟩ := h hTable
    exact ⟨x, (hSame x hOn).mp hx, hName⟩

theorem harmless_drop_iff {name : Str} :
    (∀ c₁, SameOn tables c c₁ → c₁.Valid → Harmless tables c₁ (.dropIndex name)) ↔
      ∀ x ∈ c, x.indexname = relation name → x.tablename ∉ tables :=
  ⟨fun h => h c (.refl _ _) hc,
    fun h _ hSame _ x hx hName hOn => h x ((hSame x hOn).mpr hx) hName hOn⟩

theorem avoids_required {o : SchemaOp} {k : o.Ans → Program SchemaHost α}
    {p : Program SchemaHost α} (hCases : ∀ r, k r = p ∨ ∃ a, k r = .ret a)
    (hOk : ∃ r c₁, schema.Exec c ⟨o, r⟩ c₁ ∧ k r = p) :
    Avoids tables c (.call o k) ↔
      (∀ c₁, SameOn tables c c₁ → c₁.Valid → Harmless tables c₁ o) ∧ Avoids tables c p := by
  constructor
  · intro h
    obtain ⟨r, c₁, hExec, hk⟩ := hOk
    exact ⟨fun c₁ hSame hValid => (h c₁ hSame hValid).1, hk ▸ (h c (.refl _ _) hc).2 r c₁ hExec⟩
  · rintro ⟨hHarmless, hp⟩ c₁ hSame hValid
    refine ⟨hHarmless c₁ hSame hValid, fun r _ _ => ?_⟩
    rcases hCases r with hk | ⟨a, hk⟩
    · rw [hk]
      exact hp
    · rw [hk]
      trivial

omit hc in
theorem required_cases (ok : Bool) (e : SchemaError) (f : Unit → SchemaM β) :
    ((if ok = true then pure () else throw e : SchemaM Unit) >>= f).run = (f ()).run ∨
      ∃ a, ((if ok = true then pure () else throw e : SchemaM Unit) >>= f).run = .ret a := by
  cases ok with
  | true => exact .inl rfl
  | false => exact .inr ⟨_, rfl⟩

theorem avoids_createTable {table : Str} {f : Unit → SchemaM β} :
    Avoids tables c (createTable table >>= f).run ↔ Avoids tables c (f ()).run :=
  (avoids_required hc (o := .createTable table) (fun ok => required_cases ok _ f)
    ⟨true, c, ⟨Delivery.answered, rfl⟩, rfl⟩).trans (and_iff_right fun _ _ _ => trivial)

theorem avoids_addVersion {table : Str} {f : Unit → SchemaM β} :
    Avoids tables c (addVersion table >>= f).run ↔ Avoids tables c (f ()).run :=
  (avoids_required hc (o := .addVersion table) (fun ok => required_cases ok _ f)
    ⟨true, c, ⟨Delivery.answered, rfl⟩, rfl⟩).trans (and_iff_right fun _ _ _ => trivial)

theorem avoids_dropAll {names : List Str} {f : Unit → SchemaM β} :
    Avoids tables c (dropAll names >>= f).run ↔
      (∀ name ∈ names, matchesIdentifier name = true →
        ∀ x ∈ c, x.indexname = relation name → x.tablename ∉ tables) ∧
        Avoids tables c (f ()).run := by
  induction names with
  | nil => exact (and_iff_right fun _ h => nomatch h).symm
  | cons name rest ih =>
    rw [List.forall_mem_cons, dropAll]
    cases hName : matchesIdentifier name with
    | false => simpa [hName] using ih
    | true =>
      rw [and_assoc, ← ih, imp_iff_right rfl, ← harmless_drop_iff hc]
      refine avoids_required hc (o := .dropIndex name) (fun ok => ?_)
        ⟨true, _, ⟨Delivery.answered, rfl⟩, rfl⟩
      cases ok with
      | true => exact .inl rfl
      | false => exact .inr ⟨_, rfl⟩

theorem avoids_dropStaleIndexes {extKey collection table : Str} {desired : List Str}
    {f : Unit → SchemaM β} :
    Avoids tables c (dropStaleIndexes extKey collection table desired >>= f).run ↔
      (table ∈ tables → ∀ x ∈ c, x.tablename = table →
        like (indexPrefix extKey collection ++ "%".toList) x.indexname = true →
        matchesIdentifier x.indexname = true → x.indexname ∈ desired) ∧
        Avoids tables c (f ()).run := by
  rw [dropStaleIndexes, pattern_eq]
  constructor
  · intro h
    have hFound := fun names hNames => (h c (.refl _ _) hc).2 (some names) c ⟨some names, hNames⟩
    have hDropped := (avoids_dropAll hc).mp (hFound _ (if_pos (List.Perm.refl _)))
    refine ⟨fun hTable x hx hOn hLike hName => ?_, hDropped.2⟩
    by_contra hStale
    refine hDropped.1 x.indexname ?_ hName x hx (hc.stored x hx).symm (hOn ▸ hTable)
    simpa [Catalog.list, hStale] using ⟨x, ⟨hx, hOn, hLike⟩, rfl⟩
  · rintro ⟨hDeclared, hRest⟩ c₁ hSame hValid
    refine ⟨trivial, fun rows c₂ hExec => ?_⟩
    cases rows with
    | none => trivial
    | some names =>
      refine (avoids_dropAll hc).mpr ⟨fun name hName hIdentifier x hx hStored hOn => ?_, hRest⟩
      obtain ⟨hName, hStale⟩ := List.mem_filter.mp hName
      obtain ⟨y, hy, rfl⟩ := List.mem_map.mp ((exec_listIndexes hExec).1.mem_iff.mp hName)
      obtain ⟨hy, hMatch⟩ := List.mem_filter.mp hy
      obtain ⟨hTable, hLike⟩ := Bool.and_eq_true_iff.mp hMatch
      -- The index that was found has the name of one on the tables, so it is that one.
      rw [hValid.stored y hy] at hStored
      cases List.inj_on_of_nodup_map hValid.distinct ((hSame x hOn).mp hx) hy hStored
      have hTable := of_decide_eq_true hTable
      exact of_decide_eq_true hStale (hDeclared (hTable ▸ hOn) x hx hTable hLike hIdentifier)

omit hc in
theorem all_of_mapM_error {fields : List Str} {e : SchemaError}
    (h : fields.mapM jsonPathExpr = .error e) : fields.all matchesIdentifier = false := by
  induction fields generalizing e with
  | nil => cases h
  | cons field rest ih =>
    rw [List.mapM_cons, jsonPathExpr] at h
    rw [List.all_cons, Bool.and_eq_false_imp]
    intro hField
    rw [if_pos hField] at h
    cases hRest : rest.mapM jsonPathExpr with
    | error e' => exact ih hRest
    | ok exprs =>
      rw [hRest] at h
      cases h

theorem avoids_declareIndexes {extKey collection table : Str} {idxs : List IndexDecl}
    {desired : List Str} {f : List Str → SchemaM β} :
    Avoids tables c (declareIndexes extKey collection table desired idxs >>= f).run ↔
      (relation table ∈ tables → ∀ idx ∈ (idxs.filter fun idx => idx.fields ≠ []).takeWhile
        (fun idx => idx.fields.all matchesIdentifier), ∃ x ∈ c, x.tablename ∈ tables ∧
          x.indexname = relation (indexName extKey collection idx.fields)) ∧
      ((∀ idx ∈ idxs.filter (fun idx => idx.fields ≠ []),
          idx.fields.all matchesIdentifier = true) →
        Avoids tables c (f (desired ++ (idxs.filter fun idx => idx.fields ≠ []).map
          fun idx => indexName extKey collection idx.fields)).run) := by
  induction idxs generalizing desired with
  | nil => simp [declareIndexes]
  | cons idx rest ih =>
    rw [declareIndexes]
    by_cases hFields : idx.fields = []
    · simpa [hFields] using ih
    · rw [if_neg hFields, List.filter_cons_of_pos (by simpa using hFields),
        List.takeWhile_cons, List.forall_mem_cons, List.map_cons]
      cases hExprs : idx.fields.mapM jsonPathExpr with
      | error e =>
        have hInvalid := all_of_mapM_error hExprs
        refine iff_of_true trivial ⟨fun _ => by simp [hInvalid], fun h => ?_⟩
        rw [hInvalid] at h
        cases h.1
      | ok exprs =>
        have hValid : idx.fields.all matchesIdentifier = true :=
          List.all_eq_true.mpr (mapM_jsonPathExpr hExprs).2
        rw [hValid, if_pos rfl, List.forall_mem_cons, forall_and, and_assoc,
          and_iff_right (Eq.refl true), List.append_cons, ← ih, ← harmless_create_iff hc]
        refine avoids_required hc (o := .createIndex _ _ _ _) (fun ok => ?_)
          ⟨true, _, ⟨Delivery.answered, rfl⟩, rfl⟩
        cases ok with
        | true => exact .inl rfl
        | false => exact .inr ⟨_, rfl⟩

theorem avoids_reconcileSchema {extKey : Str} {cols : List CollectionDecl} :
    Avoids tables c (reconcileSchema extKey cols).run ↔ LeavesIndexes tables c extKey cols := by
  induction cols with
  | nil => exact Iff.rfl
  | cons col rest ih =>
    rw [reconcileSchema, LeavesIndexes]
    cases hTable : tableName extKey col.name with
    | error e =>
      refine iff_of_true trivial fun hKey hName => ?_
      rw [tableName, hKey, hName] at hTable
      cases hTable
    | ok table =>
      obtain ⟨hKey, hName⟩ := tableName_ok hTable
      rw [imp_iff_right hKey, imp_iff_right hName, ← ih, tableName_eq hTable]
      simp only [avoids_createTable hc, avoids_addVersion hc, avoids_declareIndexes hc,
        avoids_dropStaleIndexes hc, List.nil_append]
      exact Iff.rfl

end LeavesIndexes
end Moduless.DB
