import Mathlib.Data.Char
import Mathlib.Data.List.Lex
import Mathlib.Data.Prod.Lex
import Moduless.Pipeline.Chain

/-!
The chain does not depend on the order in which plugins are visited. Filters of
two plugins never tie, because plugin keys are distinct; the filters of one
plugin are visited together, so their ties keep the declared order.
-/

namespace Moduless.Pipeline
open Go

namespace Filter

/-- The sort key: order, plugin key and name, compared lexicographically. -/
def rank (f : Filter) : ℤ ×ₗ (Str ×ₗ Str) := toLex (f.order, toLex (f.pluginKey, f.name))

theorem rank_eq_iff (f : Filter) (order : Int) (key name : Str) :
    f.rank = toLex (order, toLex (key, name)) ↔
      f.order = order ∧ f.pluginKey = key ∧ f.name = name := by
  simp [rank]

theorem less_iff (a b : Filter) : a.less b = true ↔ a.rank < b.rank := by
  simp only [less, rank, Prod.Lex.toLex_lt_toLex]
  by_cases hOrder : a.order = b.order
  · by_cases hKey : a.pluginKey = b.pluginKey
    · simp [hOrder, hKey]
    · simp [hOrder, hKey]
  · simp [hOrder]

theorem le_iff (a b : Filter) : a.le b ↔ a.rank ≤ b.rank := by
  rw [le, less_iff, not_lt]

theorem total (a b : Filter) : a.le b ∨ b.le a := by
  simpa only [le_iff] using le_total a.rank b.rank

theorem trans (a b c : Filter) (hab : a.le b) (hbc : b.le c) : a.le c := by
  rw [le_iff] at *
  exact le_trans hab hbc

theorem pluginKey_eq_of_ties {a b : Filter} (hab : a.le b) (hba : b.le a) :
    a.pluginKey = b.pluginKey := by
  rw [le_iff] at hab hba
  have h : a.rank = b.rank := le_antisymm hab hba
  exact congrArg (fun r => (ofLex (ofLex r).2).1) h

end Filter

theorem collectFilters_newFilter {d : Defaults} {p : PluginFilters} {cfs : List CompiledFilter}
    {out : List (Phase × Filter)} (h : collectFilters d p cfs = .ok out) :
    ∀ e ∈ out, ∃ cf, e.2 = newFilter d p cf := by
  induction cfs generalizing out with
  | nil =>
    cases h
    simp
  | cons cf cfs ih =>
    rw [collectFilters] at h
    split at h
    next => cases h
    next =>
      split at h
      next => cases h
      next hRest =>
        cases h
        intro e he
        rcases List.mem_cons.mp he with rfl | he
        · exact ⟨cf, rfl⟩
        · exact ih hRest e he

/-- What one plugin contributes, when its phases are all known. -/
def contribution (d : Defaults) (p : PluginFilters) : List (Phase × Filter) :=
  match collectFilters d p p.filters with
  | .ok out => out
  | .error _ => []

theorem contribution_newFilter {d : Defaults} {p : PluginFilters} {e : Phase × Filter}
    (he : e ∈ contribution d p) : ∃ cf, e.2 = newFilter d p cf := by
  unfold contribution at he
  split at he
  next h => exact collectFilters_newFilter h e he
  next => simp at he

theorem contribution_pluginKey {d : Defaults} {p : PluginFilters} {e : Phase × Filter}
    (he : e ∈ contribution d p) : e.2.pluginKey = p.key := by
  obtain ⟨cf, hcf⟩ := contribution_newFilter he
  rw [hcf]
  rfl

def KnownPhases (p : PluginFilters) : Prop := ∀ cf ∈ p.filters, cf.decl.phase ∈ knownPhases

theorem phaseFromName_isSome {name : Str} (h : name ∈ knownPhases) :
    ∃ ph, phaseFromName name = some ph := by
  simp only [knownPhases, List.mem_cons, List.not_mem_nil, or_false] at h
  rcases h with rfl | rfl | rfl | rfl | rfl | rfl | rfl <;> exact ⟨_, rfl⟩

theorem collectFilters_ok (d : Defaults) (p : PluginFilters) {cfs : List CompiledFilter}
    (h : ∀ cf ∈ cfs, cf.decl.phase ∈ knownPhases) : ∃ out, collectFilters d p cfs = .ok out := by
  induction cfs with
  | nil => exact ⟨[], rfl⟩
  | cons cf cfs ih =>
    obtain ⟨ph, hph⟩ := phaseFromName_isSome (h cf (by simp))
    obtain ⟨out, hout⟩ := ih fun cf hcf => h cf (by simp [hcf])
    exact ⟨(ph, newFilter d p cf) :: out, by simp only [collectFilters, hph, hout]⟩

theorem collectPlugins_eq {d : Defaults} {ps : List PluginFilters}
    (h : ∀ p ∈ ps, KnownPhases p) :
    collectPlugins d ps = .ok (ps.flatMap (contribution d)) := by
  induction ps with
  | nil => rfl
  | cons p ps ih =>
    obtain ⟨out, hout⟩ := collectFilters_ok d p (h p (by simp))
    have hRest := ih fun q hq => h q (by simp [hq])
    simp only [collectPlugins, hout, hRest, List.flatMap_cons, contribution]

theorem buildChain_eq {d : Defaults} {ps : List PluginFilters} (h : ∀ p ∈ ps, KnownPhases p) :
    buildChain ps d = .ok (chainOf (ps.flatMap (contribution d.normalize))) := by
  simp only [buildChain, collectPlugins_eq h]

private theorem flatMap_perm_of_key {β : Type} {h : PluginFilters → List β} {k : Str}
    (hOnly : ∀ p, p.key ≠ k → h p = []) {ps qs : List PluginFilters} (hPerm : ps.Perm qs)
    (hKeys : (ps.map PluginFilters.key).Nodup) : ps.flatMap h = qs.flatMap h := by
  induction hPerm with
  | nil => rfl
  | cons p _ ih =>
    simp only [List.map_cons, List.nodup_cons] at hKeys
    simp only [List.flatMap_cons, ih hKeys.2]
  | swap p q ps =>
    simp only [List.map_cons, List.nodup_cons, List.mem_cons, not_or] at hKeys
    simp only [List.flatMap_cons]
    by_cases hp : p.key = k
    · have hq : h q = [] := hOnly q fun hq => hKeys.1.1 (hq.trans hp.symm)
      simp [hq]
    · simp [hOnly p hp]
  | trans h₁ _ ih₁ ih₂ =>
    exact (ih₁ hKeys).trans (ih₂ ((h₁.map _).nodup_iff.mp hKeys))

theorem phaseFilters_perm {d : Defaults} {ps qs : List PluginFilters} (hPerm : ps.Perm qs)
    (hKeys : (ps.map PluginFilters.key).Nodup) (ph : Phase) :
    phaseFilters (ps.flatMap (contribution d)) ph =
      phaseFilters (qs.flatMap (contribution d)) ph := by
  apply insertionSort_eq_of_ties Filter.total Filter.trans
  intro x
  simp only [ties, List.filter_flatMap, List.map_flatMap]
  apply flatMap_perm_of_key _ hPerm hKeys (k := x.pluginKey)
  intro p hp
  rw [List.filter_eq_nil_iff]
  intro f hf
  obtain ⟨e, he, rfl⟩ := List.mem_map.mp hf
  have hKey := contribution_pluginKey (List.mem_of_mem_filter he)
  simp only [decide_eq_true_eq, not_and]
  intro hx hx'
  exact hp (hKey.symm.trans (Filter.pluginKey_eq_of_ties hx' hx))

@[ext] theorem Chain.ext' {a b : Chain} (hPhases : a.phases = b.phases)
    (hMax : a.maxRequestBody = b.maxRequestBody) : a = b := by
  have hReq : a.anyNeedsRequestBody = b.anyNeedsRequestBody := by
    rw [Bool.eq_iff_iff, a.requestBody_iff, b.requestBody_iff, hPhases]
  have hResp : a.anyNeedsResponseBody = b.anyNeedsResponseBody := by
    rw [Bool.eq_iff_iff, a.responseBody_iff, b.responseBody_iff, hPhases]
  cases a
  cases b
  simp_all

theorem chainOf_perm {d : Defaults} {ps qs : List PluginFilters} (hPerm : ps.Perm qs)
    (hKeys : (ps.map PluginFilters.key).Nodup) :
    chainOf (ps.flatMap (contribution d)) = chainOf (qs.flatMap (contribution d)) := by
  apply Chain.ext'
  · funext ph
    exact phaseFilters_perm hPerm hKeys ph
  · apply (hPerm.flatMap_right _).foldl_eq'
    intro x _ y _ z
    grind

/-- Every order of the plugins gives the same chain. -/
theorem buildChain_perm {d : Defaults} {ps qs : List PluginFilters} (hPerm : ps.Perm qs)
    (hKeys : (ps.map PluginFilters.key).Nodup) (hKnown : ∀ p ∈ ps, KnownPhases p) :
    buildChain ps d = buildChain qs d := by
  rw [buildChain_eq hKnown, buildChain_eq fun q hq => hKnown q (hPerm.mem_iff.mpr hq),
    chainOf_perm hPerm hKeys]

/-- The filters a plugin declares for a phase, in the order of its declaration. -/
def declaredFor (d : Defaults) (ph : Phase) (p : PluginFilters) : List Filter :=
  (p.filters.filter fun cf => phaseFromName cf.decl.phase = some ph).map (newFilter d p)

theorem collectFilters_phase {d : Defaults} {p : PluginFilters} {cfs : List CompiledFilter}
    {out : List (Phase × Filter)} (h : collectFilters d p cfs = .ok out) (ph : Phase) :
    (out.filter fun e => e.1 = ph).map Prod.snd =
      (cfs.filter fun cf => phaseFromName cf.decl.phase = some ph).map (newFilter d p) := by
  induction cfs generalizing out with
  | nil =>
    cases h
    rfl
  | cons cf cfs ih =>
    rw [collectFilters] at h
    split at h
    next => cases h
    next ph' hPhase =>
      split at h
      next => cases h
      next hRest =>
        cases h
        simp only [List.filter_cons, hPhase, Option.some.injEq]
        by_cases hEq : ph' = ph
        · simp only [hEq, decide_true, if_true, List.map_cons, ih hRest]
        · simp only [hEq, decide_false, Bool.false_eq_true, if_false, ih hRest]

theorem contribution_phase {d : Defaults} {p : PluginFilters} (h : KnownPhases p) (ph : Phase) :
    ((contribution d p).filter fun e => e.1 = ph).map Prod.snd = declaredFor d ph p := by
  obtain ⟨out, hOut⟩ := collectFilters_ok d p h
  simp only [contribution, hOut]
  exact collectFilters_phase hOut ph

theorem phaseFilters_eq {d : Defaults} {ps : List PluginFilters} (h : ∀ p ∈ ps, KnownPhases p)
    (ph : Phase) : phaseFilters (ps.flatMap (contribution d)) ph =
      (ps.flatMap (declaredFor d ph)).insertionSort Filter.le := by
  rw [phaseFilters, List.filter_flatMap, List.map_flatMap]
  congr 1
  exact List.flatMap_congr fun p hp => contribution_phase (h p hp) ph

/-- The sort leaves filters that tie in the order in which they were added. -/
theorem filter_rank_insertionSort (l : List Filter) (r : ℤ ×ₗ (Str ×ₗ Str)) :
    (l.insertionSort Filter.le).filter (fun f => f.rank = r) = l.filter fun f => f.rank = r := by
  by_cases hSome : ∃ x ∈ l, x.rank = r
  · obtain ⟨x, -, hx⟩ := hSome
    have hTies (m : List Filter) : ties Filter.le x m = m.filter fun f => f.rank = r := by
      refine List.filter_congr fun f _ => ?_
      rw [decide_eq_decide, Filter.le_iff, Filter.le_iff, ← hx]
      exact ⟨fun h => le_antisymm h.2 h.1, fun h => ⟨h.ge, h.le⟩⟩
    rw [← hTies, ← hTies, ties_insertionSort Filter.trans]
  · have hNone : l.filter (fun f => f.rank = r) = [] := by
      simpa using hSome
    rw [hNone, List.filter_eq_nil_iff]
    intro f hf
    rw [List.mem_insertionSort] at hf
    exact List.filter_eq_nil_iff.mp hNone f hf

theorem flatMap_eq_of_key {β : Type} {h : PluginFilters → List β} {ps : List PluginFilters}
    {p : PluginFilters} (hp : p ∈ ps) (hKeys : (ps.map PluginFilters.key).Nodup)
    (hOnly : ∀ q ∈ ps, q.key ≠ p.key → h q = []) : ps.flatMap h = h p := by
  induction ps with
  | nil => cases hp
  | cons q ps ih =>
    simp only [List.map_cons, List.nodup_cons] at hKeys
    rw [List.flatMap_cons]
    rcases List.mem_cons.mp hp with rfl | hp
    · have hRest : ps.flatMap h = [] := by
        rw [List.flatMap_eq_nil_iff]
        intro q hq
        refine hOnly q (List.mem_cons_of_mem p hq) fun hEq => hKeys.1 ?_
        exact List.mem_map.mpr ⟨q, hq, hEq⟩
      rw [hRest, List.append_nil]
    · have hFirst : h q = [] := by
        refine hOnly q List.mem_cons_self fun hEq => hKeys.1 ?_
        exact List.mem_map.mpr ⟨p, hp, hEq.symm⟩
      rw [hFirst, List.nil_append]
      exact ih hp hKeys.2 fun q hq => hOnly q (List.mem_cons_of_mem _ hq)

theorem declaredFor_pluginKey {d : Defaults} {ph : Phase} {p : PluginFilters} {f : Filter}
    (hf : f ∈ declaredFor d ph p) : f.pluginKey = p.key := by
  obtain ⟨cf, -, rfl⟩ := List.mem_map.mp hf
  rfl

theorem filter_rank_declared {d : Defaults} {ph : Phase} {ps : List PluginFilters}
    {p : PluginFilters} (hp : p ∈ ps) (hKeys : (ps.map PluginFilters.key).Nodup) (order : Int)
    (name : Str) :
    (ps.flatMap (declaredFor d ph)).filter (fun f => f.rank = toLex (order, toLex (p.key, name))) =
      (declaredFor d ph p).filter fun f => f.order = order ∧ f.name = name := by
  rw [List.filter_flatMap, flatMap_eq_of_key hp hKeys]
  · refine List.filter_congr fun f hf => ?_
    rw [decide_eq_decide, Filter.rank_eq_iff]
    have hKey := declaredFor_pluginKey hf
    tauto
  · intro q _ hq
    rw [List.filter_eq_nil_iff]
    intro f hf hRank
    rw [decide_eq_true_eq, Filter.rank_eq_iff] at hRank
    exact hq ((declaredFor_pluginKey hf).symm.trans hRank.2.1)

/-- Every order of the plugins gives the same chain: each phase holds exactly the
declared filters, sorted, and the ties of one plugin stay as declared. -/
theorem buildChain_ordered {d : Defaults} {ps qs : List PluginFilters} (hPerm : ps.Perm qs)
    (hKeys : (ps.map PluginFilters.key).Nodup) (hKnown : ∀ p ∈ ps, KnownPhases p) :
    ∃ c, buildChain ps d = .ok c ∧ buildChain qs d = .ok c ∧
      ∀ ph,
        (c.filters ph).Perm (ps.flatMap (declaredFor d.normalize ph)) ∧
        (c.filters ph).Pairwise (fun a b => a.rank ≤ b.rank) ∧
        ∀ p ∈ ps, ∀ order name,
          (c.filters ph).filter (fun f => f.rank = toLex (order, toLex (p.key, name))) =
            (declaredFor d.normalize ph p).filter fun f => f.order = order ∧ f.name = name := by
  refine ⟨chainOf (ps.flatMap (contribution d.normalize)), buildChain_eq hKnown, ?_, fun ph => ?_⟩
  · rw [← buildChain_perm hPerm hKeys hKnown, buildChain_eq hKnown]
  · have hFilters : (chainOf (ps.flatMap (contribution d.normalize))).filters ph =
        (ps.flatMap (declaredFor d.normalize ph)).insertionSort Filter.le :=
      phaseFilters_eq hKnown ph
    have hTotal : Std.Total Filter.le := ⟨Filter.total⟩
    have hTrans : IsTrans Filter Filter.le := ⟨Filter.trans⟩
    rw [hFilters]
    refine ⟨List.perm_insertionSort _ _, ?_, fun p hp order name => ?_⟩
    · exact (List.pairwise_insertionSort Filter.le _).imp fun h => (Filter.le_iff _ _).mp h
    · rw [filter_rank_insertionSort, filter_rank_declared hp hKeys]

/-- A filter without a name on the first phase. -/
def tied : CompiledFilter :=
  ⟨⟨[], phasePreRoute, ⟨[], []⟩, 0, false, 0, false, false, 0⟩, ⟨[], true⟩, none⟩

/-- Two plugins visited in either order; the second declares two filters that tie. -/
theorem buildChain_ordered_pair :
    ∃ c, buildChain [⟨"audit".toList, [tied], false⟩, ⟨"cors".toList, [tied, tied], false⟩]
        defaultDefaults = .ok c ∧
      buildChain [⟨"cors".toList, [tied, tied], false⟩, ⟨"audit".toList, [tied], false⟩]
        defaultDefaults = .ok c := by
  obtain ⟨c, hc, hc', -⟩ := buildChain_ordered (d := defaultDefaults)
    (List.Perm.swap ⟨"cors".toList, [tied, tied], false⟩ ⟨"audit".toList, [tied], false⟩ [])
    (by decide) (by unfold KnownPhases; decide)
  exact ⟨c, hc, hc'⟩

end Moduless.Pipeline
