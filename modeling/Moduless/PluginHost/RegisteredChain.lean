import Moduless.PluginHost.Registry

/-!
When two registries publish the same chain.

The chain is a function of what each plugin has registered as its filters, and
a plugin with filters shows in it.
-/

namespace Moduless.Pipeline
open Go

theorem collectFilters_ne_nil {d : Defaults} {p : PluginFilters} {cfs : List CompiledFilter}
    {out : List (Phase × Filter)} (h : collectFilters d p cfs = .ok out) (hcfs : cfs ≠ []) :
    out ≠ [] := by
  cases cfs with
  | nil => exact absurd rfl hcfs
  | cons cf cfs =>
    rw [collectFilters] at h
    split at h
    next => cases h
    next =>
      split at h
      next => cases h
      next =>
        cases h
        exact List.cons_ne_nil _ _

theorem contribution_ne_nil {d : Defaults} {p : PluginFilters} (hKnown : KnownPhases p)
    (hFilters : p.filters ≠ []) : contribution d p ≠ [] := by
  obtain ⟨out, hout⟩ := collectFilters_ok d p hKnown
  simp only [contribution, hout]
  exact collectFilters_ne_nil hout hFilters

theorem mem_phases_buildChain {d : Defaults} {ps : List PluginFilters} {chain : Chain}
    (hKnown : ∀ p ∈ ps, KnownPhases p) (h : buildChain ps d = .ok chain) {ph : Phase} {f : Filter} :
    f ∈ chain.phases ph ↔ ∃ p ∈ ps, (ph, f) ∈ contribution d.normalize p := by
  rw [buildChain_eq hKnown] at h
  cases h
  exact mem_phaseFilters.trans List.mem_flatMap

theorem exists_filter_iff {d : Defaults} {ps : List PluginFilters} {chain : Chain}
    (hKnown : ∀ p ∈ ps, KnownPhases p) (hFilters : ∀ p ∈ ps, p.filters ≠ [])
    (h : buildChain ps d = .ok chain) (key : Str) :
    (∃ ph, ∃ f ∈ chain.phases ph, f.pluginKey = key) ↔ ∃ p ∈ ps, p.key = key := by
  constructor
  · rintro ⟨ph, f, hf, rfl⟩
    obtain ⟨p, hp, hmem⟩ := (mem_phases_buildChain hKnown h).mp hf
    exact ⟨p, hp, (contribution_pluginKey hmem).symm⟩
  · rintro ⟨p, hp, rfl⟩
    obtain ⟨⟨ph, f⟩, hmem⟩ :=
      List.exists_mem_of_ne_nil _
        (contribution_ne_nil (d := d.normalize) (hKnown p hp) (hFilters p hp))
    exact ⟨ph, f, (mem_phases_buildChain hKnown h).mpr ⟨p, hp, hmem⟩, contribution_pluginKey hmem⟩

end Moduless.Pipeline

namespace Moduless.PluginHost
open Go Pipeline

/-- What a registration contributes to the chain under a key. -/
def Registration.contributes (key : Str) (reg : Registration) : Option PluginFilters :=
  if reg.filters = [] then none else some ⟨key, reg.filters, reg.allowIdentityMutation⟩

theorem mem_pluginFilters {regs : GoMap Str Registration} (h : regs.keys.Nodup)
    {p : PluginFilters} :
    p ∈ pluginFilters regs ↔ (regs.get p.key).bind (Registration.contributes p.key) = some p := by
  rw [pluginFilters, List.mem_filterMap, Option.bind_eq_some_iff]
  constructor
  · rintro ⟨⟨key, reg⟩, hmem, hp⟩
    have hKey : p.key = key := by
      split_ifs at hp
      cases hp
      rfl
    subst hKey
    exact ⟨reg, (GoMap.get_eq_some_iff h).mpr hmem, hp⟩
  · rintro ⟨reg, hGet, hp⟩
    exact ⟨(p.key, reg), GoMap.mem_of_get hGet, hp⟩

theorem pluginFilters_ne_nil (regs : GoMap Str Registration) :
    ∀ p ∈ pluginFilters regs, p.filters ≠ [] := by
  intro p hp
  obtain ⟨e, -, he⟩ := List.mem_filterMap.mp hp
  split at he
  next => cases he
  next hFilters =>
    cases he
    exact hFilters

namespace Registry

variable {r r' : Registry}

def contribution (r : Registry) (key : Str) : Option PluginFilters :=
  (r.regs.get key).bind (Registration.contributes key)

theorem chain_congr (hDefaults : r'.filterDefaults = r.filterDefaults)
    (h : ∀ key, r'.contribution key = r.contribution key) : r'.current.chain = r.current.chain := by
  have hPerm : (pluginFilters r'.regs).Perm (pluginFilters r.regs) := by
    refine (List.perm_ext_iff_of_nodup ?_ ?_).mpr fun p => ?_
    · exact (pluginFilters_nodup r'.nodup).of_map _
    · exact (pluginFilters_nodup r.nodup).of_map _
    · rw [mem_pluginFilters r'.nodup, mem_pluginFilters r.nodup]
      exact iff_of_eq (congrArg (· = some p) (h p.key))
  have hBuild := buildChain_perm (d := r.filterDefaults) hPerm (pluginFilters_nodup r'.nodup)
    (pluginFilters_known r'.regs)
  rw [← hDefaults, r'.chain_eq, hDefaults, r.chain_eq] at hBuild
  exact Except.ok.inj hBuild

theorem exists_filter_iff_contribution {key : Str} :
    (∃ ph, ∃ f ∈ r.current.chain.phases ph, f.pluginKey = key) ↔ r.contribution key ≠ none := by
  rw [exists_filter_iff (pluginFilters_known r.regs) (pluginFilters_ne_nil r.regs) r.chain_eq]
  constructor
  · rintro ⟨p, hp, rfl⟩
    rw [mem_pluginFilters r.nodup] at hp
    simp [contribution, hp]
  · intro hSome
    obtain ⟨p, hp⟩ := Option.ne_none_iff_exists'.mp hSome
    have hKey : p.key = key := by
      obtain ⟨reg, -, hReg⟩ := Option.bind_eq_some_iff.mp hp
      unfold Registration.contributes at hReg
      split_ifs at hReg
      cases hReg
      rfl
    exact ⟨p, (mem_pluginFilters r.nodup).mpr (hKey ▸ hp), hKey⟩

theorem chain_dropped_iff {key : Str} (hDefaults : r'.filterDefaults = r.filterDefaults)
    (hOthers : ∀ k, k ≠ key → r'.contribution k = r.contribution k)
    (hDropped : r'.contribution key = none) :
    r'.current.chain = r.current.chain ↔ r.contribution key = none := by
  constructor
  · intro hChain
    by_contra hSome
    have hFilter := exists_filter_iff_contribution.mpr hSome
    rw [← hChain, exists_filter_iff_contribution] at hFilter
    exact hFilter hDropped
  · intro hNone
    refine chain_congr hDefaults fun k => ?_
    by_cases hKey : k = key
    · rw [hKey, hDropped, hNone]
    · exact hOthers k hKey

/-- The plugin is registered as one that may set identities. -/
def authenticates (r : Registry) (key : Str) : Bool :=
  match r.regs.get key with
  | none => false
  | some reg => reg.allowIdentityMutation

theorem allowIdentityMutation_eq {ph : Phase} {f : Filter}
    (hf : f ∈ r.current.chain.filters ph) :
    f.allowIdentityMutation = r.authenticates f.pluginKey := by
  obtain ⟨p, hp, hmem⟩ := (mem_phases_buildChain (pluginFilters_known r.regs) r.chain_eq).mp hf
  obtain ⟨cf, hcf⟩ := contribution_newFilter hmem
  obtain rfl : f = newFilter _ p cf := hcf
  obtain ⟨reg, hGet, hReg⟩ := Option.bind_eq_some_iff.mp ((mem_pluginFilters r.nodup).mp hp)
  unfold Registration.contributes at hReg
  split_ifs at hReg
  have hAllow : reg.allowIdentityMutation = p.allowIdentityMutation :=
    congrArg PluginFilters.allowIdentityMutation (Option.some.inj hReg)
  simp only [newFilter, authenticates, hGet]
  exact hAllow.symm

end Registry
end Moduless.PluginHost
