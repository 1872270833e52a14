import Moduless.PluginHost.Manager

/-!
What a scan of the plugin directory finds, and the table of packages made of it.
-/

namespace Moduless.PluginHost
open Go Pipeline Interaction

section Loop

variable {cfg : ManagerConfig}

/-- One name of the loop of `ScanPackages`: what is found with it. -/
theorem scanFrom_cons {found pkgs : List Package} {name : Str} {names : List Str}
    {t : List (Event Host)} (h : (cfg.scanFrom found (name :: names)).Finishes t pkgs) :
    ∃ (files : PackageFiles) (found' : List Package) (u : List (Event Host)),
      t = ⟨.ask (.readPackage (joinPath [cfg.dir, name])), files⟩ :: u ∧
      (cfg.scanFrom found' names).Finishes u pkgs ∧
      ∀ pkg, pkg ∈ found' ↔ pkg ∈ found ∨ files.hasManifest = true ∧ pkg.key = name ∧
        loadPackage (joinPath [cfg.dir, name]) files = .ok pkg := by
  obtain ⟨files, u, rfl, hRest⟩ := finishes_ask.mp h
  by_cases hManifest : files.hasManifest = true
  · rw [if_neg (by simp [hManifest])] at hRest
    split at hRest
    next hLoad => exact ⟨files, found, u, rfl, hRest, by simp [hLoad]⟩
    next pkg hLoad =>
      refine ⟨files, _, u, rfl, hRest, fun pkg' => ?_⟩
      rw [hLoad]
      by_cases hKey : pkg.key = name
      · rw [if_pos hKey, List.mem_append, List.mem_singleton]
        refine or_congr_right ⟨?_, fun h => (Except.ok.inj h.2.2).symm⟩
        rintro rfl
        exact ⟨hManifest, hKey, rfl⟩
      · rw [if_neg hKey]
        refine ⟨.inl, fun h => h.resolve_right ?_⟩
        rintro ⟨-, hName, hEq⟩
        exact hKey (Except.ok.inj hEq ▸ hName)
  · rw [if_pos (by simp [hManifest])] at hRest
    exact ⟨files, found, u, rfl, hRest, by simp [hManifest]⟩

/-- A package loads from the directory of a name in a history of `ScanPackages`. -/
def FoundIn (cfg : ManagerConfig) (t : List (Event Host)) (name : Str) (pkg : Package) : Prop :=
  ∃ files : PackageFiles, ⟨.ask (.readPackage (joinPath [cfg.dir, name])), files⟩ ∈ t ∧
    files.hasManifest = true ∧ pkg.key = name ∧
    loadPackage (joinPath [cfg.dir, name]) files = .ok pkg

theorem mem_scanFrom {found pkgs : List Package} {names : List Str} {t : List (Event Host)}
    (h : (cfg.scanFrom found names).Finishes t pkgs) (pkg : Package) :
    (pkg ∈ found → pkg ∈ pkgs) ∧
      (pkg ∈ pkgs → pkg ∈ found ∨ pkg.key ∈ names ∧ FoundIn cfg t pkg.key pkg) := by
  induction names generalizing found t with
  | nil =>
    obtain ⟨rfl, rfl⟩ := Program.finishes_ret.mp h
    exact ⟨id, .inl⟩
  | cons name names ih =>
    obtain ⟨files, found', u, rfl, hRest, hFound⟩ := scanFrom_cons h
    obtain ⟨hKept, hNew⟩ := ih hRest
    refine ⟨fun hMem => hKept ((hFound pkg).mpr (.inl hMem)), fun hMem => ?_⟩
    rcases hNew hMem with hMem | ⟨hName, files', hRead, hLoad⟩
    · rcases (hFound pkg).mp hMem with hMem | ⟨hManifest, rfl, hLoad⟩
      · exact .inl hMem
      · exact .inr ⟨List.mem_cons_self, files, List.mem_cons_self, hManifest, rfl, hLoad⟩
    · exact .inr ⟨List.mem_cons_of_mem _ hName, files', List.mem_cons_of_mem _ hRead, hLoad⟩

/-- A package that is read wherever its directory is read is found. -/
theorem mem_scanFrom_of_reads {found pkgs : List Package} {names : List Str}
    {t : List (Event Host)} {pkg : Package} (h : (cfg.scanFrom found names).Finishes t pkgs)
    (hName : pkg.key ∈ names)
    (hReads : ∀ files : PackageFiles,
      ⟨.ask (.readPackage (joinPath [cfg.dir, pkg.key])), files⟩ ∈ t →
        files.hasManifest = true ∧ loadPackage (joinPath [cfg.dir, pkg.key]) files = .ok pkg) :
    pkg ∈ pkgs := by
  induction names generalizing found t with
  | nil => cases hName
  | cons name names ih =>
    obtain ⟨files, found', u, rfl, hRest, hFound⟩ := scanFrom_cons h
    rcases List.mem_cons.mp hName with rfl | hName
    · obtain ⟨hManifest, hLoad⟩ := hReads files List.mem_cons_self
      exact (mem_scanFrom hRest pkg).1 ((hFound pkg).mpr (.inr ⟨hManifest, rfl, hLoad⟩))
    · exact ih hRest hName fun files' hRead => hReads files' (List.mem_cons_of_mem _ hRead)

end Loop

section Table

variable {pkgs : List Package} {key : Str} {pkg : Package}

theorem found_of_get {table : GoMap Str Package}
    (h : (pkgs.foldl (fun m p => m.set p.key p) table).get key = some pkg) :
    (pkg ∈ pkgs ∧ pkg.key = key) ∨ table.get key = some pkg := by
  induction pkgs generalizing table with
  | nil => exact .inr h
  | cons p pkgs ih =>
    rcases ih h with ⟨hMem, hKey⟩ | hOld
    · exact .inl ⟨List.mem_cons_of_mem _ hMem, hKey⟩
    · rw [GoMap.get_set] at hOld
      split_ifs at hOld with hKey
      · cases hOld
        exact .inl ⟨List.mem_cons_self, hKey.symm⟩
      · exact .inr hOld

theorem get_of_found {table : GoMap Str Package}
    (hFound : pkg ∈ pkgs ∨ table.get pkg.key = some pkg)
    (hOnly : ∀ p ∈ pkgs, p.key = pkg.key → p = pkg) :
    (pkgs.foldl (fun m p => m.set p.key p) table).get pkg.key = some pkg := by
  induction pkgs generalizing table with
  | nil => exact hFound.resolve_left (List.not_mem_nil)
  | cons p pkgs ih =>
    refine ih ?_ fun q hq => hOnly q (List.mem_cons_of_mem _ hq)
    by_cases hKey : p.key = pkg.key
    · obtain rfl := hOnly p List.mem_cons_self hKey
      exact .inr (GoMap.get_set_self _ _ _)
    · rw [GoMap.get_set, if_neg (Ne.symm hKey)]
      refine hFound.imp_left fun hMem => (List.mem_cons.mp hMem).resolve_left ?_
      rintro rfl
      exact hKey rfl

end Table

end Moduless.PluginHost
