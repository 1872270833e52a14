import Moduless.Gateway.Body
import Moduless.Interaction.Accounts
import Moduless.Interaction.Schedule
import Moduless.PluginHost.Sources
import Moduless.System

/-!
The key a plugin runs under, against the key its manifest carries.

`ScanPackages` leaves out a package whose key is not the name of its directory. `Upgrade`
does not compare them. As long as every package it brings in carries the key that was
asked for, a plugin is registered only under its own key.
-/

namespace Moduless.PluginHost
open Go Pipeline Interaction

/-- One element of a path: the name of something directly in a directory. -/
def IsElement (name : Str) : Prop :=
  name ≠ [] ∧ '/' ∉ name ∧ name ≠ ".".toList ∧ name ≠ "..".toList

/-- The package of a plugin in the plugin's own directory. -/
structure Package.Home (pkg : Package) (dir key : Str) : Prop where
  named : pkg.key = key
  loaded : pkg.LoadedFrom (joinPath [dir, key])

theorem Package.isElement_key (pkg : Package) : IsElement pkg.key := by
  obtain ⟨hSome, hLegal⟩ := Manifest.validate_key pkg.valid
  have hNot : ∀ c, Manifest.illegalInKey c = true → c ∉ pkg.key := fun c hIllegal hc =>
    List.any_eq_false.mp hLegal c hc hIllegal
  have hDot : '.' ∉ pkg.key := hNot '.' rfl
  refine ⟨hSome, hNot '/' rfl, fun hEq => hDot ?_, fun hEq => hDot ?_⟩ <;> rw [hEq] <;> decide

/-- What is known of the packages in the table and of those the goroutines have. -/
structure Stocked (Known : Str → Package → Prop) (s : HostState) (gs : List Sources) : Prop where
  table : ∀ key pkg, s.packages.get key = some pkg → Known key pkg
  held : ∀ g ∈ gs, ∀ key pkg, (key, pkg) ∈ g.held → Known key pkg

/-- All of them are at home under their keys, and so is what the instances were launched
from. -/
structure OwnKeys (dir : Str) (s : HostState) (gs : List Sources) : Prop
    extends Stocked (fun key pkg => pkg.Home dir key) s gs where
  launched : ∀ g ∈ gs, ∀ i spec, (i, spec) ∈ g.launched → i.key = spec.key
  registry : ∀ key, ∀ i ∈ s.registry.current.replicas key,
    ∃ g ∈ gs, ∃ pkg : Package, pkg.Home dir key ∧ g.Started pkg i

/-- An upgrade brings in a package that carries the key it is for. -/
def Op.ownUpgrade : Op → Bool
  | .manager (.commitUpgrade key pkg) => pkg.key = key
  | _ => true

section Steps

variable {cfg : ManagerConfig} {s s' : HostState} {g : Sources} {gs : List Sources}
  {e : Event Host} {Known : Str → Package → Prop}

theorem Stocked.perm {gs' : List Sources} (h : Stocked Known s gs) (hPerm : gs.Perm gs') :
    Stocked Known s gs' := ⟨h.table, fun g hg => h.held g (hPerm.mem_iff.mpr hg)⟩

theorem Stocked.fresh (h : Stocked Known s gs) : Stocked Known s ({} :: gs) :=
  ⟨h.table, List.forall_mem_cons.mpr ⟨by simp, h.held⟩⟩

/-- It stays known if it is known of what an upgrade or a scan brings in. -/
theorem Stocked.next (h : Stocked Known s (g :: gs)) (hExec : host.Exec s e s')
    (hUpgrade : ∀ key pkg, e.op = .manager (.commitUpgrade key pkg) → Known key pkg)
    (hScan : ∀ pkgs, e.op = .manager (.setPackages pkgs) → ∀ pkg ∈ pkgs, Known pkg.key pkg) :
    Stocked Known s' (g.next e :: gs) := by
  obtain ⟨hSelf, hOthers⟩ := List.forall_mem_cons.mp h.held
  refine ⟨fun key pkg hGet => ?_, List.forall_mem_cons.mpr ⟨fun key pkg hHeld => ?_, hOthers⟩⟩
  · rcases packages_next hExec with hSame | ⟨key', pkg', hOp, hSet⟩ | ⟨pkgs, hOp, hSet⟩
    · exact h.table key pkg (hSame ▸ hGet)
    · rw [hSet, GoMap.get_set] at hGet
      split_ifs at hGet with hKey
      · cases hGet
        exact hKey ▸ hUpgrade _ _ hOp
      · exact h.table key pkg hGet
    · rw [hSet] at hGet
      rcases found_of_get hGet with ⟨hMem, rfl⟩ | hOld
      · exact hScan pkgs hOp pkg hMem
      · cases hOld
  · rcases Sources.mem_held_next hExec hHeld with ⟨hOp, -⟩ | ⟨-, hOld | hGet⟩
    · exact hUpgrade key pkg hOp
    · exact hSelf key pkg hOld
    · exact h.table key pkg hGet

theorem loaded_of_upgrade {scans : Bool} {key : Str} {pkg : Package}
    (hPermit : (sourcing cfg scans).permits g e.op)
    (hOp : e.op = .manager (.commitUpgrade key pkg)) :
    pkg.LoadedFrom (joinPath [cfg.dir, key]) := by
  rw [hOp] at hPermit
  exact hPermit.1

theorem loaded_of_scan {scans : Bool} {pkgs : List Package}
    (hPermit : (sourcing cfg scans).permits g e.op)
    (hOp : e.op = .manager (.setPackages pkgs)) :
    ∀ pkg ∈ pkgs, pkg.LoadedFrom (joinPath [cfg.dir, pkg.key]) := by
  rw [hOp] at hPermit
  exact hPermit.2

theorem home_of_upgrade {key : Str} {pkg : Package} (hOwn : e.op.ownUpgrade = true)
    (hPermit : (sourcing cfg true).permits g e.op)
    (hOp : e.op = .manager (.commitUpgrade key pkg)) : pkg.Home cfg.dir key := by
  refine ⟨?_, loaded_of_upgrade hPermit hOp⟩
  rw [hOp] at hOwn
  exact of_decide_eq_true hOwn

theorem key_launched_next (h : ∀ i spec, (i, spec) ∈ g.launched → i.key = spec.key)
    (hExec : host.Exec s e s') (i : Instance) (spec : LaunchSpec)
    (hMem : (i, spec) ∈ (g.next e).launched) : i.key = spec.key := by
  rcases Sources.mem_launched_next hMem with hOld | rfl
  · exact h i spec hOld
  · rcases exec_launch hExec with ⟨hNone, -⟩ | ⟨inst, hSome, rfl, -⟩
    · cases hNone
    · cases hSome
      rfl

theorem home_registry_next (h : OwnKeys cfg.dir s (g :: gs))
    (hPermit : (sourcing cfg true).permits g e.op) (hExec : host.Exec s e s') (key : Str)
    (i : Instance) (hi : i ∈ s'.registry.current.replicas key) :
    ∃ g' ∈ g.next e :: gs, ∃ pkg : Package, pkg.Home cfg.dir key ∧ g'.Started pkg i := by
  have hOld : i ∈ s.registry.current.replicas key → ∃ g' ∈ g.next e :: gs,
      ∃ pkg : Package, pkg.Home cfg.dir key ∧ g'.Started pkg i := by
    intro hi
    obtain ⟨g', hg', pkg, hHome, hStarted⟩ := h.registry key i hi
    rcases List.mem_cons.mp hg' with rfl | hg'
    · exact ⟨_, List.mem_cons_self, pkg, hHome, hStarted.mono (g'.launched_next _)⟩
    · exact ⟨g', List.mem_cons_of_mem _ hg', pkg, hHome, hStarted⟩
  by_cases hInstall : ∃ reg, e.op = .installPlugin reg
  · obtain ⟨o, r⟩ := e
    obtain ⟨reg, rfl⟩ := hInstall
    obtain ⟨order, hOrder, -, rfl⟩ := exec_installPlugin hExec
    rw [Registry.replicas_installPlugin] at hi
    split_ifs at hi with hKey
    · obtain ⟨pkg, hHeld, hStarted⟩ := hPermit.2 i hi
      refine ⟨_, List.mem_cons_self, pkg, ?_, hStarted.mono (g.launched_next _)⟩
      rw [hKey]
      exact h.held g List.mem_cons_self reg.key pkg hHeld
    · exact hOld hi
  · rw [(exec_frame hExec).registry fun reg hReg => hInstall ⟨reg, hReg⟩] at hi
    exact hOld hi

end Steps

theorem ownKeys_kept {C : Type} (cfg : ManagerConfig) :
    (sourcing cfg true).KeptIf host (fun _ : C => {}) (fun _ _ e => e.op.ownUpgrade = true)
      (OwnKeys cfg.dir) where
  perm hPerm h := ⟨h.toStocked.perm hPerm, fun g hg => h.launched g (hPerm.mem_iff.mpr hg),
    fun key i hi => by
      obtain ⟨g, hg, hRest⟩ := h.registry key i hi
      exact ⟨g, hPerm.mem_iff.mp hg, hRest⟩⟩
  condPerm _ h := h
  fresh _ h := ⟨h.toStocked.fresh, List.forall_mem_cons.mpr ⟨by simp, h.launched⟩,
    fun key i hi => by
      obtain ⟨g, hg, hRest⟩ := h.registry key i hi
      exact ⟨g, List.mem_cons_of_mem _ hg, hRest⟩⟩
  step h hOwn hPermit _ hExec :=
    ⟨h.toStocked.next hExec (fun _ _ => home_of_upgrade hOwn hPermit)
        fun _ hOp pkg hPkg => ⟨rfl, loaded_of_scan hPermit hOp pkg hPkg⟩,
      List.forall_mem_cons.mpr ⟨key_launched_next (h.launched _ List.mem_cons_self) hExec,
        (List.forall_mem_cons.mp h.launched).2⟩,
      home_registry_next h hPermit hExec⟩

end Moduless.PluginHost

namespace Moduless
open Go Gateway Pipeline PluginHost Interaction Discipline

theorem sourcing_request {α : Type} {cfg : ManagerConfig} {scans : Bool} {g : Sources}
    {p : HostM α} {P : Request → Prop} (hp : p.Uses (PluginHandler.HandsOver P)) :
    Obeys (sourcing cfg scans) (fun _ g' => g' = g) p g := by
  refine obeys_of_uses hp (P := (· = g)) (fun g' o hg' ho => ?_) rfl
  subst hg'
  cases o with
  | manager o => exact ho.elim
  | installPlugin reg => exact ho.elim
  | launch spec => exact ho.elim
  | _ => exact ⟨trivial, fun _ => rfl⟩

theorem sourcing_body (cfg : ManagerConfig) {scans : Bool} (c : Call)
    (hScan : c = .scan → scans = true) :
    Obeys (sourcing cfg scans) Settled (c.body cfg) {} := by
  cases c with
  | serve h r =>
    refine obeys_bind (Q := Settled) ?_ fun _ _ hg => hg
    refine obeys_op trivial fun snap _ => ?_
    exact obeys_mono (sourcing_request (h.serveWith_handsOver snap r)) fun _ _ hg => hg ▸ rfl
  | enable key => exact sourcing_enable key rfl
  | disable key => exact sourcing_disable key rfl
  | upgrade key => exact sourcing_upgrade key rfl
  | scan =>
    obtain rfl := hScan rfl
    exact obeys_bind (sourcing_scan rfl) fun _ _ hg => hg
  | exit i => exact ⟨trivial, fun _ _ => rfl⟩
  | task t =>
    cases t with
    | drain i timeout => exact settled_local (local_of_tending (tending_drain i timeout)) rfl
    | watch i =>
      exact obeys_bind ((sourcing_supervised i.key).watchLoop rfl) fun _ _ hg => hg
    | log chain rc =>
      exact obeys_bind (sourcing_request (P := fun _ => True) ((serving_runLog chain rc).mono
        fun _ => PluginHandler.handsOver_of_serving)) fun _ _ hg => hg ▸ rfl

theorem launched_account {cfg : ManagerConfig} {scans : Bool} {g : Sources}
    {t : List (Event Host)} {i : Instance} {spec : LaunchSpec}
    (h : (i, spec) ∈ ((sourcing cfg scans).account g t).launched) :
    (i, spec) ∈ g.launched ∨ ⟨.launch spec, some i⟩ ∈ t := by
  induction t generalizing g with
  | nil => exact .inl h
  | cons e t ih =>
    rcases ih h with hNext | hRest
    · rcases Sources.mem_launched_next hNext with hOld | rfl
      · exact .inl hOld
      · exact .inr List.mem_cons_self
    · exact .inr (List.mem_cons_of_mem _ hRest)

/-- Runs of Core in which every upgrade that goes through has loaded a package with the key
it is for. -/
abbrev OwnReach (cfg : ManagerConfig) : CorePool → CorePool → Prop :=
  (core cfg).Reach (fun _ c => c.external = true) fun _ _ e => e.op.ownUpgrade = true

/-- A plugin runs only under its own key. -/
theorem runs_under_own_key {cfg : ManagerConfig} {q : CorePool} {key : Str} {i : Instance}
    (h : OwnReach cfg boot q) (hi : i ∈ q.state.registry.current.replicas key) :
    ∃ th ∈ q.threads, ∃ (spec : LaunchSpec) (pkg : Package),
      ⟨.launch spec, some i⟩ ∈ th.hist ∧ spec.Of pkg ∧
      pkg.key = key ∧ pkg.dir = joinPath [cfg.dir, key] ∧ IsElement key ∧
      i.key = key ∧ spec.hostImpl.pluginKey = key := by
  obtain ⟨hOwn, -⟩ := h.accountsIf (ownKeys_kept cfg) (fun c => sourcing_body cfg c fun _ => rfl)
    (fun _ _ _ _ _ _ _ _ => trivial) (fun _ _ _ hCond => hCond) rfl
    ⟨⟨by simp [boot], by simp⟩, by simp, fun key i hi => by cases hi⟩
  obtain ⟨g, hg, pkg, hHome, spec, hSpec, hOf⟩ := hOwn.registry key i hi
  have hInst := hOwn.launched g hg i spec hSpec
  obtain ⟨th, hth, rfl⟩ := List.mem_map.mp hg
  refine ⟨th, hth, spec, pkg, ?_, hOf, hHome.named, hHome.loaded.dir_eq,
    hHome.named ▸ pkg.isElement_key, ?_, ?_⟩
  · exact (launched_account hSpec).resolve_left List.not_mem_nil
  · rw [hInst, hOf.key, hHome.named]
  · rw [HostServices.pluginKey, hOf.hostImpl, hHome.named]

/-- A directory that ships the package of `audit` is upgraded under its own name. -/
def ownPool : CorePool :=
  ((core plainConfig).play (fun _ c => c.external) (fun _ _ e => e.op.ownUpgrade)
    [.begin (.upgrade "audit".toList), .run 0 7 (shipping (auditManifest 1) ["audit".toList]),
      .begin (.exit (auditReplica 0)), .run 2 1 (Op.calm []),
      .run 1 16 (Op.calm ["audit".toList])] boot).get rfl

theorem runs_under_own_key_restarted : ∃ (spec : LaunchSpec) (pkg : Package), spec.Of pkg ∧
    pkg.key = "audit".toList ∧ pkg.dir = "plugins/audit".toList := by
  have hReach : OwnReach plainConfig boot ownPool :=
    System.reach_get_play (fun _ _ h => h) (fun _ _ _ h => h) rfl
  have hReplica : { auditReplica 0 with id := 1 } ∈
      ownPool.state.registry.current.replicas "audit".toList := List.mem_of_getElem? (i := 0) rfl
  obtain ⟨th, -, spec, pkg, -, hOf, hKey, hDir, -⟩ := runs_under_own_key hReach hReplica
  exact ⟨spec, pkg, hOf, hKey, hDir⟩

/-- The same package in the directory `shadow`, upgraded under that name. -/
def shadowPool : CorePool :=
  ((core plainConfig).play (fun _ c => c.external) (fun _ _ _ => true)
    [.begin (.upgrade "shadow".toList),
      .run 0 7 (shipping (auditManifest 1) ["shadow".toList])] boot).get rfl

/-- What is registered as `shadow` is an instance of `audit`, its services act for
`audit`, and its watcher looks for it under `audit`, where it is not. -/
theorem runs_under_other_key : CoreReach plainConfig boot shadowPool ∧
    auditReplica 0 ∈ shadowPool.state.registry.current.replicas "shadow".toList ∧
    (auditReplica 0).key = "audit".toList ∧
    (∃ th ∈ shadowPool.threads, ∃ spec : LaunchSpec,
      ⟨.launch spec, some (auditReplica 0)⟩ ∈ th.hist ∧
      spec.hostImpl.pluginKey = "audit".toList) ∧
    shadowPool.state.registry.current.replicas "audit".toList = [] :=
  ⟨System.reach_get_play (fun _ _ h => h) (fun _ _ _ _ => trivial) rfl,
    List.mem_of_getElem? (i := 0) rfl, rfl,
    ⟨_, List.mem_of_getElem? (i := 0) rfl, _, List.mem_of_getElem? (i := 2) rfl, rfl⟩, rfl⟩

end Moduless
