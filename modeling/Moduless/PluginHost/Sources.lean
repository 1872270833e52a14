import Moduless.PluginHost.Effects
import Moduless.PluginHost.Scanning
import Moduless.PluginHost.Supervision

/-!
Where the instances that a goroutine registers come from.

A goroutine launches instances from a package it has for the plugin: the table of
packages gave it, or the goroutine has put it there. `Upgrade` puts its package into
the table before it registers its instances, so for a moment the table is ahead of the
registry.
-/

namespace Moduless.PluginHost
open Go Pipeline Interaction Discipline

/-- What a launch takes from a package. -/
structure LaunchSpec.Of (spec : LaunchSpec) (pkg : Package) : Prop where
  key : spec.key = pkg.key
  version : spec.version = pkg.version
  weight : spec.weight = pkg.manifest.weight
  binaryPath : spec.binaryPath = pkg.binaryPath
  checksum : spec.checksum = pkg.checksum
  hostImpl : spec.hostImpl.pkg = pkg
  grantedPermissions : spec.grantedPermissions = pkg.manifest.permissions

/-- Some contents of the directory load as the package. -/
def Package.LoadedFrom (pkg : Package) (dir : Str) : Prop :=
  ∃ files, loadPackage dir files = .ok pkg

theorem Package.LoadedFrom.dir_eq {pkg : Package} {dir : Str} (h : pkg.LoadedFrom dir) :
    pkg.dir = dir := by
  obtain ⟨files, h⟩ := h
  exact (loadPackage_paths h).1

/-- `held` are the packages the goroutine has for plugins, `launched` is what it has
launched. `ahead` is the plugin whose package it has put into the table and whose
instances it has not registered yet. -/
structure Sources where
  held : List (Str × Package) := []
  launched : List (Instance × LaunchSpec) := []
  ahead : Option Str := none

namespace Sources

variable {g g' g'' : Sources} {pkg : Package} {i : Instance}

def next (g : Sources) : Event Host → Sources
  | ⟨.manager (.package key), found⟩ => { g with held := found.toList.map (key, ·) ++ g.held }
  | ⟨.manager (.relaunchable key), found⟩ =>
    { g with held := found.1.toList.map (key, ·) ++ g.held }
  | ⟨.manager (.commitUpgrade key pkg), _⟩ => { g with held := [(key, pkg)], ahead := some key }
  | ⟨.manager (.setPackages _), _⟩ => { g with held := [] }
  | ⟨.launch spec, inst⟩ => { g with launched := inst.toList.map (·, spec) ++ g.launched }
  | ⟨.installPlugin reg, _⟩ =>
    { g with ahead := if g.ahead = some reg.key then none else g.ahead }
  | _ => g

/-- The goroutine has launched the instance from the package. -/
def Started (g : Sources) (pkg : Package) (i : Instance) : Prop :=
  ∃ spec, (i, spec) ∈ g.launched ∧ spec.Of pkg

structure Extends (g g' : Sources) : Prop where
  held : g.held ⊆ g'.held
  launched : g.launched ⊆ g'.launched
  ahead : g'.ahead = g.ahead

theorem Extends.refl (g : Sources) : g.Extends g := ⟨fun _ h => h, fun _ h => h, rfl⟩

theorem Extends.trans (h : g.Extends g') (h' : g'.Extends g'') : g.Extends g'' :=
  ⟨fun _ hx => h'.held (h.held hx), fun _ hx => h'.launched (h.launched hx),
    h'.ahead.trans h.ahead⟩

theorem Started.mono (h : g.Started pkg i) (hMore : g.launched ⊆ g'.launched) :
    g'.Started pkg i := by
  obtain ⟨spec, hSpec, hOf⟩ := h
  exact ⟨spec, hMore hSpec, hOf⟩

theorem extends_next {o : Op} (ho : o.Local) (r : o.Ans) : g.Extends (g.next ⟨o, r⟩) := by
  cases o with
  | installPlugin reg => exact ho.elim
  | crash o => exact ho.elim
  | manager o =>
    obtain ⟨key, rfl⟩ := ho
    exact ⟨List.subset_append_right _ _, fun _ h => h, rfl⟩
  | launch spec => exact ⟨fun _ h => h, List.subset_append_right _ _, rfl⟩
  | _ => exact .refl g

theorem launched_next (g : Sources) (e : Event Host) : g.launched ⊆ (g.next e).launched := by
  obtain ⟨o, r⟩ := e
  cases o with
  | launch spec => exact List.subset_append_right _ _
  | manager o => cases o <;> exact fun _ h => h
  | _ => exact fun _ h => h

theorem mem_launched_next {spec : LaunchSpec} {e : Event Host}
    (h : (i, spec) ∈ (g.next e).launched) :
    (i, spec) ∈ g.launched ∨ e = ⟨.launch spec, some i⟩ := by
  obtain ⟨o, r⟩ := e
  cases o with
  | launch spec' =>
    rcases List.mem_append.mp h with hNew | hOld
    · obtain ⟨inst, hInst, hEq⟩ := List.mem_map.mp hNew
      cases hEq
      exact .inr (by rw [Option.mem_toList.mp hInst])
    · exact .inl hOld
  | manager o => cases o <;> exact .inl h
  | _ => exact .inl h

theorem mem_held_next {s s' : HostState} {key : Str} {e : Event Host} (hExec : host.Exec s e s')
    (h : (key, pkg) ∈ (g.next e).held) :
    e.op = .manager (.commitUpgrade key pkg) ∧ s'.packages.get key = some pkg ∨
      s'.packages = s.packages ∧ ((key, pkg) ∈ g.held ∨ s.packages.get key = some pkg) := by
  have hFound : ∀ {k : Str} {found : Option Package}, found = s.packages.get k →
      (key, pkg) ∈ found.toList.map (k, ·) ++ g.held →
      (key, pkg) ∈ g.held ∨ s.packages.get key = some pkg := by
    rintro k found rfl hMem
    rcases List.mem_append.mp hMem with hMem | hMem
    · obtain ⟨pkg', hPkg, hEq⟩ := List.mem_map.mp hMem
      cases hEq
      exact .inr (Option.mem_toList.mp hPkg)
    · exact .inl hMem
  obtain ⟨o, r⟩ := e
  cases o with
  | manager o =>
    obtain ⟨rfl, rfl⟩ := Prod.mk.inj (exec_manager hExec)
    cases o with
    | package k => exact .inr ⟨rfl, hFound rfl h⟩
    | relaunchable k => exact .inr ⟨rfl, hFound rfl h⟩
    | commitUpgrade k pkg' =>
      cases List.mem_singleton.mp h
      exact .inl ⟨rfl, GoMap.get_set_self _ _ _⟩
    | setPackages pkgs => cases h
    | _ => exact .inr ⟨rfl, .inl h⟩
  | _ => exact .inr ⟨exec_packages hExec (by simp), .inl h⟩

theorem ahead_next {key : Str} {e : Event Host} (h : g.ahead = some key)
    (hUpgrade : ∀ k pkg, e.op ≠ .manager (.commitUpgrade k pkg))
    (hInstall : ∀ reg, e.op = .installPlugin reg → reg.key ≠ key) :
    (g.next e).ahead = some key := by
  obtain ⟨o, r⟩ := e
  cases o with
  | installPlugin reg =>
    have hOther : g.ahead ≠ some reg.key := fun hReg =>
      hInstall reg rfl (Option.some.inj (hReg.symm.trans h))
    exact (if_neg hOther).trans h
  | manager o =>
    cases o with
    | commitUpgrade k pkg' => exact absurd rfl (hUpgrade k pkg')
    | _ => exact h
  | _ => exact h

theorem ahead_install {reg : Registration} (r : List Instance)
    (h : ∀ key, g.ahead = some key → key = reg.key) :
    (g.next ⟨.installPlugin reg, r⟩).ahead = none := by
  have hNext : (g.next ⟨.installPlugin reg, r⟩).ahead =
      if g.ahead = some reg.key then none else g.ahead := rfl
  rw [hNext]
  split
  next => rfl
  next hNot =>
    cases hAhead : g.ahead with
    | none => rfl
    | some key => exact absurd (hAhead.trans (congrArg some (h key hAhead))) hNot

end Sources

/-- The registration is that of one of the packages, or bare. -/
def Registration.MadeFrom (reg : Registration) (held : List (Str × Package)) : Prop :=
  reg = bareRegistration reg.key reg.instances ∨
    ∃ pkg : Package, (reg.key, pkg) ∈ held ∧ reg = pkg.registration reg.key reg.instances

/-- What is registered was made, and every instance of it launched, from a package the
goroutine has for the plugin, and what comes into the table was loaded from the plugin's
directory. -/
def sourcing (cfg : ManagerConfig) (scans : Bool) : Discipline Host Sources where
  next := Sources.next
  permits g
    | .installPlugin reg => reg.MadeFrom g.held ∧
      ∀ i ∈ reg.instances, ∃ pkg, (reg.key, pkg) ∈ g.held ∧ g.Started pkg i
    | .manager (.commitUpgrade key pkg) =>
      pkg.LoadedFrom (joinPath [cfg.dir, key]) ∧ g.ahead = none
    | .manager (.setPackages pkgs) =>
      scans = true ∧ ∀ pkg ∈ pkgs, pkg.LoadedFrom (joinPath [cfg.dir, pkg.key])
    | _ => True
  assumes _ _ := True

section Obedience

variable {cfg : ManagerConfig} {scans : Bool} {g : Sources} {α β : Type}

theorem sourcing_local {p : HostM α} (hp : p.Uses Op.Local) :
    Obeys (sourcing cfg scans) (fun _ g' => g.Extends g') p g := by
  refine obeys_of_uses hp (P := fun g' => g.Extends g') (fun g' o hg' ho => ?_) (.refl g)
  refine ⟨?_, fun r => hg'.trans (Sources.extends_next ho r)⟩
  cases o with
  | installPlugin reg => exact ho.elim
  | manager o =>
    obtain ⟨key, rfl⟩ := ho
    trivial
  | _ => trivial

theorem sourcing_looking {p : HostM α} (hp : p.Uses Op.Looking) :
    Obeys (sourcing cfg scans) (fun _ g' => g.Extends g') p g :=
  sourcing_local (local_of_looking hp)

/-- The table of packages is not ahead of the registry. -/
def Settled : α → Sources → Prop := fun _ g => g.ahead = none

theorem settled_local {p : HostM α} (hp : p.Uses Op.Local) (hg : g.ahead = none) :
    Obeys (sourcing cfg scans) Settled p g :=
  obeys_mono (sourcing_local hp) fun _ _ hExtends => hExtends.ahead.trans hg

theorem sourcing_launchOne (pkg : Package) (index : Nat) :
    Obeys (sourcing cfg scans) (fun r g' => g.Extends g' ∧ ∀ i, r = .ok i → g'.Started pkg i)
      (cfg.launchOne pkg index) g := by
  refine obeys_bind (sourcing_looking (cfg.looking_dataDirFor _)) fun dataDir g₁ h₁ => ?_
  cases dataDir with
  | error e => exact ⟨h₁, nofun⟩
  | ok dataDir =>
    refine obeys_bind (sourcing_looking (cfg.looking_configFor _)) fun config g₂ h₂ => ?_
    refine obeys_op trivial fun (inst : Option Instance) _ => ?_
    have hNext : ∀ spec, g.Extends (g₂.next ⟨.launch spec, inst⟩) := fun spec =>
      (h₁.trans h₂).trans (Sources.extends_next (o := .launch spec) trivial inst)
    cases inst with
    | none => exact ⟨hNext _, nofun⟩
    | some inst =>
      refine ⟨hNext _, fun i hi => ?_⟩
      cases hi
      exact ⟨_, List.mem_cons_self, rfl, rfl, rfl, rfl, rfl, rfl, rfl⟩

theorem sourcing_launchFrom (pkg : Package) (n index : Nat) (started : List Instance)
    (hStarted : ∀ i ∈ started, g.Started pkg i) :
    Obeys (sourcing cfg scans)
      (fun r g' => g.Extends g' ∧ ∀ is, r = .ok is → ∀ i ∈ is, g'.Started pkg i)
      (cfg.launchFrom pkg n index started) g := by
  induction n generalizing g index started with
  | zero =>
    refine ⟨.refl g, fun is his => ?_⟩
    cases his
    exact hStarted
  | succ n ih =>
    refine obeys_bind (sourcing_launchOne pkg index) ?_
    rintro (e | inst) g₁ ⟨h₁, hInst⟩
    · refine obeys_bind (sourcing_local (local_of_tending (ManagerConfig.tending_killAll _)))
        fun _ g₂ h₂ => ⟨h₁.trans h₂, nofun⟩
    · have hAll : ∀ i ∈ started ++ [inst], g₁.Started pkg i := by
        intro i hi
        rcases List.mem_append.mp hi with hi | hi
        · exact (hStarted i hi).mono h₁.launched
        · exact List.mem_singleton.mp hi ▸ hInst inst rfl
      exact obeys_mono (ih _ _ hAll) fun _ _ h => ⟨h₁.trans h.1, h.2⟩

theorem sourcing_launchAll (pkg : Package) :
    Obeys (sourcing cfg scans)
      (fun r g' => g.Extends g' ∧ ∀ is, r = .ok is → ∀ i ∈ is, g'.Started pkg i)
      (cfg.launchAll pkg) g :=
  sourcing_launchFrom pkg _ 0 [] (by simp)

theorem sourcing_enable (key : Str) (hg : g.ahead = none) :
    Obeys (sourcing cfg scans) Settled (cfg.enable key) g := by
  refine obeys_op trivial fun (found : Option Package) _ => ?_
  cases found with
  | none => exact hg
  | some pkg =>
    refine obeys_bind (sourcing_launchAll pkg) ?_
    rintro (e | instances) g₁ ⟨h₁, hAll⟩
    · exact h₁.ahead.trans hg
    · have hHeld : (key, pkg) ∈ g₁.held := h₁.held List.mem_cons_self
      refine obeys_op ⟨.inr ⟨pkg, hHeld, rfl⟩, fun i hi => ⟨pkg, hHeld, hAll instances rfl i hi⟩⟩
        fun displaced _ => ?_
      have hAhead : (g₁.next ⟨.installPlugin (pkg.registration key instances),
          displaced⟩).ahead = none :=
        Sources.ahead_install displaced fun k hk => nomatch hk.symm.trans (h₁.ahead.trans hg)
      refine obeys_bind (settled_local (local_of_looking (looking_watchAll instances)) hAhead) ?_
      exact fun _ g₂ h₂ => obeys_op trivial fun _ _ => obeys_op trivial fun _ _ => h₂

theorem sourcing_remove {key : Str} {f : List Instance → HostM β} {Q : β → Sources → Prop}
    (hg : g.ahead = none)
    (hf : ∀ displaced g', g'.ahead = none → Obeys (sourcing cfg scans) Q (f displaced) g') :
    Obeys (sourcing cfg scans) Q (remove key >>= f) g :=
  obeys_op ⟨.inl rfl, by simp [bareRegistration]⟩ fun displaced _ =>
    hf displaced _ (Sources.ahead_install displaced fun k hk => nomatch hk.symm.trans hg)

theorem sourcing_disable (key : Str) (hg : g.ahead = none) :
    Obeys (sourcing cfg scans) Settled (cfg.disable key) g := by
  refine obeys_op trivial fun _ _ => sourcing_remove hg fun displaced g₁ h₁ => ?_
  cases displaced with
  | nil => exact h₁
  | cons i is =>
    refine obeys_bind
      (settled_local (local_of_tending (tending_drainEach _ none (i :: is))) h₁) ?_
    exact fun _ g₂ h₂ => obeys_op trivial fun _ _ => h₂

theorem sourcing_upgrade (key : Str) (hg : g.ahead = none) :
    Obeys (sourcing cfg scans) Settled (cfg.upgrade key) g := by
  refine obeys_ask trivial fun files _ => ?_
  split
  next => exact hg
  next pkg hLoad =>
    refine obeys_bind (sourcing_launchAll pkg) ?_
    rintro (e | instances) g₁ ⟨h₁, hAll⟩
    · exact h₁.ahead.trans hg
    · refine obeys_op ⟨⟨files, hLoad⟩, h₁.ahead.trans hg⟩ fun _ _ => ?_
      refine obeys_bind (Q := Settled) ?_ fun _ g₂ h₂ => ?_
      · refine obeys_op ⟨.inr ⟨pkg, List.mem_cons_self, rfl⟩, fun i hi =>
          ⟨pkg, List.mem_cons_self, hAll instances rfl i hi⟩⟩ fun displaced _ => ?_
        refine settled_local (local_of_tending (tending_drainAllInBackground _ displaced)) ?_
        exact Sources.ahead_install displaced fun k hk => (Option.some.inj hk).symm
      · refine obeys_bind (settled_local (local_of_looking (looking_watchAll instances)) h₂) ?_
        exact fun _ g₃ h₃ => obeys_op trivial fun _ _ => h₃

theorem sourcing_relaunch (key : Str) :
    Obeys (sourcing cfg scans) (fun r g' => g'.ahead = g.ahead ∧
      ∀ i, r = .ok i → ∃ pkg, (key, pkg) ∈ g'.held ∧ g'.Started pkg i) (cfg.relaunch key) g := by
  refine obeys_relaunch trivial (fun _ => ⟨rfl, nofun⟩) fun pkg => ?_
  refine obeys_mono (sourcing_launchOne pkg 0) fun r g' h => ?_
  exact ⟨h.1.ahead, fun i hi => ⟨pkg, h.1.held List.mem_cons_self, h.2 i hi⟩⟩

theorem sourcing_supervised (key : Str) :
    Supervised (sourcing cfg scans) cfg key fun g => g.ahead = none where
  looking hp hg := settled_local (local_of_looking hp) hg
  counts hg := ⟨trivial, hg⟩
  quarantines hg := obeys_op trivial fun _ _ => sourcing_remove hg fun displaced _ h₁ =>
    settled_local (local_of_tending (tending_quarantineAll displaced)) h₁
  delays hg := ⟨trivial, fun _ _ => hg⟩
  relaunches hg := by
    refine obeys_mono (sourcing_relaunch key) fun r g' h => ?_
    have hAhead : g'.ahead = none := h.1.trans hg
    cases r with
    | error e => exact hAhead
    | ok i =>
      refine ⟨⟨.inl rfl, fun j hj => List.mem_singleton.mp hj ▸ h.2 i rfl⟩, fun displaced _ => ?_⟩
      exact Sources.ahead_install displaced fun k hk => nomatch hk.symm.trans hAhead

theorem sourcing_scan (hg : g.ahead = none) :
    Obeys (sourcing cfg true) Settled cfg.scan g := by
  refine obeys_ask trivial fun (entries : Option (List Str)) _ => ?_
  cases entries with
  | none => exact ⟨⟨rfl, by simp⟩, fun _ _ => hg⟩
  | some names =>
    have hReturns : (cfg.scanFrom [] names).Returns fun pkgs =>
        ∀ pkg ∈ pkgs, pkg.LoadedFrom (joinPath [cfg.dir, pkg.key]) := by
      refine Program.returns_of_finishes fun t pkgs hFinish pkg hPkg => ?_
      rcases (mem_scanFrom hFinish pkg).2 hPkg with hPkg | ⟨-, files, -, -, -, hLoad⟩
      · cases hPkg
      · exact ⟨files, hLoad⟩
    refine obeys_bind (obeys_returns (sourcing_looking (cfg.looking_scanFrom [] names)) hReturns)
      fun pkgs g₁ h₁ => ⟨⟨rfl, h₁.2⟩, fun _ _ => h₁.1.ahead.trans hg⟩

end Obedience

end Moduless.PluginHost
