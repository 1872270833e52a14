import Moduless.PluginHost.Launches
import Moduless.System.OwnKeys

/-!
The package Core consults for a plugin, against the one its instances run from.

`Enable`, `Upgrade` and restarts keep the two together. `Scan` replaces the table of
packages by what is on disk and leaves running instances alone, so it keeps them together
only if the package of every plugin with instances is found again unchanged.
-/

namespace Moduless
open Go Gateway Pipeline PluginHost Interaction Discipline Machine

/-- The instance was launched from the package, according to the log. -/
def LaunchedFrom (log : List (Event Host)) (i : Instance) (pkg : Package) : Prop :=
  ∃ spec : LaunchSpec, ⟨.launch spec, some i⟩ ∈ log ∧ spec.Of pkg

/-- The table of packages holds what the instances of the snapshot were launched from. -/
def Consults (log : List (Event Host)) (s : HostState) (key : Str) : Prop :=
  ∀ i ∈ s.registry.current.replicas key, ∃ pkg,
    s.packages.get key = some pkg ∧ LaunchedFrom log i pkg

/-- A goroutine and the shared state: what it holds is in the table, what it has launched is
in the log, and the table is ahead of the registry for one plugin at most. -/
structure Abreast (log : List (Event Host)) (s : HostState) (g : Sources) : Prop where
  held : ∀ key pkg, (key, pkg) ∈ g.held → s.packages.get key = some pkg
  launched : ∀ i spec, (i, spec) ∈ g.launched → ⟨.launch spec, some i⟩ ∈ log
  consults : ∀ key, g.ahead ≠ some key → Consults log s key

section Steps

variable {cfg : ManagerConfig} {log : List (Event Host)} {s s' : HostState} {g : Sources}
  {e : Event Host}

theorem get_held_next (h : Abreast log s g) (hExec : host.Exec s e s') (key : Str)
    (pkg : Package) (hHeld : (key, pkg) ∈ (g.next e).held) : s'.packages.get key = some pkg := by
  rcases Sources.mem_held_next hExec hHeld with ⟨-, hGet⟩ | ⟨hSame, hOld⟩
  · exact hGet
  · rw [hSame]
    exact hOld.elim (h.held key pkg) id

/-- An operation of a call other than `Scan` changes the package of a plugin only to put
the table ahead of the registry. -/
theorem get_packages_next (hPermit : (sourcing cfg false).permits g e.op)
    (hExec : host.Exec s e s') (key : Str) (hAhead : (g.next e).ahead ≠ some key) :
    s'.packages.get key = s.packages.get key := by
  rcases packages_next hExec with hSame | ⟨key', pkg, hOp, hSet⟩ | ⟨pkgs, hOp, -⟩
  · rw [hSame]
  · obtain ⟨o, r⟩ := e
    cases hOp
    rw [hSet, GoMap.get_set, if_neg]
    rintro rfl
    exact hAhead rfl
  · rw [hOp] at hPermit
    exact nomatch hPermit.1

theorem consults_next (h : Abreast log s g) (hPermit : (sourcing cfg false).permits g e.op)
    (hExec : host.Exec s e s') (key : Str) (hAhead : (g.next e).ahead ≠ some key) :
    Consults log s' key := by
  have hTable := get_packages_next hPermit hExec key hAhead
  have hOld : (∀ reg, e.op = .installPlugin reg → reg.key ≠ key) → Consults log s key := by
    intro hInstall
    refine h.consults key fun hKey => ?_
    by_cases hUpgrade : ∃ k pkg, e.op = .manager (.commitUpgrade k pkg)
    · obtain ⟨k, pkg, hOp⟩ := hUpgrade
      rw [hOp] at hPermit
      exact nomatch hPermit.2.symm.trans hKey
    · exact hAhead (Sources.ahead_next hKey (fun k pkg hOp => hUpgrade ⟨k, pkg, hOp⟩) hInstall)
  intro i hi
  rw [hTable]
  by_cases hInstall : ∃ reg, e.op = .installPlugin reg
  · obtain ⟨o, r⟩ := e
    obtain ⟨reg, rfl⟩ := hInstall
    obtain ⟨order, hOrder, -, rfl⟩ := exec_installPlugin hExec
    rw [Registry.replicas_installPlugin] at hi
    split_ifs at hi with hKey
    · obtain ⟨pkg, hHeld, spec, hSpec, hOf⟩ := hPermit.2 i hi
      subst hKey
      exact ⟨pkg, h.held reg.key pkg hHeld, spec, h.launched i spec hSpec, hOf⟩
    · refine hOld (fun reg' hOp => ?_) i hi
      cases hOp
      exact Ne.symm hKey
  · rw [(exec_frame hExec).registry fun reg hReg => hInstall ⟨reg, hReg⟩] at hi
    exact hOld (fun reg hReg => absurd ⟨reg, hReg⟩ hInstall) i hi

theorem Abreast.step (h : Abreast log s g) (hPermit : (sourcing cfg false).permits g e.op)
    (he : e ∈ log) (hExec : host.Exec s e s') : Abreast log s' (g.next e) where
  held := get_held_next h hExec
  launched i spec hMem := by
    rcases Sources.mem_launched_next hMem with hOld | rfl
    · exact h.launched i spec hOld
    · exact he
  consults := consults_next h hPermit hExec

end Steps

section Sessions

variable {cfg : ManagerConfig} {log t : List (Event Host)} {s s' : HostState} {c : Call}
  {a : Option HostError}

theorem LaunchedFrom.mono {i : Instance} {pkg : Package} (h : LaunchedFrom log i pkg)
    (t : List (Event Host)) : LaunchedFrom (log ++ t) i pkg := by
  obtain ⟨spec, hSpec, hOf⟩ := h
  exact ⟨spec, List.mem_append_left t hSpec, hOf⟩

theorem Consults.mono {key : Str} (h : Consults log s key) (t : List (Event Host)) :
    Consults (log ++ t) s key := by
  intro i hi
  obtain ⟨pkg, hGet, hFrom⟩ := h i hi
  exact ⟨pkg, hGet, hFrom.mono t⟩

/-- Every call but `Scan` keeps the table and the registry together. -/
theorem consults_call (h : ∀ key, Consults log s key) (hc : c ≠ .scan)
    (hRun : host.Runs s (c.body cfg) t a s') (key : Str) : Consults (log ++ t) s' key := by
  have hBody : Obeys (sourcing cfg false) Settled (c.body cfg) {} :=
    sourcing_body cfg c fun hScan => absurd hScan hc
  obtain ⟨hSettled, hAbreast, -⟩ := hBody.runs hRun (S := Abreast (log ++ t))
    (fun _ _ _ _ hs hPermit he hExec =>
      ⟨trivial, hs.step hPermit (List.mem_append_right log he) hExec⟩)
    ⟨by simp, by simp, fun key _ => (h key).mono t⟩
  exact hAbreast.consults key (by rw [hSettled]; simp)

/-- `Scan` lists the directory and puts what it then finds into the table. -/
theorem scan_runs (hRun : host.Runs s (Call.scan.body cfg) t a s') :
    ∃ (entries : Option (List Str)) (pkgs : List Package) (u : List (Event Host)),
      t = ⟨.ask (.readDir cfg.dir), entries⟩ :: u ++ [⟨.manager (.setPackages pkgs), ()⟩] ∧
      (cfg.scanFrom [] (entries.getD [])).Finishes u pkgs ∧
      s' = { s with packages := pkgs.foldl (fun m p => m.set p.key p) [] } := by
  have hSet : ∀ {pkgs : List Package} {v : List (Event Host)} {s₁ : HostState} {b : Unit},
      host.Runs s (op (.manager (.setPackages pkgs))) v b s₁ →
      v = [⟨.manager (.setPackages pkgs), ()⟩] ∧
        s₁ = { s with packages := pkgs.foldl (fun m p => m.set p.key p) [] } := by
    intro pkgs v s₁ b hOp
    obtain ⟨r, s₂, w, rfl, hExec, hRet⟩ := runs_call.mp hOp
    obtain ⟨rfl, -, rfl⟩ := runs_ret.mp hRet
    obtain ⟨-, rfl⟩ := Prod.mk.inj (exec_manager hExec)
    exact ⟨rfl, rfl⟩
  obtain ⟨_, _, _, s₁, rfl, hScan, hRet⟩ := runs_bind.mp hRun
  obtain ⟨rfl, -, rfl⟩ := runs_ret.mp hRet
  obtain ⟨entries, u, rfl, hRest⟩ := runs_ask.mp hScan
  rw [List.append_nil]
  cases entries with
  | none =>
    obtain ⟨rfl, rfl⟩ := hSet hRest
    exact ⟨none, [], [], rfl, .stay _, rfl⟩
  | some names =>
    obtain ⟨pkgs, w, v, s₂, rfl, hFrom, hOp⟩ := runs_bind.mp hRest
    obtain ⟨rfl, -⟩ := runs_reading (cfg.reading_scanFrom [] names) hFrom
    obtain ⟨rfl, rfl⟩ := hSet hOp
    exact ⟨some names, pkgs, w, rfl, hFrom.finishes, rfl⟩

/-- The scan finds the package of every plugin with instances again: its directory is
listed, and what is read there loads as the package in the table. -/
def FindsAgain (cfg : ManagerConfig) (s : HostState) (t : List (Event Host)) : Prop :=
  ∀ key pkg, s.registry.current.replicas key ≠ [] → s.packages.get key = some pkg →
    pkg.key = key ∧
    (∃ names : List Str, ⟨.ask (.readDir cfg.dir), some names⟩ ∈ t ∧ key ∈ names) ∧
    ∀ files : PackageFiles, ⟨.ask (.readPackage (joinPath [cfg.dir, key])), files⟩ ∈ t →
      files.hasManifest = true ∧ loadPackage (joinPath [cfg.dir, key]) files = .ok pkg

/-- A scan that finds what is in use leaves it in the table. -/
theorem get_of_findsAgain (hFinds : FindsAgain cfg s t)
    (hRun : host.Runs s (Call.scan.body cfg) t a s') {key : Str} {pkg : Package}
    (hUsed : s.registry.current.replicas key ≠ []) (hGet : s.packages.get key = some pkg) :
    s'.packages.get key = some pkg := by
  obtain ⟨entries, pkgs, u, rfl, hFrom, rfl⟩ := scan_runs hRun
  obtain ⟨rfl, ⟨names, hNames, hName⟩, hReads⟩ := hFinds key pkg hUsed hGet
  have hEntries : entries = some names := by
    rcases List.mem_append.mp hNames with hNames | hNames
    · rcases List.mem_cons.mp hNames with hEq | hRead
      · cases hEq
        rfl
      · obtain ⟨dir, hDir⟩ := (cfg.reads_scanFrom [] _).hist hFrom _ hRead
        cases hDir
    · cases List.mem_singleton.mp hNames
  subst hEntries
  have hLoads : ∀ files : PackageFiles,
      ⟨.ask (.readPackage (joinPath [cfg.dir, pkg.key])), files⟩ ∈ u →
      files.hasManifest = true ∧ loadPackage (joinPath [cfg.dir, pkg.key]) files = .ok pkg :=
    fun files hRead => hReads files (List.mem_append_left _ (List.mem_cons_of_mem _ hRead))
  refine get_of_found (.inl (mem_scanFrom_of_reads hFrom hName hLoads)) fun p hp hKey => ?_
  rcases (mem_scanFrom hFrom p).2 hp with hNone | ⟨-, files, hRead, -, -, hLoad⟩
  · cases hNone
  · rw [hKey] at hRead hLoad
    exact Except.ok.inj (hLoad.symm.trans (hLoads files hRead).2)

theorem consults_scan (h : ∀ key, Consults log s key) (hFinds : FindsAgain cfg s t)
    (hRun : host.Runs s (Call.scan.body cfg) t a s') (key : Str) : Consults (log ++ t) s' key := by
  intro i hi
  have hSame : s'.registry = s.registry := by
    obtain ⟨entries, pkgs, u, -, -, rfl⟩ := scan_runs hRun
    rfl
  rw [hSame] at hi
  obtain ⟨pkg, hGet, hFrom⟩ := h key i hi
  exact ⟨pkg, get_of_findsAgain hFinds hRun (List.ne_nil_of_mem hi) hGet, hFrom.mono t⟩

/-- The hosts `main` lets a plugin reach: those of the package in the table. -/
def allowFor (s : HostState) (key : Str) : List Str :=
  match s.packages.get key with
  | some pkg => pkg.manifest.egressAllow
  | none => []

theorem session_consults
    (h : (core cfg).Session (fun s c t => c = .scan → FindsAgain cfg s t) {} log s) (key : Str) :
    Consults log s key := by
  induction h generalizing key with
  | start => exact fun i hi => nomatch hi
  | @call log t s s' c a _ hRun hCond ih =>
    by_cases hc : c = .scan
    · subst hc
      exact consults_scan ih (hCond rfl) hRun key
    · exact consults_call ih hc hRun key

/-- What runs is what Core consults. -/
theorem running_consulted {key : Str}
    (h : (core cfg).Session (fun s c t => c = .scan → FindsAgain cfg s t) {} log s)
    (hKey : s.registry.current.replicas key ≠ []) :
    ∃ pkg, s.packages.get key = some pkg ∧ allowFor s key = pkg.manifest.egressAllow ∧
      ∀ i ∈ s.registry.current.replicas key, LaunchedFrom log i pkg := by
  have hConsults := session_consults h key
  obtain ⟨i, hi⟩ := List.exists_mem_of_ne_nil _ hKey
  obtain ⟨pkg, hGet, -⟩ := hConsults i hi
  refine ⟨pkg, hGet, by rw [allowFor, hGet], fun j hj => ?_⟩
  obtain ⟨pkg', hGet', hFrom⟩ := hConsults j hj
  cases hGet.symm.trans hGet'
  exact hFrom

end Sessions

/-- A world in which nothing fails and the given package is all there is on disk. -/
def listing (m : Manifest) : (o : Op) → o.Choice
  | .ask (.readDir _) => some ["audit".toList]
  | o => shipping m ["audit".toList] o

/-- The plugin is brought in by an upgrade. -/
def broughtIn : List (Event Host) × Option HostError × HostState :=
  (host.replay (listing (auditManifest 1)) {}
    ((Call.upgrade "audit".toList).body plainConfig)).get rfl

theorem broughtIn_replay : host.replay (listing (auditManifest 1)) {}
    ((Call.upgrade "audit".toList).body plainConfig) = some broughtIn := (Option.some_get _).symm

/-- `Scan` afterwards, with the given package on disk. -/
def rescan (m : Manifest) : Option (List (Event Host) × Option HostError × HostState) :=
  host.replay (listing m) broughtIn.2.2 (Call.scan.body plainConfig)

theorem session_rescan {m : Manifest} {out : List (Event Host) × Option HostError × HostState}
    {cond : HostState → Call → List (Event Host) → Prop} (h : rescan m = some out)
    (hFirst : cond {} (.upgrade "audit".toList) broughtIn.1)
    (hSecond : cond broughtIn.2.2 .scan out.1) :
    (core plainConfig).Session cond {} (broughtIn.1 ++ out.1) out.2.2 := by
  have hUpgrade : (core plainConfig).machine.Runs {} ((core plainConfig).body
      (.upgrade "audit".toList)) broughtIn.1 broughtIn.2.1 broughtIn.2.2 :=
    runs_of_replay broughtIn_replay
  have hScan : (core plainConfig).machine.Runs broughtIn.2.2 ((core plainConfig).body .scan)
      out.1 out.2.1 out.2.2 := runs_of_replay h
  have hOne := System.Session.start.call hUpgrade hFirst
  rw [List.nil_append] at hOne
  exact hOne.call hScan hSecond

def foundAgain : List (Event Host) × Option HostError × HostState :=
  (rescan (auditManifest 1)).get rfl

theorem running_consulted_rescan :
    ∃ pkg, foundAgain.2.2.packages.get "audit".toList = some pkg ∧
      ∀ i ∈ foundAgain.2.2.registry.current.replicas "audit".toList,
        LaunchedFrom (broughtIn.1 ++ foundAgain.1) i pkg := by
  have hRescan : rescan (auditManifest 1) = some foundAgain := (Option.some_get _).symm
  have hFinds : FindsAgain plainConfig broughtIn.2.2 foundAgain.1 := by
    intro key pkg hUsed hGet
    have hTable : broughtIn.2.2.packages = [("audit".toList,
      (broughtIn.2.2.packages.get "audit".toList).get rfl)] := rfl
    rw [hTable, GoMap.get_cons] at hGet
    split_ifs at hGet with hKey
    · subst hKey
      cases hGet
      refine ⟨rfl, ⟨_, List.mem_of_getElem? (i := 0) rfl, List.mem_singleton_self _⟩, ?_⟩
      intro files hRead
      obtain ⟨s₀, s₁, hExec⟩ := exec_of_replay hRescan _ hRead
      cases hExec
      exact ⟨rfl, rfl⟩
    · cases hGet
  have hRuns : foundAgain.2.2.registry.current.replicas "audit".toList ≠ [] := by decide
  obtain ⟨pkg, hGet, -, hFrom⟩ :=
    running_consulted (session_rescan hRescan nofun fun _ => hFinds) hRuns
  exact ⟨pkg, hGet, hFrom⟩

/-- A second version, which asks to reach a host. -/
def reachingManifest : Manifest :=
  { auditManifest 1 with
    version := "2.0.0".toList
    permissions := [permHTTPEgress]
    egressAllow := ["metrics".toList] }

def replacedOnDisk : List (Event Host) × Option HostError × HostState :=
  (rescan reachingManifest).get rfl

/-- The second version is only on disk, and the instance of the first one that runs may reach
the host. -/
theorem running_not_consulted :
    (core plainConfig).Session (fun _ _ _ => True) {} (broughtIn.1 ++ replacedOnDisk.1)
      replacedOnDisk.2.2 ∧
    replacedOnDisk.2.2.registry.current.replicas "audit".toList = [auditReplica 0] ∧
    allowFor broughtIn.2.2 "audit".toList = [] ∧
    allowFor replacedOnDisk.2.2 "audit".toList = ["metrics".toList] ∧
    ¬ ∃ pkg, replacedOnDisk.2.2.packages.get "audit".toList = some pkg ∧
      LaunchedFrom (broughtIn.1 ++ replacedOnDisk.1) (auditReplica 0) pkg := by
  have hRescan : rescan reachingManifest = some replacedOnDisk := (Option.some_get _).symm
  have hVersion : ∀ spec : LaunchSpec,
      ⟨.launch spec, some (auditReplica 0)⟩ ∈ broughtIn.1 ++ replacedOnDisk.1 →
      spec.version = "1.0.0".toList := by
    intro spec hSpec
    have hExec : ∃ s₀ s₁, host.Exec s₀ ⟨.launch spec, some (auditReplica 0)⟩ s₁ := by
      rcases List.mem_append.mp hSpec with hSpec | hSpec
      · obtain ⟨s₀, s₁, hExec⟩ := exec_of_replay broughtIn_replay _ hSpec
        exact ⟨s₀, s₁, _, hExec⟩
      · obtain ⟨s₀, s₁, hExec⟩ := exec_of_replay hRescan _ hSpec
        exact ⟨s₀, s₁, _, hExec⟩
    obtain ⟨s₀, s₁, hExec⟩ := hExec
    rcases exec_launch hExec with ⟨hNone, -⟩ | ⟨inst, hSome, hInst, -⟩
    · cases hNone
    · cases hSome
      exact (congrArg Instance.version hInst).symm
  refine ⟨session_rescan hRescan trivial trivial, rfl, rfl, rfl, ?_⟩
  rintro ⟨pkg, hGet, spec, hSpec, hOf⟩
  have hNew : pkg.version = "2.0.0".toList := by
    rw [← Option.some.inj hGet]
    rfl
  exact absurd ((hVersion spec hSpec).symm.trans (hOf.version.trans hNew)) (by decide)

end Moduless
