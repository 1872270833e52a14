import Moduless.PluginHost.Effects
import Moduless.PluginHost.Supervision
import Moduless.System

/-!
The configuration an instance is launched with, against the one it can read back.

Both are the stored settings, filled in with the defaults that the table of packages
declares for the key. `Upgrade` writes its package into the table once the instances run,
so they are launched with the defaults of the package they replace.
-/

namespace Moduless
open Go Gateway Pipeline PluginHost Interaction Discipline

/-- The settings an operator has stored, and the packages on disk. -/
structure Surroundings where
  stored : Str → GoMap Str Str
  disk : Str → PackageFiles
  nodup : ∀ key, (stored key).keys.Nodup

/-- The answer is what the surroundings hold. -/
def Surroundings.Gives (env : Surroundings) : Event Host → Prop
  | ⟨.ask (.configSource key), set⟩ => set = env.stored key
  | ⟨.ask (.readPackage dir), files⟩ => files = env.disk dir
  | _ => True

def PluginHost.ManagerConfig.settings (cfg : ManagerConfig) (env : Surroundings) (key : Str) :
    GoMap Str Str :=
  if cfg.hasConfigSource then env.stored key else []

/-- The defaults a table of packages declares for a key. -/
def declared (table : GoMap Str Package) (key : Str) : GoMap Str Str :=
  match table.get key with
  | none => []
  | some pkg => pkg.manifest.configDefaults

/-- `ConfigFor` over a table of packages. -/
def filledIn (table : GoMap Str Package) (key : Str) (set : GoMap Str Str) : GoMap Str Str :=
  match table.get key with
  | none => set
  | some pkg => pkg.manifest.mergeConfig set

section Tables

variable {cfg : ManagerConfig} {env : Surroundings} {table table' : GoMap Str Package} {key : Str}
  {set : GoMap Str Str}

theorem settings_nodup (cfg : ManagerConfig) (env : Surroundings) (key : Str) :
    (cfg.settings env key).keys.Nodup := by
  rw [ManagerConfig.settings]
  split
  · exact env.nodup key
  · exact List.nodup_nil

theorem get_filledIn (hSet : set.keys.Nodup) (name : Str) :
    (filledIn table key set).get name = (set.get name).or ((declared table key).get name) := by
  rw [filledIn, declared]
  cases table.get key with
  | none => rw [GoMap.get_nil, Option.or_none]
  | some pkg => exact pkg.manifest.get_mergeConfig hSet name

/-- Two tables give a plugin the same configuration when they declare the same defaults
for what is not set. -/
theorem filledIn_agrees_iff (hSet : set.keys.Nodup) :
    (∀ name, (filledIn table key set).get name = (filledIn table' key set).get name) ↔
      ∀ name, set.get name = none →
        (declared table key).get name = (declared table' key).get name := by
  refine forall_congr' fun name => ?_
  rw [get_filledIn hSet, get_filledIn hSet]
  cases set.get name <;> simp

theorem declared_set_self (table : GoMap Str Package) (key : Str) (pkg : Package) :
    declared (table.set key pkg) key = pkg.manifest.configDefaults := by
  rw [declared, GoMap.get_set_self]

theorem filledIn_set_of_ne (pkg : Package) {other : Str} (hKey : other ≠ key) :
    filledIn (table.set key pkg) other set = filledIn table other set := by
  rw [filledIn, filledIn, GoMap.get_set, if_neg hKey]

end Tables

def nextTable (table : GoMap Str Package) : Event Host → GoMap Str Package
  | ⟨.manager (.commitUpgrade key pkg), _⟩ => table.set key pkg
  | ⟨.manager (.setPackages pkgs), _⟩ => pkgs.foldl (fun m p => m.set p.key p) []
  | _ => table

/-- The answer is what the table of packages holds. -/
def TableGives (table : GoMap Str Package) : Event Host → Prop
  | ⟨.manager (.package key), pkg⟩ => pkg = table.get key
  | _ => True

/-- Instances are launched under the given keys, with the configuration that `table`
gives. The account is the table of packages. -/
def configuring (cfg : ManagerConfig) (env : Surroundings) (table : GoMap Str Package)
    (keys : Str → Prop) : Discipline Host (GoMap Str Package) where
  next := nextTable
  permits _
    | .launch spec =>
      keys spec.key ∧ spec.config = filledIn table spec.key (cfg.settings env spec.key)
    | _ => True
  assumes g e := env.Gives e ∧ TableGives g e

/-- The package on disk that an upgrade of the key reads. -/
def Loads (cfg : ManagerConfig) (env : Surroundings) (key : Str) (pkg : Package) : Prop :=
  loadPackage (joinPath [cfg.dir, key]) (env.disk (joinPath [cfg.dir, key])) = .ok pkg

section Obedience

variable {cfg : ManagerConfig} {env : Surroundings} {table g : GoMap Str Package}
  {keys : Str → Prop}

theorem configuring_tending {α : Type} {p : HostM α} (hp : p.Uses Op.Tending) :
    Obeys (configuring cfg env table keys) (fun _ g' => g' = g) p g := by
  refine obeys_of_uses hp (P := (· = g)) (fun g' o hg' ho => ?_) rfl
  subst hg'
  cases o with
  | launch spec => exact ho.elim
  | manager o =>
    obtain ⟨key, rfl⟩ := ho
    exact ⟨trivial, fun _ => rfl⟩
  | _ => exact ⟨trivial, fun _ => rfl⟩

theorem configuring_looking {α : Type} {p : HostM α} (hp : p.Uses Op.Looking) :
    Obeys (configuring cfg env table keys) (fun _ g' => g' = g) p g :=
  configuring_tending (tending_of_looking hp)

theorem configuring_configFor (key : Str) :
    Obeys (configuring cfg env table keys)
      (fun config g => g = table ∧ config = filledIn table key (cfg.settings env key))
      (cfg.configFor key) table := by
  have hMerged : ∀ set, set = cfg.settings env key → Obeys (configuring cfg env table keys)
      (fun config g => g = table ∧ config = filledIn table key (cfg.settings env key))
      (ManagerConfig.mergedConfig key set) table := by
    rintro set rfl
    refine obeys_op trivial fun (pkg : Option Package) hPkg => ?_
    have hPkg : pkg = table.get key := hPkg.2
    subst hPkg
    rw [filledIn]
    cases table.get key <;> exact ⟨rfl, rfl⟩
  rw [ManagerConfig.configFor]
  refine obeys_ite.mpr ⟨fun hSource => ?_, fun hSource => ?_⟩
  · refine obeys_ask trivial fun (set : GoMap Str Str) hSet => hMerged set ?_
    exact (show set = env.stored key from hSet.1).trans (if_pos hSource).symm
  · exact hMerged [] (if_neg hSource).symm

theorem configuring_launchOne (pkg : Package) (hKey : keys pkg.key) (index : Nat) :
    Obeys (configuring cfg env table keys) (fun _ g => g = table) (cfg.launchOne pkg index)
      table := by
  refine obeys_bind (configuring_looking (cfg.looking_dataDirFor _)) ?_
  rintro dataDir _ rfl
  cases dataDir with
  | error e => rfl
  | ok dataDir =>
    refine obeys_bind (configuring_configFor pkg.key) ?_
    rintro config _ ⟨rfl, hConfig⟩
    refine obeys_op ⟨hKey, hConfig⟩ fun inst _ => ?_
    cases inst <;> rfl

theorem configuring_launchFrom (pkg : Package) (hKey : keys pkg.key) (n index : Nat)
    (started : List Instance) :
    Obeys (configuring cfg env table keys) (fun _ g => g = table)
      (cfg.launchFrom pkg n index started) table := by
  induction n generalizing index started with
  | zero => rfl
  | succ n ih =>
    refine obeys_bind (configuring_launchOne pkg hKey index) ?_
    rintro inst _ rfl
    cases inst with
    | error e =>
      exact obeys_bind (configuring_tending (ManagerConfig.tending_killAll started))
        fun _ _ hg => hg
    | ok inst => exact ih _ _

theorem configuring_launchAll (pkg : Package) (hKey : keys pkg.key) :
    Obeys (configuring cfg env table keys) (fun _ g => g = table) (cfg.launchAll pkg) table :=
  configuring_launchFrom pkg hKey _ 0 []

theorem configuring_enable (key : Str) :
    Obeys (configuring cfg env table fun _ => True) (fun _ g => g = table) (cfg.enable key)
      table := by
  refine obeys_op trivial fun pkg _ => ?_
  cases pkg with
  | none => rfl
  | some pkg =>
    refine obeys_bind (configuring_launchAll pkg trivial) ?_
    rintro launched _ rfl
    cases launched with
    | error e => rfl
    | ok instances =>
      refine obeys_op trivial fun _ _ => ?_
      refine obeys_bind (configuring_looking (looking_watchAll instances)) ?_
      rintro _ _ rfl
      exact obeys_op trivial fun _ _ => obeys_op trivial fun _ _ => rfl

theorem configuring_disable (key : Str) :
    Obeys (configuring cfg env table fun _ => True) (fun _ g => g = table) (cfg.disable key)
      table := by
  refine obeys_op trivial fun _ _ => obeys_op trivial fun displaced _ => ?_
  cases displaced with
  | nil => rfl
  | cons i is =>
    refine obeys_bind (configuring_tending (tending_drainEach _ none (i :: is))) ?_
    rintro _ _ rfl
    exact obeys_op trivial fun _ _ => rfl

theorem configuring_upgrade (key : Str) :
    Obeys (configuring cfg env table fun k => ∃ pkg, Loads cfg env key pkg ∧ k = pkg.key)
      (fun a g => ∀ pkg, Loads cfg env key pkg →
        g = if a.isNone then table.set key pkg else table) (cfg.upgrade key) table := by
  refine obeys_ask trivial fun (files : PackageFiles) hFiles => ?_
  obtain rfl : files = env.disk (joinPath [cfg.dir, key]) := hFiles.1
  split
  next e hLoad => exact fun pkg hPkg => nomatch hLoad.symm.trans hPkg
  next pkg hLoad =>
    refine obeys_bind (configuring_launchAll pkg ⟨pkg, hLoad, rfl⟩) ?_
    rintro launched _ rfl
    cases launched with
    | error e => exact fun _ _ => rfl
    | ok instances =>
      refine obeys_op trivial fun _ _ => ?_
      refine obeys_bind (obeys_op trivial fun displaced _ =>
        configuring_tending (tending_drainAllInBackground _ displaced)) ?_
      rintro _ _ rfl
      refine obeys_bind (configuring_looking (looking_watchAll instances)) ?_
      rintro _ _ rfl
      refine obeys_op trivial fun _ _ => ?_
      rintro pkg' hPkg'
      rw [← Except.ok.inj (hLoad.symm.trans hPkg')]
      rfl

theorem configuring_supervised (key : Str) :
    Supervised (configuring cfg env table fun _ => True) cfg key (· = table) where
  looking hp hg := by
    subst hg
    exact configuring_looking hp
  counts hg := ⟨trivial, hg⟩
  quarantines hg := by
    subst hg
    exact obeys_op trivial fun _ _ => obeys_op trivial fun displaced _ =>
      configuring_tending (tending_quarantineAll displaced)
  delays hg := ⟨trivial, fun _ _ => hg⟩
  relaunches hg := by
    subst hg
    refine obeys_relaunch trivial (fun _ => rfl) fun pkg => ?_
    refine obeys_mono (configuring_launchOne pkg trivial 0) ?_
    rintro r _ rfl
    cases r with
    | error e => rfl
    | ok i => exact ⟨trivial, fun _ _ => rfl⟩

/-- What leaves the table of packages as it is. -/
def Call.keepsTable : Call → Bool
  | .enable _ | .disable _ | .task (.watch _) => true
  | _ => false

theorem configuring_body {c : Call} (hc : c.keepsTable = true) :
    Obeys (configuring cfg env table fun _ => True) (fun _ g => g = table) (c.body cfg) table := by
  cases c with
  | enable key => exact configuring_enable key
  | disable key => exact configuring_disable key
  | task t =>
    cases t with
    | watch i =>
      exact obeys_bind ((configuring_supervised i.key).watchLoop rfl) fun _ _ hg => hg
    | _ => cases hc
  | _ => cases hc

theorem launchless_scan (cfg : ManagerConfig) :
    (Call.scan.body cfg).Uses fun (o : Op) => ∀ spec, o ≠ .launch spec := by
  refine Program.uses_bind (uses_ask nofun fun entries => ?_) fun _ => trivial
  cases entries with
  | none => exact uses_op nofun fun _ => trivial
  | some names =>
    refine Program.uses_bind ((cfg.looking_scanFrom [] names).mono ?_)
      fun _ => uses_op nofun fun _ => trivial
    rintro o ho spec rfl
    exact ho

end Obedience

section Runs

variable {cfg : ManagerConfig} {env : Surroundings} {s s' s'' : HostState}
  {t u : List (Event Host)}

theorem table_step {g : GoMap Str Package} {e : Event Host} (hs : s.packages = g)
    (hGives : env.Gives e) (h : host.Exec s e s') :
    (env.Gives e ∧ TableGives g e) ∧ s'.packages = nextTable g e := by
  subst hs
  obtain ⟨o, r⟩ := e
  cases o with
  | manager o =>
    have hApply := exec_manager h
    cases o <;> cases hApply <;> exact ⟨⟨hGives, by trivial⟩, rfl⟩
  | _ => exact ⟨⟨hGives, trivial⟩, exec_packages h (by simp)⟩

/-- The rule for one operation of the manager. -/
theorem runs_configured {α : Type} {Q : α → GoMap Str Package → Prop} {p : HostM α} {a : α}
    {keys : Str → Prop} (hp : Obeys (configuring cfg env s.packages keys) Q p s.packages)
    (h : host.Runs s p t a s') (hGives : ∀ e ∈ t, env.Gives e) :
    Q a s'.packages ∧ ∀ spec inst, ⟨.launch spec, some inst⟩ ∈ t → inst.key = spec.key ∧
      keys spec.key ∧ spec.config = filledIn s.packages spec.key (cfg.settings env spec.key) := by
  obtain ⟨hQ, hTable, hAll⟩ := hp.runs (S := fun (s : HostState) g => s.packages = g) h
    (fun s g e s' hs _ he hExec => table_step hs (hGives e he) hExec) rfl
  refine ⟨hTable ▸ hQ, fun spec inst hLaunch => ?_⟩
  obtain ⟨g, s₀, s₁, hPermit, hExec⟩ := hAll _ hLaunch
  refine ⟨?_, hPermit⟩
  obtain ⟨hNone, -⟩ | ⟨j, hj, hNew, -⟩ := exec_launch hExec
  · cases hNone
  · rw [Option.some.inj hj, hNew]
    rfl

theorem read_back {key : Str} {config : GoMap Str Str}
    (h : host.Runs s (cfg.configFor key) t config s') (hGives : ∀ e ∈ t, env.Gives e) :
    config = filledIn s.packages key (cfg.settings env key) := by
  have hObeys : Obeys (configuring cfg env s.packages fun _ => True) _ (cfg.configFor key)
      s.packages := configuring_configFor key
  exact (runs_configured hObeys h hGives).1.2

/-- The operations of the manager, and a watcher that restarts its plugin. -/
def Call.manages : Call → Bool
  | .scan | .upgrade _ => true
  | c => c.keepsTable

/-- An upgrade that succeeds declares the defaults of before, where nothing is set. -/
def KeepsDefaults (cfg : ManagerConfig) (env : Surroundings) (s : HostState) (c : Call)
    (a : Option HostError) : Prop :=
  ∀ key pkg, c = .upgrade key → a = none → Loads cfg env key pkg → pkg.key = key →
    ∀ name, (cfg.settings env key).get name = none →
      (declared s.packages key).get name = pkg.manifest.configDefaults.get name

/-- A call runs from any state of Core, with the settings as they are stored. Each
instance it launches is given the configuration it can read back afterwards, unless the
call is an upgrade that changes a default. -/
theorem config_read_back_iff {c : Call} (hc : c.manages = true) {a : Option HostError}
    (h : host.Runs s (c.body cfg) t a s') (hGives : ∀ e ∈ t, env.Gives e) {spec : LaunchSpec}
    {inst : Instance} (hLaunch : ⟨.launch spec, some inst⟩ ∈ t) {config : GoMap Str Str}
    (hRead : host.Runs s' (cfg.configFor inst.key) u config s'')
    (hGives' : ∀ e ∈ u, env.Gives e) :
    (∀ name, spec.config.get name = config.get name) ↔ KeepsDefaults cfg env s c a := by
  rw [read_back hRead hGives']
  by_cases hKeeps : c.keepsTable = true
  · obtain ⟨hTable, hConfig⟩ := runs_configured (configuring_body hKeeps) h hGives
    obtain ⟨hKey, -, hSpec⟩ := hConfig spec inst hLaunch
    rw [hSpec, hKey, hTable]
    refine iff_of_true (fun _ => rfl) fun key pkg hCall => ?_
    subst hCall
    cases hKeeps
  · cases c with
    | scan => exact absurd rfl ((launchless_scan cfg).hist h.finishes _ hLaunch spec)
    | upgrade key =>
      obtain ⟨hTable, hConfig⟩ := runs_configured (configuring_upgrade key) h hGives
      obtain ⟨hKey, ⟨pkg, hLoad, hPkg⟩, hSpec⟩ := hConfig spec inst hLaunch
      have hOnly : ∀ pkg', Loads cfg env key pkg' → pkg' = pkg := fun pkg' hLoad' =>
        Except.ok.inj (hLoad'.symm.trans hLoad)
      rw [hSpec, hKey, hTable pkg hLoad, hPkg]
      cases a with
      | some e => exact iff_of_true (fun _ => rfl) nofun
      | none =>
        rw [if_pos Option.isNone_none]
        by_cases hOwn : pkg.key = key
        · rw [filledIn_agrees_iff (settings_nodup cfg env _), hOwn, declared_set_self]
          constructor
          · intro hSame key' pkg' hCall _ hLoad' _
            cases hCall
            rwa [hOnly pkg' hLoad']
          · intro hKept
            exact hKept key pkg rfl rfl hLoad hOwn
        · rw [filledIn_set_of_ne pkg hOwn]
          refine iff_of_true (fun _ => rfl) fun key' pkg' hCall _ hLoad' hOwn' => ?_
          cases hCall
          rw [hOnly pkg' hLoad'] at hOwn'
          exact absurd hOwn' hOwn
    | _ => exact absurd hc hKeeps

end Runs

/-- A plugin with one setting and its default. -/
def tunedManifest (level : Str) : Manifest :=
  { auditManifest 1 with
    config := [{ key := "level".toList, type_ := "string".toList, default_ := level }] }

def sourcedConfig : ManagerConfig := { plainConfig with hasConfigSource := true }

/-- The package is on disk, and no settings are stored. -/
def tunedSurroundings (level : Str) : Surroundings where
  stored _ := []
  disk _ := ⟨true, some (tunedManifest level), some ⟨false, true⟩, some "sum".toList, false⟩
  nodup _ := List.nodup_nil

/-- Choices with the package on disk. -/
def stocking (level : Str) : (o : Op) → o.Choice
  | .ask (.readDir _) => some ["audit".toList]
  | o => shipping (tunedManifest level) ["audit".toList] o

/-- The run of a call with the package on disk. -/
def stockedRun (level : Str) (s : HostState) (c : Call) :
    Option (List (Event Host) × Option HostError × HostState) :=
  host.replay (stocking level) s (c.body sourcedConfig)

def tunedScan : List (Event Host) × Option HostError × HostState :=
  (stockedRun "info".toList {} .scan).get rfl

def tunedEnable : List (Event Host) × Option HostError × HostState :=
  (stockedRun "info".toList tunedScan.2.2 (.enable "audit".toList)).get rfl

/-- Core after a scan and the start of the plugin. -/
def tunedState : HostState := tunedEnable.2.2

theorem gives_of_stocking {level : Str} {s s' : HostState} {α : Type} {p : HostM α}
    {t : List (Event Host)} {a : α} (h : host.replay (stocking level) s p = some (t, a, s')) :
    ∀ e ∈ t, (tunedSurroundings level).Gives e := by
  rintro ⟨o, r⟩ he
  obtain ⟨s₀, s₁, hExec⟩ := Machine.exec_of_replay h _ he
  cases o with
  | ask q =>
    have hAnswer : stocking level (.ask q) = r := (Prod.mk.inj (Option.some.inj hExec)).1
    cases q with
    | configSource key => exact hAnswer.symm
    | readPackage dir => exact hAnswer.symm
    | _ => trivial
  | _ => trivial

/-- The run in which an instance reads its configuration. -/
def readingRun (level : Str) (s : HostState) :
    Option (List (Event Host) × GoMap Str Str × HostState) :=
  host.replay (stocking level) s (sourcedConfig.configFor "audit".toList)

def keptUpgrade : List (Event Host) × Option HostError × HostState :=
  (stockedRun "info".toList tunedState (.upgrade "audit".toList)).get rfl

def keptReading : List (Event Host) × GoMap Str Str × HostState :=
  (readingRun "info".toList keptUpgrade.2.2).get rfl

theorem config_read_back_kept : ∃ spec inst,
    (⟨.launch spec, some inst⟩ : Event Host) ∈ keptUpgrade.1 ∧
    ∀ name, spec.config.get name = keptReading.2.1.get name := by
  have hRun : stockedRun "info".toList tunedState (.upgrade "audit".toList) = some keptUpgrade :=
    (Option.some_get _).symm
  have hReading : readingRun "info".toList keptUpgrade.2.2 = some keptReading :=
    (Option.some_get _).symm
  have hLaunch := List.mem_of_getElem? (l := keptUpgrade.1) (i := 3) rfl
  refine ⟨_, _, hLaunch, (config_read_back_iff rfl (Machine.runs_of_replay hRun)
    (gives_of_stocking hRun) hLaunch (Machine.runs_of_replay hReading)
    (gives_of_stocking hReading)).mpr ?_⟩
  rintro key pkg hCall - hLoad - name -
  cases hCall
  cases hLoad
  rfl

def changedUpgrade : List (Event Host) × Option HostError × HostState :=
  (stockedRun "debug".toList tunedState (.upgrade "audit".toList)).get rfl

def changedReading : List (Event Host) × GoMap Str Str × HostState :=
  (readingRun "debug".toList changedUpgrade.2.2).get rfl

/-- The upgrade succeeds. The new instance runs with the default of the old package and
reads that of its own. -/
theorem config_stale :
    host.Runs {} (Call.scan.body sourcedConfig) tunedScan.1 none tunedScan.2.2 ∧
    host.Runs tunedScan.2.2 ((Call.enable "audit".toList).body sourcedConfig) tunedEnable.1 none
      tunedState ∧
    host.Runs tunedState ((Call.upgrade "audit".toList).body sourcedConfig) changedUpgrade.1 none
      changedUpgrade.2.2 ∧
    (∀ e ∈ changedUpgrade.1, (tunedSurroundings "debug".toList).Gives e) ∧
    (∃ spec inst, (⟨.launch spec, some inst⟩ : Event Host) ∈ changedUpgrade.1 ∧
      inst.key = "audit".toList ∧ spec.config.get "level".toList = some "info".toList) ∧
    host.Runs changedUpgrade.2.2 (sourcedConfig.configFor "audit".toList) changedReading.1
      changedReading.2.1 changedReading.2.2 ∧
    changedReading.2.1.get "level".toList = some "debug".toList := by
  have hScan : stockedRun "info".toList {} .scan = some tunedScan := (Option.some_get _).symm
  have hEnable : stockedRun "info".toList tunedScan.2.2 (.enable "audit".toList) =
      some tunedEnable := (Option.some_get _).symm
  have hRun : stockedRun "debug".toList tunedState (.upgrade "audit".toList) =
      some changedUpgrade := (Option.some_get _).symm
  have hReading : readingRun "debug".toList changedUpgrade.2.2 = some changedReading :=
    (Option.some_get _).symm
  exact ⟨Machine.runs_of_replay hScan, Machine.runs_of_replay hEnable,
    Machine.runs_of_replay hRun, gives_of_stocking hRun,
    ⟨_, _, List.mem_of_getElem? (l := changedUpgrade.1) (i := 3) rfl, rfl, rfl⟩,
    Machine.runs_of_replay hReading, rfl⟩

end Moduless
