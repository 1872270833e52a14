import Moduless.PluginHost.Lifecycle

/-!
The manager's operations and the supervisor that restarts crashed plugins.

The log lines these functions write and the table of load errors the console
lists are left out; nothing else reads them.
-/

namespace Moduless.PluginHost
open Go Pipeline Interaction

/-- `hasConfigSource` says whether a source of settings is configured. -/
structure ManagerConfig where
  dir : Str
  dataDirRoot : Str
  baseEnv : List Str
  drainTimeout : Duration
  hasConfigSource : Bool
  supervisor : SupervisorConfig

def defaultDrainTimeout : Duration := 30 * second

def Package.registration (pkg : Package) (key : Str) (instances : List Instance) : Registration :=
  { key := key
    instances := instances
    filters := pkg.filters
    allowIdentityMutation := pkg.allowsIdentityMutation
    known := pkg.known_phases }

/-- The registration `Install` makes: instances and no declarations. -/
def bareRegistration (key : Str) (instances : List Instance) : Registration :=
  { key := key, instances := instances, filters := [], allowIdentityMutation := false
    known := by simp }

theorem get_register_bare (regs : GoMap Str Registration) (key : Str) (is : List Instance)
    (k : Str) : (register regs (bareRegistration key is)).get k =
      if k = key then if is = [] then none else some (bareRegistration key is) else regs.get k :=
  get_register regs (bareRegistration key is) k

/-- `Registry.Install`. -/
def install (key : Str) (instances : List Instance) : HostM (List Instance) :=
  op (.installPlugin (bareRegistration key instances))

/-- `Registry.Remove`. -/
def remove (key : Str) : HostM (List Instance) := op (.installPlugin (bareRegistration key []))

namespace ManagerConfig

variable (cfg : ManagerConfig)

def dataDirFor (key : Str) : HostM (Except HostError Str) :=
  if cfg.dataDirRoot = [] then pure (.ok [])
  else do
    let dir := joinPath [cfg.dataDirRoot, key]
    let made ← ask (.mkdirAll dir)
    if made then pure (.ok dir) else pure (.error (.dataDirFailed key))

def envFor (pkg : Package) (dataDir : Str) : List Str :=
  (if cfg.baseEnv = [] then ["PATH=/usr/local/bin:/usr/bin:/bin".toList] else cfg.baseEnv) ++
    ["MODULESS_PLUGIN_KEY=".toList ++ pkg.key, "MODULESS_PLUGIN_VERSION=".toList ++ pkg.version] ++
    (if dataDir = [] then [] else ["MODULESS_DATA_DIR=".toList ++ dataDir])

/-- The factory `main` passes to the manager. It also reconciles the schema of the package;
the database is not part of the host. -/
def hostFor (pkg : Package) : HostServices := ⟨pkg⟩

def mergedConfig (key : Str) (set : GoMap Str Str) : HostM (GoMap Str Str) := do
  let pkg ← op (.manager (.package key))
  match pkg with
  | none => pure set
  | some pkg => pure (pkg.manifest.mergeConfig set)

def configFor (key : Str) : HostM (GoMap Str Str) :=
  if cfg.hasConfigSource then do
    let set ← ask (.configSource key)
    mergedConfig key set
  else mergedConfig key []

def launchOne (pkg : Package) (index : Nat) : HostM (Except HostError Instance) := do
  let dataDir ← cfg.dataDirFor pkg.key
  match dataDir with
  | .error e => pure (.error e)
  | .ok dataDir =>
    let config ← cfg.configFor pkg.key
    let inst ← op (.launch
      { key := pkg.key
        instanceID := pkg.key ++ '-' :: Nat.toDigits 10 index
        version := pkg.version
        weight := pkg.manifest.weight
        binaryPath := pkg.binaryPath
        checksum := pkg.checksum
        hostImpl := hostFor pkg
        grantedPermissions := pkg.manifest.permissions
        config := config
        dataDir := dataDir
        env := cfg.envFor pkg dataDir })
    match inst with
    | none => pure (.error (.launchFailed pkg.key))
    | some inst => pure (.ok inst)

def killAll : List Instance → HostM Unit
  | [] => pure ()
  | i :: rest => do
      i.terminate
      killAll rest

/-- The loop of `launchAll`: `n` replicas are still to be launched, `started`
holds those that run. -/
def launchFrom (pkg : Package) :
    Nat → Nat → List Instance → HostM (Except HostError (List Instance))
  | 0, _, started => pure (.ok started)
  | n + 1, index, started => do
      let inst ← cfg.launchOne pkg index
      match inst with
      | .error e =>
        killAll started
        pure (.error e)
      | .ok inst => launchFrom pkg n (index + 1) (started ++ [inst])

def launchAll (pkg : Package) : HostM (Except HostError (List Instance)) :=
  cfg.launchFrom pkg pkg.manifest.replicaCount 0 []

end ManagerConfig

/-- `Supervisor.Watch` for each instance. -/
def watchAll : List Instance → HostM Unit
  | [] => pure ()
  | i :: rest => do
      let _ ← op (.go (.watch i))
      watchAll rest

def drainAllInBackground (timeout : Duration) : List Instance → HostM Unit
  | [] => pure ()
  | i :: rest => do
      let _ ← op (.go (.drain i timeout))
      drainAllInBackground timeout rest

/-- `Registry.Swap`. -/
def swap (reg : Registration) (timeout : Duration) : HostM Unit := do
  let displaced ← op (.installPlugin reg)
  drainAllInBackground (if timeout ≤ 0 then defaultDrainTimeout else timeout) displaced

/-- The drains of `Disable`, one after the other; the first error is kept. -/
def drainEach (timeout : Duration) (firstErr : Option HostError) :
    List Instance → HostM (Option HostError)
  | [] => pure firstErr
  | i :: rest => do
      let err ← i.drain timeout
      drainEach timeout (if firstErr.isNone then err else firstErr) rest

namespace ManagerConfig

variable (cfg : ManagerConfig)

def enable (key : Str) : HostM (Option HostError) := do
  let pkg ← op (.manager (.package key))
  match pkg with
  | none => pure (some (.notInstalled key))
  | some pkg =>
    let launched ← cfg.launchAll pkg
    match launched with
    | .error e => pure (some e)
    | .ok instances =>
      let _ ← op (.installPlugin (pkg.registration key instances))
      watchAll instances
      let _ ← op (.manager (.insertEnabled key))
      let _ ← op (.crash (.clearCrashes key))
      pure none

def disable (key : Str) : HostM (Option HostError) := do
  let _ ← op (.manager (.deleteEnabled key))
  let displaced ← remove key
  match displaced with
  | [] => pure none
  | displaced =>
    let firstErr ← drainEach cfg.drainTimeout none displaced
    let _ ← op (.crash (.clearCrashes key))
    pure firstErr

def upgrade (key : Str) : HostM (Option HostError) := do
  let dir := joinPath [cfg.dir, key]
  let files ← ask (.readPackage dir)
  match loadPackage dir files with
  | .error e => pure (some (.reloadFailed key e))
  | .ok pkg =>
    let launched ← cfg.launchAll pkg
    match launched with
    | .error e => pure (some (.upgradeFailed key e))
    | .ok instances =>
      let _ ← op (.manager (.commitUpgrade key pkg))
      swap (pkg.registration key instances) cfg.drainTimeout
      watchAll instances
      let _ ← op (.crash (.clearCrashes key))
      pure none

/-- The loop of `ScanPackages`. -/
def scanFrom (found : List Package) : List Str → HostM (List Package)
  | [] => pure found
  | name :: rest => do
      let dir := joinPath [cfg.dir, name]
      let files ← ask (.readPackage dir)
      if !files.hasManifest then scanFrom found rest
      else
        match loadPackage dir files with
        | .error _ => scanFrom found rest
        | .ok pkg => scanFrom (if pkg.key = name then found ++ [pkg] else found) rest

def scan : HostM Unit := do
  let entries ← ask (.readDir cfg.dir)
  match entries with
  | none => op (.manager (.setPackages []))
  | some names =>
    let pkgs ← cfg.scanFrom [] names
    op (.manager (.setPackages pkgs))

def relaunch (key : Str) : HostM (Except HostError Instance) := do
  let found ← op (.manager (.relaunchable key))
  match found with
  | (some pkg, true) => cfg.launchOne pkg 0
  | _ => pure (.error (.pluginDisabled key))

end ManagerConfig

namespace SupervisorConfig

def backoffLoop (cfg : SupervisorConfig) (backoff : Duration) : Nat → Duration
  | 0 => backoff
  | n + 1 =>
    let backoff := int64 (backoff * 2)
    if backoff ≥ cfg.maxBackoff then cfg.maxBackoff else cfg.backoffLoop backoff n

/-- The delay after the `n`th crash in a window. -/
def backoffFor (cfg : SupervisorConfig) (n : Int) : Duration :=
  cfg.backoffLoop cfg.initialBackoff (n - 1).toNat

end SupervisorConfig

def quarantineAll : List Instance → HostM Unit
  | [] => pure ()
  | i :: rest => do
      let _ ← op (.storeState i .quarantined)
      i.terminate
      quarantineAll rest

def isUnexpected (i : Instance) : HostM Bool := do
  let st ← op (.loadState i)
  match st with
  | .draining | .stopped | .quarantined => pure false
  | _ =>
    let snap ← op .current
    pure ((snap.replicas i.key).contains i)

namespace ManagerConfig

variable (cfg : ManagerConfig)

/-- `Supervisor.recover`; it calls itself when a restart fails. -/
def recover (key : Str) : Nat → HostM Unit
  | 0 => diverge
  | n + 1 => do
      let tooMany ← op (.crash (.tooManyCrashes cfg.supervisor key))
      if tooMany then
        let _ ← op (.crash (.quarantine key))
        let displaced ← remove key
        quarantineAll displaced
      else
        let count ← op (.crash (.crashCount key))
        let wake ← ask (.sleep (cfg.supervisor.backoffFor count))
        match wake with
        | .timer =>
          let snap ← op .current
          if !snap.has key then pure ()
          else
            let inst ← cfg.relaunch key
            match inst with
            | .error (.pluginDisabled _) => pure ()
            | .error _ => recover key n
            | .ok inst =>
              let _ ← install key [inst]
              op (.go (.watch inst))
        | _ => pure ()

def pollLoop (i : Instance) : Nat → HostM Unit
  | 0 => diverge
  | n + 1 => do
      let wake ← ask .select
      match wake with
      | .timer =>
        let gone ← op (.exited i)
        if !gone then pollLoop i n
        else
          let crashed ← isUnexpected i
          if !crashed then pure ()
          else
            let _ ← op (.storeState i .failed)
            let n ← ask .bound
            cfg.recover i.key n
      | _ => pure ()

/-- `Supervisor.watchLoop`. -/
def watchLoop (i : Instance) : HostM Unit := do
  let n ← ask .bound
  cfg.pollLoop i n

end ManagerConfig
end Moduless.PluginHost
