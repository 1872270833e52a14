import Moduless.Gateway.PluginHandler
import Moduless.Interaction.Pool
import Moduless.PluginHost.HostState
import Moduless.PluginHost.Manager

/-!
Core as a pool of goroutines over the host: requests, administrative
operations, and the background work they start.
-/

namespace Moduless
open Go Gateway Pipeline PluginHost Interaction

/-- `exit` is the process of an instance dying on its own. -/
inductive Call where
  | serve (h : PluginHandler) (r : Request)
  | enable (key : Str)
  | disable (key : Str)
  | upgrade (key : Str)
  | scan
  | exit (inst : Instance)
  | task (t : Task)

namespace Call

/-- Calls that come from outside. Watchers and log phases are only ever started
by Core itself. -/
def external : Call → Bool
  | .task (.watch _) | .task (.log _ _) => false
  | _ => true

def body (cfg : ManagerConfig) : Call → HostM (Option HostError)
  | .serve h r => do
      h.serve r
      pure none
  | .enable key => cfg.enable key
  | .disable key => cfg.disable key
  | .upgrade key => cfg.upgrade key
  | .scan => do
      cfg.scan
      pure none
  | .exit i => do
      let _ ← op (.exit i)
      pure none
  | .task (.drain i timeout) => i.drain timeout
  | .task (.watch i) => do
      cfg.watchLoop i
      pure none
  | .task (.log chain rc) => do
      runLog chain rc
      pure none

end Call

def spawn : Op → List Call
  | .go t => [.task t]
  | _ => []

def core (cfg : ManagerConfig) : System Host HostState Call (Option HostError) :=
  ⟨host, Call.body cfg, spawn⟩

abbrev CorePool := Pool Host HostState Call (Option HostError)

abbrev CoreThread := Thread Host Call (Option HostError)

/-- The runs of Core: any calls from outside, in any interleaving. -/
abbrev CoreReach (cfg : ManagerConfig) : CorePool → CorePool → Prop :=
  (core cfg).Reach (fun _ c => c.external = true) fun _ _ _ => True

/-- Core at its start: nothing launched, nothing registered, nothing running. -/
def boot : CorePool := ⟨{}, []⟩

/-- A plugin that guards every request and logs it afterwards. -/
def auditManifest (replicas : Int) : Manifest :=
  { key := "audit".toList
    version := "1.0.0".toList
    weight := 0
    entrypoint := "audit".toList
    replicas := replicas
    permissions := []
    config := []
    filters := [
      { name := "guard".toList
        phase := phasePreRoute
        match_ := ⟨["/**".toList], []⟩
        order := 0
        failClosed := true
        timeoutMS := 0
        needsRequestBody := false
        needsResponseBody := false
        maxBodyBytes := 0 },
      { name := "journal".toList
        phase := phaseLog
        match_ := ⟨["/**".toList], []⟩
        order := 0
        failClosed := false
        timeoutMS := 0
        needsRequestBody := false
        needsResponseBody := false
        maxBodyBytes := 0 }] }

/-- The first replicas launched, if nothing else is. -/
def auditReplica (n : Nat) : Instance :=
  newInstance n "audit".toList ("audit-".toList ++ Nat.toDigits 10 n) "1.0.0".toList 0

/-- A world in which nothing fails and the package on disk is the given one. -/
def shipping (m : Manifest) (order : List Str) : (o : Op) → o.Choice
  | .ask (.readPackage _) => ⟨true, some m, some ⟨false, true⟩, some "sum".toList, false⟩
  | o => o.calm order

def plainConfig : ManagerConfig :=
  { dir := "plugins".toList
    dataDirRoot := []
    baseEnv := []
    drainTimeout := 0
    hasConfigSource := false
    supervisor := ⟨1, 1, 1, 3, 60⟩ }

/-- A request for the plugin's own backend. -/
def auditRequest : Request :=
  { method := "GET".toList
    urlPath := "/api/plugins/audit/items".toList
    rawQuery := []
    clientIP := "10.0.0.1".toList
    header := []
    sessionToken := []
    body := none }

def plainHandler : PluginHandler := ⟨false, 0, 0⟩

end Moduless
