import Moduless.PluginHost.Instance
import Moduless.Pipeline.ChainOrder

/-!
The registry: registrations, the snapshot built from them, and the weighted
round-robin choice between the replicas of a plugin.

A `Registry` carries the proofs that its snapshot shows the registrations and
that the snapshot's chain is built from their filters. `InstallPlugin` is its
only change, so every published snapshot agrees with what is registered.
-/

namespace Moduless.PluginHost
open Go Pipeline

/-- A replica set; the number of the snapshot that built it and its key stand for the
pointer. Its round-robin counters are kept in the host's state. -/
structure ReplicaSet where
  builtAt : Nat
  key : Str
  instances : List Instance
  deriving DecidableEq

/-- The accumulators of the loop in `pick`. -/
structure PickLoop where
  current : Nat → Int
  total : Int
  best : Option Nat

def pickStep (acc : PickLoop) (e : (Instance × State) × Nat) : PickLoop :=
  let ((inst, st), idx) := e
  if st ≠ .ready then acc
  else
    let current := Function.update acc.current idx (acc.current idx + inst.weight)
    let best :=
      match acc.best with
      | none => idx
      | some b => if current idx > current b then idx else b
    ⟨current, acc.total + inst.weight, some best⟩

/-- The ready replica to use and the counters after the pick; `none` when no
replica was ready. -/
def pickReady (instances : List Instance) (states : List State) (current : Nat → Int) :
    Option (Instance × (Nat → Int)) :=
  let acc := (instances.zip states).zipIdx.foldl pickStep ⟨current, 0, none⟩
  match acc.best with
  | none => none
  | some b =>
    match instances[b]? with
    | none => none
    | some inst => some (inst, Function.update acc.current b (acc.current b - acc.total))

/-- `number` counts the snapshots published before. -/
structure Snapshot where
  plugins : GoMap Str ReplicaSet
  chain : Chain
  number : Nat

def emptySnapshot : Snapshot := ⟨[], emptyChain, 0⟩

namespace Snapshot

def version (s : Snapshot) : UInt64 := .ofNat s.number

def has (s : Snapshot) (key : Str) : Bool := s.plugins.has key

def replicas (s : Snapshot) (key : Str) : List Instance :=
  match s.plugins.get key with
  | none => []
  | some rs => rs.instances

end Snapshot

structure Registration where
  key : Str
  instances : List Instance
  filters : List CompiledFilter
  allowIdentityMutation : Bool
  known : ∀ f ∈ filters, f.decl.phase ∈ knownPhases

def rebuildSet (old : Snapshot) (number : Nat) (key : Str) (reg : Registration) : ReplicaSet :=
  match old.plugins.get key with
  | some prev => if prev.instances = reg.instances then prev else ⟨number, key, reg.instances⟩
  | none => ⟨number, key, reg.instances⟩

/-- The plugins with filters, in the order a loop visits the registrations. -/
def pluginFilters (regs : GoMap Str Registration) : List PluginFilters :=
  regs.filterMap fun e =>
    if e.2.filters = [] then none
    else some ⟨e.1, e.2.filters, e.2.allowIdentityMutation⟩

/-- `rebuildLocked` and `publishLocked`, visiting the registrations in the order
of the list. -/
def rebuild (old : Snapshot) (number : Nat) (regs : GoMap Str Registration)
    (defaults : Defaults) : Snapshot :=
  { plugins := regs.map fun e => (e.1, rebuildSet old number e.1 e.2)
    chain :=
      match buildChain (pluginFilters regs) defaults with
      | .ok chain => chain
      | .error _ => emptyChain
    number := number }

/-- The registrations after `InstallPlugin`. -/
def register (regs : GoMap Str Registration) (reg : Registration) : GoMap Str Registration :=
  if reg.instances = [] then regs.delete reg.key else regs.set reg.key reg

theorem rebuildSet_instances (old : Snapshot) (number : Nat) (key : Str) (reg : Registration) :
    (rebuildSet old number key reg).instances = reg.instances := by
  unfold rebuildSet
  split
  next prev _ =>
    split
    next h => exact h
    next => rfl
  next => rfl

theorem get_rebuild (old : Snapshot) (number : Nat) (regs : GoMap Str Registration)
    (d : Defaults) (key : Str) :
    (rebuild old number regs d).plugins.get key =
      (regs.get key).map (rebuildSet old number key) := by
  unfold rebuild
  induction regs with
  | nil => rfl
  | cons e regs ih =>
    simp only [List.map_cons, GoMap.get_cons] at ih ⊢
    by_cases h : e.1 = key
    · simp [h]
    · simpa [h] using ih

theorem pluginFilters_known (regs : GoMap Str Registration) :
    ∀ p ∈ pluginFilters regs, KnownPhases p := by
  intro p hp
  obtain ⟨e, _, he⟩ := List.mem_filterMap.mp hp
  split at he
  next => cases he
  next =>
    cases he
    exact e.2.known

theorem pluginFilters_keys (regs : GoMap Str Registration) :
    ((pluginFilters regs).map PluginFilters.key).Sublist regs.keys := by
  induction regs with
  | nil => exact .slnil
  | cons e regs ih =>
    simp only [pluginFilters, GoMap.keys, List.filterMap_cons, List.map_cons] at ih ⊢
    split
    next => exact ih.cons _
    next p hp =>
      split at hp
      next => cases hp
      next =>
        cases hp
        exact ih.cons_cons _

theorem pluginFilters_nodup {regs : GoMap Str Registration} (h : regs.keys.Nodup) :
    ((pluginFilters regs).map PluginFilters.key).Nodup :=
  (pluginFilters_keys regs).nodup h

theorem buildChain_pluginFilters {regs visit : GoMap Str Registration} (d : Defaults)
    (h : regs.keys.Nodup) (hPerm : visit.Perm regs) :
    buildChain (pluginFilters visit) d = buildChain (pluginFilters regs) d :=
  (buildChain_perm (hPerm.symm.filterMap _) (pluginFilters_nodup h)
    (pluginFilters_known regs)).symm

theorem nodup_register {regs : GoMap Str Registration} (h : regs.keys.Nodup)
    (reg : Registration) : (register regs reg).keys.Nodup := by
  unfold register
  split
  next => exact GoMap.nodup_delete h _
  next => exact GoMap.nodup_set h _ _

theorem get_register (regs : GoMap Str Registration) (reg : Registration) (key : Str) :
    (register regs reg).get key =
      if key = reg.key then if reg.instances = [] then none else some reg
      else regs.get key := by
  unfold register
  split
  next h => rw [GoMap.get_delete]
  next h => rw [GoMap.get_set]

/-- `shows` says that the snapshot routes exactly the registered instances,
`chain_eq` that its chain is built from the registered filters. -/
structure Registry where
  current : Snapshot
  regs : GoMap Str Registration
  filterDefaults : Defaults
  nodup : regs.keys.Nodup
  shows : ∀ key, (current.plugins.get key).map ReplicaSet.instances =
    (regs.get key).map Registration.instances
  chain_eq : buildChain (pluginFilters regs) filterDefaults = .ok current.chain

namespace Registry

def empty : Registry :=
  { current := emptySnapshot
    regs := []
    filterDefaults := defaultDefaults
    nodup := by simp [GoMap.keys]
    shows := by simp [emptySnapshot]
    chain_eq := rfl }

/-- `order` is the order in which `rebuildLocked` ranges over the registrations.
The registry's own version counter always equals the published one. -/
def installPlugin (r : Registry) (reg : Registration) (order : List Str)
    (h : order.Perm (register r.regs reg).keys) : List Instance × Registry :=
  have hNodup := nodup_register r.nodup reg
  have hVisit := GoMap.visit_perm hNodup h
  (r.current.replicas reg.key,
    { current := rebuild r.current (r.current.number + 1)
        ((register r.regs reg).visit order) r.filterDefaults
      regs := register r.regs reg
      filterDefaults := r.filterDefaults
      nodup := hNodup
      shows := by
        intro key
        rw [get_rebuild, ← GoMap.get_perm hNodup hVisit.symm]
        cases (register r.regs reg).get key with
        | none => rfl
        | some reg' => simp [rebuildSet_instances]
      chain_eq := by
        have hBuild := buildChain_pluginFilters r.filterDefaults hNodup hVisit
        have hOk := buildChain_eq (d := r.filterDefaults)
          (pluginFilters_known (register r.regs reg))
        simp only [rebuild, hBuild, hOk] })

/-- The registry part of `DrainAll`. -/
def drainAll (r : Registry) : Registry :=
  { current := rebuild r.current (r.current.number + 1) [] r.filterDefaults
    regs := []
    filterDefaults := r.filterDefaults
    nodup := List.nodup_nil
    shows := fun _ => rfl
    chain_eq := rfl }

theorem replicas_eq (r : Registry) (key : Str) :
    r.current.replicas key =
      match r.regs.get key with
      | none => []
      | some reg => reg.instances := by
  have hShows := r.shows key
  unfold Snapshot.replicas
  cases hRegs : r.regs.get key <;> cases hPlugins : r.current.plugins.get key <;> simp_all

theorem replicas_installPlugin (r : Registry) (reg : Registration) (order : List Str)
    (h : order.Perm (register r.regs reg).keys) (key : Str) :
    (r.installPlugin reg order h).2.current.replicas key =
      if key = reg.key then reg.instances else r.current.replicas key := by
  rw [replicas_eq, replicas_eq]
  show (match (register r.regs reg).get key with | none => [] | some reg => reg.instances) = _
  rw [get_register]
  by_cases hKey : key = reg.key
  · by_cases hNil : reg.instances = [] <;> simp [hKey, hNil]
  · simp [hKey]

end Registry
end Moduless.PluginHost
