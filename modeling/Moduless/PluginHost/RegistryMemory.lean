import Moduless.PluginHost.Manager

/-!
The registry with its objects in memory.

A snapshot points to replica sets, and the next snapshot may point to the same ones. The
address of an object is its position among the objects of its kind, and a new object is
put after them. A call holds the registry's mutex from its first access to its last, so
that it is one step with the order in which it ranges over the registrations.
-/

namespace Moduless.PluginHost
open Go Pipeline Interaction Machine

/-- A replica set with the counters `pick` moves. -/
structure ReplicaObject where
  instances : List Instance
  current : Nat → Int

def newReplicaSet (instances : List Instance) : ReplicaObject := ⟨instances, fun _ => 0⟩

structure SnapshotObject where
  plugins : GoMap Str Nat
  chain : Chain
  version : UInt64

/-- The accumulators of the loop in `rebuildLocked`. -/
structure RebuildLoop where
  sets : List ReplicaObject
  plugins : GoMap Str Nat
  pfs : List PluginFilters

/-- The replica set of the old snapshot, if it has the instances. -/
def carriedOver (sets : List ReplicaObject) (old : SnapshotObject) (key : Str)
    (instances : List Instance) : Option Nat :=
  match old.plugins.get key with
  | none => none
  | some prev =>
    if sets[prev]?.map ReplicaObject.instances = some instances then some prev else none

def rebuildStep (old : SnapshotObject) (acc : RebuildLoop) (e : Str × Registration) :
    RebuildLoop :=
  let pfs :=
    if e.2.filters = [] then acc.pfs
    else acc.pfs ++ [⟨e.1, e.2.filters, e.2.allowIdentityMutation⟩]
  match carriedOver acc.sets old e.1 e.2.instances with
  | some prev => ⟨acc.sets, acc.plugins.set e.1 prev, pfs⟩
  | none =>
    ⟨acc.sets ++ [newReplicaSet e.2.instances], acc.plugins.set e.1 acc.sets.length, pfs⟩

def rebuildLoop (old : SnapshotObject) (sets : List ReplicaObject)
    (regs : GoMap Str Registration) : RebuildLoop :=
  regs.foldl (rebuildStep old) ⟨sets, [], []⟩

/-- The registrations for which a replica set is made. -/
def freshSets (sets : List ReplicaObject) (old : SnapshotObject)
    (regs : GoMap Str Registration) : GoMap Str Registration :=
  regs.filter fun e => (carriedOver sets old e.1 e.2.instances).isNone

/-- Where the replica set of a registration is found after the loop. -/
def SetPlaced (sets : List ReplicaObject) (old : SnapshotObject) (regs : GoMap Str Registration)
    (key : Str) (reg : Registration) (p : Nat) : Prop :=
  carriedOver sets old key reg.instances = some p ∨
    (carriedOver sets old key reg.instances = none ∧
      ∃ i, p = sets.length + i ∧ (freshSets sets old regs)[i]? = some (key, reg))

section Loop

variable {old : SnapshotObject} {sets more : List ReplicaObject} {regs : GoMap Str Registration}
  {key : Str} {reg : Registration} {p : Nat}

theorem carriedOver_eq_some {instances : List Instance} :
    carriedOver sets old key instances = some p ↔
      old.plugins.get key = some p ∧ sets[p]?.map ReplicaObject.instances = some instances := by
  unfold carriedOver
  cases hGet : old.plugins.get key with
  | none => simp
  | some prev =>
    dsimp only
    rw [Option.ite_none_right_eq_some, Option.some_inj]
    constructor
    · rintro ⟨hSame, rfl⟩
      exact ⟨rfl, hSame⟩
    · rintro ⟨rfl, hSame⟩
      exact ⟨hSame, rfl⟩

theorem carriedOver_append (hOld : ∀ e ∈ old.plugins, e.2 < sets.length)
    (instances : List Instance) :
    carriedOver (sets ++ more) old key instances = carriedOver sets old key instances := by
  unfold carriedOver
  cases hGet : old.plugins.get key with
  | none => rfl
  | some prev =>
    dsimp only
    rw [List.getElem?_append_left (hOld _ (GoMap.mem_of_get hGet))]

theorem freshSets_snoc (e : Str × Registration) :
    freshSets sets old (regs ++ [e]) =
      freshSets sets old regs ++
        if carriedOver sets old e.1 e.2.instances = none then [e] else [] := by
  simp only [freshSets, List.filter_append, List.filter_cons, List.filter_nil,
    Option.isNone_iff_eq_none]

theorem SetPlaced.snoc (h : SetPlaced sets old regs key reg p) (e : Str × Registration) :
    SetPlaced sets old (regs ++ [e]) key reg p := by
  rcases h with h | ⟨hNone, i, hp, hAt⟩
  · exact .inl h
  · refine .inr ⟨hNone, i, hp, ?_⟩
    rw [freshSets_snoc, List.getElem?_append_left (List.getElem?_eq_some_iff.mp hAt).1]
    exact hAt

/-- What the loop leaves: the old sets, followed by one for each registration that has none
to carry over, and for every registration the address of its set. -/
structure Rebuilt (old : SnapshotObject) (sets : List ReplicaObject)
    (regs : GoMap Str Registration) (acc : RebuildLoop) : Prop where
  sets_eq : acc.sets =
    sets ++ (freshSets sets old regs).map fun e => newReplicaSet e.2.instances
  pfs_eq : acc.pfs = pluginFilters regs
  plugins_nodup : acc.plugins.keys.Nodup
  placed : ∀ key reg, regs.get key = some reg →
    ∃ p, acc.plugins.get key = some p ∧ SetPlaced sets old regs key reg p
  absent : ∀ key, regs.get key = none → acc.plugins.get key = none

theorem pluginFilters_snoc (e : Str × Registration) :
    pluginFilters (regs ++ [e]) =
      if e.2.filters = [] then pluginFilters regs
      else pluginFilters regs ++ [⟨e.1, e.2.filters, e.2.allowIdentityMutation⟩] := by
  rw [pluginFilters, List.filterMap_append]
  by_cases hFilters : e.2.filters = []
  · simp [hFilters, pluginFilters]
  · simp [hFilters, pluginFilters]

theorem get_snoc {e : Str × Registration} (hNew : regs.get e.1 = none) (key : Str) :
    GoMap.get (regs ++ [e]) key = if key = e.1 then some e.2 else regs.get key := by
  rw [GoMap.get_append]
  by_cases hKey : key = e.1
  · simp [hKey, hNew]
  · simp [hKey, Ne.symm hKey]

variable {acc : RebuildLoop} {e : Str × Registration} {q : Nat}

theorem Rebuilt.placed_set (h : Rebuilt old sets regs acc) (hNew : regs.get e.1 = none)
    (hq : SetPlaced sets old (regs ++ [e]) e.1 e.2 q)
    (hGet : GoMap.get (regs ++ [e]) key = some reg) :
    ∃ p, (acc.plugins.set e.1 q).get key = some p ∧ SetPlaced sets old (regs ++ [e]) key reg p := by
  rw [get_snoc hNew] at hGet
  rw [GoMap.get_set]
  by_cases hKey : key = e.1
  · rw [if_pos hKey] at hGet ⊢
    cases hGet
    exact ⟨q, rfl, hKey ▸ hq⟩
  · rw [if_neg hKey] at hGet ⊢
    obtain ⟨p, hp, hPlaced⟩ := h.placed key reg hGet
    exact ⟨p, hp, hPlaced.snoc e⟩

theorem Rebuilt.absent_set (h : Rebuilt old sets regs acc) (hNew : regs.get e.1 = none)
    (hGet : GoMap.get (regs ++ [e]) key = none) : (acc.plugins.set e.1 q).get key = none := by
  rw [get_snoc hNew] at hGet
  rw [GoMap.get_set]
  by_cases hKey : key = e.1
  · rw [if_pos hKey] at hGet
    cases hGet
  · rw [if_neg hKey] at hGet ⊢
    exact h.absent key hGet

theorem Rebuilt.step (h : Rebuilt old sets regs acc)
    (hOld : ∀ e ∈ old.plugins, e.2 < sets.length) (hNew : regs.get e.1 = none) :
    Rebuilt old sets (regs ++ [e]) (rebuildStep old acc e) := by
  have hSame : carriedOver acc.sets old e.1 e.2.instances =
      carriedOver sets old e.1 e.2.instances := by
    rw [h.sets_eq]
    exact carriedOver_append hOld _
  have hPfs := (@pluginFilters_snoc regs e).symm
  rw [← h.pfs_eq] at hPfs
  unfold rebuildStep
  rw [hSame]
  cases hCarried : carriedOver sets old e.1 e.2.instances with
  | some prev =>
    have hFresh : freshSets sets old (regs ++ [e]) = freshSets sets old regs := by
      rw [freshSets_snoc, hCarried]
      exact List.append_nil _
    refine ⟨?_, hPfs, GoMap.nodup_set h.plugins_nodup _ _, ?_, ?_⟩
    · rw [hFresh]
      exact h.sets_eq
    · exact fun key reg => h.placed_set hNew (.inl hCarried)
    · exact fun key => h.absent_set hNew
  | none =>
    have hFresh : freshSets sets old (regs ++ [e]) = freshSets sets old regs ++ [e] := by
      rw [freshSets_snoc, if_pos hCarried]
    have hLength : acc.sets.length = sets.length + (freshSets sets old regs).length := by
      rw [h.sets_eq, List.length_append, List.length_map]
    refine ⟨?_, hPfs, GoMap.nodup_set h.plugins_nodup _ _, ?_, ?_⟩
    · rw [hFresh, List.map_append, ← List.append_assoc, ← h.sets_eq]
      rfl
    · refine fun key reg => h.placed_set hNew (.inr ⟨hCarried, _, hLength, ?_⟩)
      rw [hFresh, List.getElem?_concat_length]
    · exact fun key => h.absent_set hNew

theorem rebuilt_rebuildLoop (hOld : ∀ e ∈ old.plugins, e.2 < sets.length)
    (hKeys : regs.keys.Nodup) : Rebuilt old sets regs (rebuildLoop old sets regs) := by
  induction regs using List.reverseRecOn with
  | nil =>
    refine ⟨?_, rfl, List.nodup_nil, fun _ _ h => ?_, fun _ _ => rfl⟩
    · simp [rebuildLoop, freshSets]
    · cases h
  | append_singleton regs e ih =>
    rw [GoMap.keys, List.map_append, List.nodup_append] at hKeys
    have hNew : GoMap.get regs e.1 = none := by
      rw [GoMap.get_eq_none_iff]
      intro hMem
      exact hKeys.2.2 e.1 hMem e.1 (by simp) rfl
    rw [rebuildLoop, List.foldl_append]
    exact (ih hKeys.1).step hOld hNew

theorem Rebuilt.instances (h : Rebuilt old sets regs acc)
    (hPlaced : SetPlaced sets old regs key reg p) :
    acc.sets[p]?.map ReplicaObject.instances = some reg.instances := by
  rw [h.sets_eq]
  rcases hPlaced with hCarried | ⟨-, i, rfl, hAt⟩
  · obtain ⟨-, hSet⟩ := carriedOver_eq_some.mp hCarried
    obtain ⟨set, hSet, hInstances⟩ := Option.map_eq_some_iff.mp hSet
    rw [List.getElem?_append_left (List.getElem?_eq_some_iff.mp hSet).1, hSet, Option.map_some,
      hInstances]
  · rw [List.getElem?_append_right (Nat.le_add_right _ _), Nat.add_sub_cancel_left,
      List.getElem?_map, hAt]
    rfl

theorem Rebuilt.placed_lt (h : Rebuilt old sets regs acc) {e : Str × Nat} (he : e ∈ acc.plugins) :
    e.2 < acc.sets.length := by
  have hGet := (GoMap.get_eq_some_iff h.plugins_nodup).mpr he
  cases hReg : regs.get e.1 with
  | none => cases (h.absent e.1 hReg).symm.trans hGet
  | some reg =>
    obtain ⟨p, hp, hPlaced⟩ := h.placed e.1 reg hReg
    cases hp.symm.trans hGet
    obtain ⟨set, hSet, -⟩ := Option.map_eq_some_iff.mp (h.instances hPlaced)
    exact (List.getElem?_eq_some_iff.mp hSet).1

end Loop

/-- The chain of the next snapshot. An error is logged and filters stop running. -/
def publishedChain (pfs : List PluginFilters) (d : Defaults) : Chain :=
  match buildChain pfs d with
  | .ok chain => chain
  | .error _ => emptyChain

/-- The registry and what it points to. Every snapshot ever published stays in `snapshots`. -/
structure RegistryMemory where
  sets : List ReplicaObject
  snapshots : List SnapshotObject
  current : Nat
  version : UInt64
  regs : GoMap Str Registration
  filterDefaults : Defaults
  nodup : regs.keys.Nodup
  published : current < snapshots.length
  pointed : ∀ s ∈ snapshots, ∀ e ∈ s.plugins, e.2 < sets.length

namespace RegistryMemory

/-- `NewRegistry`, with any defaults for filters. -/
def new (d : Defaults) : RegistryMemory :=
  { sets := []
    snapshots := [⟨[], emptyChain, 0⟩]
    current := 0
    version := 0
    regs := []
    filterDefaults := d
    nodup := List.nodup_nil
    published := Nat.one_pos
    pointed := by simp }

variable (w : RegistryMemory)

/-- `r.current.Load()`. -/
def snapshot : SnapshotObject := w.snapshots.get ⟨w.current, w.published⟩

theorem snapshot_mem : w.snapshot ∈ w.snapshots := List.get_mem _ _

/-- The instances behind a key of the current snapshot. -/
def instancesOf (key : Str) : Option (List Instance) :=
  (w.snapshot.plugins.get key).bind fun p => w.sets[p]?.map ReplicaObject.instances

def replicas (key : Str) : List Instance := (w.instancesOf key).getD []

theorem pointed_snapshot : ∀ e ∈ w.snapshot.plugins, e.2 < w.sets.length :=
  w.pointed _ w.snapshot_mem

/-- `rebuildLocked` and `publishLocked`. -/
def rebuildLocked (regs : GoMap Str Registration) (hRegs : regs.keys.Nodup) (order : List Str)
    (h : order.Perm regs.keys) : RegistryMemory :=
  let acc := rebuildLoop w.snapshot w.sets (regs.visit order)
  have hVisit : (regs.visit order).keys.Nodup :=
    ((GoMap.visit_perm hRegs h).map Prod.fst).nodup_iff.mpr hRegs
  have hAcc := rebuilt_rebuildLoop w.pointed_snapshot hVisit
  { sets := acc.sets
    snapshots := w.snapshots ++
      [⟨acc.plugins, publishedChain acc.pfs w.filterDefaults, w.version + 1⟩]
    current := w.snapshots.length
    version := w.version + 1
    regs := regs
    filterDefaults := w.filterDefaults
    nodup := hRegs
    published := by simp
    pointed := by
      intro s hs e he
      rcases List.mem_append.mp hs with hs | hs
      · have hLt := w.pointed s hs e he
        rw [show acc.sets = _ from hAcc.sets_eq, List.length_append]
        omega
      · cases List.mem_singleton.mp hs
        exact hAcc.placed_lt he }

def installPlugin (reg : Registration) (order : List Str)
    (h : order.Perm (register w.regs reg).keys) : List Instance × RegistryMemory :=
  (w.replicas reg.key, w.rebuildLocked (register w.regs reg) (nodup_register w.nodup reg) order h)

/-- `DrainAll` up to the draining of the instances. -/
def drainAll : RegistryMemory := w.rebuildLocked [] List.nodup_nil [] (.refl _)

/-- The part of `pick` that moves the counters, with the states it has read. -/
def choose (p : Nat) (states : List State) : Option (Option Instance × RegistryMemory) :=
  match w.sets[p]? with
  | none => none
  | some set =>
    match pickReady set.instances states set.current with
    | none => some (none, w)
    | some (inst, current) =>
      some (some inst,
        { w with
          sets := w.sets.set p { set with current := current }
          pointed := by simpa using w.pointed })

end RegistryMemory

inductive RegistryOp where
  | installPlugin (reg : Registration)
  | drainAll
  | choose (set : Nat) (states : List State)

namespace RegistryOp

@[reducible] def Ans : RegistryOp → Type
  | .installPlugin _ => List Instance
  | .drainAll => Unit
  | .choose _ _ => Option Instance

@[reducible] def Choice : RegistryOp → Type
  | .installPlugin _ => List Str
  | .drainAll | .choose _ _ => Unit

def install (key : Str) (instances : List Instance) : RegistryOp :=
  .installPlugin (bareRegistration key instances)

def remove (key : Str) : RegistryOp := .installPlugin (bareRegistration key [])

end RegistryOp

def RegistryCalls : Interface := ⟨RegistryOp, RegistryOp.Ans⟩

def RegistryMemory.exec (w : RegistryMemory) :
    (o : RegistryOp) → o.Choice → Option (o.Ans × RegistryMemory)
  | .installPlugin reg, order =>
    if h : order.Perm (register w.regs reg).keys then some (w.installPlugin reg order h) else none
  | .drainAll, _ => some ((), w.drainAll)
  | .choose p states, _ => w.choose p states

def registryMemory : Machine RegistryCalls RegistryMemory :=
  ⟨RegistryOp.Choice, RegistryMemory.exec⟩

end Moduless.PluginHost
