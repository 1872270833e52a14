import Moduless.PluginHost.HostState
import Moduless.PluginHost.RegistryMemory

/-!
The registry in memory does what the registry of the host's state does.

A replica set is named in the host's state by the snapshot that built it and its key. No
two sets in memory have the same name, so that the counters kept under a name are those
of one object.
-/

namespace Moduless.PluginHost
open Go Pipeline Interaction Machine

section Inversion

variable {w w' : RegistryMemory} {reg : Registration}

theorem memory_installPlugin {displaced : List Instance}
    (h : registryMemory.Exec w ⟨.installPlugin reg, displaced⟩ w') :
    ∃ order hOrder, displaced = w.replicas reg.key ∧
      w' = w.rebuildLocked (register w.regs reg) (nodup_register w.nodup reg) order hOrder := by
  obtain ⟨order, hExec⟩ := h
  obtain ⟨hOrder, hCall⟩ := Option.dite_none_right_eq_some.mp hExec
  cases hCall
  exact ⟨order, hOrder, rfl, rfl⟩

theorem memory_drainAll {r : Unit} (h : registryMemory.Exec w ⟨.drainAll, r⟩ w') :
    w' = w.drainAll := by
  obtain ⟨_, hExec⟩ := h
  exact (congrArg Prod.snd (Option.some.inj hExec)).symm

theorem memory_choose {p : Nat} {states : List State} {r : Option Instance}
    (h : registryMemory.Exec w ⟨.choose p states, r⟩ w') :
    ∃ set, w.sets[p]? = some set ∧
      ((pickReady set.instances states set.current = none ∧ r = none ∧ w' = w) ∨
        ∃ inst current hPointed,
          pickReady set.instances states set.current = some (inst, current) ∧ r = some inst ∧
          w' = { w with sets := w.sets.set p { set with current := current }
                        pointed := hPointed }) := by
  obtain ⟨_, hExec⟩ := h
  have hExec : w.choose p states = some (r, w') := hExec
  unfold RegistryMemory.choose at hExec
  split at hExec
  next => cases hExec
  next set hSet =>
    refine ⟨set, hSet, ?_⟩
    split at hExec
    next hNone =>
      cases hExec
      exact .inl ⟨hNone, rfl, rfl⟩
    next inst current hSome =>
      cases hExec
      exact .inr ⟨inst, current, _, hSome, rfl, rfl⟩

end Inversion

namespace RegistryMemory

variable (w : RegistryMemory) {regs : GoMap Str Registration} (hRegs : regs.keys.Nodup)
  {order : List Str} (hOrder : order.Perm regs.keys)

theorem snapshot_rebuildLocked :
    (w.rebuildLocked regs hRegs order hOrder).snapshot =
      ⟨(rebuildLoop w.snapshot w.sets (regs.visit order)).plugins,
        publishedChain (rebuildLoop w.snapshot w.sets (regs.visit order)).pfs w.filterDefaults,
        w.version + 1⟩ := by
  simp [snapshot, rebuildLocked]

include hRegs hOrder

theorem rebuilt : Rebuilt w.snapshot w.sets (regs.visit order)
    (rebuildLoop w.snapshot w.sets (regs.visit order)) :=
  rebuilt_rebuildLoop w.pointed_snapshot
    (((GoMap.visit_perm hRegs hOrder).map Prod.fst).nodup_iff.mpr hRegs)

theorem get_visit (key : Str) : (regs.visit order).get key = regs.get key :=
  (GoMap.get_perm hRegs (GoMap.visit_perm hRegs hOrder).symm key).symm

end RegistryMemory

/-- The replica set of the host's state that stands for the object at an address. -/
def replicaSetAt (sets : List ReplicaObject) (names : List (Nat × Str)) (p : Nat) :
    Option ReplicaSet :=
  names[p]?.bind fun name => sets[p]?.map fun set => ⟨name.1, name.2, set.instances⟩

/-- The objects in memory are those of the host's state, under names of their own. -/
structure Represents (w : RegistryMemory) (names : List (Nat × Str)) (s : HostState) : Prop where
  regs_eq : s.registry.regs = w.regs
  defaults_eq : s.registry.filterDefaults = w.filterDefaults
  version_eq : s.registry.current.version = w.version
  snapshot_version : w.snapshot.version = w.version
  chain_eq : s.registry.current.chain = w.snapshot.chain
  length_eq : names.length = w.sets.length
  nodup : names.Nodup
  built : ∀ name ∈ names, name.1 ≤ s.registry.current.number
  plugins_eq : ∀ key, s.registry.current.plugins.get key =
    (w.snapshot.plugins.get key).bind (replicaSetAt w.sets names)
  counters_eq : ∀ (p : Nat) name (set : ReplicaObject), names[p]? = some name →
    w.sets[p]? = some set → s.counters name = set.current
  unused : ∀ name, name ∉ names → s.counters name = fun _ => 0

section Represents

variable {w w' : RegistryMemory} {names : List (Nat × Str)} {s s' : HostState}

theorem replicaSetAt_append {sets more : List ReplicaObject} {others : List (Nat × Str)} {p : Nat}
    (hLength : names.length = sets.length) (hp : p < sets.length) :
    replicaSetAt (sets ++ more) (names ++ others) p = replicaSetAt sets names p := by
  rw [replicaSetAt, replicaSetAt, List.getElem?_append_left hp,
    List.getElem?_append_left (hLength ▸ hp)]

theorem Represents.exists_name (h : Represents w names s) {p : Nat} {set : ReplicaObject}
    (hSet : w.sets[p]? = some set) : ∃ name, names[p]? = some name := by
  refine ⟨_, List.getElem?_eq_getElem (h.length_eq ▸ ?_)⟩
  exact (List.getElem?_eq_some_iff.mp hSet).1

theorem Represents.rebuildSet_carried (h : Represents w names s) {key : Str} {reg : Registration}
    {p : Nat} (hCarried : carriedOver w.sets w.snapshot key reg.instances = some p) (v : Nat) :
    some (rebuildSet s.registry.current v key reg) = replicaSetAt w.sets names p := by
  obtain ⟨hGet, hSet⟩ := carriedOver_eq_some.mp hCarried
  obtain ⟨set, hSet, hInstances⟩ := Option.map_eq_some_iff.mp hSet
  obtain ⟨name, hName⟩ := h.exists_name hSet
  have hOld : s.registry.current.plugins.get key = some ⟨name.1, name.2, set.instances⟩ := by
    rw [h.plugins_eq, hGet, Option.bind_some, replicaSetAt, hName, hSet]
    rfl
  rw [rebuildSet, hOld, replicaSetAt, hName, hSet]
  dsimp only
  rw [if_pos hInstances]
  rfl

theorem Represents.rebuildSet_fresh (h : Represents w names s) {key : Str} {reg : Registration}
    (hNone : carriedOver w.sets w.snapshot key reg.instances = none) (v : Nat) :
    rebuildSet s.registry.current v key reg = ⟨v, key, reg.instances⟩ := by
  rw [rebuildSet, h.plugins_eq]
  cases hGet : w.snapshot.plugins.get key with
  | none => rfl
  | some p =>
    dsimp only [Option.bind_some]
    cases hAt : replicaSetAt w.sets names p with
    | none => rfl
    | some rs =>
      obtain ⟨name, hName, hRs⟩ := Option.bind_eq_some_iff.mp hAt
      obtain ⟨set, hSet, rfl⟩ := Option.map_eq_some_iff.mp hRs
      dsimp only
      refine if_neg fun hSame => ?_
      have hCarried := carriedOver_eq_some.mpr ⟨hGet, by rw [hSet, Option.map_some, hSame]⟩
      cases hNone.symm.trans hCarried

theorem Represents.instancesOf (h : Represents w names s) (key : Str) :
    w.instancesOf key = (s.registry.current.plugins.get key).map ReplicaSet.instances := by
  rw [RegistryMemory.instancesOf, h.plugins_eq]
  cases hGet : w.snapshot.plugins.get key with
  | none => rfl
  | some p =>
    have hLt := w.pointed_snapshot _ (GoMap.mem_of_get hGet)
    rw [Option.bind_some, Option.bind_some, replicaSetAt, List.getElem?_eq_getElem hLt,
      List.getElem?_eq_getElem (h.length_eq ▸ hLt)]
    rfl

theorem Represents.replicas (h : Represents w names s) (key : Str) :
    s.registry.current.replicas key = w.replicas key := by
  rw [RegistryMemory.replicas, h.instancesOf, Snapshot.replicas]
  cases s.registry.current.plugins.get key <;> rfl

/-- The names a rebuild gives to the sets it makes. -/
def namesAfter (w : RegistryMemory) (names : List (Nat × Str)) (number : Nat)
    (visit : GoMap Str Registration) : List (Nat × Str) :=
  names ++ (freshSets w.sets w.snapshot visit).map fun e => (number, e.1)

theorem Represents.next_notMem (h : Represents w names s) (key : Str) :
    (s.registry.current.number + 1, key) ∉ names :=
  fun hMem => Nat.not_succ_le_self _ (h.built _ hMem)

theorem Represents.nodup_namesAfter (h : Represents w names s) {visit : GoMap Str Registration}
    (hVisit : visit.keys.Nodup) :
    (namesAfter w names (s.registry.current.number + 1) visit).Nodup := by
  refine List.nodup_append.mpr ⟨h.nodup, ?_, ?_⟩
  · have hKeys : (freshSets w.sets w.snapshot visit).keys.Nodup := GoMap.nodup_filter hVisit _
    refine List.Nodup.of_map Prod.snd ?_
    rw [List.map_map]
    exact hKeys
  · rintro a ha b hb rfl
    obtain ⟨e, -, rfl⟩ := List.mem_map.mp hb
    exact h.next_notMem e.1 ha

theorem Represents.rebuildSet_placed (h : Represents w names s) {visit : GoMap Str Registration}
    {key : Str} {reg : Registration} {p : Nat}
    (hPlaced : SetPlaced w.sets w.snapshot visit key reg p) (number : Nat) :
    some (rebuildSet s.registry.current number key reg) =
      replicaSetAt (w.sets ++ (freshSets w.sets w.snapshot visit).map
        fun e => newReplicaSet e.2.instances) (namesAfter w names number visit) p := by
  rw [namesAfter]
  rcases hPlaced with hCarried | ⟨hNone, i, rfl, hAt⟩
  · have hLt := w.pointed_snapshot _ (GoMap.mem_of_get (carriedOver_eq_some.mp hCarried).1)
    rw [replicaSetAt_append h.length_eq hLt]
    exact h.rebuildSet_carried hCarried _
  · rw [h.rebuildSet_fresh hNone, replicaSetAt, ← h.length_eq,
      List.getElem?_append_right (Nat.le_add_right _ _), Nat.add_sub_cancel_left,
      List.getElem?_map, hAt, h.length_eq,
      List.getElem?_append_right (Nat.le_add_right _ _), Nat.add_sub_cancel_left,
      List.getElem?_map, hAt]
    rfl

theorem Represents.rebuildLocked (h : Represents w names s) {regs : GoMap Str Registration}
    (hRegs : regs.keys.Nodup) {order : List Str} (hOrder : order.Perm regs.keys) {r : Registry}
    (hCurrent : r.current = rebuild s.registry.current (s.registry.current.number + 1)
      (regs.visit order) s.registry.filterDefaults)
    (hSame : r.regs = regs) (hDefaults : r.filterDefaults = s.registry.filterDefaults) :
    Represents (w.rebuildLocked regs hRegs order hOrder)
      (namesAfter w names (s.registry.current.number + 1) (regs.visit order))
      { s with registry := r } := by
  have hBuilt := w.rebuilt hRegs hOrder
  have hSets : (w.rebuildLocked regs hRegs order hOrder).sets = _ := hBuilt.sets_eq
  constructor
  case regs_eq => exact hSame
  case defaults_eq => exact hDefaults.trans h.defaults_eq
  case version_eq =>
    change r.current.version = w.version + 1
    rw [hCurrent, ← h.version_eq]
    exact UInt64.ofNat_add _ 1
  case snapshot_version => rw [RegistryMemory.snapshot_rebuildLocked]; rfl
  case chain_eq =>
    rw [RegistryMemory.snapshot_rebuildLocked, hBuilt.pfs_eq, ← h.defaults_eq]
    change r.current.chain = _
    rw [hCurrent]
    rfl
  case length_eq =>
    rw [hSets, namesAfter, List.length_append, List.length_append, List.length_map,
      List.length_map, h.length_eq]
  case nodup =>
    exact h.nodup_namesAfter
      (((GoMap.visit_perm hRegs hOrder).map Prod.fst).nodup_iff.mpr hRegs)
  case built =>
    intro name hName
    change name.1 ≤ r.current.number
    rw [hCurrent]
    rcases List.mem_append.mp hName with hName | hName
    · exact (h.built name hName).trans (Nat.le_succ _)
    · obtain ⟨e, -, rfl⟩ := List.mem_map.mp hName
      exact Nat.le_refl _
  case plugins_eq =>
    intro key
    rw [RegistryMemory.snapshot_rebuildLocked]
    change r.current.plugins.get key = _
    rw [hCurrent, get_rebuild, hSets]
    cases hReg : (regs.visit order).get key with
    | none => rw [hBuilt.absent key hReg]; rfl
    | some reg =>
      obtain ⟨p, hp, hPlaced⟩ := hBuilt.placed key reg hReg
      rw [hp]
      exact h.rebuildSet_placed hPlaced _
  case counters_eq =>
    intro p name set hName hSet
    rw [hSets] at hSet
    rw [namesAfter] at hName
    by_cases hp : p < w.sets.length
    · rw [List.getElem?_append_left hp] at hSet
      rw [List.getElem?_append_left (h.length_eq ▸ hp)] at hName
      exact h.counters_eq p name set hName hSet
    · rw [List.getElem?_append_right (Nat.not_lt.mp hp), List.getElem?_map,
        Option.map_eq_some_iff] at hSet
      rw [List.getElem?_append_right (h.length_eq ▸ Nat.not_lt.mp hp), List.getElem?_map,
        Option.map_eq_some_iff] at hName
      obtain ⟨e, -, rfl⟩ := hSet
      obtain ⟨e', -, rfl⟩ := hName
      exact h.unused _ (h.next_notMem e'.1)
  case unused =>
    intro name hName
    exact h.unused name fun hMem => hName (List.mem_append_left _ hMem)

theorem Represents.installPlugin (h : Represents w names s) {reg : Registration}
    {displaced : List Instance}
    (hExec : registryMemory.Exec w ⟨.installPlugin reg, displaced⟩ w') :
    ∃ s' names', host.Exec s ⟨.installPlugin reg, displaced⟩ s' ∧ Represents w' names' s' := by
  obtain ⟨order, hOrder, hDisplaced, rfl⟩ := memory_installPlugin hExec
  have hOrder' : order.Perm (register s.registry.regs reg).keys := by rwa [h.regs_eq]
  have hReplicas : s.registry.current.replicas reg.key = displaced := by
    rw [hDisplaced]
    exact h.replicas reg.key
  refine ⟨{ s with registry := (s.registry.installPlugin reg order hOrder').2 }, _,
    ⟨order, ?_⟩, h.rebuildLocked _ hOrder ?_ ?_ rfl⟩
  · refine (dif_pos hOrder').trans ?_
    rw [← hReplicas]
    rfl
  · change rebuild _ _ ((register s.registry.regs reg).visit order) _ = _
    rw [h.regs_eq]
  · change register s.registry.regs reg = _
    rw [h.regs_eq]

theorem Represents.drainAll (h : Represents w names s) {r : Unit}
    (hExec : registryMemory.Exec w ⟨.drainAll, r⟩ w') :
    ∃ names', Represents w' names' { s with registry := s.registry.drainAll } := by
  cases memory_drainAll hExec
  refine ⟨namesAfter w names (s.registry.current.number + 1) [], ?_⟩
  change Represents (w.rebuildLocked [] List.nodup_nil [] (.refl _)) _ _
  exact h.rebuildLocked _ _ rfl rfl rfl

theorem replicaSetAt_set {sets : List ReplicaObject} {p : Nat} {set : ReplicaObject}
    (hSet : sets[p]? = some set) (current : Nat → Int) (q : Nat) :
    replicaSetAt (sets.set p { set with current := current }) names q =
      replicaSetAt sets names q := by
  unfold replicaSetAt
  by_cases hq : p = q
  · subst hq
    rw [List.getElem?_set_self (List.getElem?_eq_some_iff.mp hSet).1, hSet]
    rfl
  · rw [List.getElem?_set_ne hq]

theorem Represents.setCurrent (h : Represents w names s) {p : Nat} {name : Nat × Str}
    {set : ReplicaObject} (hName : names[p]? = some name) (hSet : w.sets[p]? = some set)
    (current : Nat → Int)
    (hPointed : ∀ s ∈ w.snapshots, ∀ e ∈ s.plugins,
      e.2 < (w.sets.set p { set with current := current }).length) :
    Represents { w with sets := w.sets.set p { set with current := current }
                        pointed := hPointed } names
      { s with counters := Function.update s.counters name current } where
  regs_eq := h.regs_eq
  defaults_eq := h.defaults_eq
  version_eq := h.version_eq
  snapshot_version := h.snapshot_version
  chain_eq := h.chain_eq
  length_eq := h.length_eq.trans (List.length_set ..).symm
  nodup := h.nodup
  built := h.built
  plugins_eq key := by
    refine (h.plugins_eq key).trans ?_
    exact congrArg _ (funext fun q => (replicaSetAt_set hSet current q).symm)
  counters_eq q name' set' hName' hSet' := by
    by_cases hq : p = q
    · subst hq
      cases hName.symm.trans hName'
      refine (Function.update_self ..).trans ?_
      change (w.sets.set p { set with current := current })[p]? = some set' at hSet'
      rw [List.getElem?_set_self (List.getElem?_eq_some_iff.mp hSet).1] at hSet'
      exact congrArg ReplicaObject.current (Option.some.inj hSet')
    · have hne : name' ≠ name := by
        rintro rfl
        exact hq ((List.getElem?_inj (List.getElem?_eq_some_iff.mp hName).1 h.nodup).mp
          (hName.trans hName'.symm))
      refine (Function.update_of_ne hne ..).trans ?_
      change (w.sets.set p { set with current := current })[q]? = some set' at hSet'
      rw [List.getElem?_set_ne hq] at hSet'
      exact h.counters_eq q name' set' hName' hSet'
  unused name' hName' := by
    have hne : name' ≠ name := by
      rintro rfl
      exact hName' (List.mem_of_getElem? hName)
    exact (Function.update_of_ne hne _ _).trans (h.unused name' hName')

theorem Represents.choose (h : Represents w names s) {p : Nat} {states : List State}
    {r : Option Instance} (hExec : registryMemory.Exec w ⟨.choose p states, r⟩ w') :
    ∃ rs s', replicaSetAt w.sets names p = some rs ∧ host.Exec s ⟨.choose rs states, r⟩ s' ∧
      Represents w' names s' := by
  obtain ⟨set, hSet, hPick⟩ := memory_choose hExec
  obtain ⟨name, hName⟩ := h.exists_name hSet
  have hAt : replicaSetAt w.sets names p = some ⟨name.1, name.2, set.instances⟩ := by
    rw [replicaSetAt, hName, hSet]
    rfl
  have hCounters : s.counters (name.1, name.2) = set.current := h.counters_eq p name set hName hSet
  obtain ⟨hNone, rfl, rfl⟩ | ⟨inst, current, hPointed, hSome, rfl, rfl⟩ := hPick
  · refine ⟨_, s, hAt, ⟨(), ?_⟩, h⟩
    change HostState.exec s (.choose _ states) () = _
    rw [HostState.exec, hCounters, hNone]
  · refine ⟨_, _, hAt, ⟨(), ?_⟩, h.setCurrent hName hSet current hPointed⟩
    change HostState.exec s (.choose _ states) () = _
    rw [HostState.exec, hCounters, hSome]

end Represents
end Moduless.PluginHost
