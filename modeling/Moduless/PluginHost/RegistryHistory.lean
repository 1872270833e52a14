import Moduless.PluginHost.RegisteredChain
import Moduless.PluginHost.RegistryRefinement

/-!
What the registry holds after any calls, and what they leave alone.
-/

namespace Moduless.PluginHost
open Go Pipeline Interaction Machine

/-- What is registered under a key after a step. -/
def registers (key : Str) (before : Option Registration) :
    Event RegistryCalls → Option Registration
  | ⟨.installPlugin reg, _⟩ =>
    if key = reg.key then if reg.instances = [] then none else some reg else before
  | ⟨.drainAll, _⟩ => none
  | ⟨.choose _ _, _⟩ => before

/-- The last registration under the key, if it had instances. -/
def registered (es : List (Event RegistryCalls)) (key : Str) : Option Registration :=
  es.foldl (registers key) none

/-- The step publishes a snapshot. -/
def isCall : Event RegistryCalls → Bool
  | ⟨.installPlugin _, _⟩ | ⟨.drainAll, _⟩ => true
  | ⟨.choose _ _, _⟩ => false

/-- The filters of the registrations, plugin by plugin in any order. -/
structure FiltersOf (es : List (Event RegistryCalls)) (pfs : List PluginFilters) : Prop where
  nodup : (pfs.map PluginFilters.key).Nodup
  mem_iff : ∀ p, p ∈ pfs ↔ (registered es p.key).bind (Registration.contributes p.key) = some p

/-- The current snapshot is the one the calls ask for. -/
structure Faithful (d : Defaults) (es : List (Event RegistryCalls)) (w : RegistryMemory) :
    Prop where
  instances : ∀ key, w.instancesOf key = (registered es key).map Registration.instances
  listed : ∃ pfs, FiltersOf es pfs
  chain : ∀ pfs, FiltersOf es pfs → buildChain pfs d = .ok w.snapshot.chain
  version : w.snapshot.version = .ofNat (es.countP isCall)

section Steps

variable {w w' : RegistryMemory} {e : Event RegistryCalls}

theorem registered_snoc (es : List (Event RegistryCalls)) (key : Str) :
    registered (es ++ [e]) key = registers key (registered es key) e := by
  rw [registered, List.foldl_append]
  rfl

theorem memory_call (h : registryMemory.Exec w e w') (hCall : isCall e = true) :
    ∃ regs hRegs order hOrder, w' = w.rebuildLocked regs hRegs order hOrder ∧
      ∀ key, regs.get key = registers key (w.regs.get key) e := by
  obtain ⟨o, r⟩ := e
  cases o with
  | installPlugin reg =>
    obtain ⟨order, hOrder, -, rfl⟩ := memory_installPlugin h
    exact ⟨_, _, order, hOrder, rfl, fun key => get_register w.regs reg key⟩
  | drainAll => exact ⟨[], _, [], _, memory_drainAll h, fun _ => rfl⟩
  | choose p states => cases hCall

theorem memory_not_call (h : registryMemory.Exec w e w') (hCall : isCall e = false) :
    w'.regs = w.regs ∧ w'.version = w.version ∧ w'.filterDefaults = w.filterDefaults ∧
      w'.snapshots = w.snapshots ∧ (∀ before key, registers key before e = before) ∧
      ∃ p set current, w.sets[p]? = some set ∧
        w'.sets = w.sets.set p ⟨set.instances, current⟩ := by
  obtain ⟨o, r⟩ := e
  cases o with
  | installPlugin reg => cases hCall
  | drainAll => cases hCall
  | choose p states =>
    obtain ⟨set, hSet, ⟨-, -, rfl⟩ | ⟨inst, current, hPointed, -, -, rfl⟩⟩ := memory_choose h
    · refine ⟨rfl, rfl, rfl, rfl, fun _ _ => rfl, p, set, set.current, hSet, ?_⟩
      obtain ⟨hLt, rfl⟩ := List.getElem?_eq_some_iff.mp hSet
      exact (List.set_getElem_self hLt).symm
    · exact ⟨rfl, rfl, rfl, rfl, fun _ _ => rfl, p, set, current, hSet, rfl⟩

theorem sets_of_call (h : registryMemory.Exec w e w') (hCall : isCall e = true) :
    w.sets <+: w'.sets := by
  obtain ⟨regs, hRegs, order, hOrder, rfl, -⟩ := memory_call h hCall
  exact ⟨_, (w.rebuilt hRegs hOrder).sets_eq.symm⟩

/-- The snapshots of one state are those of the other, and so are the instances in the
replica sets they point to. -/
structure Kept (w w' : RegistryMemory) : Prop where
  snapshots : w.snapshots <+: w'.snapshots
  instances : ∀ (p : Nat) set, w.sets[p]? = some set →
    ∃ set', w'.sets[p]? = some set' ∧ set'.instances = set.instances

theorem Kept.trans {w'' : RegistryMemory} (h : Kept w w') (h' : Kept w' w'') : Kept w w'' := by
  refine ⟨h.snapshots.trans h'.snapshots, fun p set hSet => ?_⟩
  obtain ⟨set', hSet', hSame⟩ := h.instances p set hSet
  obtain ⟨set'', hSet'', hSame'⟩ := h'.instances p set' hSet'
  exact ⟨set'', hSet'', hSame'.trans hSame⟩

theorem kept_of_exec (h : registryMemory.Exec w e w') : Kept w w' := by
  cases hCall : isCall e with
  | true =>
    obtain ⟨more, hMore⟩ := sets_of_call h hCall
    obtain ⟨regs, hRegs, order, hOrder, rfl, -⟩ := memory_call h hCall
    refine ⟨List.prefix_append _ _, fun p set hSet => ⟨set, ?_, rfl⟩⟩
    rw [← hMore, List.getElem?_append_left (List.getElem?_eq_some_iff.mp hSet).1]
    exact hSet
  | false =>
    obtain ⟨-, -, -, hSnapshots, -, p, set, current, hSet, hSets⟩ := memory_not_call h hCall
    refine ⟨by rw [hSnapshots], fun q set' hSet' => ?_⟩
    rw [hSets]
    by_cases hq : p = q
    · subst hq
      cases hSet.symm.trans hSet'
      exact ⟨_, List.getElem?_set_self (List.getElem?_eq_some_iff.mp hSet).1, rfl⟩
    · exact ⟨set', (List.getElem?_set_ne hq).trans hSet', rfl⟩

theorem kept_of_trace {v : List (Event RegistryCalls)} (h : registryMemory.Trace w v w') :
    Kept w w' :=
  h.invariant (J := Kept w) (fun _ _ _ _ hs hExec => hs.trans (kept_of_exec hExec))
    ⟨List.prefix_rfl, fun _ set hSet => ⟨set, hSet, rfl⟩⟩

end Steps

section History

variable {d : Defaults} {es : List (Event RegistryCalls)} {w w' : RegistryMemory}
  {e : Event RegistryCalls}

/-- The registrations are those the calls have left. -/
structure Tallied (d : Defaults) (es : List (Event RegistryCalls)) (w : RegistryMemory) :
    Prop where
  regs : ∀ key, w.regs.get key = registered es key
  version : w.version = .ofNat (es.countP isCall)
  defaults : w.filterDefaults = d

theorem Tallied.step (h : Tallied d es w) (hExec : registryMemory.Exec w e w') :
    Tallied d (es ++ [e]) w' := by
  cases hCall : isCall e with
  | true =>
    obtain ⟨regs, hRegs, order, hOrder, rfl, hGet⟩ := memory_call hExec hCall
    refine ⟨fun key => ?_, ?_, h.defaults⟩
    · rw [registered_snoc, ← h.regs]
      exact hGet key
    · change w.version + 1 = _
      rw [h.version]
      simp [hCall]
  | false =>
    obtain ⟨hRegs, hVersion, hDefaults, -, hSame, -⟩ := memory_not_call hExec hCall
    refine ⟨fun key => ?_, ?_, hDefaults.trans h.defaults⟩
    · rw [hRegs, registered_snoc, hSame]
      exact h.regs key
    · rw [hVersion, h.version]
      simp [hCall]

theorem tallied_of_trace (h : registryMemory.Trace (.new d) es w) : Tallied d es w :=
  h.history (J := Tallied d) ⟨fun _ => rfl, rfl, rfl⟩ fun _ _ _ _ _ hs hExec => hs.step hExec

theorem represents_new (d : Defaults) :
    Represents (.new d) []
      { registry := { Registry.empty with filterDefaults := d, chain_eq := rfl } } where
  regs_eq := rfl
  defaults_eq := rfl
  version_eq := rfl
  snapshot_version := rfl
  chain_eq := rfl
  length_eq := rfl
  nodup := List.nodup_nil
  built := by simp
  plugins_eq _ := rfl
  counters_eq := by simp
  unused _ _ := rfl

/-- The registry of a host's state goes along with the registry in memory. -/
theorem represents_of_trace (h : registryMemory.Trace (.new d) es w) :
    ∃ names s, Represents w names s := by
  refine h.invariant (J := fun w => ∃ names s, Represents w names s) ?_ ⟨_, _, represents_new d⟩
  rintro w ⟨o, r⟩ w' - ⟨names, s, hw⟩ hExec
  cases o with
  | installPlugin reg =>
    obtain ⟨s', names', -, hw'⟩ := hw.installPlugin hExec
    exact ⟨names', s', hw'⟩
  | drainAll =>
    obtain ⟨names', hw'⟩ := hw.drainAll hExec
    exact ⟨names', _, hw'⟩
  | choose p states =>
    obtain ⟨rs, s', -, -, hw'⟩ := hw.choose hExec
    exact ⟨names, s', hw'⟩

theorem filtersOf_iff (h : Tallied d es w) {pfs : List PluginFilters} :
    FiltersOf es pfs ↔ (pfs.map PluginFilters.key).Nodup ∧ pfs.Perm (pluginFilters w.regs) := by
  have hMem : ∀ p, p ∈ pluginFilters w.regs ↔
      (registered es p.key).bind (Registration.contributes p.key) = some p := by
    intro p
    rw [mem_pluginFilters w.nodup, h.regs]
  constructor
  · intro hFilters
    refine ⟨hFilters.nodup, (List.perm_ext_iff_of_nodup (hFilters.nodup.of_map _) ?_).mpr ?_⟩
    · exact (pluginFilters_nodup w.nodup).of_map _
    · exact fun p => (hFilters.mem_iff p).trans (hMem p).symm
  · rintro ⟨hNodup, hPerm⟩
    exact ⟨hNodup, fun p => hPerm.mem_iff.trans (hMem p)⟩

theorem faithful_of_trace (h : registryMemory.Trace (.new d) es w) : Faithful d es w := by
  have hTallied := tallied_of_trace h
  obtain ⟨names, s, hw⟩ := represents_of_trace h
  constructor
  case instances =>
    intro key
    rw [hw.instancesOf, s.registry.shows, hw.regs_eq, hTallied.regs]
  case listed =>
    exact ⟨pluginFilters w.regs,
      (filtersOf_iff hTallied).mpr ⟨pluginFilters_nodup w.nodup, .refl _⟩⟩
  case chain =>
    intro pfs hFilters
    obtain ⟨hNodup, hPerm⟩ := (filtersOf_iff hTallied).mp hFilters
    have hChain := s.registry.chain_eq
    rw [hw.regs_eq, hw.defaults_eq, hTallied.defaults, hw.chain_eq] at hChain
    rw [← hChain]
    exact buildChain_perm hPerm hNodup fun p hp =>
      pluginFilters_known w.regs p (hPerm.mem_iff.mp hp)
  case version => rw [hw.snapshot_version, hTallied.version]

/-- A plugin whose instances stay the same keeps its replica set. -/
theorem carries_over (h : registryMemory.Trace (.new d) es w) (hExec : registryMemory.Exec w e w')
    (hCall : isCall e = true) {key : Str} {reg reg' : Registration}
    (hBefore : registered es key = some reg) (hAfter : registered (es ++ [e]) key = some reg')
    (hSame : reg'.instances = reg.instances) :
    w'.snapshot.plugins.get key = w.snapshot.plugins.get key := by
  have hTallied := tallied_of_trace h
  have hShown := (faithful_of_trace h).instances key
  rw [hBefore, Option.map_some] at hShown
  obtain ⟨p, hGet, hSet⟩ := Option.bind_eq_some_iff.mp hShown
  have hCarried : carriedOver w.sets w.snapshot key reg'.instances = some p :=
    carriedOver_eq_some.mpr ⟨hGet, hSame ▸ hSet⟩
  obtain ⟨regs, hRegs, order, hOrder, rfl, hRegsGet⟩ := memory_call hExec hCall
  have hReg : (regs.visit order).get key = some reg' := by
    rw [RegistryMemory.get_visit hRegs hOrder, hRegsGet, hTallied.regs, ← registered_snoc]
    exact hAfter
  obtain ⟨p', hp', hPlaced⟩ := (w.rebuilt hRegs hOrder).placed key reg' hReg
  rw [RegistryMemory.snapshot_rebuildLocked, hGet]
  refine hp'.trans ?_
  rcases hPlaced with hPlaced | ⟨hNone, -⟩
  · exact hPlaced.symm.trans hCarried
  · cases hNone.symm.trans hCarried

/-- After any calls the snapshot is what they ask for: the instances and the filters of the
last registrations, and a version that counts the calls. The next installation returns the
instances it displaces; a call leaves every replica set as it is, and a plugin whose instances
stay the same keeps its own; and what was published stays as it was published. -/
theorem registry_faithful (h : registryMemory.Trace (.new d) es w) :
    Faithful d es w ∧
    (∀ reg displaced w', registryMemory.Exec w ⟨.installPlugin reg, displaced⟩ w' →
      displaced = ((registered es reg.key).map Registration.instances).getD []) ∧
    (∀ e w', registryMemory.Exec w e w' → isCall e = true →
      w.sets <+: w'.sets ∧
      ∀ key reg reg', registered es key = some reg → registered (es ++ [e]) key = some reg' →
        reg'.instances = reg.instances →
          w'.snapshot.plugins.get key = w.snapshot.plugins.get key) ∧
    ∀ v w', registryMemory.Trace w v w' → Kept w w' := by
  refine ⟨faithful_of_trace h, ?_, ?_, fun v w' => kept_of_trace⟩
  · intro reg displaced w' hExec
    obtain ⟨order, hOrder, rfl, -⟩ := memory_installPlugin hExec
    rw [RegistryMemory.replicas, (faithful_of_trace h).instances]
  · intro e w' hExec hCall
    exact ⟨sets_of_call hExec hCall, fun key reg reg' => carries_over h hExec hCall⟩

/-- A plugin with one replica and a filter before routing. -/
def guarding (key : Str) (id : Nat) (order : Int) : Registration :=
  { key := key
    instances := [newInstance id key [] [] 0]
    filters := [⟨⟨"guard".toList, phasePreRoute, ⟨[], []⟩, order, true, 0, false, false, 0⟩,
      ⟨[], true⟩, none⟩]
    allowIdentityMutation := false
    known := by simp [knownPhases] }

/-- Two plugins with filters stay, and a third one without any comes and goes. -/
def guardedCalls : List (Event RegistryCalls) :=
  [⟨.installPlugin (guarding "blog".toList 0 2), []⟩,
    ⟨.installPlugin (guarding "shop".toList 1 1), []⟩,
    ⟨.install "feed".toList [newInstance 2 "feed".toList [] [] 0], []⟩,
    ⟨.remove "feed".toList, [newInstance 2 "feed".toList [] [] 0]⟩]

theorem registry_faithful_blog :
    ∃ w, registryMemory.Trace (.new defaultDefaults) guardedCalls w ∧
      w.instancesOf "blog".toList = some [newInstance 0 "blog".toList [] [] 0] ∧
      w.instancesOf "shop".toList = some [newInstance 1 "shop".toList [] [] 0] ∧
      w.instancesOf "feed".toList = none ∧ w.snapshot.version = 4 ∧
      (∃ pfs, FiltersOf guardedCalls pfs ∧ buildChain pfs defaultDefaults = .ok w.snapshot.chain) ∧
      (w.snapshot.chain.phases .preRoute).map Filter.pluginKey =
        ["shop".toList, "blog".toList] := by
  have hTrace : registryMemory.Trace (.new defaultDefaults) guardedCalls _ :=
    .cons ⟨["blog".toList], rfl⟩ (.cons ⟨["shop".toList, "blog".toList], rfl⟩
      (.cons ⟨["feed".toList, "blog".toList, "shop".toList], rfl⟩
        (.cons ⟨["blog".toList, "shop".toList], rfl⟩ (.nil _))))
  obtain ⟨hFaithful, -⟩ := registry_faithful hTrace
  obtain ⟨pfs, hFilters⟩ := hFaithful.listed
  exact ⟨_, hTrace, hFaithful.instances _, hFaithful.instances _, hFaithful.instances _,
    hFaithful.version, ⟨pfs, hFilters, hFaithful.chain pfs hFilters⟩, rfl⟩

end History
end Moduless.PluginHost
