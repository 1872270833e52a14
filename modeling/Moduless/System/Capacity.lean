import Moduless.System.Recovery

/-!
The replicas of a plugin across the restart of one of them.

A crash is noticed by the watcher of the replica that died. It launches one instance and
registers it under the plugin's key, which replaces the registration of all replicas.
-/

namespace Moduless
open Go Gateway Pipeline PluginHost Interaction

theorem restoring_watch (cfg : ManagerConfig) (i : Instance) :
    ((Call.task (.watch i)).body cfg).Uses (Op.Restoring i.key) :=
  Program.uses_bind (cfg.restoring_watchLoop i) fun _ => trivial

/-- The replicas requests are routed to. -/
def PluginHost.HostState.replicas (s : HostState) (key : Str) : List Instance :=
  s.registry.current.replicas key

/-- The replica `i` is routed to in `p`. In `q` its watcher is about to register the
instance `j` it has launched; `s` is the state after that. -/
structure Restart (cfg : ManagerConfig) (i j : Instance) (p q : CorePool) (s : HostState) :
    Prop where
  before : CoreReach cfg boot p
  routed : i ∈ p.state.replicas i.key
  meanwhile : CoreReach cfg p q
  restarts : ∃ reg t k displaced,
    (⟨.task (.watch i), t, .call (.installPlugin reg) k⟩ : CoreThread) ∈ q.threads ∧
    j ∈ reg.instances ∧ host.Exec q.state ⟨.installPlugin reg, displaced⟩ s

/-- Every replica of before whose process still runs is routed to, the restarted one is,
and there are as many as before. -/
def KeepsCapacity (i j : Instance) (p : CorePool) (s : HostState) : Prop :=
  (∀ r ∈ p.state.replicas i.key, s.running r → r ∈ s.replicas i.key) ∧
  j ∈ s.replicas i.key ∧ (s.replicas i.key).length = (p.state.replicas i.key).length

section Runs

variable {cfg : ManagerConfig} {i j : Instance} {p q : CorePool} {s : HostState}

/-- After a restart the new instance is alone, and the old one has stopped. -/
theorem Restart.alone (h : Restart cfg i j p q s) : s.replicas i.key = [j] ∧ ¬ s.running i := by
  obtain ⟨hp, -, hq, reg, t, k, displaced, hth, hj, hExec⟩ := h
  have hReach : CoreReach cfg boot q := hp.trans hq
  obtain ⟨hWatched, hObeys⟩ := core_watched hReach
  obtain ⟨w, hw, rfl⟩ := watchOf_inst (rfl : (⟨.task (.watch i), t, .call (.installPlugin reg) k⟩ :
    CoreThread).call = _)
  obtain ⟨hi, hStopped⟩ := hWatched.gone _ hth w hw ((hObeys _ hth).1 w hw).1
  obtain ⟨is, hSolo, rfl⟩ :=
    ((restoring_watch cfg w.inst).leads (hReach.leads (by simp [boot]) _ hth)).1
  have hAlone : is = [j] := by
    obtain ⟨j', rfl⟩ := List.length_eq_one_iff.mp
      (Nat.le_antisymm hSolo (List.length_pos_of_mem hj))
    rw [List.mem_singleton.mp hj]
  refine ⟨?_, stopped_next hWatched.ids hExec hi hStopped⟩
  obtain ⟨order, hOrder, -, rfl⟩ := exec_installPlugin hExec
  rw [← hAlone]
  exact (Registry.replicas_installPlugin _ _ _ hOrder _).trans (if_pos rfl)

/-- A restart keeps the capacity of a plugin exactly when it had one replica. -/
theorem capacity_kept_iff (h : Restart cfg i j p q s) :
    KeepsCapacity i j p s ↔ (p.state.replicas i.key).length = 1 := by
  obtain ⟨hAlone, hStopped⟩ := h.alone
  rw [KeepsCapacity, hAlone]
  constructor
  · rintro ⟨-, -, hLength⟩
    exact hLength.symm
  · intro hOne
    obtain ⟨r, hr⟩ := List.length_eq_one_iff.mp hOne
    have hRouted := h.routed
    rw [hr] at hRouted ⊢
    refine ⟨fun r' hr' hRun => ?_, List.mem_singleton_self j, rfl⟩
    rw [List.mem_singleton.mp hr', ← List.mem_singleton.mp hRouted] at hRun
    exact absurd hRun hStopped

end Runs

/-- The instance a restart launches after `n` others. -/
def restartedReplica (n : Nat) : Instance :=
  newInstance n "audit".toList "audit-0".toList "1.0.0".toList 0

/-- The only replica dies; its watcher has launched another one. -/
def loneRestarting : CorePool :=
  ((core plainConfig).play (fun _ c => c.external) (fun _ _ _ => true)
    [.begin (.exit (auditReplica 0)), .run 2 1 (Op.calm []), .run 1 14 (Op.calm [])]
    guardedPool).get rfl

theorem capacity_kept_lone :
    KeepsCapacity (auditReplica 0) (restartedReplica 1) guardedPool guardedRestarted.state := by
  have hRestart : Restart plainConfig (auditReplica 0) (restartedReplica 1) guardedPool
      loneRestarting guardedRestarted.state :=
    ⟨System.reach_get_play (fun _ _ h => h) (fun _ _ _ _ => trivial) rfl, .head _,
      System.reach_get_play (fun _ _ h => h) (fun _ _ _ _ => trivial) rfl,
      ⟨_, _, _, _, List.mem_of_getElem? (i := 1) rfl, .head _, ["audit".toList], rfl⟩⟩
  exact (capacity_kept_iff hRestart).mpr rfl

/-- A plugin with two replicas has been upgraded. -/
def pairedPool : CorePool :=
  ((core plainConfig).play (fun _ c => c.external) (fun _ _ _ => true)
    [.begin (.upgrade "audit".toList),
      .run 0 10 (shipping (auditManifest 2) ["audit".toList])] boot).get rfl

/-- The first of them dies; its watcher has launched another one. -/
def pairedRestarting : CorePool :=
  ((core plainConfig).play (fun _ c => c.external) (fun _ _ _ => true)
    [.begin (.exit (auditReplica 0)), .run 3 1 (Op.calm []), .run 1 14 (Op.calm [])]
    pairedPool).get rfl

def pairedRestarted : CorePool :=
  ((core plainConfig).play (fun _ c => c.external) (fun _ _ _ => true)
    [.run 1 1 (Op.calm ["audit".toList])] pairedRestarting).get rfl

/-- The second replica still runs, and no request reaches it any more. -/
theorem capacity_lost :
    Restart plainConfig (auditReplica 0) (restartedReplica 2) pairedPool pairedRestarting
      pairedRestarted.state ∧
    pairedPool.state.replicas "audit".toList = [auditReplica 0, auditReplica 1] ∧
    pairedRestarted.state.running (auditReplica 1) ∧
    pairedRestarted.state.replicas "audit".toList = [restartedReplica 2] ∧
    ¬ KeepsCapacity (auditReplica 0) (restartedReplica 2) pairedPool pairedRestarted.state := by
  refine ⟨⟨System.reach_get_play (fun _ _ h => h) (fun _ _ _ _ => trivial) rfl, .head _,
    System.reach_get_play (fun _ _ h => h) (fun _ _ _ _ => trivial) rfl,
    ⟨_, _, _, _, List.mem_of_getElem? (i := 1) rfl, .head _, ["audit".toList], rfl⟩⟩,
    rfl, rfl, rfl, fun hKeeps => ?_⟩
  exact absurd hKeeps.2.2 (by decide)

end Moduless
