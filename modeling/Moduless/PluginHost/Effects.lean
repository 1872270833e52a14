import Moduless.PluginHost.HostState

/-!
The effect of each operation as a relation between the states around it.
-/

namespace Moduless.PluginHost
open Go Pipeline Interaction

variable {s s' : HostState} {i : Instance}

private theorem exec_iff {o : Op} {r : o.Ans} :
    host.Exec s ⟨o, r⟩ s' ↔ ∃ w : o.Choice, s.exec o w = some (r, s') := Iff.rfl

/-- An operation on an instance is possible only once the instance has been launched. -/
private theorem eq_of_guarded {p : Prop} [Decidable p] {α : Type} {a r : α} {t : HostState}
    (h : (if p then some (a, t) else none) = some (r, s')) : p ∧ r = a ∧ s' = t := by
  obtain ⟨hp, h⟩ := Option.ite_none_right_eq_some.mp h
  obtain ⟨rfl, rfl⟩ := Prod.mk.inj (Option.some.inj h)
  exact ⟨hp, rfl, rfl⟩

theorem exec_ask {q : Query} {r : q.Ans} (h : host.Exec s ⟨.ask q, r⟩ s') : s' = s := by
  obtain ⟨w, h⟩ := exec_iff.mp h
  exact (Prod.mk.inj (Option.some.inj h)).2.symm

theorem exec_loadState {st : State} (h : host.Exec s ⟨.loadState i, st⟩ s') :
    i ∈ s.launched ∧ st = s.state i ∧ s' = s := by
  obtain ⟨w, h⟩ := exec_iff.mp h
  exact eq_of_guarded h

theorem exec_storeState {st : State} {r : Unit} (h : host.Exec s ⟨.storeState i st, r⟩ s') :
    i ∈ s.launched ∧ s' = s.setState i st := by
  obtain ⟨w, h⟩ := exec_iff.mp h
  obtain ⟨hi, -, rfl⟩ := eq_of_guarded h
  exact ⟨hi, rfl⟩

theorem exec_casState {old new : State} {r : Bool}
    (h : host.Exec s ⟨.casState i old new, r⟩ s') :
    i ∈ s.launched ∧ ((r = true ∧ s.state i = old ∧ s' = s.setState i new) ∨
      (r = false ∧ s.state i ≠ old ∧ s' = s)) := by
  obtain ⟨w, h⟩ := exec_iff.mp h
  obtain ⟨hi, h⟩ := Option.ite_none_right_eq_some.mp h
  split_ifs at h with hState <;> obtain ⟨rfl, rfl⟩ := Prod.mk.inj (Option.some.inj h)
  · exact ⟨hi, .inl ⟨rfl, hState, rfl⟩⟩
  · exact ⟨hi, .inr ⟨rfl, hState, rfl⟩⟩

theorem exec_loadInflight {n : Int} (h : host.Exec s ⟨.loadInflight i, n⟩ s') :
    i ∈ s.launched ∧ n = s.inflight i ∧ s' = s := by
  obtain ⟨w, h⟩ := exec_iff.mp h
  exact eq_of_guarded h

theorem exec_addInflight {d n : Int} (h : host.Exec s ⟨.addInflight i d, n⟩ s') :
    i ∈ s.launched ∧ n = s.inflight i + d ∧ s' = s.setInflight i n := by
  obtain ⟨w, h⟩ := exec_iff.mp h
  obtain ⟨hi, rfl, rfl⟩ := eq_of_guarded h
  exact ⟨hi, rfl, rfl⟩

theorem exec_newDone {l : Lease} (h : host.Exec s ⟨.newDone i, l⟩ s') :
    i ∈ s.launched ∧ l = ⟨i, s.cells.length⟩ ∧
      s' = { s with cells := s.cells ++ [(i, false)] } := by
  obtain ⟨w, h⟩ := exec_iff.mp h
  exact eq_of_guarded h

theorem exec_casDone {l : Lease} {r : Bool} (h : host.Exec s ⟨.casDone l, r⟩ s') :
    (r = true ∧ s.cells[l.cell]? = some (l.inst, false) ∧
      s' = { s with cells := s.cells.set l.cell (l.inst, true) }) ∨
    (r = false ∧ s.cells[l.cell]? = some (l.inst, true) ∧ s' = s) := by
  obtain ⟨w, h⟩ := exec_iff.mp h
  have h : (if s.cells[l.cell]? = some (l.inst, false) then
      some (true, { s with cells := s.cells.set l.cell (l.inst, true) })
    else if s.cells[l.cell]? = some (l.inst, true) then some (false, s) else none) =
      some (r, s') := h
  split_ifs at h with hOpen hClosed <;> obtain ⟨rfl, rfl⟩ := Prod.mk.inj (Option.some.inj h)
  · exact .inl ⟨rfl, hOpen, rfl⟩
  · exact .inr ⟨rfl, hClosed, rfl⟩

theorem exec_breaker {o : BreakerOp} {r : o.Ans} (h : host.Exec s ⟨.breaker i o, r⟩ s') :
    ∃ b, s' = s.setBreaker i b := by
  obtain ⟨w, h⟩ := exec_iff.mp h
  obtain ⟨-, h⟩ := Option.ite_none_right_eq_some.mp h
  exact ⟨_, (Prod.mk.inj (Option.some.inj h)).2.symm⟩

theorem exec_go {t : Task} {r : Unit} (h : host.Exec s ⟨.go t, r⟩ s') : s' = s := by
  obtain ⟨w, h⟩ := exec_iff.mp h
  exact (Prod.mk.inj (Option.some.inj h)).2.symm

theorem exec_current {r : Snapshot} (h : host.Exec s ⟨.current, r⟩ s') :
    r = s.registry.current ∧ s' = s := by
  obtain ⟨w, h⟩ := exec_iff.mp h
  obtain ⟨rfl, rfl⟩ := Prod.mk.inj (Option.some.inj h)
  exact ⟨rfl, rfl⟩

theorem exec_choose {rs : ReplicaSet} {states : List State} {r : Option Instance}
    (h : host.Exec s ⟨.choose rs states, r⟩ s') : ∃ c, s' = { s with counters := c } := by
  obtain ⟨w, h⟩ := exec_iff.mp h
  rw [HostState.exec] at h
  split at h <;> exact ⟨_, (Prod.mk.inj (Option.some.inj h)).2.symm⟩

theorem exec_picked {key : Str} {r : Unit} (h : host.Exec s ⟨.picked key i, r⟩ s') : s' = s := by
  obtain ⟨w, h⟩ := exec_iff.mp h
  exact (Prod.mk.inj (Option.some.inj h)).2.symm

theorem exec_installPlugin {reg : Registration} {r : List Instance}
    (h : host.Exec s ⟨.installPlugin reg, r⟩ s') :
    ∃ order, ∃ h : order.Perm (register s.registry.regs reg).keys,
      r = (s.registry.installPlugin reg order h).1 ∧
      s' = { s with registry := (s.registry.installPlugin reg order h).2 } := by
  obtain ⟨order, h⟩ := exec_iff.mp h
  obtain ⟨hOrder, h⟩ := Option.dite_none_right_eq_some.mp h
  obtain ⟨rfl, rfl⟩ := Prod.mk.inj (Option.some.inj h)
  exact ⟨order, hOrder, rfl, rfl⟩

theorem exec_manager {o : ManagerOp} {r : o.Ans} (h : host.Exec s ⟨.manager o, r⟩ s') :
    o.apply s = (r, s') := by
  obtain ⟨w, h⟩ := exec_iff.mp h
  exact Option.some.inj h

theorem exec_package {key : Str} {r : Option Package}
    (h : host.Exec s ⟨.manager (.package key), r⟩ s') : r = s.packages.get key ∧ s' = s := by
  obtain ⟨rfl, rfl⟩ := Prod.mk.inj (exec_manager h)
  exact ⟨rfl, rfl⟩

theorem exec_crash {o : CrashOp} {r : o.Ans} (h : host.Exec s ⟨.crash o, r⟩ s') :
    ∃ c q, s' = { s with crashes := c, quarantined := q } := by
  obtain ⟨now, h⟩ := exec_iff.mp h
  cases o <;> exact ⟨_, _, (Prod.mk.inj (Option.some.inj h)).2.symm⟩

theorem exec_launch {spec : LaunchSpec} {r : Option Instance}
    (h : host.Exec s ⟨.launch spec, r⟩ s') :
    (r = none ∧ s' = s) ∨ ∃ inst, r = some inst ∧ inst =
      newInstance s.launched.length spec.key spec.instanceID spec.version spec.weight ∧
      s' = ({ s with launched := s.launched ++ [inst] }.setFields inst launchedFields).setProc
        inst .running := by
  obtain ⟨ok, h⟩ := exec_iff.mp h
  cases ok with
  | false =>
    obtain ⟨rfl, rfl⟩ := Prod.mk.inj (Option.some.inj h)
    exact .inl ⟨rfl, rfl⟩
  | true => exact .inr ⟨_, (Prod.mk.inj (Option.some.inj h)).1.symm, rfl,
      (Prod.mk.inj (Option.some.inj h)).2.symm⟩

theorem exec_kill {r : Unit} (h : host.Exec s ⟨.kill i, r⟩ s') :
    i ∈ s.launched ∧ s' = if s.procs i.id = .running then s.setProc i .killed else s := by
  obtain ⟨w, h⟩ := exec_iff.mp h
  obtain ⟨hi, h⟩ := Option.ite_none_right_eq_some.mp h
  split_ifs at h with hRunning <;> obtain ⟨-, rfl⟩ := Prod.mk.inj (Option.some.inj h)
  · exact ⟨hi, (if_pos hRunning).symm⟩
  · exact ⟨hi, (if_neg hRunning).symm⟩

theorem exec_exited {r : Bool} (h : host.Exec s ⟨.exited i, r⟩ s') :
    i ∈ s.launched ∧ r = decide (s.procs i.id ≠ .running) ∧ s' = s := by
  obtain ⟨w, h⟩ := exec_iff.mp h
  exact eq_of_guarded h

theorem exec_exit {r : Unit} (h : host.Exec s ⟨.exit i, r⟩ s') :
    i ∈ s.launched ∧ s' = if s.procs i.id = .running then s.setProc i .exited else s := by
  obtain ⟨w, h⟩ := exec_iff.mp h
  obtain ⟨hi, h⟩ := Option.ite_none_right_eq_some.mp h
  split_ifs at h with hRunning <;> obtain ⟨-, rfl⟩ := Prod.mk.inj (Option.some.inj h)
  · exact ⟨hi, (if_pos hRunning).symm⟩
  · exact ⟨hi, (if_neg hRunning).symm⟩

theorem exec_diverge {r : Empty} : ¬ host.Exec s ⟨.diverge, r⟩ s' := r.elim

theorem ManagerOp.apply_frame (o : ManagerOp) (s : HostState) :
    (o.apply s).2.launched = s.launched ∧ (o.apply s).2.cells = s.cells ∧
      (o.apply s).2.fields = s.fields ∧ (o.apply s).2.procs = s.procs ∧
      (o.apply s).2.registry = s.registry := by
  cases o <;> exact ⟨rfl, rfl, rfl, rfl, rfl⟩

/-- What an operation leaves alone. -/
structure Frame (o : Op) (s s' : HostState) : Prop where
  kept : ∀ i ∈ s.launched, i ∈ s'.launched
  launched : (∀ spec, o ≠ .launch spec) → s'.launched = s.launched
  procs : (∀ spec, o ≠ .launch spec) → (∀ i, o ≠ .kill i) → (∀ i, o ≠ .exit i) →
    s'.procs = s.procs
  registry : (∀ reg, o ≠ .installPlugin reg) → s'.registry = s.registry
  enabled : (∀ m, o ≠ .manager m) → s'.enabled = s.enabled

theorem Frame.of_eq {o : Op} (hLaunched : s'.launched = s.launched) (hProcs : s'.procs = s.procs)
    (hRegistry : s'.registry = s.registry) (hEnabled : s'.enabled = s.enabled) : Frame o s s' where
  kept i hi := by rwa [hLaunched]
  launched _ := hLaunched
  procs _ _ _ := hProcs
  registry _ := hRegistry
  enabled _ := hEnabled

theorem exec_frame {e : Event Host} (h : host.Exec s e s') : Frame e.op s s' := by
  have hSame : ∀ (o : Op) (s : HostState), Frame o s s := fun o s => .of_eq rfl rfl rfl rfl
  obtain ⟨o, r⟩ := e
  cases o with
  | ask q => rw [exec_ask h]; exact hSame _ _
  | loadState j => rw [(exec_loadState h).2.2]; exact hSame _ _
  | storeState j st =>
    rw [(exec_storeState h).2]
    exact .of_eq rfl rfl rfl rfl
  | casState j old new =>
    obtain ⟨-, ⟨-, -, rfl⟩ | ⟨-, -, rfl⟩⟩ := exec_casState h
    · exact .of_eq rfl rfl rfl rfl
    · exact hSame _ _
  | loadInflight j => rw [(exec_loadInflight h).2.2]; exact hSame _ _
  | addInflight j d =>
    rw [(exec_addInflight h).2.2]
    exact .of_eq rfl rfl rfl rfl
  | newDone j =>
    rw [(exec_newDone h).2.2]
    exact .of_eq rfl rfl rfl rfl
  | casDone l =>
    obtain ⟨-, -, rfl⟩ | ⟨-, -, rfl⟩ := exec_casDone h
    · exact .of_eq rfl rfl rfl rfl
    · exact hSame _ _
  | breaker j o =>
    obtain ⟨b, rfl⟩ := exec_breaker h
    exact .of_eq rfl rfl rfl rfl
  | go t => rw [exec_go h]; exact hSame _ _
  | current => rw [(exec_current h).2]; exact hSame _ _
  | choose rs states =>
    obtain ⟨c, rfl⟩ := exec_choose h
    exact .of_eq rfl rfl rfl rfl
  | picked key j => rw [exec_picked h]; exact hSame _ _
  | installPlugin reg =>
    obtain ⟨order, hOrder, -, rfl⟩ := exec_installPlugin h
    exact ⟨fun _ hi => hi, fun _ => rfl, fun _ _ _ => rfl, fun hNot => absurd rfl (hNot reg),
      fun _ => rfl⟩
  | manager o =>
    obtain ⟨hLaunched, -, -, hProcs, hRegistry⟩ := o.apply_frame s
    rw [exec_manager h] at hLaunched hProcs hRegistry
    exact ⟨fun _ hi => hLaunched ▸ hi, fun _ => hLaunched, fun _ _ _ => hProcs,
      fun _ => hRegistry, fun hNot => absurd rfl (hNot o)⟩
  | crash o =>
    obtain ⟨c, q, rfl⟩ := exec_crash h
    exact .of_eq rfl rfl rfl rfl
  | launch spec =>
    obtain ⟨-, rfl⟩ | ⟨j, -, -, rfl⟩ := exec_launch h
    · exact hSame _ _
    · exact ⟨fun _ hi => List.mem_append_left _ hi, fun hNot => absurd rfl (hNot spec),
        fun hNot => absurd rfl (hNot spec), fun _ => rfl, fun _ => rfl⟩
  | kill j =>
    obtain ⟨-, rfl⟩ := exec_kill h
    split
    · exact ⟨fun _ hi => hi, fun _ => rfl, fun _ hNot => absurd rfl (hNot j), fun _ => rfl,
        fun _ => rfl⟩
    · exact hSame _ _
  | exited j => rw [(exec_exited h).2.2]; exact hSame _ _
  | exit j =>
    obtain ⟨-, rfl⟩ := exec_exit h
    split
    · exact ⟨fun _ hi => hi, fun _ => rfl, fun _ _ hNot => absurd rfl (hNot j), fun _ => rfl,
        fun _ => rfl⟩
    · exact hSame _ _
  | diverge => exact absurd h exec_diverge

theorem runs_op {β : Type} {o : Op} {f : o.Ans → HostM β} {t : List (Event Host)} {b : β} :
    host.Runs s (op o >>= f) t b s' ↔
      ∃ r s₁ u, t = ⟨o, r⟩ :: u ∧ host.Exec s ⟨o, r⟩ s₁ ∧ host.Runs s₁ (f r) u b s' :=
  Machine.runs_call

theorem runs_ask {β : Type} {q : Query} {f : q.Ans → HostM β} {t : List (Event Host)} {b : β} :
    host.Runs s (ask q >>= f) t b s' ↔ ∃ r u, t = ⟨.ask q, r⟩ :: u ∧ host.Runs s (f r) u b s' := by
  constructor
  · intro h
    obtain ⟨r, s₁, u, rfl, hExec, hRest⟩ := Machine.runs_call.mp h
    obtain rfl := exec_ask hExec
    exact ⟨r, u, rfl, hRest⟩
  · rintro ⟨r, u, rfl, hRest⟩
    exact .call ⟨r, rfl⟩ hRest

/-- Tables that only one kind of operation writes. -/
structure Untouched (o : Op) (s s' : HostState) : Prop where
  counters : (∀ rs states, o ≠ .choose rs states) → s'.counters = s.counters
  crashes : (∀ c, o ≠ .crash c) → s'.crashes = s.crashes
  quarantined : (∀ c, o ≠ .crash c) → s'.quarantined = s.quarantined
  packages : (∀ m, o ≠ .manager m) → s'.packages = s.packages

theorem exec_untouched {e : Event Host} (h : host.Exec s e s') : Untouched e.op s s' := by
  have hSame (o : Op) {s' : HostState} (hCounters : s'.counters = s.counters)
      (hCrashes : s'.crashes = s.crashes) (hQuarantined : s'.quarantined = s.quarantined)
      (hPackages : s'.packages = s.packages) : Untouched o s s' :=
    ⟨fun _ => hCounters, fun _ => hCrashes, fun _ => hQuarantined, fun _ => hPackages⟩
  obtain ⟨o, r⟩ := e
  cases o with
  | ask q => rw [exec_ask h]; exact hSame _ rfl rfl rfl rfl
  | loadState j => rw [(exec_loadState h).2.2]; exact hSame _ rfl rfl rfl rfl
  | storeState j st => rw [(exec_storeState h).2]; exact hSame _ rfl rfl rfl rfl
  | casState j old new =>
    obtain ⟨-, ⟨-, -, rfl⟩ | ⟨-, -, rfl⟩⟩ := exec_casState h <;> exact hSame _ rfl rfl rfl rfl
  | loadInflight j => rw [(exec_loadInflight h).2.2]; exact hSame _ rfl rfl rfl rfl
  | addInflight j d => rw [(exec_addInflight h).2.2]; exact hSame _ rfl rfl rfl rfl
  | newDone j => rw [(exec_newDone h).2.2]; exact hSame _ rfl rfl rfl rfl
  | casDone l =>
    obtain ⟨-, -, rfl⟩ | ⟨-, -, rfl⟩ := exec_casDone h <;> exact hSame _ rfl rfl rfl rfl
  | breaker j o => obtain ⟨b, rfl⟩ := exec_breaker h; exact hSame _ rfl rfl rfl rfl
  | go t => rw [exec_go h]; exact hSame _ rfl rfl rfl rfl
  | current => rw [(exec_current h).2]; exact hSame _ rfl rfl rfl rfl
  | choose rs states =>
    obtain ⟨c, rfl⟩ := exec_choose h
    exact ⟨fun hNot => absurd rfl (hNot rs states), fun _ => rfl, fun _ => rfl, fun _ => rfl⟩
  | picked key j => rw [exec_picked h]; exact hSame _ rfl rfl rfl rfl
  | installPlugin reg =>
    obtain ⟨order, hOrder, -, rfl⟩ := exec_installPlugin h
    exact hSame _ rfl rfl rfl rfl
  | manager m =>
    obtain ⟨-, rfl⟩ := Prod.mk.inj (exec_manager h)
    cases m <;> exact ⟨fun _ => rfl, fun _ => rfl, fun _ => rfl, fun hNot => absurd rfl (hNot _)⟩
  | crash c =>
    obtain ⟨c', q, rfl⟩ := exec_crash h
    exact ⟨fun _ => rfl, fun hNot => absurd rfl (hNot c), fun hNot => absurd rfl (hNot c),
      fun _ => rfl⟩
  | launch spec =>
    obtain ⟨-, rfl⟩ | ⟨j, -, -, rfl⟩ := exec_launch h <;> exact hSame _ rfl rfl rfl rfl
  | kill j => obtain ⟨-, rfl⟩ := exec_kill h; split <;> exact hSame _ rfl rfl rfl rfl
  | exited j => rw [(exec_exited h).2.2]; exact hSame _ rfl rfl rfl rfl
  | exit j => obtain ⟨-, rfl⟩ := exec_exit h; split <;> exact hSame _ rfl rfl rfl rfl
  | diverge => exact absurd h exec_diverge

theorem exec_packages {e : Event Host} (h : host.Exec s e s') (hNot : ∀ m, e.op ≠ .manager m) :
    s'.packages = s.packages :=
  (exec_untouched h).packages hNot

theorem packages_next {e : Event Host} (h : host.Exec s e s') :
    s'.packages = s.packages ∨
    (∃ key pkg, e.op = .manager (.commitUpgrade key pkg) ∧
      s'.packages = s.packages.set key pkg) ∨
    ∃ pkgs, e.op = .manager (.setPackages pkgs) ∧
      s'.packages = pkgs.foldl (fun (m : GoMap Str Package) p => m.set p.key p) [] := by
  by_cases hManager : ∃ m, e.op = .manager m
  · obtain ⟨o, r⟩ := e
    obtain ⟨m, rfl⟩ := hManager
    obtain ⟨-, rfl⟩ := Prod.mk.inj (exec_manager h)
    cases m with
    | commitUpgrade key pkg => exact .inr (.inl ⟨key, pkg, rfl, rfl⟩)
    | setPackages pkgs => exact .inr (.inr ⟨pkgs, rfl, rfl⟩)
    | _ => exact .inl rfl
  · exact .inl (exec_packages h fun m hm => hManager ⟨m, hm⟩)

end Moduless.PluginHost
