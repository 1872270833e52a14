import Moduless.PluginHost.Administration
import Moduless.PluginHost.Effects
import Moduless.PluginHost.Provisioning

/-!
Runs of `launchAll` that end in an error.

Such a run leaves the registry and the manager's tables alone and kills what it has
started. Each replica up to the failing one has had its services built, and every number
of them is possible: any launch may be the one that fails.
-/

namespace Moduless.PluginHost
open Go Pipeline Interaction Machine

def startedBy : Event Host → Option Instance
  | ⟨.launch _, inst⟩ => inst
  | _ => none

def started (t : List (Event Host)) : List Instance := t.filterMap startedBy

@[simp] theorem started_append (t u : List (Event Host)) :
    started (t ++ u) = started t ++ started u := List.filterMap_append

section Programs

variable {cfg : ManagerConfig} {s s' : HostState} {t : List (Event Host)}

theorem exec_reading {e : Event Host} (ho : e.op.Reading) (h : host.Exec s e s') : s' = s := by
  obtain ⟨o, r⟩ := e
  cases o with
  | ask q => exact exec_ask h
  | manager o =>
    obtain ⟨key, rfl⟩ := ho
    exact (Prod.mk.inj (exec_manager h)).2.symm
  | _ => exact ho.elim

theorem launchless {α : Type} {N : Op → Prop} {p : HostM α} {a : α}
    (hN : ∀ spec, ¬ N (.launch spec)) (hp : p.Uses N) (h : host.Runs s p t a s') :
    built t = [] ∧ started t = [] := by
  have hEvent : ∀ e ∈ t, builtBy e = none ∧ startedBy e = none := by
    intro e he
    have ho := hp.hist h.finishes e he
    obtain ⟨o, r⟩ := e
    cases o with
    | launch spec => exact absurd ho (hN spec)
    | _ => exact ⟨rfl, rfl⟩
  exact ⟨List.filterMap_eq_nil_iff.mpr fun e he => (hEvent e he).1,
    List.filterMap_eq_nil_iff.mpr fun e he => (hEvent e he).2⟩

theorem runs_reading {α : Type} {p : HostM α} {a : α} (hp : p.Uses Op.Reading)
    (h : host.Runs s p t a s') : s' = s ∧ built t = [] ∧ started t = [] := by
  refine ⟨?_, launchless (fun _ => id) hp h⟩
  refine h.invariant (J := (· = s)) hp (fun s₁ o r s₂ ho hs hExec => ?_) rfl
  exact (exec_reading ho hExec).trans hs

/-- What a launch of one replica may do: fail, with its services built or not, or start the
instance. -/
inductive LaunchStep (pkg : Package) (s : HostState) :
    List (Event Host) → Except HostError Instance → HostState → Prop
  | failed {t : List (Event Host)} {e : HostError}
      (hBuilt : built t = [] ∨ built t = [ManagerConfig.hostFor pkg]) (hStarted : started t = []) :
      LaunchStep pkg s t (.error e) s
  | started {t : List (Event Host)} {s' : HostState} {inst : Instance}
      (hBuilt : built t = [ManagerConfig.hostFor pkg]) (hStarted : started t = [inst])
      (hId : inst.id = s.launched.length) (hLaunched : s'.launched = s.launched ++ [inst])
      (hProcs : s'.procs = Function.update s.procs inst.id .running) :
      LaunchStep pkg s t (.ok inst) s'

theorem launchStep_of_runs {pkg : Package} {index : Nat} {r : Except HostError Instance}
    (h : host.Runs s (cfg.launchOne pkg index) t r s') : LaunchStep pkg s t r s' := by
  obtain ⟨dataDir, u, v, s₁, rfl, hDir, hAfterDir⟩ := runs_bind.mp h
  obtain ⟨rfl, hu, hu'⟩ := runs_reading (cfg.reading_dataDirFor _) hDir
  cases dataDir with
  | error e =>
    obtain ⟨rfl, rfl, rfl⟩ := runs_ret.mp hAfterDir
    rw [List.append_nil]
    exact .failed (.inl hu) hu'
  | ok dataDir =>
    obtain ⟨config, w, v, s₂, rfl, hConfig, hAfterConfig⟩ := runs_bind.mp hAfterDir
    obtain ⟨rfl, hw, hw'⟩ := runs_reading (cfg.reading_configFor _) hConfig
    obtain ⟨inst, s₃, x, rfl, hLaunch, hRet⟩ := runs_op.mp hAfterConfig
    obtain ⟨rfl, rfl⟩ | ⟨i, rfl, hi, rfl⟩ := exec_launch hLaunch
    · obtain ⟨rfl, rfl, rfl⟩ := runs_ret.mp hRet
      refine .failed (.inr ?_) ?_
      · rw [built_append, built_append, hu, hw]
        rfl
      · rw [started_append, started_append, hu', hw']
        rfl
    · obtain ⟨rfl, rfl, rfl⟩ := runs_ret.mp hRet
      refine .started ?_ ?_ (by rw [hi]; rfl) rfl rfl
      · rw [built_append, built_append, hu, hw]
        rfl
      · rw [started_append, started_append, hu', hw']
        rfl

theorem kept_of_local {α : Type} {p : HostM α} {a : α} (hp : p.Uses Op.Local)
    (h : host.Runs s p t a s') :
    s'.registry = s.registry ∧ s'.packages = s.packages ∧ s'.enabled = s.enabled := by
  refine h.invariant (J := fun s₁ => s₁.registry = s.registry ∧ s₁.packages = s.packages ∧
    s₁.enabled = s.enabled) hp (fun s₁ o r s₂ ho hs hExec => ?_) ⟨rfl, rfl, rfl⟩
  have hFrame := exec_frame hExec
  by_cases hManager : ∃ m, o = .manager m
  · obtain ⟨m, rfl⟩ := hManager
    rw [exec_reading (e := ⟨.manager m, r⟩) ho hExec]
    exact hs
  · have hOther : ∀ m, o ≠ .manager m := fun m hm => hManager ⟨m, hm⟩
    have hRegistry : ∀ reg, o ≠ .installPlugin reg := by
      rintro reg rfl
      exact ho
    exact ⟨(hFrame.registry hRegistry).trans hs.1,
      (exec_packages hExec hOther).trans hs.2.1, (hFrame.enabled hOther).trans hs.2.2⟩

section Killing

variable {i : Instance}

/-- Killing an instance ends its process if it still runs, and touches no other. -/
theorem procs_terminate {a : Unit} (h : host.Runs s i.terminate t a s') :
    s'.procs = if s.procs i.id = .running then Function.update s.procs i.id .killed
      else s.procs := by
  obtain ⟨_, s₁, u, rfl, hKill, hRest⟩ := runs_op.mp h
  obtain ⟨n, v, rfl, hMark⟩ := runs_ask.mp hRest
  have hKept : s'.procs = s₁.procs := by
    refine hMark.invariant (J := fun s₂ => s₂.procs = s₁.procs)
      (terminating_markStopped i n true) (fun s₂ o r s₃ ho hs hExec => ?_) rfl
    refine ((exec_frame hExec).procs ?_ ?_ ?_).trans hs
    · rintro spec rfl
      exact ho
    · rintro j rfl
      cases ho
    · rintro j rfl
      exact ho
  rw [hKept, (exec_kill hKill).2]
  split <;> rfl

/-- The process runs, or has been killed. -/
def HostState.Tended (s : HostState) (i : Instance) : Prop :=
  s.procs i.id = .running ∨ s.procs i.id = .killed

theorem killed_killAll {is : List Instance} {a : Unit}
    (h : host.Runs s (ManagerConfig.killAll is) t a s') (hTended : ∀ i ∈ is, s.Tended i) :
    (∀ i ∈ is, s'.procs i.id = .killed) ∧
      ∀ id, s.procs id = .killed → s'.procs id = .killed := by
  induction is generalizing s t with
  | nil =>
    obtain ⟨-, -, rfl⟩ := runs_ret.mp h
    exact ⟨by simp, fun _ hid => hid⟩
  | cons i is ih =>
    obtain ⟨_, u, v, s₁, rfl, hFirst, hRest⟩ := runs_bind.mp h
    have hProcs := procs_terminate hFirst
    have hKilled : ∀ id, s.procs id = .killed → s₁.procs id = .killed := by
      intro id hid
      rw [hProcs]
      split
      next hRunning =>
        by_cases hSame : id = i.id
        · subst hSame
          simp
        · rwa [Function.update_of_ne hSame]
      next => exact hid
    have hSelf : s₁.procs i.id = .killed := by
      rw [hProcs]
      rcases hTended i List.mem_cons_self with hRunning | hDead
      · rw [if_pos hRunning, Function.update_self]
      · rw [hDead]
        simp [hDead]
    have hNext : ∀ j ∈ is, s₁.Tended j := by
      intro j hj
      rcases hTended j (List.mem_cons_of_mem _ hj) with hRunning | hDead
      · rw [HostState.Tended, hProcs]
        split
        next =>
          by_cases hSame : j.id = i.id
          · exact .inr (by rw [hSame, Function.update_self])
          · exact .inl (by rwa [Function.update_of_ne hSame])
        next => exact .inl hRunning
      · exact .inr (hKilled j.id hDead)
    obtain ⟨hRestKilled, hKept⟩ := ih hRest hNext
    exact ⟨List.forall_mem_cons.mpr ⟨hKept _ hSelf, hRestKilled⟩,
      fun id hid => hKept id (hKilled id hid)⟩

end Killing

/-- What is left of a launch that failed: the services of some replicas have been built, and
all that was started is killed. -/
theorem failed_launchFrom {pkg : Package} {n index : Nat} {is : List Instance} {e : HostError}
    (h : host.Runs s (cfg.launchFrom pkg n index is) t (.error e) s')
    (hRun : ∀ i ∈ is, i.id < s.launched.length ∧ s.procs i.id = .running) :
    (∃ m ≤ n, built t = .replicate m (ManagerConfig.hostFor pkg)) ∧
      ∀ i ∈ is ++ started t, s'.procs i.id = .killed := by
  induction n generalizing s t index is with
  | zero =>
    obtain ⟨-, hResult, -⟩ := runs_ret.mp h
    cases hResult
  | succ n ih =>
    obtain ⟨r, u, v, s₁, rfl, hOne, hRest⟩ := runs_bind.mp h
    cases launchStep_of_runs hOne with
    | failed hBuilt hStarted =>
      obtain ⟨_, w, x, s₂, rfl, hKill, hRet⟩ := runs_bind.mp hRest
      obtain ⟨rfl, -, rfl⟩ := runs_ret.mp hRet
      obtain ⟨hw, hw'⟩ := launchless (fun _ => id) (ManagerConfig.tending_killAll is) hKill
      rw [List.append_nil]
      constructor
      · rw [built_append, hw, List.append_nil]
        rcases hBuilt with hNone | hOne
        · exact ⟨0, Nat.zero_le _, by rw [hNone]; rfl⟩
        · exact ⟨1, by omega, by rw [hOne]; rfl⟩
      · rw [started_append, hStarted, hw', List.append_nil, List.append_nil]
        exact (killed_killAll hKill fun i hi => .inl (hRun i hi).2).1
    | @started _ inst hBuilt hStarted hId hLaunched hProcs =>
      obtain ⟨⟨m, hm, hMany⟩, hKilled⟩ := ih hRest (by
        intro i hi
        rw [hLaunched, hProcs, List.length_append, List.length_singleton]
        rcases List.mem_append.mp hi with hi | hi
        · obtain ⟨hOld, hRunning⟩ := hRun i hi
          exact ⟨by omega, by rwa [Function.update_of_ne (by omega)]⟩
        · obtain rfl := List.mem_singleton.mp hi
          exact ⟨by omega, Function.update_self _ _ _⟩)
      refine ⟨⟨m + 1, by omega, ?_⟩, ?_⟩
      · rw [built_append, hBuilt, hMany]
        rfl
      · rw [started_append, hStarted, ← List.append_assoc]
        exact hKilled

section Existence

theorem allows_op {α : Type} {Q : List (Event Host) → α → HostState → Prop} {o : Op}
    {f : o.Ans → HostM α} {r : o.Ans} {s₁ : HostState} (hExec : host.Exec s ⟨o, r⟩ s₁)
    (h : host.Allows s₁ (f r) fun t => Q (⟨o, r⟩ :: t)) : host.Allows s (op o >>= f) Q :=
  allows_call hExec h

theorem allows_ask {α : Type} {Q : List (Event Host) → α → HostState → Prop} {q : Query}
    {f : q.Ans → HostM α} (r : q.Ans) (h : host.Allows s (f r) fun t => Q (⟨.ask q, r⟩ :: t)) :
    host.Allows s (ask q >>= f) Q :=
  allows_call ⟨r, rfl⟩ h

theorem allows_reading {α : Type} {p : HostM α} (hp : p.Uses Op.Reading) (s : HostState) :
    host.Allows s p fun t _ s' => s' = s ∧ built t = [] := by
  suffices hRuns : ∃ t a s', host.Runs s p t a s' by
    obtain ⟨t, a, s', h⟩ := hRuns
    obtain ⟨hSame, hBuilt, -⟩ := runs_reading hp h
    exact ⟨t, a, s', h, hSame, hBuilt⟩
  induction p with
  | ret a => exact ⟨[], a, s, .ret s a⟩
  | call o k ih =>
    obtain ⟨r, hExec⟩ : ∃ r, host.Exec s ⟨o, r⟩ s := by
      cases o with
      | ask q => exact ⟨q.calm, q.calm, rfl⟩
      | manager o =>
        obtain ⟨key, rfl⟩ := hp.1
        exact ⟨s.packages.get key, (), rfl⟩
      | _ => exact hp.1.elim
    obtain ⟨t, a, s', h⟩ := ih r (hp.2 r)
    exact ⟨_, a, s', .call hExec h⟩

theorem allows_dataDirFor (key : Str) (s : HostState) :
    host.Allows s (cfg.dataDirFor key) fun t r s' =>
      s' = s ∧ built t = [] ∧ ∃ dir, r = .ok dir := by
  unfold ManagerConfig.dataDirFor
  split
  next => exact allows_ret ⟨rfl, rfl, [], rfl⟩
  next => exact allows_ask true (allows_ret ⟨rfl, rfl, _, rfl⟩)

theorem allows_launchAll (pkg : Package) (s : HostState) :
    host.Allows s (cfg.launchAll pkg) fun t r _ =>
      built t = [ManagerConfig.hostFor pkg] ∧ ∃ e, r = .error e := by
  obtain ⟨n, hn⟩ := Nat.exists_eq_succ_of_ne_zero pkg.manifest.replicaCount_pos.ne'
  rw [ManagerConfig.launchAll, hn]
  have hOne : host.Allows s (cfg.launchOne pkg 0) fun t r _ =>
      built t = [ManagerConfig.hostFor pkg] ∧ ∃ e, r = .error e := by
    refine allows_bind (allows_dataDirFor pkg.key s) ?_
    rintro t _ _ ⟨rfl, ht, dataDir, rfl⟩
    refine allows_bind (allows_reading (cfg.reading_configFor pkg.key) _) ?_
    rintro u config _ ⟨rfl, hu⟩
    refine allows_op (r := none) ⟨false, rfl⟩ (allows_ret ⟨?_, _, rfl⟩)
    rw [built_append, built_append, ht, hu]
    rfl
  refine allows_bind hOne ?_
  rintro t _ s' ⟨ht, e, rfl⟩
  exact allows_ret ⟨(congrArg built (List.append_nil t)).trans ht, e, rfl⟩

end Existence

end Programs
end Moduless.PluginHost
