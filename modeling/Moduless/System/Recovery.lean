import Moduless.Interaction.Accounts
import Moduless.Interaction.Schedule
import Moduless.PluginHost.Processes
import Moduless.PluginHost.RegisteredChain
import Moduless.PluginHost.Supervision
import Moduless.System

/-!
The filter chain across the restart of a crashed plugin.

A watcher installs only after its instance's process is gone, and what it
installs is the new instance alone. The filters and the identity permission the
plugin had registered are not carried over.
-/

namespace Moduless
open Go Gateway Pipeline PluginHost Interaction Discipline

/-- What a watcher knows of its instance. -/
structure Watch where
  inst : Instance
  gone : Bool

/-- Goroutines other than watchers have no account. -/
def Call.watch : Call → Option Watch
  | .task (.watch i) => some ⟨i, false⟩
  | _ => none

def Watch.next (g : Option Watch) : Event Host → Option Watch
  | ⟨.exited i, gone⟩ => g.map fun w => { w with gone := w.gone || (gone && i = w.inst) }
  | _ => g

/-- Watchers install instances of their plugin, without declarations, once the
process they watch is gone. -/
def recovering : Discipline Host (Option Watch) where
  next := Watch.next
  permits g
    | .installPlugin reg =>
      ∀ w ∈ g, w.gone = true ∧ ∃ is, reg = bareRegistration w.inst.key is
    | _ => True
  assumes _ _ := True

section Obedience

variable {i : Instance} {gone : Bool}

theorem recovering_none {α : Type} (p : HostM α) :
    Obeys recovering (fun _ _ => True) p none := by
  induction p with
  | ret a => trivial
  | call o k ih =>
    refine ⟨?_, fun r _ => ?_⟩
    · cases o with
      | installPlugin reg => exact nofun
      | _ => trivial
    · have hNext : Watch.next none ⟨o, r⟩ = none := by cases o <;> rfl
      exact (congrArg _ hNext).mpr (ih r)

theorem recovering_local {α : Type} {p : HostM α} (hp : p.Uses Op.Local) :
    Obeys recovering (fun _ g => g = some ⟨i, true⟩) p (some ⟨i, true⟩) := by
  refine obeys_of_uses hp (P := (· = some (⟨i, true⟩ : Watch))) (fun g o hg ho => ?_) rfl
  subst hg
  cases o with
  | installPlugin reg => exact ho.elim
  | _ => exact ⟨trivial, fun _ => rfl⟩

variable (cfg : ManagerConfig)

theorem recovering_bare (is : List Instance) :
    recovering.permits (some ⟨i, true⟩) (.installPlugin (bareRegistration i.key is)) := by
  intro w hw
  cases hw
  exact ⟨rfl, is, rfl⟩

theorem recovering_supervised :
    Supervised recovering cfg i.key (· = some ⟨i, true⟩) where
  looking hp hg := by
    subst hg
    exact recovering_local (local_of_looking hp)
  counts hg := ⟨trivial, hg⟩
  quarantines hg := by
    subst hg
    refine obeys_op trivial fun _ _ => obeys_op (recovering_bare []) fun displaced _ => ?_
    exact recovering_local (local_of_tending (tending_quarantineAll displaced))
  delays hg := ⟨trivial, fun _ _ => hg⟩
  relaunches hg := by
    subst hg
    refine obeys_relaunch trivial (fun _ => rfl) fun pkg => ?_
    refine obeys_mono (recovering_local (cfg.local_launchOne pkg 0)) fun r _ hg => ?_
    subst hg
    cases r with
    | error e => rfl
    | ok j => exact ⟨recovering_bare [j], fun _ _ => rfl⟩

theorem recovering_pollLoop (n : Nat) :
    Obeys recovering (fun _ _ => True) (cfg.pollLoop i n) (some ⟨i, gone⟩) := by
  induction n generalizing gone with
  | zero => exact ⟨trivial, fun e => nomatch e⟩
  | succ n ih =>
    refine obeys_ask trivial fun wake _ => ?_
    cases wake with
    | stop => trivial
    | done => trivial
    | timer =>
      refine obeys_op trivial fun exited _ => obeys_ite.mpr ⟨fun _ => ih, fun hExited => ?_⟩
      obtain rfl : exited = true := by simpa using hExited
      have hSeen : recovering.next (some ⟨i, gone⟩) ⟨.exited i, true⟩ = some ⟨i, true⟩ := by
        simp [recovering, Watch.next]
      have hLook := recovering_local (i := i) (local_of_looking (looking_isUnexpected i))
      rw [← hSeen] at hLook
      refine obeys_bind hLook fun crashed g hg => ?_
      obtain rfl := hg.trans hSeen
      refine obeys_ite.mpr ⟨fun _ => trivial, fun _ => ?_⟩
      exact obeys_op trivial fun _ _ => obeys_ask trivial fun n _ =>
        obeys_mono ((recovering_supervised cfg).recover n rfl) fun _ _ _ => trivial

theorem recovering_body (c : Call) : Obeys recovering (fun _ _ => True) (c.body cfg) c.watch := by
  cases c with
  | task t =>
    cases t with
    | watch i =>
      exact obeys_bind (Q := fun _ _ => True) (obeys_ask trivial fun n _ =>
        recovering_pollLoop cfg n) fun _ _ _ => trivial
    | _ => exact recovering_none _
  | _ => exact recovering_none _

end Obedience

def watchOf (th : CoreThread) : Option Watch := recovering.account th.call.watch th.hist

/-- The goroutine has put new instances into the registry. -/
def restarts (t : List (Event Host)) : Bool :=
  t.any fun e => match e.op with
    | .installPlugin reg => !reg.instances.isEmpty
    | _ => false

/-- What watchers have seen is so: an instance whose process is gone stays gone. -/
structure Watched (p : CorePool) : Prop where
  ids : ∀ i ∈ p.state.launched, i.id < p.state.launched.length
  gone : ∀ th ∈ p.threads, ∀ w ∈ watchOf th, w.gone = true →
    w.inst ∈ p.state.launched ∧ ¬ p.state.running w.inst
  restarted : ∀ th ∈ p.threads, restarts th.hist = true → ∀ w ∈ watchOf th, w.gone = true

section Runs

variable {cfg : ManagerConfig} {p q : CorePool} {i : Instance}

theorem not_gone_watch (c : Call) : ∀ w ∈ c.watch, w.gone = false := by
  intro w hw
  cases c with
  | task t => cases t <;> cases hw; rfl
  | _ => cases hw

theorem restarts_snoc (t : List (Event Host)) (e : Event Host) :
    restarts (t ++ [e]) = (restarts t || restarts [e]) := by
  simp [restarts, List.any_append]

/-- An operation leaves a watcher's account alone or is its own look at the
process. -/
theorem Watch.mem_next {g : Option Watch} {o : Op} {r : o.Ans} {w : Watch}
    (hw : w ∈ Watch.next g ⟨o, r⟩) :
    w ∈ g ∨ ∃ w' ∈ g, w = { w' with gone := true } ∧
      (⟨o, r⟩ : Event Host) = ⟨.exited w'.inst, true⟩ := by
  cases o with
  | exited j =>
    obtain ⟨w', hw', rfl⟩ := Option.mem_map.mp hw
    by_cases hSeen : r = true ∧ j = w'.inst
    · obtain ⟨rfl, rfl⟩ := hSeen
      exact .inr ⟨w', hw', by simp, rfl⟩
    · refine .inl ?_
      have hSame : (r && decide (j = w'.inst)) = false := by simpa using hSeen
      rwa [hSame, Bool.or_false]
  | _ => exact .inl hw

theorem Watched.begin (h : Watched p) (c : Call) :
    Watched ⟨p.state, p.threads ++ [(core cfg).fresh c]⟩ := by
  refine ⟨h.ids, System.forall_begin h.gone fun w hw hGone => ?_,
    System.forall_begin h.restarted nofun⟩
  exact absurd hGone (by simp [not_gone_watch c w hw])

theorem Watched.step {s s' : HostState} {before after : List CoreThread} {c : Call}
    {t : List (Event Host)} {o : Op} {k : o.Ans → HostM (Option HostError)} {r : o.Ans}
    (h : Watched ⟨s, before ++ ⟨c, t, .call o k⟩ :: after⟩)
    (hPermit : recovering.permits (watchOf ⟨c, t, .call o k⟩) o) (hExec : host.Exec s ⟨o, r⟩ s') :
    Watched ⟨s', before ++ ⟨c, t ++ [⟨o, r⟩], k r⟩ :: after ++
      (spawn o).map (core cfg).fresh⟩ := by
  have hSelf : watchOf ⟨c, t ++ [⟨o, r⟩], k r⟩ = Watch.next (watchOf ⟨c, t, .call o k⟩) ⟨o, r⟩ :=
    account_snoc _ _ _ _
  have hMem : (⟨c, t, .call o k⟩ : CoreThread) ∈ before ++ ⟨c, t, .call o k⟩ :: after := by simp
  have hGone : ∀ th ∈ before ++ ⟨c, t, .call o k⟩ :: after, ∀ w ∈ watchOf th, w.gone = true →
      w.inst ∈ s'.launched ∧ ¬ s'.running w.inst := by
    intro th hth w hw hSeen
    obtain ⟨hi, hStopped⟩ := h.gone th hth w hw hSeen
    exact ⟨(exec_frame hExec).kept _ hi, stopped_next h.ids hExec hi hStopped⟩
  refine ⟨id_lt_next h.ids hExec, System.forall_run hGone ?_ ?_,
    System.forall_run h.restarted ?_ fun _ _ => nofun⟩
  · intro w hw hSeen
    rw [hSelf] at hw
    rcases Watch.mem_next hw with hw | ⟨w', -, rfl, hLook⟩
    · exact hGone _ hMem w hw hSeen
    · rw [hLook] at hExec
      obtain ⟨hi, hExited, rfl⟩ := exec_exited hExec
      have hStopped : s'.procs w'.inst.id ≠ .running := of_decide_eq_true hExited.symm
      exact ⟨hi, hStopped⟩
  · intro c' _ w hw hSeen
    exact absurd hSeen (by simp [not_gone_watch c' w hw])
  · intro hRestarts w hw
    rw [restarts_snoc, Bool.or_eq_true] at hRestarts
    rw [hSelf] at hw
    rcases Watch.mem_next hw with hw | ⟨w', -, rfl, -⟩
    · rcases hRestarts with hBefore | hNow
      · exact h.restarted _ hMem hBefore w hw
      · cases o with
        | installPlugin reg => exact (hPermit w hw).1
        | _ => cases hNow
    · rfl

theorem core_watched (h : CoreReach cfg boot p) : Watched p ∧
    ∀ th ∈ p.threads, Obeys recovering (fun _ _ => True) th.prog (watchOf th) :=
  h.disciplined (D := recovering) (J := Watched) (a := Call.watch) (Q := fun _ _ _ => True)
    (recovering_body cfg) (fun _ _ _ _ _ _ _ _ => trivial) rfl
    ⟨by simp [boot], by simp [boot], by simp [boot]⟩ (fun _ c hp _ => hp.begin c)
    fun _ _ _ _ _ _ _ _ _ hp hPermit _ hExec _ => hp.step hPermit hExec

theorem watchOf_inst {th : CoreThread} (hCall : th.call = .task (.watch i)) :
    ∃ w ∈ watchOf th, w.inst = i := by
  obtain ⟨c, t, prog⟩ := th
  obtain rfl := hCall
  induction t using List.reverseRecOn with
  | nil => exact ⟨⟨i, false⟩, rfl, rfl⟩
  | append_singleton t e ih =>
    obtain ⟨w, hw, hInst⟩ := ih
    have hSnoc : watchOf ⟨.task (.watch i), t ++ [e], prog⟩ =
        Watch.next (watchOf ⟨.task (.watch i), t, prog⟩) e := account_snoc _ _ _ _
    rw [hSnoc, Option.mem_def.mp hw]
    obtain ⟨o, r⟩ := e
    cases o <;> exact ⟨_, rfl, hInst⟩

/-- Only the watcher of the instance installs. -/
def recoversAlone (i : Instance) (th : CoreThread) (e : Event Host) : Bool :=
  match e.op with
  | .installPlugin _ =>
    match th.call with
    | .task (.watch j) => j = i
    | _ => false
  | _ => true

abbrev RecoveryReach (cfg : ManagerConfig) (i : Instance) : CorePool → CorePool → Prop :=
  (core cfg).Reach (fun _ c => c.external = true) fun _ th e => recoversAlone i th e = true

/-- The registrations of `q` against those of `p`: the plugin of `i` still has its
own, or has lost its filters. -/
structure Recovers (i : Instance) (p q : CorePool) : Prop where
  defaults : q.state.registry.filterDefaults = p.state.registry.filterDefaults
  others : ∀ key, key ≠ i.key → q.state.registry.regs.get key = p.state.registry.regs.get key
  own : (q.state.registry.regs.get i.key = p.state.registry.regs.get i.key ∧
      ∀ th ∈ q.threads, th.call = .task (.watch i) → restarts th.hist = false) ∨
    q.state.registry.contribution i.key = none

theorem contribution_bare {s s' : HostState} {is displaced : List Instance} {key : Str}
    (hExec : host.Exec s ⟨.installPlugin (bareRegistration key is), displaced⟩ s') :
    s'.registry.contribution key = none := by
  obtain ⟨order, hOrder, -, rfl⟩ := exec_installPlugin hExec
  show ((register s.registry.regs (bareRegistration key is)).get key).bind _ = none
  rw [get_register_bare, if_pos rfl]
  split <;> rfl

theorem Recovers.step {s s' : HostState} {before after : List CoreThread} {c : Call}
    {t : List (Event Host)} {o : Op} {k : o.Ans → HostM (Option HostError)} {r : o.Ans}
    (h : Recovers i p ⟨s, before ++ ⟨c, t, .call o k⟩ :: after⟩)
    (hPermit : recovering.permits (watchOf ⟨c, t, .call o k⟩) o) (hExec : host.Exec s ⟨o, r⟩ s')
    (hAlone : recoversAlone i ⟨c, t, .call o k⟩ ⟨o, r⟩ = true) :
    Recovers i p ⟨s', before ++ ⟨c, t ++ [⟨o, r⟩], k r⟩ :: after ++
      (spawn o).map (core cfg).fresh⟩ := by
  by_cases hInstall : ∃ reg, o = .installPlugin reg
  · obtain ⟨reg, rfl⟩ := hInstall
    have hCall : c = .task (.watch i) := by
      unfold recoversAlone at hAlone
      split at hAlone
      next => split at hAlone <;> simp_all
      next hNot => exact absurd rfl (hNot reg)
    obtain ⟨w, hw, rfl⟩ := (watchOf_inst hCall : ∃ w ∈
      watchOf ⟨c, t, .call (.installPlugin reg) k⟩, w.inst = i)
    obtain ⟨-, is, rfl⟩ := hPermit w hw
    refine ⟨?_, fun key hKey => ?_, .inr (contribution_bare hExec)⟩
    · obtain ⟨order, hOrder, -, rfl⟩ := exec_installPlugin hExec
      exact h.defaults
    · obtain ⟨order, hOrder, -, rfl⟩ := exec_installPlugin hExec
      show (register s.registry.regs (bareRegistration w.inst.key is)).get key = _
      rw [get_register_bare, if_neg hKey]
      exact h.others key hKey
  · have hRegistry : s'.registry = s.registry :=
      (exec_frame hExec).registry fun reg ho => hInstall ⟨reg, ho⟩
    refine ⟨hRegistry ▸ h.defaults, hRegistry ▸ h.others, ?_⟩
    rcases h.own with ⟨hSame, hQuiet⟩ | hLost
    · refine .inl ⟨hRegistry ▸ hSame, System.forall_run hQuiet (fun hCall => ?_) fun _ _ _ => rfl⟩
      rw [restarts_snoc, hQuiet ⟨c, t, .call o k⟩ (by simp) hCall]
      cases o with
      | installPlugin reg => exact absurd ⟨reg, rfl⟩ hInstall
      | _ => rfl
    · exact .inr (hRegistry ▸ hLost)

theorem recovers_of_reach (hp : CoreReach cfg boot p) (hRun : p.state.running i)
    (h : RecoveryReach cfg i p q) : Recovers i p q := by
  suffices hBoth : CoreReach cfg boot q ∧ Recovers i p q from hBoth.2
  refine h.invariant (J := fun q => CoreReach cfg boot q ∧ Recovers i p q)
    ⟨hp, rfl, fun _ _ => rfl, .inl ⟨rfl, ?_⟩⟩ ?_ ?_
  · intro th hth hCall
    rw [Bool.eq_false_iff]
    intro hRestarts
    obtain ⟨w, hw, rfl⟩ := watchOf_inst hCall
    have hWatched := (core_watched hp).1
    exact (hWatched.gone th hth w hw (hWatched.restarted th hth hRestarts w hw)).2 hRun
  · rintro q c ⟨hq, hRecovers⟩ hStart
    refine ⟨hq.tail (.begin q c hStart), hRecovers.defaults, hRecovers.others, ?_⟩
    rcases hRecovers.own with ⟨hSame, hQuiet⟩ | hLost
    · exact .inl ⟨hSame, System.forall_begin hQuiet fun _ => rfl⟩
    · exact .inr hLost
  · rintro s before after c t o k r s' ⟨hq, hRecovers⟩ hExec hAlone
    refine ⟨hq.tail (.run _ before after c t o k r s' rfl hExec trivial), ?_⟩
    exact hRecovers.step ((core_watched hq).2 ⟨c, t, .call o k⟩ (by simp)).1 hExec hAlone

/-- A replica runs in `p`; in `q` its watcher has restarted the plugin, and nobody
else has changed the registry since. The chain is the same exactly when the
plugin had no filters registered. -/
theorem recovery_chain_iff (hp : CoreReach cfg boot p) (hRun : p.state.running i)
    (h : RecoveryReach cfg i p q) {th : CoreThread} (hth : th ∈ q.threads)
    (hCall : th.call = .task (.watch i)) (hRestarts : restarts th.hist = true) :
    q.state.registry.current.chain = p.state.registry.current.chain ↔
      ∀ reg, p.state.registry.regs.get i.key = some reg → reg.filters = [] := by
  have hRecovers := recovers_of_reach hp hRun h
  have hLost := hRecovers.own.resolve_left fun hOwn => by simp [hOwn.2 th hth hCall] at hRestarts
  rw [Registry.chain_dropped_iff hRecovers.defaults
    (fun key hKey => congrArg (Option.bind · _) (hRecovers.others key hKey)) hLost]
  rw [Registry.contribution, Option.bind_eq_none_iff]
  simp [Registration.contributes]

end Runs

def notesReplica : Instance :=
  newInstance 1 "notes".toList "notes-0".toList "1.0.0".toList 0

/-- A plugin without filters runs beside one that guards every request. -/
def unfilteredPool : CorePool :=
  ((core plainConfig).play (fun _ c => c.external) (fun _ _ _ => true)
    [.begin (.upgrade "audit".toList), .run 0 7 (shipping (auditManifest 1) ["audit".toList]),
      .begin (.upgrade "notes".toList),
      .run 2 7 (shipping { auditManifest 1 with key := "notes".toList, filters := [] }
        ["notes".toList, "audit".toList])] boot).get rfl

/-- Its replica dies and its watcher starts it again. -/
def unfilteredRestarted : CorePool :=
  ((core plainConfig).play (fun _ c => c.external) (fun _ => recoversAlone notesReplica)
    [.begin (.exit notesReplica), .run 4 1 (Op.calm []),
      .run 3 16 (Op.calm ["notes".toList, "audit".toList])] unfilteredPool).get rfl

theorem recovery_chain_unfiltered : unfilteredRestarted.state.registry.current.chain =
    unfilteredPool.state.registry.current.chain := by
  refine (recovery_chain_iff (p := unfilteredPool) (q := unfilteredRestarted) (i := notesReplica)
    (System.reach_get_play (fun _ _ h => h) (fun _ _ _ _ => trivial) rfl) rfl
    (System.reach_get_play (fun _ _ h => h) (fun _ _ _ h => h) rfl)
    (List.mem_of_getElem? (i := 3) rfl) rfl rfl).mpr fun reg hReg => ?_
  cases hReg
  rfl

/-- The same with a plugin that guards every request. -/
def guardedPool : CorePool :=
  ((core plainConfig).play (fun _ c => c.external) (fun _ _ _ => true)
    [.begin (.upgrade "audit".toList),
      .run 0 7 (shipping (auditManifest 1) ["audit".toList])] boot).get rfl

def guardedRestarted : CorePool :=
  ((core plainConfig).play (fun _ c => c.external) (fun _ => recoversAlone (auditReplica 0))
    [.begin (.exit (auditReplica 0)), .run 2 1 (Op.calm []),
      .run 1 16 (Op.calm ["audit".toList])] guardedPool).get rfl

/-- After the restart the plugin is routed to again and its fail-closed filter is
gone. -/
theorem guard_lost :
    CoreReach plainConfig boot guardedPool ∧ guardedPool.state.running (auditReplica 0) ∧
    RecoveryReach plainConfig (auditReplica 0) guardedPool guardedRestarted ∧
    (∃ th ∈ guardedRestarted.threads, th.call = .task (.watch (auditReplica 0)) ∧ th.Done ∧
      restarts th.hist = true) ∧
    (guardedPool.state.registry.current.chain.phases .preRoute).map
      (fun f => (f.pluginKey, f.decl.failClosed)) = [("audit".toList, true)] ∧
    guardedRestarted.state.registry.current.has "audit".toList = true ∧
    ∀ ph, guardedRestarted.state.registry.current.chain.phases ph = [] := by
  refine ⟨System.reach_get_play (fun _ _ h => h) (fun _ _ _ _ => trivial) rfl, rfl,
    System.reach_get_play (fun _ _ h => h) (fun _ _ _ h => h) rfl,
    ⟨_, List.mem_of_getElem? (i := 1) rfl, rfl, ⟨_, rfl⟩, rfl⟩, rfl, rfl, fun ph => ?_⟩
  cases ph <;> rfl

end Moduless
