import Moduless.Gateway.Body
import Moduless.Interaction.Accounts
import Moduless.Interaction.Schedule
import Moduless.PluginHost.Custody
import Moduless.PluginHost.Processes
import Moduless.System

/-!
Plugin processes that nobody will end.

Every running process belongs to an instance of the current snapshot or is in
the custody of a goroutine, as long as `Enable` and restarts only take the place
of instances that no longer run. The code does not see to that.
-/

namespace Moduless.PluginHost
open Go Pipeline Interaction

variable {s s' : HostState} {o : Op} {r : o.Ans} {i : Instance} {g : Custody}

theorem owns_next (hExec : host.Exec s ⟨o, r⟩ s') (hOwns : i ∈ g.owns) (hKill : o ≠ .kill i) :
    i ∈ (g.next ⟨o, r⟩).owns ∨ (∃ timeout, o = .go (.drain i timeout)) ∨
      ∃ key, i ∈ s'.registry.current.replicas key := by
  cases o with
  | launch spec => exact .inl (List.mem_append_right _ hOwns)
  | kill j =>
    have hNe : i ≠ j := fun hEq => hKill (by rw [hEq])
    exact .inl (by simpa [Custody.next, Custody.settle, hNe] using hOwns)
  | go t =>
    cases t with
    | drain j timeout =>
      by_cases hEq : i = j
      · exact .inr (.inl ⟨timeout, by rw [hEq]⟩)
      · exact .inl (by simpa [Custody.next, Custody.settle, hEq] using hOwns)
    | _ => exact .inl hOwns
  | installPlugin reg =>
    obtain ⟨order, hOrder, -, rfl⟩ := exec_installPlugin hExec
    by_cases hReg : i ∈ reg.instances
    · refine .inr (.inr ⟨reg.key, ?_⟩)
      rwa [Registry.replicas_installPlugin, if_pos rfl]
    · exact .inl (by simp [Custody.next, Custody.settle, hReg, hOwns])
  | _ => exact .inl hOwns

/-- What leaves the registry comes into the custody of who installs, unless they
forget it. -/
theorem registered_next {key : Str} (hExec : host.Exec s ⟨o, r⟩ s')
    (hReg : i ∈ s.registry.current.replicas key) :
    (∃ key, i ∈ s'.registry.current.replicas key) ∨
      ∃ reg, o = .installPlugin reg ∧ i ∈ s.registry.current.replicas reg.key ∧
        ∀ g : Custody, (g.forgets = true → reg.instances = []) → i ∈ (g.next ⟨o, r⟩).owns := by
  cases o with
  | installPlugin reg =>
    obtain ⟨order, hOrder, rfl, rfl⟩ := exec_installPlugin hExec
    by_cases hKey : key = reg.key
    · subst hKey
      refine .inr ⟨reg, rfl, hReg, fun g hForgets => List.mem_append_right _ ?_⟩
      rw [if_neg (by simpa using hForgets)]
      exact hReg
    · refine .inl ⟨key, ?_⟩
      rwa [Registry.replicas_installPlugin, if_neg hKey]
  | _ => exact .inl ⟨key, by rwa [(exec_frame hExec).registry (by simp)]⟩

end Moduless.PluginHost

namespace Moduless
open Go Gateway Pipeline PluginHost Interaction Discipline

/-- A drain starts with its instance in custody. -/
def Call.custodyAtStart : Call → Custody
  | .task (.drain i _) => ⟨[i], false⟩
  | .enable _ | .task (.watch _) => ⟨[], true⟩
  | _ => ⟨[], false⟩

def custodyOf (th : CoreThread) : Custody := custody.account th.call.custodyAtStart th.hist

/-- `Enable` and a restart install where nothing registered still runs. -/
def replacesDead (p : CorePool) (th : CoreThread) (e : Event Host) : Bool :=
  match e.op with
  | .installPlugin reg => !th.call.custodyAtStart.forgets || reg.instances.isEmpty ||
      (p.state.registry.current.replicas reg.key).all fun i => p.state.procs i.id ≠ .running
  | _ => true

/-- The goroutine has returned, or has neither launched nor displaced anything.
Watchers of live instances rest in the second way. -/
def resting (th : CoreThread) : Bool :=
  th.isDone || (th.call.custodyAtStart.owns.isEmpty && th.hist.all fun e =>
    match e.op with
    | .launch _ | .installPlugin _ => false
    | _ => true)

abbrev CarefulReach (cfg : ManagerConfig) : CorePool → CorePool → Prop :=
  (core cfg).Reach (fun _ c => c.external = true) fun p th e => replacesDead p th e = true

section Custody

variable {cfg : ManagerConfig} {g : Custody} {p q : CorePool} {i : Instance}

theorem custody_request {α : Type} {p : HostM α} {P : Request → Prop}
    (hp : p.Uses (PluginHandler.HandsOver P)) : Obeys custody (fun _ g' => g' = g) p g := by
  refine custody_unowned (hp.mono fun o ho => ?_)
  cases o with
  | go t => cases t <;> first | exact ho.elim | exact fun _ _ => rfl
  | _ => first | exact ho.elim | exact fun _ _ => rfl

theorem custody_body (c : Call) : Obeys custody Leaves (c.body cfg) c.custodyAtStart := by
  cases c with
  | serve h r =>
    refine obeys_bind (Q := Leaves) ?_ fun _ _ hg => hg
    refine obeys_op trivial fun snap _ => ?_
    exact obeys_mono (custody_request (h.serveWith_handsOver snap r)) fun _ _ hg => hg ▸ rfl
  | enable key => exact custody_enable cfg key rfl rfl
  | disable key => exact custody_disable cfg key rfl
  | upgrade key => exact custody_upgrade cfg key rfl
  | scan => exact obeys_bind (custody_scan cfg) fun _ _ hg => hg ▸ rfl
  | exit i => exact ⟨trivial, fun _ _ => rfl⟩
  | task t =>
    cases t with
    | drain i timeout =>
      refine obeys_mono (custody_drain i timeout) fun _ g' hg => ?_
      rw [Leaves, hg]
      exact Custody.owns_settle fun _ hj => hj
    | watch i =>
      exact obeys_bind ((custody_supervised cfg i.key).watchLoop ⟨rfl, rfl⟩) fun _ _ hg => hg.2
    | log chain rc =>
      exact obeys_bind (custody_request (P := fun _ => True) ((serving_runLog chain rc).mono
        fun _ => PluginHandler.handsOver_of_serving)) fun _ _ hg => hg ▸ rfl

theorem forgets_account (t : List (Event Host)) : (custody.account g t).forgets = g.forgets := by
  induction t generalizing g with
  | nil => rfl
  | cons e t ih => exact ih.trans (g.forgets_next e)

/-- Nothing comes into the custody of a goroutine that neither launches nor
installs. -/
theorem owns_of_quiet {t : List (Event Host)} (hOwns : g.owns = [])
    (hQuiet : (t.all fun e => match e.op with
      | .launch _ | .installPlugin _ => false
      | _ => true) = true) : (custody.account g t).owns = [] := by
  induction t generalizing g with
  | nil => exact hOwns
  | cons e t ih =>
    obtain ⟨hEvent, hQuiet⟩ := Bool.and_eq_true_iff.mp (List.all_cons ▸ hQuiet)
    refine ih ?_ hQuiet
    obtain ⟨o, r⟩ := e
    cases o with
    | launch spec => cases hEvent
    | installPlugin reg => cases hEvent
    | kill j => simp [custody, Custody.next, Custody.settle, hOwns]
    | go t => cases t <;> simp [custody, Custody.next, Custody.settle, hOwns]
    | _ => exact hOwns

/-- A process that is not lost: registered, or in somebody's custody. -/
def Placed (p : CorePool) (i : Instance) : Prop :=
  (∃ key, i ∈ p.state.registry.current.replicas key) ∨ ∃ th ∈ p.threads, i ∈ (custodyOf th).owns

structure Accounted (p : CorePool) : Prop where
  ids : ∀ i ∈ p.state.launched, i.id < p.state.launched.length
  placed : ∀ i ∈ p.state.launched, p.state.running i → Placed p i

theorem Accounted.begin (h : Accounted p) (c : Call) :
    Accounted ⟨p.state, p.threads ++ [(core cfg).fresh c]⟩ := by
  refine ⟨h.ids, fun i hi hRun => ?_⟩
  rcases h.placed i hi hRun with hReg | ⟨th, hth, hOwns⟩
  · exact .inl hReg
  · exact .inr ⟨th, List.mem_append_left _ hth, hOwns⟩

theorem Accounted.step {s s' : HostState} {before after : List CoreThread} {c : Call}
    {t : List (Event Host)} {o : Op} {k : o.Ans → HostM (Option HostError)} {r : o.Ans}
    (h : Accounted ⟨s, before ++ ⟨c, t, .call o k⟩ :: after⟩) (hExec : host.Exec s ⟨o, r⟩ s')
    (hCond : replacesDead ⟨s, before ++ ⟨c, t, .call o k⟩ :: after⟩ ⟨c, t, .call o k⟩
      ⟨o, r⟩ = true) :
    Accounted ⟨s', before ++ ⟨c, t ++ [⟨o, r⟩], k r⟩ :: after ++
      (spawn o).map (core cfg).fresh⟩ := by
  refine ⟨id_lt_next h.ids hExec, fun i hi hRun => ?_⟩
  have hSelf : ∀ {j : Instance}, j ∈ ((custodyOf ⟨c, t, .call o k⟩).next ⟨o, r⟩).owns →
      Placed ⟨s', before ++ ⟨c, t ++ [⟨o, r⟩], k r⟩ :: after ++
        (spawn o).map (core cfg).fresh⟩ j := by
    intro j hj
    refine .inr ⟨⟨c, t ++ [⟨o, r⟩], k r⟩, by simp, ?_⟩
    rwa [custodyOf, account_snoc]
  rcases running_next h.ids hExec hi hRun with ⟨hOld, hRan, hKill⟩ | ⟨-, spec, hLaunch⟩
  · rcases h.placed i hOld hRan with ⟨key, hReg⟩ | ⟨th, hth, hOwns⟩
    · rcases registered_next hExec hReg with hReg | ⟨reg, rfl, hDisplaced, hOwned⟩
      · exact .inl hReg
      · refine hSelf (hOwned _ fun hForgets => ?_)
        -- the guard leaves only instances that no longer run to be forgotten
        rw [custodyOf, forgets_account] at hForgets
        have hDead : reg.instances = [] ∨ ∀ j ∈ s.registry.current.replicas reg.key,
            s.procs j.id ≠ .running := by
          simpa [replacesDead, hForgets] using hCond
        exact hDead.resolve_right fun hDead => hDead i hDisplaced hRan
    · simp only [List.mem_append, List.mem_cons] at hth
      rcases hth with hth | rfl | hth
      · exact .inr ⟨th, by simp [hth], hOwns⟩
      · rcases owns_next hExec hOwns hKill with hOwns | ⟨timeout, rfl⟩ | hReg
        · exact hSelf hOwns
        · refine .inr ⟨(core cfg).fresh (.task (.drain i timeout)), by simp [spawn], ?_⟩
          exact List.mem_singleton_self i
        · exact .inl hReg
      · exact .inr ⟨th, by simp [hth], hOwns⟩
  · refine hSelf ?_
    rw [hLaunch]
    exact List.mem_cons_self

theorem owns_of_resting {th : CoreThread} (hObeys : Obeys custody Leaves th.prog (custodyOf th))
    (hRest : resting th = true) : (custodyOf th).owns = [] := by
  rcases Bool.or_eq_true_iff.mp hRest with hDone | hQuiet
  · obtain ⟨a, ha⟩ := Thread.isDone_iff.mp hDone
    rw [ha] at hObeys
    exact hObeys
  · obtain ⟨hStart, hQuiet⟩ := Bool.and_eq_true_iff.mp hQuiet
    exact owns_of_quiet (List.isEmpty_iff.mp hStart) hQuiet

/-- No orphans: when all goroutines rest, every process still running belongs to
an instance of the current snapshot. -/
theorem running_registered (h : CarefulReach cfg boot q)
    (hRest : ∀ th ∈ q.threads, resting th = true) (hi : i ∈ q.state.launched)
    (hRun : q.state.running i) : ∃ key, i ∈ q.state.registry.current.replicas key := by
  obtain ⟨hAccounted, hObeys⟩ := h.disciplined (D := custody) (J := Accounted)
    (a := Call.custodyAtStart) (Q := fun _ => Leaves) custody_body
    (fun _ _ _ _ _ _ _ _ => trivial) rfl ⟨by simp [boot], by simp [boot]⟩
    (fun p c hp _ => hp.begin c) fun s before after c t o k r s' hp _ _ hExec hCond =>
      hp.step hExec hCond
  refine (hAccounted.placed i hi hRun).resolve_right ?_
  rintro ⟨th, hth, hOwns⟩
  rw [owns_of_resting (hObeys th hth) (hRest th hth)] at hOwns
  cases hOwns

end Custody

/-- The only replica dies after an upgrade, and its watcher restarts it. -/
def restartedPool : CorePool :=
  ((core plainConfig).play (fun _ c => c.external) replacesDead
    [.begin (.upgrade "audit".toList), .run 0 7 (shipping (auditManifest 1) ["audit".toList]),
      .begin (.exit (auditReplica 0)), .run 2 1 (Op.calm []),
      .run 1 16 (Op.calm ["audit".toList])] boot).get rfl

theorem running_registered_restarted :
    ∃ key, { auditReplica 0 with id := 1 } ∈ restartedPool.state.registry.current.replicas key :=
  have hReach : CarefulReach plainConfig boot restartedPool :=
    System.reach_get_play (fun _ _ h => h) (fun _ _ _ h => h) rfl
  running_registered hReach
    (List.all_eq_true.mp (show restartedPool.threads.all resting = true from rfl))
    (List.mem_of_getElem? (i := 1) rfl) rfl

/-- An upgrade, then `Enable` for the same plugin. -/
def reenabledPool : CorePool :=
  ((core plainConfig).play (fun _ c => c.external) (fun _ _ _ => true)
    [.begin (.upgrade "audit".toList), .run 0 7 (shipping (auditManifest 1) ["audit".toList]),
      .begin (.enable "audit".toList), .run 2 7 (Op.calm ["audit".toList])] boot).get rfl

/-- The replica of the upgrade runs on and no snapshot shows it. -/
theorem replica_orphaned :
    CoreReach plainConfig boot reenabledPool ∧
    (∀ th ∈ reenabledPool.threads, resting th = true) ∧
    auditReplica 0 ∈ reenabledPool.state.launched ∧
    reenabledPool.state.running (auditReplica 0) ∧
    ∀ key, auditReplica 0 ∉ reenabledPool.state.registry.current.replicas key := by
  refine ⟨System.reach_get_play (fun _ _ h => h) (fun _ _ _ _ => trivial) rfl,
    List.all_eq_true.mp (show reenabledPool.threads.all resting = true from rfl),
    List.mem_of_getElem? (i := 0) rfl, rfl, fun key hi => ?_⟩
  have hPlugins : reenabledPool.state.registry.current.plugins =
      [("audit".toList, ⟨2, "audit".toList, [{ auditReplica 0 with id := 1 }]⟩)] := rfl
  rw [Snapshot.replicas, hPlugins, GoMap.get_cons] at hi
  split at hi
  next => cases hi
  next rs hFound =>
    split_ifs at hFound
    · cases hFound
      cases List.mem_singleton.mp hi
    · cases hFound

end Moduless
