import Moduless.Interaction.Accounts
import Moduless.Interaction.Schedule
import Moduless.PluginHost.Effects
import Moduless.System.Pending

/-!
Disabling a plugin, against the operations that can bring it back.

If nobody has a write for the key left when `Disable` makes the corresponding
one, the plugin stays away. `Enable`, `Upgrade` and recoveries launch processes
between their checks and their writes, so nothing ensures that.
-/

namespace Moduless
open Go Gateway Pipeline PluginHost Interaction Discipline

/-- No `Enable` or `Upgrade` of the key is called after its `Disable`. -/
def startsBefore (key : Str) (p : CorePool) (c : Call) : Bool :=
  c.external && match c with
    | .enable k | .upgrade k => k ≠ key || p.threads.all fun th =>
      match th.call with
      | .disable k' => k' ≠ key
      | _ => true
    | _ => true

/-- When `Disable` leaves the enabled set nobody is about to enter the key there,
and when it leaves the registry nobody is about to install it. -/
def unopposed (key : Str) (p : CorePool) (th : CoreThread)
    (e : Event Host) : Bool :=
  match th.call, e.op with
  | .disable k, .manager _ => k ≠ key || p.threads.all fun th' =>
    th'.isDone || !(pending key th').entering
  | .disable k, .installPlugin _ => k ≠ key || p.threads.all fun th' =>
    th'.isDone || !(pending key th').installing
  | _, _ => true

section Finality

variable {key : Str} {cfg : ManagerConfig} {s s' : HostState} {g : Pending} {p q : CorePool}

theorem Pending.entering_next {e : Event Host} (h : (g.next key e).entering = true) :
    g.entering = true := by
  obtain ⟨o, r⟩ := e
  cases o with
  | manager o =>
    cases o with
    | insertEnabled k => exact (Bool.and_eq_true_iff.mp h).1
    | commitUpgrade k pkg => exact (Bool.and_eq_true_iff.mp h).1
    | relaunchable k =>
      rw [Pending.next] at h
      split at h <;> exact h
    | _ => exact h
  | crash o => cases o <;> exact h
  | _ => exact h

theorem Pending.installing_next {e : Event Host} (hExec : host.Exec s e s')
    (hDisabled : key ∉ s.enabled) (h : (g.next key e).installing = true) :
    g.installing = true := by
  obtain ⟨o, r⟩ := e
  cases o with
  | manager o =>
    cases o with
    | relaunchable k =>
      rw [Pending.next] at h
      split at h
      next hk =>
        subst hk
        have hFound : (ManagerOp.apply (.relaunchable k) s).1 = r :=
          congrArg Prod.fst (exec_manager hExec)
        rw [← hFound] at h
        simp [ManagerOp.apply, hDisabled] at h
      next => exact h
    | _ => exact h
  | crash o =>
    cases o with
    | tooManyCrashes c k => cases h
    | _ => exact h
  | installPlugin reg => exact (Bool.and_eq_true_iff.mp h).1
  | _ => exact h

theorem not_enabled_next {o : Op} {r : o.Ans} (hExec : host.Exec s ⟨o, r⟩ s')
    (hDisabled : key ∉ s.enabled) (hEntering : g.entering = false)
    (hPermit : (disabling key).permits g o) : key ∉ s'.enabled := by
  cases o with
  | manager o =>
    have hState : (o.apply s).2 = s' := congrArg Prod.snd (exec_manager hExec)
    cases o with
    | insertEnabled k =>
      have hk : k ≠ key := fun hk => by simpa [hEntering] using hPermit hk
      rw [← hState]
      intro hIn
      rcases List.mem_cons.mp hIn with rfl | hIn
      · exact hk rfl
      · exact hDisabled (List.mem_of_mem_erase hIn)
    | commitUpgrade k pkg =>
      have hk : k ≠ key := fun hk => by simpa [hEntering] using hPermit hk
      rw [← hState]
      intro hIn
      rcases List.mem_cons.mp hIn with rfl | hIn
      · exact hk rfl
      · exact hDisabled (List.mem_of_mem_erase hIn)
    | deleteEnabled k =>
      rw [← hState]
      exact fun hIn => hDisabled (List.mem_of_mem_filter hIn)
    | package k => rwa [← hState]
    | relaunchable k => rwa [← hState]
    | setPackages pkgs => rwa [← hState]
  | _ => rwa [(exec_frame hExec).enabled (by simp)]

theorem not_registered_next {o : Op} {r : o.Ans} (hExec : host.Exec s ⟨o, r⟩ s')
    (hAbsent : s.registry.regs.get key = none) (hInstalling : g.installing = false)
    (hPermit : (disabling key).permits g o) : s'.registry.regs.get key = none := by
  cases o with
  | installPlugin reg =>
    obtain ⟨order, hOrder, -, rfl⟩ := exec_installPlugin hExec
    show (register s.registry.regs reg).get key = none
    rw [get_register]
    split
    next hKey =>
      have hNil : reg.instances = [] := by
        by_contra hNil
        simpa [hInstalling] using hPermit hKey.symm hNil
      rw [if_pos hNil]
    next => exact hAbsent
  | _ => rwa [(exec_frame hExec).registry (by simp)]

theorem disable_leads {t : List (Event Host)} {prog : HostM (Option HostError)}
    (h : ((Call.disable key).body cfg).Leads t prog) :
    (t = [] ∧ ∃ k, prog = .call (.manager (.deleteEnabled key)) k) ∨
    (t.length = 1 ∧ ∃ k, prog = .call (.installPlugin (bareRegistration key [])) k) ∨
    2 ≤ t.length := by
  rcases Program.leads_call.mp h with ⟨rfl, rfl⟩ | ⟨r, u, rfl, h₁⟩
  · exact .inl ⟨rfl, _, rfl⟩
  · rcases Program.leads_call.mp h₁ with ⟨rfl, rfl⟩ | ⟨r', v, rfl, -⟩
    · exact .inr (.inl ⟨rfl, _, rfl⟩)
    · exact .inr (.inr (by simp))

/-- What holds once `Disable` has made its writes: the first is the enabled set,
the second the registry. -/
structure Final (key : Str) (p : CorePool) : Prop where
  left : (∃ th ∈ p.threads, th.call = .disable key ∧ 1 ≤ th.hist.length) →
    key ∉ p.state.enabled ∧ ∀ th ∈ p.threads, th.isDone = false → (pending key th).entering = false
  gone : (∃ th ∈ p.threads, th.call = .disable key ∧ 2 ≤ th.hist.length) →
    p.state.registry.regs.get key = none ∧
      ∀ th ∈ p.threads, th.isDone = false → (pending key th).installing = false

abbrev UnopposedReach (cfg : ManagerConfig) (key : Str) : CorePool → CorePool → Prop :=
  (core cfg).Reach (fun p c => startsBefore key p c = true)
    fun p th e => unopposed key p th e = true

theorem pending_spawned {o : Op} {c : Call} (h : c ∈ spawn o) :
    Pending.start key c = ⟨false, false, false⟩ := by
  cases o with
  | go t =>
    obtain rfl := List.mem_singleton.mp h
    rfl
  | _ => cases h

/-- A call that may start has nothing pending for a key that is being disabled. -/
theorem pending_fresh {c : Call} (hStart : startsBefore key p c = true)
    (hDisable : ∃ th ∈ p.threads, th.call = .disable key) :
    Pending.start key c = ⟨false, false, false⟩ := by
  obtain ⟨th, hth, hCall⟩ := hDisable
  have hOther : ∀ k, (k ≠ key || p.threads.all fun th =>
      match th.call with
      | .disable k' => decide (k' ≠ key)
      | _ => true) = true → k ≠ key := by
    intro k hk
    rcases Bool.or_eq_true_iff.mp hk with hk | hAll
    · exact of_decide_eq_true hk
    · have := List.all_eq_true.mp hAll th hth
      simp [hCall] at this
  cases c with
  | enable k => simp [Pending.start, hOther k (Bool.and_eq_true_iff.mp hStart).2]
  | upgrade k => simp [Pending.start, hOther k (Bool.and_eq_true_iff.mp hStart).2]
  | _ => rfl

theorem Final.begin (h : Final key p) {c : Call} (hStart : startsBefore key p c = true) :
    Final key ⟨p.state, p.threads ++ [(core cfg).fresh c]⟩ := by
  have hOld : ∀ n, (∃ th ∈ p.threads ++ [(core cfg).fresh c],
      th.call = .disable key ∧ n + 1 ≤ th.hist.length) →
      ∃ th ∈ p.threads, th.call = .disable key ∧ n + 1 ≤ th.hist.length := by
    rintro n ⟨th, hth, hCall, hLength⟩
    rcases List.mem_append.mp hth with hth | hth
    · exact ⟨th, hth, hCall, hLength⟩
    · rw [List.mem_singleton.mp hth] at hLength
      simp [System.fresh] at hLength
  constructor
  · intro hPassed
    obtain ⟨th, hth, hCall, hLength⟩ := hOld 0 hPassed
    obtain ⟨hEnabled, hAll⟩ := h.left ⟨th, hth, hCall, hLength⟩
    exact ⟨hEnabled, System.forall_begin hAll fun _ =>
      congrArg Pending.entering (pending_fresh hStart ⟨th, hth, hCall⟩)⟩
  · intro hPassed
    obtain ⟨th, hth, hCall, hLength⟩ := hOld 1 hPassed
    obtain ⟨hGone, hAll⟩ := h.gone ⟨th, hth, hCall, hLength⟩
    exact ⟨hGone, System.forall_begin hAll fun _ =>
      congrArg Pending.installing (pending_fresh hStart ⟨th, hth, hCall⟩)⟩

section Step

variable {before after : List (CoreThread)} {c : Call}
  {t : List (Event Host)} {o : Op} {k : o.Ans → HostM (Option HostError)} {r : o.Ans}

theorem passed_step {n : Nat} (h : ∃ th ∈ before ++ ⟨c, t ++ [⟨o, r⟩], k r⟩ :: after ++
      (spawn o).map (core cfg).fresh, th.call = .disable key ∧ n + 1 ≤ th.hist.length) :
    (∃ th ∈ before ++ ⟨c, t, .call o k⟩ :: after, th.call = .disable key ∧
      n + 1 ≤ th.hist.length) ∨ (c = .disable key ∧ t.length = n) := by
  obtain ⟨th, hth, hCall, hLength⟩ := h
  simp only [List.mem_append, List.mem_cons, List.mem_map] at hth
  rcases hth with (hth | rfl | hth) | ⟨c', hc', rfl⟩
  · exact .inl ⟨th, by simp [hth], hCall, hLength⟩
  · rcases Nat.lt_or_ge n t.length with hlt | hge
    · exact .inl ⟨⟨c, t, .call o k⟩, by simp, hCall, hlt⟩
    · simp only [List.length_append, List.length_singleton] at hLength
      exact .inr ⟨hCall, by omega⟩
  · exact .inl ⟨th, by simp [hth], hCall, hLength⟩
  · simp [System.fresh] at hLength

theorem Final.step (h : Final key ⟨s, before ++ ⟨c, t, .call o k⟩ :: after⟩)
    (hLeads : (c.body cfg).Leads t (.call o k))
    (hPermit : (disabling key).permits (pending key ⟨c, t, .call o k⟩) o)
    (hExec : host.Exec s ⟨o, r⟩ s')
    (hCond : unopposed key ⟨s, before ++ ⟨c, t, .call o k⟩ :: after⟩ ⟨c, t, .call o k⟩
      ⟨o, r⟩ = true) :
    Final key ⟨s', before ++ ⟨c, t ++ [⟨o, r⟩], k r⟩ :: after ++
      (spawn o).map (core cfg).fresh⟩ := by
  have hMem : (⟨c, t, .call o k⟩ : CoreThread) ∈
      before ++ ⟨c, t, .call o k⟩ :: after := by simp
  have hUnopposed : ∀ (f : Pending → Bool),
      (key ≠ key || (before ++ ⟨c, t, .call o k⟩ :: after).all fun th' =>
        th'.isDone || !f (pending key th')) = true →
      ∀ th ∈ before ++ ⟨c, t, .call o k⟩ :: after, th.isDone = false →
        f (pending key th) = false := by
    intro f hAll th hth hDone
    have hThread := List.all_eq_true.mp
      ((Bool.or_eq_true_iff.mp hAll).resolve_left (by simp)) th hth
    simpa [hDone] using hThread
  constructor
  · intro hPassed
    suffices hBoth : key ∉ s'.enabled ∧ ∀ th ∈ before ++ ⟨c, t, .call o k⟩ :: after,
        th.isDone = false → (pending key th).entering = false by
      refine ⟨hBoth.1, System.forall_run hBoth.2 (fun _ => ?_) fun c' hc' _ => ?_⟩
      · rw [pending_snoc, Bool.eq_false_iff]
        exact fun hNext => absurd (Pending.entering_next hNext) (by simp [hBoth.2 _ hMem rfl])
      · exact congrArg Pending.entering (pending_spawned hc')
    rcases passed_step hPassed with hOld | ⟨rfl, hLength⟩
    · obtain ⟨hEnabled, hAll⟩ := h.left hOld
      exact ⟨not_enabled_next hExec hEnabled (hAll _ hMem rfl) hPermit, hAll⟩
    · obtain ⟨-, k', hk'⟩ | ⟨hOne, -⟩ | hTwo := disable_leads hLeads
      · obtain ⟨rfl, -⟩ := Program.call.inj hk'
        have hState : (ManagerOp.apply (.deleteEnabled key) s).2 = s' :=
          congrArg Prod.snd (exec_manager hExec)
        refine ⟨?_, hUnopposed Pending.entering hCond⟩
        rw [← hState]
        simp [ManagerOp.apply]
      · omega
      · omega
  · intro hPassed
    suffices hBoth : s'.registry.regs.get key = none ∧
        (∀ th ∈ before ++ ⟨c, t, .call o k⟩ :: after, th.isDone = false →
          (pending key th).installing = false) ∧ key ∉ s.enabled by
      refine ⟨hBoth.1, System.forall_run hBoth.2.1 (fun _ => ?_) fun c' hc' _ => ?_⟩
      · rw [pending_snoc, Bool.eq_false_iff]
        exact fun hNext => absurd (Pending.installing_next hExec hBoth.2.2 hNext)
          (by simp [hBoth.2.1 _ hMem rfl])
      · exact congrArg Pending.installing (pending_spawned hc')
    rcases passed_step hPassed with hOld | ⟨rfl, hLength⟩
    · obtain ⟨hGone, hAll⟩ := h.gone hOld
      obtain ⟨th, hth, hCall, hLength⟩ := hOld
      exact ⟨not_registered_next hExec hGone (hAll _ hMem rfl) hPermit, hAll,
        (h.left ⟨th, hth, hCall, by omega⟩).1⟩
    · obtain ⟨rfl, -⟩ | ⟨-, k', hk'⟩ | hTwo := disable_leads hLeads
      · simp at hLength
      · obtain ⟨rfl, -⟩ := Program.call.inj hk'
        obtain ⟨order, hOrder, -, rfl⟩ := exec_installPlugin hExec
        refine ⟨?_, hUnopposed Pending.installing hCond,
          (h.left ⟨_, hMem, rfl, hLength.ge⟩).1⟩
        show (register s.registry.regs (bareRegistration key [])).get key = none
        rw [get_register_bare, if_pos rfl, if_pos rfl]
      · omega

/-- The two writes of `Disable` are final in every run in which nobody opposes
them. -/
theorem final_of_reach (h : UnopposedReach cfg key boot q) : Final key q := by
  suffices hBoth : UnopposedReach cfg key boot q ∧ Final key q from hBoth.2
  refine (h.disciplined (D := disabling key) (a := Pending.start key) (Q := fun _ _ _ => True)
    (J := fun q => UnopposedReach cfg key boot q ∧ Final key q) (disabling_body cfg)
    (fun _ _ _ _ _ _ _ _ => trivial) rfl ⟨.refl, ?_⟩ ?_ ?_).1
  · exact ⟨by simp [boot], by simp [boot]⟩
  · rintro p c ⟨hReach, hFinal⟩ hStart
    exact ⟨hReach.tail (.begin p c hStart), hFinal.begin hStart⟩
  · rintro s before after c t o k r s' ⟨hReach, hFinal⟩ hPermit - hExec hCond
    refine ⟨hReach.tail (.run _ before after c t o k r s' rfl hExec hCond), ?_⟩
    exact hFinal.step (hReach.leads (by simp [boot]) ⟨c, t, .call o k⟩ (by simp))
      hPermit hExec hCond

/-- Disabling is final: once `Disable` has returned, no instance of the key is
registered and the key is not enabled. -/
theorem disable_final (h : UnopposedReach cfg key boot q)
    {th : CoreThread} (hth : th ∈ q.threads)
    (hCall : th.call = .disable key) (hDone : th.Done) :
    q.state.registry.current.replicas key = [] ∧ key ∉ q.state.enabled := by
  have hFinal := final_of_reach h
  obtain ⟨a, ha⟩ := hDone
  have hLeads := h.leads (by simp [boot]) th hth
  rw [hCall, ha] at hLeads
  have hLength : 2 ≤ th.hist.length := by
    obtain ⟨-, k, hk⟩ | ⟨-, k, hk⟩ | hLength := disable_leads hLeads
    · cases hk
    · cases hk
    · exact hLength
  constructor
  · rw [Registry.replicas_eq, (hFinal.gone ⟨th, hth, hCall, hLength⟩).1]
  · exact (hFinal.left ⟨th, hth, hCall, by omega⟩).1

end Step
end Finality

/-- An upgrade runs to its end, then the plugin is disabled. -/
def disabledPool : CorePool :=
  ((core plainConfig).play (startsBefore "audit".toList) (unopposed "audit".toList)
    [.begin (.upgrade "audit".toList), .run 0 7 (shipping (auditManifest 1) ["audit".toList]),
      .begin (.disable "audit".toList), .run 2 12 (Op.calm [])] boot).get rfl

theorem disable_final_audit : disabledPool.state.registry.current.replicas "audit".toList = [] ∧
    "audit".toList ∉ disabledPool.state.enabled :=
  have hReach : UnopposedReach plainConfig "audit".toList boot disabledPool :=
    System.reach_get_play (fun _ _ h => h) (fun _ _ _ h => h) rfl
  disable_final hReach
    (List.mem_of_getElem? (i := 2) rfl) rfl ⟨_, rfl⟩

/-- An upgrade has launched its instance when the plugin is disabled; then it
goes on. -/
def overtakenPool : CorePool :=
  ((core plainConfig).play (startsBefore "audit".toList) (fun _ _ _ => true)
    [.begin (.upgrade "audit".toList), .run 0 3 (shipping (auditManifest 1) ["audit".toList]),
      .begin (.disable "audit".toList), .run 1 2 (Op.calm []),
      .run 0 4 (shipping (auditManifest 1) ["audit".toList])] boot).get rfl

theorem disable_overtaken :
    (core plainConfig).Reach (fun p c => startsBefore "audit".toList p c = true)
      (fun _ _ _ => True) boot overtakenPool ∧
    (∃ th ∈ overtakenPool.threads, th.call = .upgrade "audit".toList ∧ th.Done) ∧
    (∃ th ∈ overtakenPool.threads, th.call = .disable "audit".toList ∧ th.Done) ∧
    (∀ th ∈ overtakenPool.threads, th.Done ∨ th.hist = []) ∧
    overtakenPool.state.registry.current.replicas "audit".toList = [auditReplica 0] ∧
    "audit".toList ∈ overtakenPool.state.enabled := by
  refine ⟨System.reach_get_play (fun _ _ h => h) (fun _ _ _ _ => trivial) rfl,
    ⟨_, List.mem_of_getElem? (i := 0) rfl, rfl, _, rfl⟩,
    ⟨_, List.mem_of_getElem? (i := 1) rfl, rfl, _, rfl⟩, ?_, rfl, List.mem_of_getElem? (i := 0) rfl⟩
  intro th hth
  have hThreads : overtakenPool.threads = [_, _, _] := rfl
  rw [hThreads] at hth
  simp only [List.mem_cons, List.not_mem_nil, or_false] at hth
  rcases hth with rfl | rfl | rfl
  · exact .inl ⟨_, rfl⟩
  · exact .inl ⟨_, rfl⟩
  · exact .inr rfl

end Moduless
