import Moduless.Interaction.Schedule
import Moduless.PluginHost.Administration
import Moduless.PluginHost.Reservations

/-!
Requests against a drain, on one instance.

A drain that finds the count at zero may conclude from the ledgers that every
reservation has been released and that none can be taken any more.
-/

namespace Moduless.PluginHost
open Go Pipeline Interaction Discipline

/-- The calls of requests and of a drain on one instance. -/
inductive InstanceCall where
  | beginRequest
  | end_ (l : Lease)
  | drain (timeout : Duration)

inductive Outcome where
  | began (r : Option Lease)
  | ended
  | drained (e : Option HostError)

def InstanceCall.body (i : Instance) : InstanceCall → HostM Outcome
  | .beginRequest => do
      let r ← i.beginRequest
      pure (.began r)
  | .end_ l => do
      l.end_
      pure .ended
  | .drain timeout => do
      let e ← i.drain timeout
      pure (.drained e)

/-- One instance used by any number of goroutines. -/
def instanceSystem (i : Instance) : System Host HostState InstanceCall Outcome :=
  ⟨host, InstanceCall.body i, fun _ => []⟩

abbrev InstancePool := Pool Host HostState InstanceCall Outcome

/-- A release function can be called once `BeginRequest` has returned it, any
number of times; there is one drain. -/
def mayStart (p : InstancePool) : InstanceCall → Bool
  | .beginRequest => true
  | .end_ l => p.threads.any fun th =>
    match th.prog with
    | .ret (.began (some l')) => l' = l
    | _ => false
  | .drain _ => p.threads.all fun th =>
    match th.call with
    | .drain _ => false
    | _ => true

/-- `Drain` has left its loop with the count at zero. -/
def CleanExit (i : Instance) (th : Thread Host InstanceCall Outcome) : Prop :=
  (th.prog = (i.terminate >>= fun _ => pure none) >>= fun e => pure (.drained e)) ∨
    th.prog = .ret (.drained none)

/-- Nothing is reserved yet; the instance may be in any state. -/
structure Unreserved (s : HostState) (i : Instance) : Prop where
  ids : ∀ (n : Nat) (j : Instance), s.launched[n]? = some j → j.id = n
  launched : i ∈ s.launched
  cells : s.cells = []
  inflight : ∀ j ∈ s.launched, s.inflight j = 0

/-- What the ledger of a goroutine that has returned contains. -/
def Outcome.Settled (i : Instance) : Outcome → Ledger → Prop
  | .began (some l), g => l ∈ g.taken ∧ l.inst = i
  | .drained none, g => i ∈ g.drained
  | _, _ => True

theorem obeys_instanceCall (i : Instance) (c : InstanceCall) :
    Obeys (reservations false false) (Outcome.Settled i) (c.body i) {} := by
  cases c with
  | beginRequest =>
    refine obeys_bind (obeys_beginRequest rfl) fun r g hr => ?_
    cases r with
    | none => trivial
    | some l => exact ⟨by simp [hr.1, Ledger.began], (hr.2 l rfl).1⟩
  | end_ l => exact obeys_bind (obeys_end rfl nofun) fun _ _ _ => trivial
  | drain timeout =>
    refine obeys_bind (obeys_drain rfl) fun e g he => ?_
    cases e with
    | none => exact he.2.2.2 rfl
    | some e => trivial

section Runs

variable {i : Instance} {s : HostState} {p q : InstancePool}

abbrev InstanceReach (i : Instance) : InstancePool → InstancePool → Prop :=
  (instanceSystem i).Reach (fun p c => mayStart p c = true) fun _ _ _ => True

theorem instance_sound (hs : Unreserved s i) (h : InstanceReach i ⟨s, []⟩ q) :
    Sound false q.state (q.accounts (reservations false false) fun _ => {}) ∧
      ∀ th ∈ q.threads, Obeys (reservations false false) (Outcome.Settled i) th.prog
        ((reservations false false).account {} th.hist) := by
  refine h.accounts (Q := fun _ => Outcome.Settled i) (sound_kept false false)
    (obeys_instanceCall i) ?_ rfl (sound_nil hs.ids hs.cells hs.inflight)
  rintro p th ⟨o, r⟩ s' hSound hth hExec -
  cases o with
  | newDone j => exact hSound.fresh_lease hExec (List.mem_map_of_mem hth)
  | picked key j => exact nofun
  | _ => trivial

/-- A drain at its clean exit has found the count at zero. -/
theorem drained_of_cleanExit {th : Thread Host InstanceCall Outcome} {g : Ledger}
    (hObeys : Obeys (reservations false false) (Outcome.Settled i) th.prog g)
    (hExit : CleanExit i th) : i ∈ g.drained := by
  rcases hExit with hExit | hExit
  · rw [hExit] at hObeys
    -- The shortest way out of `terminate`: the instance is quarantined.
    have hEnd : i ∈ (g.next ⟨.loadState i, .quarantined⟩).drained :=
      ((hObeys.2 () trivial).2 (1 : Nat) trivial).2 State.quarantined trivial
    rw [Ledger.next] at hEnd
    split at hEnd <;> exact hEnd
  · rw [hExit] at hObeys
    exact hObeys

theorem uses_instanceCall (i : Instance) (c : InstanceCall) :
    Program.Uses (fun o => ∀ l, o = Op.casDone l → c = .end_ l) (c.body i) := by
  cases c with
  | beginRequest =>
    refine Program.uses_bind ?_ fun _ => trivial
    refine uses_op nofun fun st => ?_
    rw [Program.uses_ite]
    refine ⟨fun _ => trivial, fun _ => uses_op nofun fun _ => uses_op nofun fun st' => ?_⟩
    rw [Program.uses_ite]
    exact ⟨fun _ => uses_op nofun fun _ => trivial, fun _ => uses_op nofun fun _ => trivial⟩
  | end_ l =>
    refine Program.uses_bind ?_ fun _ => trivial
    refine uses_op (fun l' hl' => by rw [Op.casDone.inj hl']) fun won => ?_
    rw [Program.uses_ite]
    exact ⟨fun _ => uses_op nofun fun _ => trivial, fun _ => trivial⟩
  | drain timeout =>
    refine Program.uses_bind ((local_of_tending (tending_drain i timeout)).mono ?_)
      fun _ => trivial
    rintro o ho l rfl
    exact ho.elim

theorem released_of_cleanExit (hs : Unreserved s i) (h : InstanceReach i ⟨s, []⟩ q)
    {th b : Thread Host InstanceCall Outcome} (hth : th ∈ q.threads) (hExit : CleanExit i th)
    (hb : b ∈ q.threads) {l : Lease} (hBegan : b.prog = .ret (.began (some l))) :
    ∃ e ∈ q.threads, e.call = .end_ l ∧ ⟨.casDone l, true⟩ ∈ e.hist := by
  obtain ⟨hSound, hObeys⟩ := instance_sound hs h
  have hMem : ∀ th ∈ q.threads, (reservations false false).account {} th.hist ∈
      q.accounts (reservations false false) fun _ => {} := fun th hth =>
    List.mem_map_of_mem hth
  have hNone := (hSound.standings.drained _ (hMem th hth) i
    (drained_of_cleanExit (hObeys th hth) hExit)).2.2.1
  have hTaken := hObeys b hb
  rw [hBegan] at hTaken
  obtain ⟨hTaken, hInst⟩ := hTaken
  obtain ⟨flag, hFlag⟩ := hSound.flagged.recorded _ (List.mem_map_of_mem (hMem b hb)) l hTaken
  have hClosed : flag = true := by
    cases flag with
    | true => rfl
    | false => exact absurd (hInst ▸ List.mem_of_getElem? hFlag) hNone
  subst hClosed
  have hWon := (hSound.flagged.won_iff l).mpr hFlag
  simp only [List.mem_flatMap, Pool.accounts, List.map_map, List.mem_map, Function.comp] at hWon
  obtain ⟨_, ⟨e, he, rfl⟩, hWon⟩ := hWon
  have hReleased := (Ledger.won_perm e.hist {}).mem_iff.mp hWon
  have hCas := mem_releasedIn.mp ((List.mem_append.mp hReleased).resolve_right (by simp))
  have hCall := (uses_instanceCall i e.call).hist (h.leads (by simp) e he) _ hCas l rfl
  exact ⟨e, he, hCall, hCas⟩

/-- Once the draining state is stored the instance is never ready again. -/
theorem not_ready_of_draining (hs : Unreserved s i) (hp : InstanceReach i ⟨s, []⟩ p)
    {th : Thread Host InstanceCall Outcome} (hth : th ∈ p.threads)
    (hStore : ⟨.storeState i .draining, ()⟩ ∈ th.hist) (h : InstanceReach i p q) :
    q.state.state i ≠ .ready := by
  have hClosed : ∃ th ∈ q.threads, i ∈ (th.hist.foldl Ledger.next {}).closed := by
    refine h.invariant (J := fun q => ∃ th ∈ q.threads, i ∈ (th.hist.foldl Ledger.next {}).closed)
      ⟨th, hth, Ledger.closed_hist _ hStore⟩ ?_ ?_
    · rintro p c ⟨th, hth, hIn⟩ -
      exact ⟨th, by simp [hth], hIn⟩
    · rintro s before after c t o k r s' ⟨th, hth, hIn⟩ - -
      simp only [List.mem_append, List.mem_cons] at hth
      rcases hth with hth | rfl | hth
      · exact ⟨th, by simp [hth], hIn⟩
      · refine ⟨⟨c, t ++ [⟨o, r⟩], k r⟩, by simp, ?_⟩
        rw [List.foldl_append]
        exact Ledger.closed_next _ _ hIn
      · exact ⟨th, by simp [hth], hIn⟩
  obtain ⟨th, hth, hIn⟩ := hClosed
  exact ((instance_sound hs (hp.trans h)).1.standings.closed _ (List.mem_map_of_mem hth) i hIn).2

/-- A goroutine that starts too late to get a reservation. -/
def Late (i : Instance) (th : Thread Host InstanceCall Outcome) : Prop :=
  th.prog = InstanceCall.beginRequest.body i ∨
    th.prog.Returns fun o => ∀ l, o ≠ .began (some l)

theorem late_of_draining (hs : Unreserved s i) (hp : InstanceReach i ⟨s, []⟩ p)
    {th : Thread Host InstanceCall Outcome} (hth : th ∈ p.threads)
    (hStore : ⟨.storeState i .draining, ()⟩ ∈ th.hist) (h : InstanceReach i p q) :
    ∀ b ∈ q.threads.drop p.threads.length, Late i b := by
  refine (h.later ?_ ?_).2
  · intro c
    cases c with
    | beginRequest => exact .inl rfl
    | end_ l => exact .inr (Program.returns_bind (Program.returns_true _) fun _ _ => nofun)
    | drain timeout => exact .inr (Program.returns_bind (Program.returns_true _) fun _ _ => nofun)
  · rintro p' c t o k r s' hp' hLate hExec
    right
    rcases hLate with hLate | hLate
    · obtain ⟨rfl, hk⟩ := Program.call.inj hLate
      obtain ⟨-, rfl, -⟩ := exec_loadState hExec
      have hState := not_ready_of_draining hs hp hth hStore hp'
      obtain rfl := eq_of_heq hk
      show Program.Returns _ (Program.bind
        (if p'.state.state i ≠ .ready then (pure none : HostM (Option Lease)) else _) _)
      rw [if_pos hState]
      exact nofun
    · exact hLate r

/-- Draining against requests: at the clean exit every reservation has been
released, nothing that starts after the drain is accepted, and the count never
goes below zero. -/
theorem drain_waits (hs : Unreserved s i) (hp : InstanceReach i ⟨s, []⟩ p)
    (hq : InstanceReach i p q) :
    (∀ th ∈ q.threads, CleanExit i th → ∀ b ∈ q.threads, ∀ l, b.prog = .ret (.began (some l)) →
      ∃ e ∈ q.threads, e.call = .end_ l ∧ ⟨.casDone l, true⟩ ∈ e.hist) ∧
    ((∃ th ∈ p.threads, ⟨.storeState i .draining, ()⟩ ∈ th.hist) →
      ∀ b ∈ q.threads.drop p.threads.length, ∀ l, b.prog ≠ .ret (.began (some l))) ∧
    0 ≤ q.state.inflight i := by
  refine ⟨fun th hth hExit b hb l hBegan => ?_, ?_, ?_⟩
  · exact released_of_cleanExit hs (hp.trans hq) hth hExit hb hBegan
  · rintro ⟨th, hth, hStore⟩ b hb l hBegan
    rcases late_of_draining hs hp hth hStore hq b hb with hLate | hLate
    · rw [hBegan] at hLate
      cases hLate
    · rw [hBegan] at hLate
      exact hLate l rfl
  · have hLaunched : i ∈ q.state.launched :=
      (hp.trans hq).invariant (J := fun q => i ∈ q.state.launched) hs.launched
        (fun _ _ hi _ => hi) fun _ _ _ _ _ _ _ _ _ hi hExec _ => (exec_frame hExec).kept i hi
    exact (instance_sound hs (hp.trans hq)).1.standings.nonneg hLaunched

end Runs

def idleInstance : Instance := newInstance 0 "reports".toList "reports-1".toList "1.0.0".toList 1

def idleHost : HostState := { launched := [idleInstance] }

theorem idleHost_unreserved : Unreserved idleHost idleInstance where
  ids n j hj := by
    match n, hj with
    | 0, rfl => rfl
  launched := List.mem_singleton.mpr rfl
  cells := rfl
  inflight _ _ := rfl

/-- A request is accepted, then a drain begins. -/
def drainBegun : InstancePool :=
  ((instanceSystem idleInstance).play mayStart (fun _ _ _ => true)
    [.begin .beginRequest, .run 0 4 (Op.calm []), .begin (.drain 10), .run 1 1 (Op.calm [])]
    ⟨idleHost, []⟩).get rfl

/-- A second request comes too late; the first is released and the drain ends. -/
def drainEnded : InstancePool :=
  ((instanceSystem idleInstance).play mayStart (fun _ _ _ => true)
    [.begin .beginRequest, .run 2 1 (Op.calm []), .begin (.end_ ⟨idleInstance, 0⟩),
      .run 3 2 (Op.calm []), .run 1 4 (Op.calm [])] drainBegun).get rfl

theorem drain_waits_ended :
    (∃ e ∈ drainEnded.threads, e.call = .end_ ⟨idleInstance, 0⟩ ∧
      ⟨.casDone ⟨idleInstance, 0⟩, true⟩ ∈ e.hist) ∧
    (∃ b ∈ drainEnded.threads.drop drainBegun.threads.length, b.call = .beginRequest ∧
      ∀ l, b.prog ≠ .ret (.began (some l))) ∧
    0 ≤ drainEnded.state.inflight idleInstance := by
  have hWaits := drain_waits (p := drainBegun) (q := drainEnded) idleHost_unreserved
    (System.reach_get_play (fun _ _ h => h) (fun _ _ _ _ => trivial) rfl)
    (System.reach_get_play (fun _ _ h => h) (fun _ _ _ _ => trivial) rfl)
  refine ⟨?_, ?_, hWaits.2.2⟩
  · exact hWaits.1 _ (List.mem_of_getElem? (i := 1) rfl) (.inl rfl)
      _ (List.mem_of_getElem? (i := 0) rfl) _ rfl
  · exact ⟨_, List.mem_of_getElem? (i := 0) rfl, rfl, hWaits.2.1
      ⟨_, List.mem_of_getElem? (i := 1) rfl, List.mem_of_getElem? (i := 0) rfl⟩
      _ (List.mem_of_getElem? (i := 0) rfl)⟩

end Moduless.PluginHost
