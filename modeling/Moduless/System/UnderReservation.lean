import Moduless.Interaction.Schedule
import Moduless.System.Ledgers

/-!
Calls to plugins under a reservation.

A request remembers its reservations by plugin key, while the instance behind a
key is picked afresh for every call. If every pick for a key the request holds a
reservation for gives the reserved instance again, each call is made under a
reservation on the very instance, and a drain that is not cut short never ends
an instance under a call. With several replicas the picks differ.
-/

namespace Moduless
open Go Gateway Pipeline PluginHost Interaction Discipline

/-- The goroutine has a `Filter` or `HandleHTTP` call in progress. -/
def Calling (i : Instance) (th : CoreThread) : Prop :=
  (∃ k, th.prog = .call (.ask (.filterReturn i)) k) ∨
    ∃ k, th.prog = .call (.ask (.httpReturn i)) k

/-- The goroutine got a reservation from the instance, and it has not been
released. -/
def Reserved (q : CorePool) (i : Instance) (th : CoreThread) : Prop :=
  ∃ l, ⟨.newDone i, l⟩ ∈ th.hist ∧ ∀ th' ∈ q.threads, ⟨.casDone l, true⟩ ∉ th'.hist

/-- The goroutine has drained the instance without a timeout: after it stored
the draining state it found the count at zero. -/
def DrainedInTime (i : Instance) (th : CoreThread) : Prop :=
  ∃ t n u, th.hist = t ++ ⟨.loadInflight i, n⟩ :: u ∧ ⟨.storeState i .draining, ()⟩ ∈ t ∧ n ≤ 0

/-- A pick for a key the goroutine holds a reservation for gives the reserved
instance. -/
def picksReserved (th : CoreThread) : Event Host → Bool
  | ⟨.picked key i, _⟩ => (ledger th.hist).held.all fun held => held.1 = key → held.2.inst = i
  | _ => true

variable {cfg : ManagerConfig} {q : CorePool} {i : Instance} {th : CoreThread}

/-- The runs in which every pick agrees with the reservations held. -/
abbrev AgreeingReach (cfg : ManagerConfig) : CorePool → CorePool → Prop :=
  (core cfg).Reach (fun _ c => c.external = true) fun _ th e => picksReserved th e = true

/-- The ledgers of such a run, with calls only under a reservation. -/
theorem agreeing_sound (h : AgreeingReach cfg boot q) :
    Sound true q.state (q.threads.map fun th => ledger th.hist) ∧
      ∀ th ∈ q.threads, Obeys (reservations true true)
        (fun _ g => g.standing = .idle ∧ g.held = []) th.prog (ledger th.hist) := by
  refine core_sound true h fun _ p th key i r hPick l hl => ?_
  have hHeld := List.all_eq_true.mp hPick _ hl
  simpa using hHeld

theorem inst_of_newDone {start : CorePool → Call → Prop}
    {cond : CorePool → CoreThread → Event Host → Prop} (h : (core cfg).Reach start cond boot q)
    (hth : th ∈ q.threads) {l : Lease} (hNew : ⟨.newDone i, l⟩ ∈ th.hist) : l.inst = i := by
  have hAll : ∀ th ∈ q.threads, ∀ (i : Instance) (l : Lease),
      (⟨.newDone i, l⟩ : Event Host) ∈ th.hist → l.inst = i := by
    refine h.threads (T := fun th => ∀ (i : Instance) (l : Lease),
      (⟨.newDone i, l⟩ : Event Host) ∈ th.hist → l.inst = i) (by simp [boot])
      (fun c i l hl => by cases hl) ?_
    intro p c t o k r s hOld hExec _ i l hl
    rcases List.mem_append.mp hl with hl | hl
    · exact hOld i l hl
    · obtain ⟨⟩ := List.mem_singleton.mp hl
      rw [(exec_newDone hExec).2.1]
  exact hAll th hth i l hNew

/-- A call in progress is made under a reservation whose flag is open. -/
theorem open_of_calling (h : AgreeingReach cfg boot q) (hth : th ∈ q.threads)
    (hCalling : Calling i th) :
    ∃ l ∈ (ledger th.hist).leases, l.inst = i ∧ q.state.cells[l.cell]? = some (i, false) := by
  obtain ⟨hSound, hObeys⟩ := agreeing_sound h
  have hHeld : ∃ l ∈ (ledger th.hist).leases, l.inst = i := by
    have hProg := hObeys th hth
    rcases hCalling with ⟨k, hk⟩ | ⟨k, hk⟩
    · rw [hk] at hProg
      exact hProg.1 rfl
    · rw [hk] at hProg
      exact hProg.1 rfl
  obtain ⟨l, hl, rfl⟩ := hHeld
  refine ⟨l, hl, rfl, (hSound.flagged.owned rfl).isOpen l (List.mem_flatMap.mpr ?_)⟩
  exact ⟨_, List.mem_map_of_mem (List.mem_map_of_mem hth), hl⟩

/-- The loop of a drain ends without an error only on a count of zero. -/
theorem drainLoop_inTime {timeout : Duration} {deadline : Int} (n : Nat) {t : List (Event Host)}
    (h : (i.drainLoop timeout deadline n).Finishes t none) :
    ∃ t₁ m u, t = t₁ ++ ⟨.loadInflight i, m⟩ :: u ∧ m ≤ 0 := by
  have hFailed : ∀ (e : Int → HostError) (t : List (Event Host)),
      ¬ Program.Finishes (do
        let remaining ← op (.loadInflight i)
        i.terminate
        pure (some (e remaining))) t none := by
    intro e t h
    obtain ⟨m, u, -, h₁⟩ := finishes_op.mp h
    obtain ⟨_, v, w, -, -, h₂⟩ := Program.finishes_bind.mp h₁
    exact nomatch (Program.finishes_ret.mp h₂).2
  induction n generalizing t with
  | zero =>
    obtain ⟨e, -, -, -⟩ := Program.finishes_call.mp h
    exact e.elim
  | succ n ih =>
    obtain ⟨m, u, rfl, h₁⟩ := finishes_op.mp h
    by_cases hm : m > 0
    · rw [if_pos hm] at h₁
      obtain ⟨wake, v, rfl, h₂⟩ := finishes_ask.mp h₁
      cases wake with
      | stop => exact absurd h₂ (hFailed _ _)
      | done => exact absurd h₂ (hFailed _ _)
      | timer =>
        obtain ⟨now, w, rfl, h₃⟩ := finishes_ask.mp h₂
        by_cases hNow : now > deadline
        · rw [if_pos hNow] at h₃
          exact absurd h₃ (hFailed _ _)
        · rw [if_neg hNow] at h₃
          obtain ⟨t₁, m', u', rfl, hm'⟩ := ih h₃
          exact ⟨_ :: _ :: _ :: t₁, m', u', rfl, hm'⟩
    · exact ⟨[], m, u, rfl, not_lt.mp hm⟩

theorem drain_inTime {timeout : Duration} {t : List (Event Host)}
    (h : (i.drain timeout).Finishes t none) :
    ∃ t₁ m u, t = t₁ ++ ⟨.loadInflight i, m⟩ :: u ∧ ⟨.storeState i .draining, ()⟩ ∈ t₁ ∧ m ≤ 0 := by
  obtain ⟨_, t₁, rfl, h₁⟩ := finishes_op.mp h
  obtain ⟨_, t₂, rfl, h₂⟩ := finishes_ask.mp h₁
  obtain ⟨_, t₃, rfl, h₃⟩ := finishes_ask.mp h₂
  obtain ⟨n, t₄, rfl, h₄⟩ := finishes_ask.mp h₃
  obtain ⟨t₅, m, u, rfl, hm⟩ := drainLoop_inTime n h₄
  exact ⟨_ :: _ :: _ :: _ :: t₅, m, u, rfl, List.mem_cons_self, hm⟩

/-- Calls are made under a reservation on the instance that serves them; a drain
that returns without an error was in time, and one that was in time leaves no
call in progress. -/
theorem calls_reserved (h : AgreeingReach cfg boot q) :
    (∀ th ∈ q.threads, ∀ i, Calling i th → Reserved q i th) ∧
    (∀ d ∈ q.threads, ∀ i, DrainedInTime i d → ∀ th ∈ q.threads, ¬ Calling i th) ∧
    (∀ d ∈ q.threads, ∀ i timeout, d.call = .task (.drain i timeout) → d.prog = .ret none →
      DrainedInTime i d) := by
  obtain ⟨hSound, -⟩ := agreeing_sound h
  refine ⟨?_, ?_, ?_⟩
  · intro th hth i hCalling
    obtain ⟨l, hl, hInst, hOpen⟩ := open_of_calling h hth hCalling
    have hBalanced := (hSound.flagged.owned rfl).balanced _
      (List.mem_map_of_mem (List.mem_map_of_mem hth))
    have hTaken : l ∈ takenIn th.hist := by
      have hIn := (Ledger.taken_perm th.hist {}).mem_iff.mp
        (hBalanced.mem_iff.mpr (List.mem_append_right _ hl))
      rwa [List.append_nil] at hIn
    obtain ⟨j, hj⟩ := mem_takenIn.mp hTaken
    obtain rfl : i = j := hInst.symm.trans (inst_of_newDone h hth hj)
    refine ⟨l, hj, fun th' hth' hCas => ?_⟩
    have hWon : l ∈ (ledger th'.hist).won := (Ledger.won_perm th'.hist {}).mem_iff.mpr
      (List.mem_append_left _ (mem_releasedIn.mpr hCas))
    have hClosed := (hSound.flagged.won_iff l).mp (List.mem_flatMap.mpr
      ⟨_, List.mem_map_of_mem (List.mem_map_of_mem hth'), hWon⟩)
    simp [hOpen] at hClosed
  · rintro d hd i ⟨t, n, u, hHist, hStore, hZero⟩ th hth hCalling
    obtain ⟨l, -, -, hOpen⟩ := open_of_calling h hth hCalling
    have hDrained : i ∈ (ledger d.hist).drained := by
      rw [ledger, hHist]
      exact Ledger.drained_hist t u hStore hZero
    exact (hSound.standings.drained _ (List.mem_map_of_mem hd) i hDrained).2.2.1
      (List.mem_of_getElem? hOpen)
  · intro d hd i timeout hCall hProg
    have hLeads := h.leads (by simp [boot]) d hd
    rw [hCall, hProg] at hLeads
    exact drain_inTime hLeads

/-- With one replica: the request has its backend call in progress. -/
def callingPool : CorePool :=
  ((core plainConfig).play (fun _ c => c.external) (fun _ th e => picksReserved th e)
    [.begin (.upgrade "audit".toList), .run 0 7 (shipping (auditManifest 1) ["audit".toList]),
      .begin (.serve plainHandler auditRequest), .run 2 20 (Op.calm [])] boot).get rfl

theorem calls_reserved_backend : ∃ th ∈ callingPool.threads,
    Calling (auditReplica 0) th ∧ Reserved callingPool (auditReplica 0) th := by
  have hReach : AgreeingReach plainConfig boot callingPool :=
    System.reach_get_play (fun _ _ h => h) (fun _ _ _ h => h) rfl
  have hth := List.mem_of_getElem? (l := callingPool.threads) (i := 2) rfl
  exact ⟨_, hth, .inr ⟨_, rfl⟩, (calls_reserved hReach).1 _ hth _ (.inr ⟨_, rfl⟩)⟩

/-- With two replicas the filter's call reserves the first one and the backend
call goes to the second. An upgrade then drains the second replica, finds its
count at zero and kills it. -/
def killedPool : CorePool :=
  ((core plainConfig).play (fun _ c => c.external) (fun _ _ _ => true)
    [.begin (.upgrade "audit".toList), .run 0 10 (shipping (auditManifest 2) ["audit".toList]),
      .begin (.serve plainHandler auditRequest), .run 3 24 (Op.calm []),
      .begin (.upgrade "audit".toList), .run 4 9 (shipping (auditManifest 1) ["audit".toList]),
      .run 6 6 (Op.calm [])] boot).get rfl

theorem call_unreserved_killed : CoreReach plainConfig boot killedPool ∧
    ∃ th ∈ killedPool.threads, ∃ d ∈ killedPool.threads,
      Calling (auditReplica 1) th ∧ ¬ Reserved killedPool (auditReplica 1) th ∧
      DrainedInTime (auditReplica 1) d ∧ killedPool.state.procs (auditReplica 1).id = .killed := by
  have hReach : CoreReach plainConfig boot killedPool :=
    System.reach_get_play (fun _ _ h => h) (fun _ _ _ _ => trivial) rfl
  have hth := List.mem_of_getElem? (l := killedPool.threads) (i := 3) rfl
  refine ⟨hReach, _, hth, _, List.mem_of_getElem? (i := 6) rfl, .inr ⟨_, rfl⟩, ?_, ?_, rfl⟩
  · rintro ⟨l, hNew, -⟩
    have hInst := inst_of_newDone hReach hth hNew
    have hTaken := mem_takenIn.mpr ⟨_, hNew⟩
    obtain rfl := List.mem_singleton.mp hTaken
    exact absurd hInst (by decide)
  · exact ⟨[⟨.storeState _ _, ()⟩, ⟨.ask (.shutdown _ _), ()⟩, ⟨.ask .now, (0 : Int)⟩,
      ⟨.ask .bound, (1 : Nat)⟩], (0 : Int), [⟨.kill _, ()⟩], rfl, List.mem_cons_self, le_refl _⟩

end Moduless
