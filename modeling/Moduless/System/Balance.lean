import Moduless.Interaction.Schedule
import Moduless.System.Ledgers

/-!
The balance of reservations: what requests and their log phases take on an
instance they give back.
-/

namespace Moduless
open Go Gateway Pipeline PluginHost Interaction Discipline

section Runs

variable {cfg : ManagerConfig} {q : CorePool}

theorem taken_perm_released (h : CoreReach cfg boot q) {th : CoreThread}
    (hth : th ∈ q.threads) (hDone : th.Done) : (takenIn th.hist).Perm (releasedIn th.hist) := by
  obtain ⟨hSound, hObeys⟩ := core_sound false h nofun
  obtain ⟨a, ha⟩ := hDone
  have hEnd := hObeys th hth
  rw [ha] at hEnd
  have hBalanced := (hSound.flagged.owned rfl).balanced _
    (List.mem_map_of_mem (List.mem_map_of_mem hth))
  have hTaken := Ledger.taken_perm th.hist {}
  have hWon := Ledger.won_perm th.hist {}
  simp only [Ledger.flags, Ledger.leases, hEnd.2, List.map_nil, List.append_nil] at hBalanced
  rw [List.append_nil] at hTaken hWon
  exact hTaken.symm.trans (hBalanced.trans hWon)

/-- The balance: each goroutine gives back what it took; when all requests and
log phases are over every count is zero; and no release function ever
decrements twice. -/
theorem reservations_balance (h : CoreReach cfg boot q) :
    (∀ th ∈ q.threads, th.Done → (takenIn th.hist).Perm (releasedIn th.hist)) ∧
    ((∀ th ∈ q.threads, th.call.isRequest = true → th.Done) →
      ∀ i ∈ q.state.launched, q.state.inflight i = 0) ∧
    (q.threads.flatMap fun th => releasedIn th.hist).Nodup := by
  obtain ⟨hSound, hObeys⟩ := core_sound false h nofun
  refine ⟨fun th hth hDone => taken_perm_released h hth hDone, fun hDone i hi => ?_, ?_⟩
  · have hIdle : ∀ th ∈ q.threads, (ledger th.hist).standing = .idle ∧
        (ledger th.hist).held = [] := by
      intro th hth
      cases hCall : th.call.isRequest with
      | false => exact ledger_administrative h hth hCall
      | true =>
        obtain ⟨a, ha⟩ := hDone th hth hCall
        have hEnd := hObeys th hth
        rwa [ha] at hEnd
    refine hSound.inflight_eq_zero (fun g hg => ?_) hi
    obtain ⟨th, hth, rfl⟩ := List.mem_map.mp hg
    exact hIdle th hth
  · have hOnce := hSound.flagged.once
    rw [List.map_map, List.flatMap_map] at hOnce
    refine (List.Perm.flatMap_left _ fun th _ => ?_).nodup_iff.mp hOnce
    have hWon := Ledger.won_perm th.hist {}
    rwa [List.append_nil] at hWon

end Runs

/-- One request through a plugin with a filter and a log phase, to its end. -/
def auditedPool : CorePool :=
  ((core plainConfig).play (fun _ c => c.external) (fun _ _ _ => true)
    [.begin (.upgrade "audit".toList), .run 0 7 (shipping (auditManifest 1) ["audit".toList]),
      .begin (.serve plainHandler auditRequest), .run 2 28 (Op.calm []), .run 3 16 (Op.calm [])]
    boot).get rfl

theorem reservations_balance_audited :
    (∃ th ∈ auditedPool.threads, (takenIn th.hist).length = 1 ∧
      (takenIn th.hist).Perm (releasedIn th.hist)) ∧
    ∃ i ∈ auditedPool.state.launched, auditedPool.state.inflight i = 0 := by
  have hReach : CoreReach plainConfig boot auditedPool :=
    System.reach_get_play (fun _ _ h => h) (fun _ _ _ _ => trivial) rfl
  obtain ⟨hBalance, hZero, -⟩ := reservations_balance hReach
  constructor
  · exact ⟨_, List.mem_of_getElem? (i := 2) rfl, rfl,
      hBalance _ (List.mem_of_getElem? (i := 2) rfl) ⟨_, rfl⟩⟩
  · refine ⟨_, List.mem_of_getElem? (i := 0) rfl, hZero (fun th hth hRequest => ?_) _
      (List.mem_of_getElem? (i := 0) rfl)⟩
    have hThreads : auditedPool.threads = [_, _, _, _] := rfl
    rw [hThreads] at hth
    simp only [List.mem_cons, List.not_mem_nil, or_false] at hth
    rcases hth with rfl | rfl | rfl | rfl
    · cases hRequest
    · cases hRequest
    · exact ⟨_, rfl⟩
    · exact ⟨_, rfl⟩

end Moduless
