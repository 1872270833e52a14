import Moduless.PluginHost.Effects

/-!
The processes of the instances: identities are never used twice, and a process
that has stopped never runs again.
-/

namespace Moduless.PluginHost
open Go Pipeline Interaction

variable {s s' : HostState} {o : Op} {r : o.Ans} {i : Instance}

theorem id_lt_next (hIds : ∀ i ∈ s.launched, i.id < s.launched.length)
    (hExec : host.Exec s ⟨o, r⟩ s') : ∀ i ∈ s'.launched, i.id < s'.launched.length := by
  cases o with
  | launch spec =>
    obtain ⟨-, rfl⟩ | ⟨j, -, hj, rfl⟩ := exec_launch hExec
    · exact hIds
    · intro i hi
      show i.id < (s.launched ++ [j]).length
      rw [List.length_append, List.length_singleton]
      rcases List.mem_append.mp hi with hi | hi
      · exact Nat.lt_succ_of_lt (hIds i hi)
      · rw [List.mem_singleton.mp hi, hj]
        exact Nat.lt_succ_self _
  | _ => rwa [(exec_frame hExec).launched (by simp)]

theorem running_of_stopped {j : Instance} {p : Proc} (hp : p ≠ .running)
    (hRun : (if s.procs j.id = .running then s.setProc j p else s).running i) :
    s.running i ∧ i.id ≠ j.id := by
  split at hRun
  next =>
    rw [HostState.running_setProc] at hRun
    split_ifs at hRun with hId
    · exact absurd hRun hp
    · exact ⟨hRun, hId⟩
  next hStopped => exact ⟨hRun, fun hId => hStopped (hId ▸ hRun)⟩

theorem running_next (hIds : ∀ i ∈ s.launched, i.id < s.launched.length)
    (hExec : host.Exec s ⟨o, r⟩ s') (hi : i ∈ s'.launched) (hRun : s'.running i) :
    (i ∈ s.launched ∧ s.running i ∧ o ≠ .kill i) ∨
      i ∉ s.launched ∧ ∃ spec, (⟨o, r⟩ : Event Host) = ⟨.launch spec, some i⟩ := by
  cases o with
  | launch spec =>
    obtain ⟨-, rfl⟩ | ⟨j, rfl, hj, rfl⟩ := exec_launch hExec
    · exact .inl ⟨hi, hRun, nofun⟩
    · rcases List.mem_append.mp hi with hi | hi
      · have hNe : i.id ≠ j.id := by
          rw [hj]
          exact (hIds i hi).ne
        rw [HostState.running_setProc, if_neg hNe] at hRun
        exact .inl ⟨hi, hRun, nofun⟩
      · obtain rfl := List.mem_singleton.mp hi
        refine .inr ⟨fun hOld => (hIds i hOld).ne ?_, spec, rfl⟩
        rw [hj]
        rfl
  | kill j =>
    rw [(exec_frame hExec).launched nofun] at hi
    rw [(exec_kill hExec).2] at hRun
    obtain ⟨hRan, hNe⟩ := running_of_stopped (by decide) hRun
    refine .inl ⟨hi, hRan, fun hKill => ?_⟩
    cases hKill
    exact hNe rfl
  | exit j =>
    rw [(exec_frame hExec).launched nofun] at hi
    rw [(exec_exit hExec).2] at hRun
    exact .inl ⟨hi, (running_of_stopped (by decide) hRun).1, nofun⟩
  | _ =>
    have hFrame := exec_frame hExec
    rw [hFrame.launched (by simp)] at hi
    rw [HostState.running, hFrame.procs (by simp) (by simp) (by simp)] at hRun
    exact .inl ⟨hi, hRun, by simp⟩

theorem stopped_next (hIds : ∀ i ∈ s.launched, i.id < s.launched.length)
    (hExec : host.Exec s ⟨o, r⟩ s') (hi : i ∈ s.launched) (hStopped : ¬ s.running i) :
    ¬ s'.running i := by
  intro hRun
  rcases running_next hIds hExec ((exec_frame hExec).kept i hi) hRun with ⟨-, hRan, -⟩ | ⟨hNew, -⟩
  · exact hStopped hRan
  · exact hNew hi

end Moduless.PluginHost
