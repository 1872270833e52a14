import Moduless.Interaction.Schedule
import Moduless.PluginHost.Effects
import Moduless.System.Pending

/-!
What `Enable`, `Disable` and `Upgrade` leave of a plugin's crash history.

Each of them clears it at the end. `Disable` returns before that when the plugin had no
instances left, and a quarantined plugin has none. A recovery that has counted too many
crashes stores the quarantine in a second critical section, which the clearing does not
prevent.
-/

namespace Moduless.PluginHost
open Go Pipeline Interaction Discipline

structure HostState.Clean (s : HostState) (key : Str) : Prop where
  quarantined : s.quarantined.get key = none
  crashes : s.crashes.get key = none

section Obedience

variable {key : Str} {removing wiped : Bool} {α β : Type} (cfg : ManagerConfig)

end Obedience

section Steps

variable {key : Str} {s s' : HostState} {e : Event Host}

def recordsCrash (key : Str) (e : Event Host) : Bool :=
  match e.op with
  | .crash (.tooManyCrashes _ k) => k = key
  | _ => false

theorem get_recordCrash_of_ne {cfg : SupervisorConfig} {crashes : GoMap Str CrashRecord}
    {k : Str} (hk : key ≠ k) (now : Int) :
    (recordCrash cfg crashes k now).2.get key = crashes.get key := by
  unfold recordCrash
  split
  · rw [GoMap.get_set, if_neg hk]
  · split <;> rw [GoMap.get_set, if_neg hk]

/-- A clean slate stays clean as long as no crash is recorded and no quarantine stored. -/
theorem HostState.Clean.next (h : s.Clean key) (hExec : host.Exec s e s')
    (hNone : recordsCrash key e = false) (hStored : e.op ≠ .crash (.quarantine key)) :
    s'.Clean key := by
  obtain ⟨o, r⟩ := e
  by_cases hCrash : ∃ c, o = .crash c
  · obtain ⟨c, rfl⟩ := hCrash
    obtain ⟨now, hExec⟩ := hExec
    obtain rfl : (c.apply now s).2 = s' := (Prod.mk.inj (Option.some.inj hExec)).2
    cases c with
    | tooManyCrashes cfg k =>
      have hk : key ≠ k := fun hEq => by simp [recordsCrash, hEq] at hNone
      exact ⟨h.quarantined, (get_recordCrash_of_ne hk now).trans h.crashes⟩
    | crashCount k => exact h
    | quarantine k =>
      have hk : key ≠ k := fun hEq => hStored (by rw [hEq])
      exact ⟨(GoMap.get_set _ _ _ _).trans ((if_neg hk).trans h.quarantined), h.crashes⟩
    | clearCrashes k =>
      constructor
      · change (s.quarantined.delete k).get key = none
        rw [GoMap.get_delete]
        split
        · rfl
        · exact h.quarantined
      · change (s.crashes.delete k).get key = none
        rw [GoMap.get_delete]
        split
        · rfl
        · exact h.crashes
  · have hSame := exec_untouched hExec
    have hNot : ∀ c, o ≠ .crash c := fun c hc => hCrash ⟨c, hc⟩
    exact ⟨(congrArg (·.get key) (hSame.quarantined hNot)).trans h.quarantined,
      (congrArg (·.get key) (hSame.crashes hNot)).trans h.crashes⟩

theorem HostState.Clean.first (h : s.Clean key) (cfg : SupervisorConfig) (now : Int) :
    (recordCrash cfg s.crashes key now).2.get key = some ⟨1, now⟩ := by
  rw [recordCrash, h.crashes]
  exact GoMap.get_set_self _ _ _

end Steps
end Moduless.PluginHost

namespace Moduless
open Go Pipeline PluginHost Interaction Discipline

def Call.removes : Call → Bool
  | .disable _ => true
  | _ => false

section Runs

variable {cfg : ManagerConfig} {key : Str} {p p' q : CorePool} {c : Call}
  {t : List (Event Host)} {o : Op} {k : o.Ans → HostM (Option HostError)} {r : o.Ans}

end Runs

end Moduless
