import Moduless.PluginHost.BreakerCalls

/-!
What an open breaker should rest on: it is closed by successes of its own probes, and
there is one probe at a time. Records do not say which call they are for, so both hold
only as long as no other call records while the breaker is open.
-/

namespace Moduless.PluginHost
open Go Interaction Discipline

/-- The successes that closed the breaker were those of enough calls that were let
through since it had tripped. -/
def Closing.Earned (cfg : BreakerConfig) (c : Closing) : Prop :=
  cfg.halfOpenSuccesses ≤ c.streak.countP (· = some ⟨true, c.trips⟩)

/-- A success recorded while the breaker is open is that of a call that was let through
since it tripped. -/
def RecordsProbes (p : OutcomePool) (_ : OutcomeThread) (e : Event OutcomeHost) : Prop :=
  ∀ a, e.op = .record true a → p.state.isOpen = true → a = some ⟨true, p.state.trips⟩

/-- The count of an open breaker is that of the probes that succeeded. -/
structure Streaked (cfg : BreakerConfig) (w : OutcomeWorld) : Prop where
  clock : 0 ≤ w.clock
  zero : w.isOpen = false → w.breaker.counters .halfOpenSuccesses = 0
  counted : w.isOpen = true → w.breaker.counters .halfOpenSuccesses = w.streak.length
  probes : ∀ a ∈ w.streak, a = some ⟨true, w.trips⟩
  earned : ∀ c ∈ w.closings, c.Earned cfg

section Streaks

variable {cfg : BreakerConfig} {w w' : OutcomeWorld} {now : Int}

theorem streaked_succeeded (h : Streaked cfg w) (hClock : w.clock ≤ now) {a : Option Admission}
    (hProbe : w.isOpen = true → a = some ⟨true, w.trips⟩) :
    Streaked cfg
      (w.put (w.breaker.succeeded cfg) now (if w.isOpen then a :: w.streak else [])) := by
  have hLater : 0 ≤ now := Int.le_trans h.clock hClock
  cases hIs : w.isOpen with
  | false =>
    have hClosed := not_isOpen_iff.mp hIs
    have hStill : (w.breaker.set .consecutiveFailures 0).openUntil = 0 := hClosed
    rw [succeeded_of_closed hClosed, put_closed hIs hStill]
    exact ⟨hLater, fun _ => h.zero hIs, fun hOpen => absurd hStill (isOpen_iff.mp hOpen),
      by simp, h.earned⟩
  | true =>
    have hOpen := isOpen_iff.mp hIs
    have hCount := h.counted hIs
    have hAll : ∀ x ∈ a :: w.streak, x = some ⟨true, w.trips⟩ :=
      List.forall_mem_cons.mpr ⟨hProbe hIs, h.probes⟩
    rcases lt_or_ge (w.breaker.counters .halfOpenSuccesses + 1) cfg.halfOpenSuccesses with
      hMore | hEnough
    · obtain ⟨hUntil, hNext⟩ := succeeded_counts hOpen hMore
      rw [if_pos rfl, put_open hIs (hUntil ▸ hOpen)]
      refine ⟨hLater, fun hClosed => ?_, fun _ => ?_, hAll, h.earned⟩
      · exact absurd (hUntil.symm.trans (not_isOpen_iff.mp hClosed)) hOpen
      · simp only [hNext, hCount, List.length_cons]
        omega
    · obtain ⟨hUntil, hZero⟩ := succeeded_closes hOpen hEnough
      rw [if_pos rfl, put_closing hIs hUntil]
      refine ⟨hLater, fun _ => hZero, fun hOpen' => absurd hUntil (isOpen_iff.mp hOpen'), by simp,
        List.forall_mem_cons.mpr ⟨?_, h.earned⟩⟩
      have hLength : (a :: w.streak).countP (· = some ⟨true, w.trips⟩) = w.streak.length + 1 :=
        List.countP_eq_length.mpr fun x hx => decide_eq_true (hAll x hx)
      rw [Closing.Earned, hLength]
      omega

theorem streaked_failed (h : Streaked cfg w) (hClock : w.clock ≤ now)
    (hCfg : 0 < cfg.openDuration) : Streaked cfg (w.put (w.breaker.failed cfg now) now []) := by
  have hLater : 0 ≤ now := Int.le_trans h.clock hClock
  have hWindow : now + cfg.openDuration ≠ 0 := by
    have hPos : (0 : Int) < cfg.openDuration := hCfg
    omega
  have hUntil := failed_openUntil cfg now w.breaker
  have hZero := failed_counts cfg now w.breaker
  cases hIs : w.isOpen with
  | true =>
    rw [if_pos (.inl (isOpen_iff.mp hIs))] at hUntil
    rw [put_open hIs (hUntil ▸ hWindow)]
    exact ⟨hLater, fun _ => hZero, fun _ => hZero, by simp, h.earned⟩
  | false =>
    by_cases hTrips : (w.breaker.failed cfg now).openUntil = 0
    · rw [put_closed hIs hTrips]
      exact ⟨hLater, fun _ => hZero, fun _ => hZero, by simp, h.earned⟩
    · rw [put_tripping hIs hTrips]
      exact ⟨hLater, fun _ => hZero, fun _ => hZero, by simp, h.earned⟩

theorem Streaked.step {e : Event OutcomeHost} (h : Streaked cfg w) (hCfg : 0 < cfg.openDuration)
    (hStep : OutcomeStep cfg w e w')
    (hProbe : ∀ a, e.op = .record true a → w.isOpen = true → a = some ⟨true, w.trips⟩) :
    Streaked cfg w' := by
  cases hStep with
  | refused hClock => exact ⟨Int.le_trans h.clock hClock, h.zero, h.counted, h.probes, h.earned⟩
  | admitted hClock => exact ⟨Int.le_trans h.clock hClock, h.zero, h.counted, h.probes, h.earned⟩
  | probed hClock => exact ⟨Int.le_trans h.clock hClock, h.zero, h.counted, h.probes, h.earned⟩
  | succeeded hClock => exact streaked_succeeded h hClock (hProbe _ rfl)
  | failed hClock => exact streaked_failed h hClock hCfg

end Streaks

theorem streaked_fresh (cfg : BreakerConfig) (clock : Nat) :
    Streaked cfg (freshOutcomes clock).state :=
  ⟨Int.natCast_nonneg clock, fun _ => rfl, fun h => (nomatch h), by simp [freshOutcomes],
    by simp [freshOutcomes]⟩

/-- In every run in which only probes record successes while the breaker is open: each
time an open breaker was closed, enough calls that were let through since it had tripped
had succeeded one after another, with no failure between them. -/
theorem recovery_earned {cfg : BreakerConfig} {clock : Nat} {q : OutcomePool}
    (h : (outcomeSystem cfg).Reach (fun _ _ => True) RecordsProbes (freshOutcomes clock) q) :
    ∀ c ∈ q.state.closings, c.Earned cfg.normalized := by
  have hStreaked : Streaked cfg.normalized q.state := by
    refine h.invariant (J := fun p => Streaked cfg.normalized p.state) (streaked_fresh _ clock)
      (fun _ _ hp _ => hp) ?_
    intro w before after c t o k r w' hp hExec hCond
    exact hp.step (openDuration_pos cfg) (outcomeStep_of_exec hExec) hCond
  exact hStreaked.earned

def recordsProbes (p : OutcomePool) (_ : OutcomeThread) (e : Event OutcomeHost) : Bool :=
  match e.op with
  | .record true a => !p.state.isOpen || a = some ⟨true, p.state.trips⟩
  | _ => true

theorem recordsProbes_sound {p : OutcomePool} {th : OutcomeThread} {e : Event OutcomeHost}
    (h : recordsProbes p th e = true) : RecordsProbes p th e := by
  intro a hOp hOpen
  rw [recordsProbes, hOp, hOpen] at h
  exact of_decide_eq_true h

/-- A backend call fails, and a probe succeeds. -/
def recoveredPool : OutcomePool :=
  ((outcomeSystem shortConfig).play (fun _ _ => true) recordsProbes
    [.begin (.backend false), .run 0 1 (outcomeAt 0),
      .begin (.filter true), .run 1 2 (outcomeAt 5)] (freshOutcomes 0)).get rfl

theorem recovery_earned_probe : ∃ c ∈ recoveredPool.state.closings, c.Earned shortConfig := by
  have hReach : (outcomeSystem shortConfig).Reach (fun _ _ => True) RecordsProbes
      (freshOutcomes 0) recoveredPool :=
    System.reach_get_play (fun _ _ _ => trivial) (fun _ _ _ h => recordsProbes_sound h) rfl
  have hc := List.mem_of_getElem? (l := recoveredPool.state.closings) (i := 0) rfl
  exact ⟨_, hc, recovery_earned hReach _ hc⟩

/-- A backend call fails, and another one that never asked succeeds. -/
def unaskedPool : OutcomePool :=
  ((outcomeSystem shortConfig).play (fun _ _ => true) (fun _ _ _ => true)
    [.begin (.backend false), .run 0 1 (outcomeAt 0),
      .begin (.backend true), .run 1 1 (outcomeAt 0)] (freshOutcomes 0)).get rfl

theorem recovery_unearned : (outcomeSystem shortConfig).Reach (fun _ _ => True)
      (fun _ _ _ => True) (freshOutcomes 0) unaskedPool ∧
    ∃ c ∈ unaskedPool.state.closings, ¬ c.Earned shortConfig := by
  refine ⟨System.reach_get_play (fun _ _ _ => trivial) (fun _ _ _ _ => trivial) rfl, ?_⟩
  have hc : ⟨1, [none]⟩ ∈ unaskedPool.state.closings := .head _
  refine ⟨_, hc, ?_⟩
  unfold Closing.Earned
  decide

/-- The call that was admitted and has not been recorded. -/
def admissions : Discipline OutcomeHost (Option Admission) where
  next _
    | ⟨.allow, a⟩ => a
    | ⟨.record _ _, _⟩ => none
  permits g
    | .allow => g = none
    | .record _ a => g = a
  assumes _ _ := True

theorem obeys_outcomes (c : BreakerCall) :
    admissions.Obeys (fun _ g => g = none) c.outcomes none := by
  cases c with
  | filter ok =>
    refine ⟨rfl, fun (a : Option Admission) _ => ?_⟩
    cases a with
    | none => exact rfl
    | some a => exact ⟨rfl, fun _ _ => rfl⟩
  | backend ok => exact ⟨rfl, fun _ _ => rfl⟩

/-- The call was admitted since the breaker tripped last. -/
def OutcomeWorld.isSince (w : OutcomeWorld) (g : Option Admission) : Bool :=
  g.any (·.trips = w.trips)

/-- The calls admitted since the last trip that have not been recorded. -/
def outstanding (w : OutcomeWorld) (gs : List (Option Admission)) : Nat := gs.countP w.isSince

def OutcomePool.admissions (p : OutcomePool) : List (Option Admission) :=
  p.accounts PluginHost.admissions fun _ => none

/-- While the breaker is open and such a call is outstanding, a record is that of such a
call. -/
def Undisturbed (w : OutcomeWorld) (gs : List (Option Admission)) (e : Event OutcomeHost) : Prop :=
  ∀ ok a, e.op = .record ok a → w.isOpen = true → 0 < outstanding w gs → w.isSince a = true

def RecordsUndisturbed (p : OutcomePool) (_ : OutcomeThread) (e : Event OutcomeHost) : Prop :=
  Undisturbed p.state p.admissions e

structure OneProbe (w : OutcomeWorld) (gs : List (Option Admission)) : Prop where
  past : ∀ g ∈ gs, ∀ a, g = some a → a.trips ≤ w.trips
  one : w.isOpen = true → outstanding w gs ≤ 1
  flag : w.isOpen = true → 0 < outstanding w gs → w.breaker.probing = true

section Probes

variable {cfg : BreakerConfig} {w w' : OutcomeWorld} {g : Option Admission}
  {gs : List (Option Admission)}

theorem outstanding_cons (w : OutcomeWorld) (g : Option Admission) (gs : List (Option Admission)) :
    outstanding w (g :: gs) = outstanding w gs + (w.isSince g).toNat := by
  rw [outstanding, List.countP_cons]
  cases w.isSince g <;> rfl

theorem outstanding_tripped (h : ∀ g ∈ gs, ∀ a, g = some a → a.trips ≤ w.trips)
    (hTrips : w'.trips = w.trips + 1) : outstanding w' gs = 0 := by
  refine List.countP_eq_zero.mpr fun g hg hSince => ?_
  obtain ⟨a, rfl, ha⟩ := (Option.any_eq_true _ _).mp hSince
  have hPast := h _ hg a rfl
  have hNow := of_decide_eq_true ha
  omega

/-- A record puts the breaker into its new state and leaves no call of its own. -/
theorem OneProbe.put (h : OneProbe w (g :: gs)) (b : Breaker) (clock : Int)
    (streak : List (Option Admission))
    (hOpen : w.isOpen = true → 0 < outstanding w (g :: gs) → w.isSince g = true) :
    OneProbe (w.put b clock streak) (none :: gs) := by
  have hTrips : w.trips ≤ (w.put b clock streak).trips := by
    simp only [OutcomeWorld.put]
    split <;> omega
  have hPast : ∀ g ∈ none :: gs, ∀ a, g = some a → a.trips ≤ (w.put b clock streak).trips := by
    refine List.forall_mem_cons.mpr ⟨by simp, fun g' hg' a ha => ?_⟩
    exact Nat.le_trans (h.past g' (List.mem_cons_of_mem _ hg') a ha) hTrips
  have hNone : (w.put b clock streak).isOpen = true →
      outstanding (w.put b clock streak) (none :: gs) = 0 := by
    intro hAfter
    have hb : b.openUntil ≠ 0 := isOpen_iff.mp hAfter
    rw [outstanding_cons]
    cases hIs : w.isOpen with
    | false =>
      have hLater : (w.put b clock streak).trips = w.trips + 1 := by rw [put_tripping hIs hb]
      exact outstanding_tripped (fun g' hg' => h.past g' (List.mem_cons_of_mem _ hg')) hLater
    | true =>
      rw [put_open hIs hb]
      change outstanding w gs = 0
      have hOne := h.one hIs
      have hOwn := hOpen hIs
      rw [outstanding_cons] at hOne hOwn
      cases hSince : w.isSince g with
      | true =>
        rw [hSince, Bool.toNat_true] at hOne
        omega
      | false =>
        rw [hSince, Bool.toNat_false] at hOwn
        by_contra hSome
        exact absurd (hOwn (by omega)) Bool.false_ne_true
  refine ⟨hPast, fun hAfter => ?_, fun hAfter hSome => ?_⟩
  · rw [hNone hAfter]
    exact Nat.zero_le 1
  · rw [hNone hAfter] at hSome
    exact absurd hSome (Nat.lt_irrefl 0)

theorem OneProbe.wait (h : OneProbe w (none :: gs)) (clock : Int) :
    OneProbe { w with clock := clock } (none :: gs) :=
  ⟨h.past, h.one, h.flag⟩

theorem OneProbe.admitted (h : OneProbe w (none :: gs)) (clock : Int) (hClosed : w.isOpen = false) :
    OneProbe { w with clock := clock } (some ⟨false, w.trips⟩ :: gs) := by
  refine ⟨List.forall_mem_cons.mpr ⟨fun a ha => ?_, fun g' hg' => ?_⟩, fun hOpen => ?_,
    fun hOpen _ => ?_⟩
  · exact Nat.le_of_eq (congrArg Admission.trips (Option.some.inj ha).symm)
  · exact h.past g' (List.mem_cons_of_mem _ hg')
  · exact absurd (hClosed.symm.trans hOpen) Bool.false_ne_true
  · exact absurd (hClosed.symm.trans hOpen) Bool.false_ne_true

/-- A probe is let through: the flag was clear, so no other one is outstanding. -/
theorem OneProbe.probed (h : OneProbe w (none :: gs)) (clock : Int) (hOpen : w.isOpen = true)
    (hFlag : w.breaker.probing = false) :
    OneProbe { w with breaker := { w.breaker with probing := true }, clock := clock }
      (some ⟨true, w.trips⟩ :: gs) := by
  refine ⟨List.forall_mem_cons.mpr ⟨fun a ha => ?_, fun g' hg' => ?_⟩, fun _ => ?_, fun _ _ => rfl⟩
  · exact Nat.le_of_eq (congrArg Admission.trips (Option.some.inj ha).symm)
  · exact h.past g' (List.mem_cons_of_mem _ hg')
  · have hNone : ¬ 0 < outstanding w (none :: gs) := fun hSome =>
      absurd (hFlag.symm.trans (h.flag hOpen hSome)) Bool.false_ne_true
    rw [outstanding_cons] at hNone ⊢
    change outstanding w gs + (w.isSince (some ⟨true, w.trips⟩)).toNat ≤ 1
    have hLe := Bool.toNat_le (w.isSince (some ⟨true, w.trips⟩))
    omega

end Probes

theorem oneProbe_kept (cfg : BreakerConfig) : admissions.KeptIf (C := BreakerCall)
    (outcomeSystem cfg).machine (fun _ => none) Undisturbed OneProbe where
  perm := by
    intro w gs gs' hPerm h
    obtain ⟨hPast, hOne, hFlag⟩ := h
    refine ⟨fun g hg => hPast g (hPerm.mem_iff.mpr hg), ?_, ?_⟩
    · rwa [outstanding, ← hPerm.countP_eq]
    · rwa [outstanding, ← hPerm.countP_eq]
  condPerm := by
    intro w gs gs' e hPerm h
    rwa [Undisturbed, outstanding, ← hPerm.countP_eq]
  fresh := by
    intro w gs c h
    refine ⟨List.forall_mem_cons.mpr ⟨by simp, h.past⟩, ?_, ?_⟩
    · rw [outstanding_cons]
      exact h.one
    · rw [outstanding_cons]
      exact h.flag
  step := by
    intro w g gs e w' h hCond hPermit _ hExec
    cases outcomeStep_of_exec hExec with
    | refused =>
      obtain rfl : g = none := hPermit
      exact h.wait _
    | admitted _ hClosed =>
      obtain rfl : g = none := hPermit
      exact h.admitted _ hClosed
    | probed _ hOpen hFlag =>
      obtain rfl : g = none := hPermit
      exact h.probed _ hOpen hFlag
    | @succeeded now a =>
      obtain rfl : g = a := hPermit
      exact h.put _ _ _ (hCond true g rfl)
    | @failed now a =>
      obtain rfl : g = a := hPermit
      exact h.put _ _ _ (hCond false g rfl)

/-- In every run in which no other call records while the breaker is open and a probe is
outstanding: while the breaker is open, at most one call that was admitted since it
tripped is outstanding. -/
theorem single_probe {cfg : BreakerConfig} {clock : Nat} {q : OutcomePool}
    (h : (outcomeSystem cfg).Reach (fun _ _ => True) RecordsUndisturbed (freshOutcomes clock) q)
    (hOpen : q.state.isOpen = true) : outstanding q.state q.admissions ≤ 1 := by
  have hOne := (h.accountsIf (oneProbe_kept cfg) obeys_outcomes (fun _ _ _ _ _ _ _ _ => trivial)
    (fun _ _ _ hc => hc) rfl ⟨by simp, fun h => (nomatch h), fun h => (nomatch h)⟩).1
  exact hOne.one hOpen

def recordsUndisturbed (p : OutcomePool) (_ : OutcomeThread) (e : Event OutcomeHost) : Bool :=
  match e.op with
  | .record _ a => !p.state.isOpen || outstanding p.state p.admissions = 0 || p.state.isSince a
  | .allow => true

theorem recordsUndisturbed_sound {p : OutcomePool} {th : OutcomeThread} {e : Event OutcomeHost}
    (h : recordsUndisturbed p th e = true) : RecordsUndisturbed p th e := by
  intro ok a hOp hOpen hSome
  rw [recordsUndisturbed, hOp, hOpen] at h
  have hNot : decide (outstanding p.state p.admissions = 0) = false :=
    decide_eq_false (Nat.ne_of_gt hSome)
  simpa [hNot] using h

/-- A backend call fails, and later a filter call is let through. -/
def oneProbePool : OutcomePool :=
  ((outcomeSystem shortConfig).play (fun _ _ => true) recordsUndisturbed
    [.begin (.backend false), .run 0 1 (outcomeAt 0),
      .begin (.filter true), .run 1 1 (outcomeAt 5)] (freshOutcomes 0)).get rfl

theorem single_probe_one : oneProbePool.state.isOpen = true ∧
    outstanding oneProbePool.state oneProbePool.admissions ≤ 1 := by
  have hReach : (outcomeSystem shortConfig).Reach (fun _ _ => True) RecordsUndisturbed
      (freshOutcomes 0) oneProbePool :=
    System.reach_get_play (fun _ _ _ => trivial) (fun _ _ _ h => recordsUndisturbed_sound h) rfl
  exact ⟨rfl, single_probe hReach rfl⟩

/-- While the probe is outstanding a backend call fails, which lets another probe
through. -/
def twoProbesPool : OutcomePool :=
  ((outcomeSystem shortConfig).play (fun _ _ => true) (fun _ _ _ => true)
    [.begin (.backend false), .run 0 1 (outcomeAt 0),
      .begin (.filter true), .run 1 1 (outcomeAt 5),
      .begin (.backend false), .run 2 1 (outcomeAt 5),
      .begin (.filter true), .run 3 1 (outcomeAt 10)] (freshOutcomes 0)).get rfl

theorem two_probes : (outcomeSystem shortConfig).Reach (fun _ _ => True) (fun _ _ _ => True)
      (freshOutcomes 0) twoProbesPool ∧
    twoProbesPool.state.isOpen = true ∧
    outstanding twoProbesPool.state twoProbesPool.admissions = 2 :=
  ⟨System.reach_get_play (fun _ _ _ => trivial) (fun _ _ _ _ => trivial) rfl, rfl, rfl⟩

end Moduless.PluginHost
