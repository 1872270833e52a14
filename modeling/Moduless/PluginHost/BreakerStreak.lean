import Moduless.PluginHost.Breaker

/-!
The breaker used by one caller at a time. A history lists the calls with their time, their
answer and the breaker before and after; the counter of failures is the length of the
streak at the end of the history, so the breaker trips exactly at the call that completes a
streak of `FailureThreshold`.
-/

namespace Moduless.PluginHost
open Go Interaction

inductive BreakerUse where
  | allow
  | recordSuccess
  | recordFailure
  | reset
  deriving DecidableEq

/-- Only `Allow` has an answer. -/
def BreakerUse.body (cfg : BreakerConfig) : BreakerUse → BreakerM (Option Bool)
  | .allow => do
      let ok ← Breaker.allow
      pure (some ok)
  | .recordSuccess => do
      let _ ← Breaker.recordSuccess cfg
      pure none
  | .recordFailure => do
      let _ ← Breaker.recordFailure cfg
      pure none
  | .reset => do
      let _ ← Breaker.reset
      pure none

def BreakerUse.isRecord : BreakerUse → Bool
  | .recordSuccess | .recordFailure => true
  | .allow | .reset => false

structure Turn where
  use : BreakerUse
  now : Int
  answer : Option Bool
  before : Breaker
  after : Breaker

def Turn.isRecord (t : Turn) : Bool := t.use.isRecord

/-- A breaker that was open is closed, or any breaker is reset. -/
def Turn.Closes (t : Turn) : Prop :=
  t.use = .reset ∨ t.before.openUntil ≠ 0 ∧ t.after.openUntil = 0

/-- Calls one at a time on a new breaker, at times that start after the epoch and never go
back. -/
inductive Turns (cfg : BreakerConfig) : List Turn → Breaker → Int → Prop
  | fresh {clock : Int} (h : 0 < clock) : Turns cfg [] newBreaker clock
  | turn {ts : List Turn} {b b' : Breaker} {clock clock' now : Int} {use : BreakerUse}
      {answer : Option Bool} (hTurns : Turns cfg ts b clock) (hClock : clock ≤ now)
      (hResult : breakerMachine.result (clockAt now) ⟨b, clock⟩ (use.body cfg) =
        some (answer, ⟨b', clock'⟩)) :
      Turns cfg (ts ++ [⟨use, now, answer, b, b'⟩]) b' now

/-- The last `n` records of a history are failures, and the breaker was not closed or reset
since the first of them. -/
def Streak (ts : List Turn) (n : Nat) : Prop :=
  ∃ old recent, ts = old ++ recent ∧ (∀ t ∈ recent, ¬ t.Closes) ∧
    (∀ t ∈ recent, t.isRecord → t.use = .recordFailure) ∧ recent.countP Turn.isRecord = n

namespace Breaker

variable (cfg : BreakerConfig) (now : Int) (b : Breaker)

def cleared : Breaker :=
  { ((b.set .consecutiveFailures 0).set .openUntilNanos 0).set .halfOpenSuccesses 0 with
    probing := false }

/-- What a call does when nothing comes in between. -/
def used : BreakerUse → Option Bool × Breaker
  | .allow => ((b.allowAt now).1, (b.allowAt now).2)
  | .recordSuccess => (none, b.succeeded cfg)
  | .recordFailure => (none, b.failed cfg now)
  | .reset => (none, b.cleared)

def failures : Int := b.counters .consecutiveFailures

end Breaker

section Results

variable {cfg : BreakerConfig} {now clock : Int} (b : Breaker)

theorem result_answer {α : Type} {p : BreakerM α} {a : α} {w : ClockedBreaker}
    (h : breakerMachine.result (clockAt now) ⟨b, clock⟩ p = some (a, w)) (f : α → Option Bool) :
    breakerMachine.result (clockAt now) ⟨b, clock⟩ (p >>= fun a => pure (f a)) =
      some (f a, w) :=
  (Machine.result_bind _ _ _ _).trans (congrArg (Option.bind · _) h)

theorem result_used (h : clock ≤ now) (use : BreakerUse) : ∃ clock',
    breakerMachine.result (clockAt now) ⟨b, clock⟩ (use.body cfg) =
      some ((b.used cfg now use).1, ⟨(b.used cfg now use).2, clock'⟩) := by
  cases use with
  | allow =>
    obtain ⟨clock', hResult⟩ := result_allow b h
    exact ⟨clock', result_answer b hResult _⟩
  | recordSuccess => exact ⟨clock, result_answer b (result_recordSuccess b _) _⟩
  | recordFailure =>
    obtain ⟨clock', hResult⟩ : ∃ clock', breakerMachine.result (clockAt now) ⟨b, clock⟩
        (Breaker.recordFailure cfg) = some ((), ⟨b.failed cfg now, clock'⟩) :=
      result_recordFailure b h
    exact ⟨clock', result_answer b hResult _⟩
  | reset => exact ⟨clock, rfl⟩

end Results

section Steps

variable {cfg : BreakerConfig} {now : Int} {b : Breaker}

theorem failures_succeeded (cfg : BreakerConfig) (b : Breaker) :
    (b.succeeded cfg).failures = 0 := by
  simp only [Breaker.succeeded, Breaker.failures, openUntil_set, counters_set]
  split_ifs <;> simp [counters_set]

theorem failures_failed (cfg : BreakerConfig) (now : Int) (h : b.openUntil = 0) :
    (b.failed cfg now).failures =
      if cfg.failureThreshold ≤ b.failures + 1 then 0 else b.failures + 1 := by
  rw [Breaker.openUntil] at h
  by_cases hTrips : cfg.failureThreshold ≤ b.counters .consecutiveFailures + 1
  · simp [Breaker.failed, Breaker.failures, Breaker.openUntil, counters_set, h, hTrips]
  · simp [Breaker.failed, Breaker.failures, Breaker.openUntil, counters_set, h, hTrips]

theorem failures_failed_of_open (h : b.openUntil ≠ 0) :
    (b.failed cfg now).failures = b.failures := by
  rw [Breaker.openUntil] at h
  simp [Breaker.failed, Breaker.failures, Breaker.openUntil, counters_set, h]

theorem counters_allowAt (now : Int) (b : Breaker) : (b.allowAt now).2.counters = b.counters := by
  obtain ⟨-, h⟩ | ⟨-, h⟩ | ⟨-, -, -, h⟩ := allowAt_cases now b
  all_goals exact congrArg (fun out : Bool × Breaker => out.2.counters) h

end Steps

section Streaks

variable {ts : List Turn} {t : Turn} {n : Nat}

theorem streak_zero (ts : List Turn) : Streak ts 0 :=
  ⟨ts, [], (List.append_nil ts).symm, by simp, by simp, rfl⟩

theorem streak_concat (h : 0 < n) :
    Streak (ts ++ [t]) n ↔ ¬ t.Closes ∧ (t.isRecord → t.use = .recordFailure) ∧
      ∃ m, Streak ts m ∧ m + t.isRecord.toNat = n := by
  constructor
  · rintro ⟨old, recent, hSplit, hCloses, hFails, rfl⟩
    rcases List.eq_nil_or_concat' recent with rfl | ⟨recent, t', rfl⟩
    · simp at h
    · rw [← List.append_assoc] at hSplit
      obtain ⟨rfl, hLast⟩ := List.append_inj' hSplit rfl
      cases hLast
      have hMem : t ∈ recent ++ [t] := List.mem_append_right _ (List.mem_singleton_self t)
      refine ⟨hCloses t hMem, hFails t hMem, _, ⟨old, recent, rfl, ?_, ?_, rfl⟩, ?_⟩
      · exact fun t' ht' => hCloses t' (List.mem_append_left _ ht')
      · exact fun t' ht' => hFails t' (List.mem_append_left _ ht')
      · rw [List.countP_append, List.countP_singleton]
        cases t.isRecord <;> rfl
  · rintro ⟨hCloses, hFails, m, ⟨old, recent, rfl, hCloses', hFails', rfl⟩, rfl⟩
    refine ⟨old, recent ++ [t], List.append_assoc .., ?_, ?_, ?_⟩
    · simpa [or_imp, forall_and] using ⟨hCloses', hCloses⟩
    · simpa [or_imp, forall_and] using ⟨hFails', hFails⟩
    · rw [List.countP_append, List.countP_singleton]
      cases t.isRecord <;> rfl

/-- The counter of a closed breaker is the longest streak, and stays below the threshold. -/
structure Counted (cfg : BreakerConfig) (ts : List Turn) (b : Breaker) : Prop where
  nonneg : 0 ≤ b.failures
  below : b.failures < cfg.failureThreshold
  opened : b.openUntil ≠ 0 → b.failures = 0
  streak : b.openUntil = 0 → ∀ n, Streak ts n ↔ (n : Int) ≤ b.failures

end Streaks

section Histories

variable {cfg : BreakerConfig} {ts : List Turn} {b : Breaker} {clock now : Int}

theorem Turns.clock_pos (h : Turns cfg ts b clock) : 0 < clock := by
  induction h with
  | fresh h => exact h
  | turn _ hClock _ ih => exact lt_of_lt_of_le ih hClock

theorem Turns.used (h : Turns cfg ts b clock) (hClock : clock ≤ now) (use : BreakerUse) :
    Turns cfg (ts ++ [⟨use, now, (b.used cfg now use).1, b, (b.used cfg now use).2⟩])
      (b.used cfg now use).2 now := by
  obtain ⟨clock', hResult⟩ := result_used b hClock use
  exact h.turn hClock hResult

theorem Turns.last {t : Turn} (h : Turns cfg (ts ++ [t]) b clock) :
    (∃ clock', Turns cfg ts t.before clock') ∧ 0 < t.now ∧ t.after = b ∧
      (t.answer, t.after) = t.before.used cfg t.now t.use := by
  generalize hts : ts ++ [t] = us at h
  cases h with
  | fresh => exact absurd hts (by simp)
  | turn hTurns hClock hResult =>
    obtain ⟨rfl, hLast⟩ := List.append_inj' hts rfl
    cases hLast
    obtain ⟨clock', hUsed⟩ := result_used _ hClock _
    rw [hResult] at hUsed
    cases hUsed
    exact ⟨⟨_, hTurns⟩, lt_of_lt_of_le hTurns.clock_pos hClock, rfl, rfl⟩

/-- Without streaks: the last call closed the breaker, or was a success. -/
theorem counted_zero {t : Turn} (hPos : 0 < cfg.failureThreshold) (hFailures : b.failures = 0)
    (hEnds : t.Closes ∨ t.use = .recordSuccess) : Counted cfg (ts ++ [t]) b := by
  refine ⟨hFailures.ge, hFailures ▸ hPos, fun _ => hFailures, fun _ n => ?_⟩
  rw [hFailures]
  rcases Nat.eq_zero_or_pos n with rfl | hn
  · exact iff_of_true (streak_zero _) le_rfl
  · refine iff_of_false (fun hStreak => ?_) (by omega)
    obtain ⟨hCloses, hFails, -⟩ := (streak_concat hn).mp hStreak
    rcases hEnds with hEnds | hSuccess
    · exact hCloses hEnds
    · have hRecord : t.isRecord = true := by rw [Turn.isRecord, hSuccess]; rfl
      rw [hFails hRecord] at hSuccess
      cases hSuccess

theorem Counted.same (h : Counted cfg ts b) {t : Turn} (hUse : t.use = .allow)
    (hBefore : t.before = b) (hAfter : t.after.counters = b.counters) :
    Counted cfg (ts ++ [t]) t.after := by
  have hOpen : t.after.openUntil = b.openUntil := congrFun hAfter _
  have hFailures : t.after.failures = b.failures := congrFun hAfter _
  have hCloses : ¬ t.Closes := by
    rintro (hReset | ⟨hNot, hClosed⟩)
    · rw [hUse] at hReset
      cases hReset
    · exact hNot (by rw [hBefore, ← hOpen, hClosed])
  have hRecord : t.isRecord = false := by rw [Turn.isRecord, hUse]; rfl
  refine ⟨hFailures ▸ h.nonneg, hFailures ▸ h.below, ?_, fun hClosed n => ?_⟩
  · rw [hOpen, hFailures]
    exact h.opened
  · rw [hFailures, ← h.streak (hOpen ▸ hClosed) n]
    rcases Nat.eq_zero_or_pos n with rfl | hn
    · exact iff_of_true (streak_zero _) (streak_zero _)
    · simp [streak_concat hn, hCloses, hRecord]

theorem Counted.streak_failure (h : Counted cfg ts b) {t : Turn} (hUse : t.use = .recordFailure)
    (hBefore : t.before = b) (hClosed : b.openUntil = 0) (n : Nat) :
    Streak (ts ++ [t]) n ↔ (n : Int) ≤ b.failures + 1 := by
  have hNonneg := h.nonneg
  have hCloses : ¬ t.Closes := by
    rintro (hReset | ⟨hNot, -⟩)
    · rw [hUse] at hReset
      cases hReset
    · exact hNot (by rw [hBefore, hClosed])
  have hRecord : t.isRecord.toNat = 1 := by rw [Turn.isRecord, hUse]; rfl
  rcases Nat.eq_zero_or_pos n with rfl | hn
  · exact iff_of_true (streak_zero _) (by omega)
  · rw [streak_concat hn, hRecord]
    constructor
    · rintro ⟨-, -, m, hStreak, rfl⟩
      have := (h.streak hClosed m).mp hStreak
      omega
    · intro hLe
      exact ⟨hCloses, fun _ => hUse, n - 1, (h.streak hClosed _).mpr (by omega), by omega⟩

theorem counted_of_open (hPos : 0 < cfg.failureThreshold) (hFailures : b.failures = 0)
    (hOpen : b.openUntil ≠ 0) : Counted cfg ts b :=
  ⟨hFailures.ge, hFailures ▸ hPos, fun _ => hFailures, fun hClosed => absurd hClosed hOpen⟩

theorem Counted.failed (h : Counted cfg ts b) (hPos : 0 < cfg.failureThreshold)
    (hNow : 0 < now + cfg.openDuration) (answer : Option Bool) :
    Counted cfg (ts ++ [⟨.recordFailure, now, answer, b, b.failed cfg now⟩])
      (b.failed cfg now) := by
  have hOpens := failed_openUntil cfg now b
  by_cases hOpen : b.openUntil = 0
  · have hFailures := failures_failed cfg now hOpen
    by_cases hTrips : cfg.failureThreshold ≤ b.failures + 1
    · rw [if_pos (.inr hTrips)] at hOpens
      rw [if_pos hTrips] at hFailures
      exact counted_of_open hPos hFailures (hOpens ▸ hNow.ne')
    · rw [if_neg fun hOr => hOr.elim (· hOpen) hTrips] at hOpens
      rw [if_neg hTrips] at hFailures
      have hNonneg := h.nonneg
      refine ⟨by omega, by omega, fun hNot => absurd hOpens hNot, fun _ n => ?_⟩
      rw [hFailures]
      exact h.streak_failure rfl rfl hOpen n
  · rw [if_pos (.inl hOpen)] at hOpens
    exact counted_of_open hPos ((failures_failed_of_open hOpen).trans (h.opened hOpen))
      (hOpens ▸ hNow.ne')

theorem Counted.used (h : Counted cfg ts b) (hPos : 0 < cfg.failureThreshold)
    (hNow : 0 < now + cfg.openDuration) (use : BreakerUse) (answer : Option Bool) :
    Counted cfg (ts ++ [⟨use, now, answer, b, (b.used cfg now use).2⟩]) (b.used cfg now use).2 := by
  cases use with
  | allow => exact h.same rfl rfl (counters_allowAt now b)
  | recordSuccess => exact counted_zero hPos (failures_succeeded cfg b) (.inr rfl)
  | recordFailure => exact h.failed hPos hNow answer
  | reset => exact counted_zero hPos rfl (.inl (.inl rfl))

theorem counted_of_turns (hPos : 0 < cfg.failureThreshold) (hDuration : 0 < cfg.openDuration)
    (h : Turns cfg ts b clock) : Counted cfg ts b := by
  induction h with
  | fresh =>
    refine ⟨le_rfl, hPos, fun _ => rfl, fun _ n => ?_⟩
    constructor
    · rintro ⟨old, recent, hSplit, -, -, rfl⟩
      rw [(List.append_eq_nil_iff.mp hSplit.symm).2]
      exact le_rfl
    · intro hn
      rw [Nat.le_zero.mp (Int.ofNat_le.mp hn)]
      exact streak_zero _
  | turn hTurns hClock hResult ih =>
    obtain ⟨clock', hUsed⟩ := result_used _ hClock _
    rw [hResult] at hUsed
    cases hUsed
    exact ih.used hPos (add_pos (lt_of_lt_of_le hTurns.clock_pos hClock) hDuration) _ _

theorem Turns.until (h : Turns cfg ts b clock) {earlier later : List Turn}
    (hts : ts = earlier ++ later) : ∃ b' clock', Turns cfg earlier b' clock' := by
  induction later using List.reverseRecOn generalizing ts b clock with
  | nil =>
    rw [List.append_nil] at hts
    exact ⟨b, clock, hts ▸ h⟩
  | append_singleton later t ih =>
    rw [← List.append_assoc] at hts
    obtain ⟨⟨clock', hBefore⟩, -⟩ := (hts ▸ h).last
    exact ih hBefore rfl

/-- In every history of calls, one at a time: a failure trips a closed breaker exactly if it
completes a streak of `FailureThreshold` failures; a closed breaker allows every call; an
open one allows none before `openUntil`. -/
theorem trips_iff_streak (cfg : BreakerConfig) (h : Turns cfg.normalized ts b clock)
    {earlier later : List Turn} {t : Turn} (hts : ts = earlier ++ t :: later) :
    (t.use = .recordFailure →
      (t.before.openUntil = 0 ∧ t.after.openUntil ≠ 0 ↔
        t.before.openUntil = 0 ∧
          Streak (earlier ++ [t]) cfg.normalized.failureThreshold.toNat)) ∧
    (t.use = .allow → t.before.openUntil = 0 → t.answer = some true) ∧
    (t.use = .allow → t.before.openUntil ≠ 0 → t.now < t.before.openUntil →
      t.answer = some false) := by
  have hPos := failureThreshold_pos cfg
  rw [List.append_cons] at hts
  obtain ⟨b', clock', hHere⟩ := h.until hts
  obtain ⟨⟨clock₀, hBefore⟩, hNow, -, hUsed⟩ := hHere.last
  have hCounted := counted_of_turns hPos (openDuration_pos cfg) hBefore
  refine ⟨fun hUse => and_congr_right fun hClosed => ?_, fun hUse hClosed => ?_,
    fun hUse hOpen hEarly => ?_⟩
  · rw [hUse] at hUsed
    have hAfter : t.after = t.before.failed cfg.normalized t.now := congrArg Prod.snd hUsed
    have hSum := add_pos hNow (openDuration_pos cfg)
    rw [hAfter, failed_openUntil, hCounted.streak_failure hUse rfl hClosed,
      Int.toNat_of_nonneg hPos.le]
    constructor
    · intro hOpen
      by_contra hFew
      exact hOpen (if_neg fun hOr => hOr.elim (· hClosed) hFew)
    · intro hMany
      rw [if_pos (.inr hMany)]
      exact hSum.ne'
  · rw [hUse] at hUsed
    have hAnswer : t.answer = some (t.before.allowAt t.now).1 := congrArg Prod.fst hUsed
    rw [hAnswer, Breaker.allowAt, if_pos hClosed]
  · rw [hUse] at hUsed
    have hAnswer : t.answer = some (t.before.allowAt t.now).1 := congrArg Prod.fst hUsed
    rw [hAnswer, Breaker.allowAt, if_neg hOpen, if_pos hEarly]

/-- Trips at the second failure in a row. -/
def twoFailures : BreakerConfig := ⟨2, 10, 1⟩

def failedOnce : Breaker := newBreaker.failed twoFailures 1

def failedTwice : Breaker := failedOnce.failed twoFailures 2

def firstFailure : Turn := ⟨.recordFailure, 1, none, newBreaker, failedOnce⟩

def secondFailure : Turn := ⟨.recordFailure, 2, none, failedOnce, failedTwice⟩

def refusal : Turn := ⟨.allow, 3, some false, failedTwice, failedTwice⟩

theorem turns_refusal :
    Turns twoFailures.normalized [firstFailure, secondFailure, refusal] failedTwice 3 := by
  have hFirst := (Turns.fresh one_pos : Turns twoFailures.normalized [] _ 1).used le_rfl
    .recordFailure
  exact (hFirst.used (Int.le.intro 1 rfl) .recordFailure).used (Int.le.intro 1 rfl) .allow

/-- The second failure trips the breaker, and the call after it is refused. -/
theorem trips_second :
    Streak [firstFailure, secondFailure] 2 ∧ refusal.answer = some false := by
  have hSecond := (trips_iff_streak twoFailures turns_refusal
    (rfl : _ = [firstFailure] ++ secondFailure :: [refusal])).1 rfl
  have hThird := (trips_iff_streak twoFailures turns_refusal
    (rfl : _ = [firstFailure, secondFailure] ++ refusal :: [])).2.2 rfl
  exact ⟨(hSecond.mp ⟨by decide, by decide⟩).2, hThird (by decide) (by decide)⟩

end Histories

end Moduless.PluginHost
