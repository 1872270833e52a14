import Moduless.Interaction.Schedule
import Moduless.PluginHost.HostState
import Moduless.PluginHost.Lifecycle

/-!
The circuit breaker by itself: its three operations as programs on its atomic fields,
and the calls that use it. A call of a filter asks `Allow` and, if it was admitted,
records how it went; a call of a backend only records.

`allowAt`, `succeeded` and `failed` are what the operations do when nothing comes in
between.
-/

namespace Moduless.PluginHost
open Go Interaction

inductive ClockedOp where
  | field (o : BreakerOp)
  | now

@[reducible] def ClockedOp.Ans : ClockedOp → Type
  | .field o => o.Ans
  | .now => Int

def BreakerHost : Interface := ⟨ClockedOp, ClockedOp.Ans⟩

abbrev BreakerM := Program BreakerHost

def onField (o : BreakerOp) : BreakerM o.Ans := Program.perform (I := BreakerHost) (.field o)

def readClock : BreakerM Int := Program.perform (I := BreakerHost) .now

/-- `NewBreaker` replaces values that are not positive. -/
def BreakerConfig.normalized (cfg : BreakerConfig) : BreakerConfig where
  failureThreshold := if cfg.failureThreshold ≤ 0 then 5 else cfg.failureThreshold
  openDuration := if cfg.openDuration ≤ 0 then 5 * second else cfg.openDuration
  halfOpenSuccesses := if cfg.halfOpenSuccesses ≤ 0 then 2 else cfg.halfOpenSuccesses

/-- Trips at the first failure, for a nanosecond, and closes at the first success. -/
def shortConfig : BreakerConfig := ⟨1, 1, 1⟩

theorem failureThreshold_pos (cfg : BreakerConfig) : 0 < cfg.normalized.failureThreshold := by
  simp only [BreakerConfig.normalized]
  split
  next => decide
  next h => exact not_le.mp h

theorem openDuration_pos (cfg : BreakerConfig) : 0 < cfg.normalized.openDuration := by
  simp only [BreakerConfig.normalized]
  split
  next => decide
  next h => exact not_le.mp h

namespace Breaker

def allow : BreakerM Bool := do
  let until_ ← onField (.load .openUntilNanos)
  if until_ = 0 then pure true
  else
    let now ← readClock
    if now < until_ then pure false
    else onField (.casProbing false true)

variable (cfg : BreakerConfig)

def recordSuccess : BreakerM Unit := do
  let _ ← onField (.store .consecutiveFailures 0)
  let until_ ← onField (.load .openUntilNanos)
  if until_ = 0 then pure ()
  else
    let n ← onField (.add .halfOpenSuccesses 1)
    if n ≥ cfg.halfOpenSuccesses then
      let _ ← onField (.store .openUntilNanos 0)
      let _ ← onField (.store .halfOpenSuccesses 0)
      onField (.storeProbing false)
    else onField (.storeProbing false)

def recordFailure : BreakerM Unit := do
  let _ ← onField (.store .halfOpenSuccesses 0)
  let until_ ← onField (.load .openUntilNanos)
  if until_ ≠ 0 then
    let now ← readClock
    let _ ← onField (.store .openUntilNanos (now + cfg.openDuration))
    onField (.storeProbing false)
  else
    let n ← onField (.add .consecutiveFailures 1)
    if n ≥ cfg.failureThreshold then
      let now ← readClock
      let _ ← onField (.store .openUntilNanos (now + cfg.openDuration))
      onField (.store .consecutiveFailures 0)
    else pure ()

def record (ok : Bool) : BreakerM Unit := if ok then recordSuccess cfg else recordFailure cfg

def reset : BreakerM Unit := do
  let _ ← onField (.store .consecutiveFailures 0)
  let _ ← onField (.store .openUntilNanos 0)
  let _ ← onField (.store .halfOpenSuccesses 0)
  onField (.storeProbing false)

end Breaker

def onInstance (i : Instance) : (o : ClockedOp) → HostM o.Ans
  | .field o => op (.breaker i o)
  | .now => ask .now

section Instances

variable (i : Instance)

theorem bind_eq_handle {α : Type} {o : BreakerOp} {f : o.Ans → HostM α} {g : o.Ans → BreakerM α}
    (h : ∀ r, f r = (g r).handle (onInstance i)) :
    op (.breaker i o) >>= f = (onField o >>= g).handle (onInstance i) :=
  congrArg (Program.call (I := Host) (.breaker i o)) (funext h)

theorem clock_eq_handle {α : Type} {f : Int → HostM α} {g : Int → BreakerM α}
    (h : ∀ r, f r = (g r).handle (onInstance i)) :
    ask .now >>= f = (readClock >>= g).handle (onInstance i) :=
  congrArg (Program.call (I := Host) (.ask .now)) (funext h)

theorem ite_eq_handle {α : Type} {c : Prop} [Decidable c] {p q : HostM α} {p' q' : BreakerM α}
    (hp : p = p'.handle (onInstance i)) (hq : q = q'.handle (onInstance i)) :
    (if c then p else q) = (if c then p' else q').handle (onInstance i) := by
  split
  · exact hp
  · exact hq

/-- An instance uses its breaker as the programs say. -/
theorem allow_eq_handle : i.allow = Breaker.allow.handle (onInstance i) := by
  refine bind_eq_handle i fun (until_ : Int) => ite_eq_handle i rfl ?_
  exact clock_eq_handle i fun now => ite_eq_handle i rfl rfl

theorem recordSuccess_eq_handle :
    i.recordSuccess = (Breaker.recordSuccess defaultBreakerConfig).handle (onInstance i) := by
  refine bind_eq_handle i fun _ => bind_eq_handle i fun (until_ : Int) => ite_eq_handle i rfl ?_
  exact bind_eq_handle i fun (n : Int) => ite_eq_handle i rfl rfl

theorem recordFailure_eq_handle :
    i.recordFailure = (Breaker.recordFailure defaultBreakerConfig).handle (onInstance i) := by
  refine bind_eq_handle i fun _ => bind_eq_handle i fun (until_ : Int) => ite_eq_handle i rfl ?_
  exact bind_eq_handle i fun (n : Int) => ite_eq_handle i rfl rfl

end Instances

/-- The calls that use a breaker; `ok` says how the call of the plugin goes. -/
inductive BreakerCall where
  | filter (ok : Bool)
  | backend (ok : Bool)

/-- A breaker and the last reading of the clock, which never goes back. -/
structure ClockedBreaker where
  breaker : Breaker
  clock : Int

@[reducible] def ClockedOp.Choice : ClockedOp → Type
  | .field _ => Unit
  | .now => Int

def ClockedBreaker.exec (w : ClockedBreaker) :
    (o : ClockedOp) → o.Choice → Option (o.Ans × ClockedBreaker)
  | .field o, _ => some ((o.apply w.breaker).1, { w with breaker := (o.apply w.breaker).2 })
  | .now, now => if now < w.clock then none else some (now, { w with clock := now })

def breakerMachine : Machine BreakerHost ClockedBreaker :=
  ⟨ClockedOp.Choice, ClockedBreaker.exec⟩

def clockAt (now : Int) : (o : ClockedOp) → o.Choice
  | .field _ => ()
  | .now => now

namespace Breaker

variable (cfg : BreakerConfig) (now : Int) (b : Breaker)

def openUntil : Int := b.counters .openUntilNanos

def set (c : Counter) (x : Int) : Breaker := { b with counters := Function.update b.counters c x }

def allowAt : Bool × Breaker :=
  if b.openUntil = 0 then (true, b)
  else if now < b.openUntil then (false, b)
  else if b.probing then (false, b)
  else (true, { b with probing := true })

def succeeded : Breaker :=
  let b := b.set .consecutiveFailures 0
  if b.openUntil = 0 then b
  else
    let n := b.counters .halfOpenSuccesses + 1
    let b := b.set .halfOpenSuccesses n
    let b := if n ≥ cfg.halfOpenSuccesses then (b.set .openUntilNanos 0).set .halfOpenSuccesses 0
      else b
    { b with probing := false }

def failed : Breaker :=
  let b := b.set .halfOpenSuccesses 0
  if b.openUntil ≠ 0 then
    { b.set .openUntilNanos (now + cfg.openDuration) with probing := false }
  else
    let n := b.counters .consecutiveFailures + 1
    let b := b.set .consecutiveFailures n
    if n ≥ cfg.failureThreshold then
      (b.set .openUntilNanos (now + cfg.openDuration)).set .consecutiveFailures 0
    else b

end Breaker

section Uninterrupted

variable {cfg : BreakerConfig} {now clock : Int} (b : Breaker)

theorem result_onField {α : Type} {w : (o : ClockedOp) → o.Choice} (o : BreakerOp)
    (f : o.Ans → BreakerM α) :
    breakerMachine.result w ⟨b, clock⟩ (onField o >>= f) =
      breakerMachine.result w ⟨(o.apply b).2, clock⟩ (f (o.apply b).1) :=
  Machine.result_call _ _ _ _

theorem result_field {w : (o : ClockedOp) → o.Choice} (o : BreakerOp) :
    breakerMachine.result w ⟨b, clock⟩ (onField o) =
      some ((o.apply b).1, ⟨(o.apply b).2, clock⟩) := rfl

theorem result_readClock {α : Type} (h : clock ≤ now) (f : Int → BreakerM α) :
    breakerMachine.result (clockAt now) ⟨b, clock⟩ (readClock >>= f) =
      breakerMachine.result (clockAt now) ⟨b, now⟩ (f now) := by
  have hExec : breakerMachine.exec ⟨b, clock⟩ .now now = some (now, ⟨b, now⟩) :=
    if_neg (not_lt.mpr h)
  refine (Machine.result_call (M := breakerMachine) (clockAt now) _ _ _).trans ?_
  rw [show clockAt now .now = now from rfl, hExec]
  rfl

theorem result_allow (h : clock ≤ now) : ∃ clock',
    breakerMachine.result (clockAt now) ⟨b, clock⟩ Breaker.allow =
      some ((b.allowAt now).1, ⟨(b.allowAt now).2, clock'⟩) := by
  rw [Breaker.allowAt]
  by_cases hOpen : b.openUntil = 0
  · rw [if_pos hOpen]
    refine ⟨clock, (result_onField b _ _).trans ?_⟩
    change breakerMachine.result _ _ (if b.openUntil = 0 then _ else _) = _
    rw [if_pos hOpen]
    rfl
  · rw [if_neg hOpen]
    refine ⟨now, (result_onField b _ _).trans ?_⟩
    change breakerMachine.result _ _ (if b.openUntil = 0 then _ else _) = _
    rw [if_neg hOpen]
    refine (result_readClock b h _).trans ?_
    change breakerMachine.result _ _ (if now < b.openUntil then _ else _) = _
    by_cases hLate : now < b.openUntil
    · rw [if_pos hLate, if_pos hLate]
      rfl
    · rw [if_neg hLate, if_neg hLate, result_field, BreakerOp.apply]
      cases hProbing : b.probing <;> simp

theorem result_recordSuccess (w : (o : ClockedOp) → o.Choice) :
    breakerMachine.result w ⟨b, clock⟩ (Breaker.recordSuccess cfg) =
      some ((), ⟨b.succeeded cfg, clock⟩) := by
  refine (result_onField b _ _).trans ((result_onField _ _ _).trans ?_)
  rw [Breaker.succeeded]
  change breakerMachine.result _ ⟨b.set .consecutiveFailures 0, clock⟩
    (if (b.set .consecutiveFailures 0).openUntil = 0 then _ else _) = _
  by_cases hOpen : (b.set .consecutiveFailures 0).openUntil = 0
  · rw [if_pos hOpen, if_pos hOpen]
    rfl
  · rw [if_neg hOpen, if_neg hOpen]
    refine (result_onField _ _ _).trans ?_
    generalize b.set .consecutiveFailures 0 = b
    change breakerMachine.result _ _
      (if b.counters .halfOpenSuccesses + 1 ≥ cfg.halfOpenSuccesses then _ else _) = _
    by_cases hEnough : b.counters .halfOpenSuccesses + 1 ≥ cfg.halfOpenSuccesses
    · rw [if_pos hEnough]
      dsimp only
      rw [if_pos hEnough]
      rfl
    · rw [if_neg hEnough]
      dsimp only
      rw [if_neg hEnough]
      rfl

theorem result_recordFailure (h : clock ≤ now) : ∃ clock',
    breakerMachine.result (clockAt now) ⟨b, clock⟩ (Breaker.recordFailure cfg) =
      some ((), ⟨b.failed cfg now, clock'⟩) := by
  rw [Breaker.failed]
  by_cases hOpen : (b.set .halfOpenSuccesses 0).openUntil ≠ 0
  · refine ⟨now, (result_onField b _ _).trans ((result_onField _ _ _).trans ?_)⟩
    change breakerMachine.result _ ⟨b.set .halfOpenSuccesses 0, clock⟩
      (if (b.set .halfOpenSuccesses 0).openUntil ≠ 0 then _ else _) = _
    rw [if_pos hOpen, if_pos hOpen]
    exact result_readClock _ h _
  · by_cases hTrips : (b.set .halfOpenSuccesses 0).counters .consecutiveFailures + 1 ≥
        cfg.failureThreshold
    · refine ⟨now, (result_onField b _ _).trans ((result_onField _ _ _).trans ?_)⟩
      change breakerMachine.result _ ⟨b.set .halfOpenSuccesses 0, clock⟩
        (if (b.set .halfOpenSuccesses 0).openUntil ≠ 0 then _ else _) = _
      rw [if_neg hOpen, if_neg hOpen]
      refine (result_onField _ _ _).trans ?_
      generalize b.set .halfOpenSuccesses 0 = b at hTrips
      change breakerMachine.result _ _
        (if b.counters .consecutiveFailures + 1 ≥ cfg.failureThreshold then _ else _) = _
      dsimp only
      rw [if_pos hTrips, if_pos hTrips]
      exact result_readClock _ h _
    · refine ⟨clock, (result_onField b _ _).trans ((result_onField _ _ _).trans ?_)⟩
      change breakerMachine.result _ ⟨b.set .halfOpenSuccesses 0, clock⟩
        (if (b.set .halfOpenSuccesses 0).openUntil ≠ 0 then _ else _) = _
      rw [if_neg hOpen, if_neg hOpen]
      refine (result_onField _ _ _).trans ?_
      generalize b.set .halfOpenSuccesses 0 = b at hTrips
      change breakerMachine.result _ _
        (if b.counters .consecutiveFailures + 1 ≥ cfg.failureThreshold then _ else _) = _
      dsimp only
      rw [if_neg hTrips, if_neg hTrips]
      rfl

end Uninterrupted

section Outcomes

variable {cfg : BreakerConfig} {b : Breaker}

/-- `Allow` admits every call of a closed breaker, and a probe of an open one. -/
theorem allowAt_cases (now : Int) (b : Breaker) :
    (b.openUntil = 0 ∧ b.allowAt now = (true, b)) ∨
    (b.openUntil ≠ 0 ∧ b.allowAt now = (false, b)) ∨
    (b.openUntil ≠ 0 ∧ b.openUntil ≤ now ∧ b.probing = false ∧
      b.allowAt now = (true, { b with probing := true })) := by
  rw [Breaker.allowAt]
  split_ifs with hClosed hEarly hProbing
  · exact .inl ⟨hClosed, rfl⟩
  · exact .inr (.inl ⟨hClosed, rfl⟩)
  · exact .inr (.inl ⟨hClosed, rfl⟩)
  · exact .inr (.inr ⟨hClosed, not_lt.mp hEarly, Bool.eq_false_of_not_eq_true hProbing, rfl⟩)

theorem counters_set (b : Breaker) (c c' : Counter) (x : Int) :
    (b.set c x).counters c' = if c' = c then x else b.counters c' :=
  Function.update_apply _ _ _ _

theorem openUntil_set (b : Breaker) (c : Counter) (x : Int) :
    (b.set c x).openUntil = if .openUntilNanos = c then x else b.openUntil :=
  counters_set b c _ x

theorem succeeded_of_closed (h : b.openUntil = 0) :
    b.succeeded cfg = b.set .consecutiveFailures 0 :=
  if_pos h

theorem succeeded_closes (h : b.openUntil ≠ 0)
    (hEnough : cfg.halfOpenSuccesses ≤ b.counters .halfOpenSuccesses + 1) :
    (b.succeeded cfg).openUntil = 0 ∧ (b.succeeded cfg).counters .halfOpenSuccesses = 0 := by
  rw [Breaker.openUntil] at h
  simp [Breaker.succeeded, Breaker.openUntil, counters_set, h, hEnough]

theorem succeeded_counts (h : b.openUntil ≠ 0)
    (hMore : b.counters .halfOpenSuccesses + 1 < cfg.halfOpenSuccesses) :
    (b.succeeded cfg).openUntil = b.openUntil ∧
      (b.succeeded cfg).counters .halfOpenSuccesses = b.counters .halfOpenSuccesses + 1 := by
  rw [Breaker.openUntil] at h
  simp [Breaker.succeeded, Breaker.openUntil, counters_set, h, not_le.mpr hMore]

theorem failed_counts (cfg : BreakerConfig) (now : Int) (b : Breaker) :
    (b.failed cfg now).counters .halfOpenSuccesses = 0 := by
  simp only [Breaker.failed, openUntil_set, counters_set]
  split_ifs <;> simp [counters_set]

theorem failed_openUntil (cfg : BreakerConfig) (now : Int) (b : Breaker) :
    (b.failed cfg now).openUntil =
      if b.openUntil ≠ 0 ∨ cfg.failureThreshold ≤ b.counters .consecutiveFailures + 1
        then now + cfg.openDuration else 0 := by
  simp only [Breaker.failed, Breaker.openUntil, counters_set]
  by_cases hOpen : b.counters .openUntilNanos = 0
  · by_cases hTrips : cfg.failureThreshold ≤ b.counters .consecutiveFailures + 1
    · simp [hOpen, hTrips, counters_set]
    · simp [hOpen, hTrips, counters_set]
  · simp [hOpen, counters_set]

end Outcomes

end Moduless.PluginHost
