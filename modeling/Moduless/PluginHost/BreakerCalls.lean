import Moduless.Interaction.Accounts
import Moduless.PluginHost.Breaker

/-!
Callers that share a breaker whose operations are not interrupted, but whose calls
overlap in any way.

An admission says whether `Allow` let the call through an open breaker and how often
the breaker had tripped by then. It is not part of the program: `Allow` answers yes or
no, and a record does not say which call it is for. The world also keeps the successes
recorded since the last failure of an open breaker, and what they were whenever an open
breaker was closed.
-/

namespace Moduless.PluginHost
open Go Interaction Discipline

structure Admission where
  probe : Bool
  trips : Nat
  deriving DecidableEq

inductive OutcomeOp where
  | allow
  | record (ok : Bool) (a : Option Admission)

@[reducible] def OutcomeOp.Ans : OutcomeOp → Type
  | .allow => Option Admission
  | .record _ _ => Unit

def OutcomeHost : Interface := ⟨OutcomeOp, OutcomeOp.Ans⟩

/-- An open breaker was closed: the trip it had been open since, and the successes. -/
structure Closing where
  trips : Nat
  streak : List (Option Admission)

structure OutcomeWorld where
  breaker : Breaker
  clock : Int
  trips : Nat
  streak : List (Option Admission)
  closings : List Closing

def OutcomeWorld.isOpen (w : OutcomeWorld) : Bool := w.breaker.openUntil ≠ 0

/-- The breaker after a record. -/
def OutcomeWorld.put (w : OutcomeWorld) (b : Breaker) (clock : Int)
    (streak : List (Option Admission)) : OutcomeWorld where
  breaker := b
  clock := clock
  trips := if !w.isOpen && b.openUntil ≠ 0 then w.trips + 1 else w.trips
  streak := if b.openUntil ≠ 0 then streak else []
  closings := if w.isOpen && b.openUntil = 0 then ⟨w.trips, streak⟩ :: w.closings else w.closings

@[reducible] def OutcomeOp.Choice : OutcomeOp → Type
  | .allow => Int
  | .record _ _ => Int

def OutcomeWorld.exec (cfg : BreakerConfig) (w : OutcomeWorld) :
    (o : OutcomeOp) → o.Choice → Option (o.Ans × OutcomeWorld)
  | .allow, now =>
    if now < w.clock then none
    else
      let out := w.breaker.allowAt now
      some (if out.1 then some ⟨w.isOpen, w.trips⟩ else none,
        { w with breaker := out.2, clock := now })
  | .record ok a, now =>
    if now < w.clock then none
    else if ok then
      some ((), w.put (w.breaker.succeeded cfg) now (if w.isOpen then a :: w.streak else []))
    else some ((), w.put (w.breaker.failed cfg now) now [])

def outcomeMachine (cfg : BreakerConfig) : Machine OutcomeHost OutcomeWorld :=
  ⟨OutcomeOp.Choice, OutcomeWorld.exec cfg⟩

abbrev OutcomeM := Program OutcomeHost

def outcome (o : OutcomeOp) : OutcomeM o.Ans := Program.perform (I := OutcomeHost) o

/-- The calls of the breaker; the admission is handed on for the record of it. -/
def BreakerCall.outcomes : BreakerCall → OutcomeM Bool
  | .filter ok => do
      let admitted ← outcome .allow
      match admitted with
      | none => pure false
      | some a => do
          outcome (.record ok (some a))
          pure true
  | .backend ok => do
      outcome (.record ok none)
      pure true

def outcomeSystem (cfg : BreakerConfig) : System OutcomeHost OutcomeWorld BreakerCall Bool :=
  ⟨outcomeMachine cfg.normalized, BreakerCall.outcomes, fun _ => []⟩

abbrev OutcomePool := Pool OutcomeHost OutcomeWorld BreakerCall Bool

abbrev OutcomeThread := Thread OutcomeHost BreakerCall Bool

def outcomeAt (now : Int) : (o : OutcomeOp) → o.Choice
  | .allow | .record _ _ => now

def freshOutcomes (clock : Nat) : OutcomePool := ⟨⟨newBreaker, clock, 0, [], []⟩, []⟩

section Steps

variable {cfg : BreakerConfig} {w w' : OutcomeWorld} {b : Breaker} {clock : Int}
  {streak : List (Option Admission)}

theorem isOpen_iff : w.isOpen = true ↔ w.breaker.openUntil ≠ 0 := decide_eq_true_iff

theorem not_isOpen_iff : w.isOpen = false ↔ w.breaker.openUntil = 0 := by
  rw [← Bool.not_eq_true, isOpen_iff, not_not]

theorem put_closed (hw : w.isOpen = false) (hb : b.openUntil = 0) :
    w.put b clock streak = ⟨b, clock, w.trips, [], w.closings⟩ := by
  simp [OutcomeWorld.put, hw, hb]

theorem put_open (hw : w.isOpen = true) (hb : b.openUntil ≠ 0) :
    w.put b clock streak = ⟨b, clock, w.trips, streak, w.closings⟩ := by
  simp [OutcomeWorld.put, hw, hb]

theorem put_closing (hw : w.isOpen = true) (hb : b.openUntil = 0) :
    w.put b clock streak = ⟨b, clock, w.trips, [], ⟨w.trips, streak⟩ :: w.closings⟩ := by
  simp [OutcomeWorld.put, hw, hb]

theorem put_tripping (hw : w.isOpen = false) (hb : b.openUntil ≠ 0) :
    w.put b clock streak = ⟨b, clock, w.trips + 1, streak, w.closings⟩ := by
  simp [OutcomeWorld.put, hw, hb]

inductive OutcomeStep (cfg : BreakerConfig) (w : OutcomeWorld) :
    Event OutcomeHost → OutcomeWorld → Prop
  | refused {now : Int} : w.clock ≤ now →
      OutcomeStep cfg w ⟨.allow, none⟩ { w with clock := now }
  | admitted {now : Int} : w.clock ≤ now → w.isOpen = false →
      OutcomeStep cfg w ⟨.allow, some ⟨false, w.trips⟩⟩ { w with clock := now }
  | probed {now : Int} : w.clock ≤ now → w.isOpen = true → w.breaker.probing = false →
      OutcomeStep cfg w ⟨.allow, some ⟨true, w.trips⟩⟩
        { w with breaker := { w.breaker with probing := true }, clock := now }
  | succeeded {now : Int} {a : Option Admission} : w.clock ≤ now →
      OutcomeStep cfg w ⟨.record true a, ()⟩
        (w.put (w.breaker.succeeded cfg) now (if w.isOpen then a :: w.streak else []))
  | failed {now : Int} {a : Option Admission} : w.clock ≤ now →
      OutcomeStep cfg w ⟨.record false a, ()⟩ (w.put (w.breaker.failed cfg now) now [])

theorem outcomeStep_of_exec {e : Event OutcomeHost} (h : (outcomeMachine cfg).Exec w e w') :
    OutcomeStep cfg w e w' := by
  obtain ⟨o, r⟩ := e
  obtain ⟨now, hExec⟩ := h
  have hExec : w.exec cfg o now = some (r, w') := hExec
  cases o with
  | allow =>
    simp only [OutcomeWorld.exec] at hExec
    split at hExec
    next => cases hExec
    next hClock =>
      have hLater := not_lt.mp hClock
      rcases allowAt_cases now w.breaker with
        ⟨hClosed, hAllow⟩ | ⟨-, hAllow⟩ | ⟨hOpen, -, hProbing, hAllow⟩
      · have hIs : w.isOpen = false := decide_eq_false (not_not_intro hClosed)
        rw [hAllow, hIs] at hExec
        cases hExec
        exact .admitted hLater hIs
      · rw [hAllow] at hExec
        cases hExec
        exact .refused hLater
      · have hIs : w.isOpen = true := decide_eq_true hOpen
        rw [hAllow, hIs] at hExec
        cases hExec
        exact .probed hLater hIs hProbing
  | record ok a =>
    simp only [OutcomeWorld.exec] at hExec
    split at hExec
    next => cases hExec
    next hClock =>
      cases ok with
      | true =>
        cases hExec
        exact .succeeded (not_lt.mp hClock)
      | false =>
        cases hExec
        exact .failed (not_lt.mp hClock)

end Steps

end Moduless.PluginHost
