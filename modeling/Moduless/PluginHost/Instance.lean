import Moduless.Pipeline.Chain

/-!
Plugin instances and their mutable fields.

An `Instance` is the pointer the rest of Core passes around: its identity and
the fields that never change. The atomic fields behind it live in the host's
state, one `Fields` record for each identity.
-/

namespace Moduless.PluginHost
open Go Pipeline

inductive State where
  | starting
  | ready
  | draining
  | stopped
  | failed
  | quarantined
  deriving DecidableEq

/-- A draining instance may still finish what was routed to it. -/
def State.servable : State → Bool
  | .ready | .draining => true
  | _ => false

structure BreakerConfig where
  failureThreshold : Int
  openDuration : Duration
  halfOpenSuccesses : Int

def defaultBreakerConfig : BreakerConfig := ⟨5, 5 * second, 2⟩

/-- The integer fields of a breaker. -/
inductive Counter where
  | consecutiveFailures
  | openUntilNanos
  | halfOpenSuccesses
  deriving DecidableEq

structure Breaker where
  counters : Counter → Int
  probing : Bool

def newBreaker : Breaker := ⟨fun _ => 0, false⟩

structure Instance where
  id : Nat
  key : Str
  instanceID : Str
  version : Str
  weight : Int
  deriving DecidableEq

/-- The atomic fields of an instance. -/
structure Fields where
  state : State
  inflight : Int
  breaker : Breaker

/-- The fields of an instance `Launch` returns: `NewInstance`, then `MarkReady`. -/
def launchedFields : Fields := ⟨.ready, 0, newBreaker⟩

/-- `NewInstance`; a weight that is not positive counts as one. -/
def newInstance (id : Nat) (key instanceID version : Str) (weight : Int) : Instance :=
  ⟨id, key, instanceID, version, if weight ≤ 0 then 1 else weight⟩

/-- The release function `BeginRequest` returns: the instance it decrements and
the `done` flag that makes it idempotent. -/
@[ext] structure Lease where
  inst : Instance
  cell : Nat
  deriving DecidableEq

end Moduless.PluginHost
