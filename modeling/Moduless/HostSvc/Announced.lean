import Moduless.HostSvc.GivenUp

/-!
Dead letters and their announcement. `Nack` learns from its statement that a message
was given up and calls `OnDeadLetter`; `ReapExpired` gives up messages in bulk and
learns their number only. An announcement is never made for a message that did not
die, so the two counts agree only if they agree at every call.
-/

namespace Moduless.DB
open Go

section Deaths

variable {t t' : QueueTable} {id : Int}

end Deaths
end Moduless.DB

namespace Moduless.HostSvc
open Go DB

/-- A call of the queue, with the tables before and after it. -/
structure Called where
  turn : Turn
  stmt : Statement
  result : Except QueueError stmt.Result
  before : QueueTable
  after : QueueTable

/-- The call gives up no message without being told so: a rejection whose answer gets
lost and a reaping that takes place find no message on its last attempt. -/
def Called.Told (c : Called) : Prop :=
  match c.stmt with
  | .nack ownerKey id _ _ _ =>
    c.turn.fault = .lost → ∀ r ∈ c.before.rows, held ownerKey id r = true →
      r.attempts < r.maxAttempts
  | .reapExpired =>
    c.turn.fault ≠ .refused → ∀ r ∈ c.before.rows, expired (c.turn.moment 0) r = true →
      r.attempts < r.maxAttempts
  | _ => True

section Step

variable {turn : Turn} {n : Nat} {t t' : QueueTable}

variable {c : Called} (h : c.turn.settle n c.before c.stmt = some (c.result, c.after))

include h

end Step

end Moduless.HostSvc
