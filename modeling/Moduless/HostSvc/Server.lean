import Moduless.Go.Builtin
import Moduless.Interaction.Program

/-!
The host services of one plugin instance: what the plugin was granted, what Core has set
up for it, and how a call is refused.

`Ack` and `Nack` are here for any queue behind the server, the one on the other side of
the wire as well as the table itself.
-/

namespace Moduless.Rpc
open Go Interaction

inductive Code where
  | canceled
  | unknown
  | invalidArgument
  | deadlineExceeded
  | notFound
  | alreadyExists
  | permissionDenied
  | resourceExhausted
  | failedPrecondition
  | aborted
  | outOfRange
  | unimplemented
  | internal
  | unavailable
  | dataLoss
  | unauthenticated
  deriving DecidableEq

structure Status where
  code : Code
  message : Str
  deriving DecidableEq

def showInt (n : Int) : Str := (toString n).toList

def permDB : Str := "db".toList

def permDBTx : Str := "db:tx".toList

def permQueue : Str := "queue".toList

def permEvents : Str := "events".toList

structure Server where
  key : Str
  perms : List Str
  hasData : Bool
  hasQueue : Bool
  hasEvents : Bool
  hasEgress : Bool
  deriving DecidableEq

/-- The first of several checks that fails. -/
def firstOf : List (Option Status) → Option Status
  | [] => none
  | some st :: _ => some st
  | none :: rest => firstOf rest

/-- The trace id in the metadata of a call, or the one in the request. -/
def traceFrom (metadata : Option Str) (fallback : Str) : Str :=
  match metadata with
  | some id => if id ≠ [] then id else fallback
  | none => fallback

/-- The queue that `Ack` and `Nack` call, where deliveries go by an `ι` and an error is its
text; `leftFlight` is the count of the server. -/
structure QueueBackend (I : Interface) (ι : Type) where
  ack : Str → ι → Program I (Except Str Unit)
  nack : Str → ι → Str → Int → Program I (Except Str Unit)
  leftFlight : Program I Unit

namespace Server

variable (s : Server)

def require (perm : Str) : Option Status :=
  if perm ∈ s.perms then none
  else some ⟨.permissionDenied, "plugin \"".toList ++ s.key ++ "\" is not granted the \"".toList ++
    perm ++ ("\" permission; declare it under permissions: in manifest.yaml and have an admin " ++
      "approve it").toList⟩

def unavailable (what : String) : Status :=
  ⟨.unavailable, (what ++ " is not configured on this Core instance").toList⟩

def queueChecks : List (Option Status) :=
  [s.require permQueue, if s.hasQueue then none else some (unavailable "the durable queue")]

def topicChecks (topic : Str) : List (Option Status) :=
  s.queueChecks ++
    [if topic = [] then some ⟨.invalidArgument, "topic is required".toList⟩ else none]

def eventChecks (eventName : Str) : List (Option Status) :=
  [s.require permEvents, if s.hasEvents then none else some (unavailable "the event bus"),
    if eventName = [] then some ⟨.invalidArgument, "event name is required".toList⟩ else none]

section Queue

variable {I : Interface} {ι : Type} (queue : QueueBackend I ι)

/-- What `Ack` and `Nack` do with their call of the queue. -/
def settle (what : String) (call : Program I (Except Str Unit)) :
    Program I (Except Status Unit) :=
  match firstOf s.queueChecks with
  | some st => pure (.error st)
  | none => do
      let result ← call
      match result with
      | .error text => pure (.error ⟨.internal, (what ++ ": ").toList ++ text⟩)
      | .ok () => do
          queue.leftFlight
          pure (.ok ())

def ack (messageID : ι) : Program I (Except Status Unit) :=
  s.settle queue "ack" (queue.ack s.key messageID)

def nack (messageID : ι) (error : Str) (retryAfterSeconds : Int) :
    Program I (Except Status Unit) :=
  s.settle queue "nack" (queue.nack s.key messageID error (retryAfterSeconds * second))

end Queue
end Server
end Moduless.Rpc
