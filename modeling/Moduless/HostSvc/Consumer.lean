import Moduless.HostSvc.Queue
import Moduless.HostSvc.Server

/-!
The queue behind the host services of one plugin instance, and the plugin on the other
end of the stream.

`Consume` runs the queue's loop with the two functions the server gives it: it waits
for room before each claim, and hands a message over in two steps, first the stream
and then the count. `Ack` and `Nack` take one off the count.

The plugin may answer a delivery as soon as it is on the wire, and answers it once: the
world keeps the deliveries it has not called for yet. A call that fails leaves its
delivery unanswered.
-/

namespace Moduless.HostSvc
open Go DB Interaction
open Rpc (Server QueueBackend firstOf)

inductive ServerOp where
  /-- A call of the queue and of the context. -/
  | queue (o : QueueOp)
  | send (m : Message)
  | enteredFlight
  | leftFlight
  /-- The count as `awaitRoom` reads it. -/
  | inflight
  | now
  /-- The pause of `awaitRoom`. -/
  | pause
  /-- The plugin calls for a delivery it has received. -/
  | request (m : Message)
  /-- The call has failed. -/
  | giveBack (m : Message)

/-- `send` says whether it failed, `pause` whether the context is done. -/
@[reducible] def ServerOp.Ans : ServerOp → Type
  | .queue o => o.Ans
  | .send _ | .pause => Bool
  | .inflight | .now => Int
  | .enteredFlight | .leftFlight | .request _ | .giveBack _ => Unit

def ServerHost : Interface := ⟨ServerOp, ServerOp.Ans⟩

abbrev ServerM := Program ServerHost

def serve (o : ServerOp) : ServerM o.Ans := Program.perform (I := ServerHost) o

/-- How a call fails. An error of the loop of `Consume` is not put into a status. -/
inductive RpcError where
  | status (st : Rpc.Status)
  | consume (e : ConsumeError)
  deriving DecidableEq

structure ConsumeRequest where
  topic : Str
  prefetch : Int
  visibilityTimeoutSeconds : Int

def awaitRoomLoop (prefetch deadline : Int) : Nat → ServerM Bool
  | 0 => .call (I := ServerHost) (.queue .diverge) fun e => nomatch e
  | n + 1 => do
      let count ← serve .inflight
      if count < prefetch then pure false
      else
        let now ← serve .now
        if deadline < now then pure false
        else
          let gone ← serve .pause
          if gone then pure true else awaitRoomLoop prefetch deadline n

/-- Waits while as many messages are in flight as the consumer asked for, and no longer
than a message stays invisible. -/
def awaitRoom (prefetch visibility : Int) : ServerM Bool := do
  let prefetch := if prefetch ≤ 0 then 1 else prefetch
  let visibility := if visibility ≤ 0 then defaultVisibility else visibility
  let now ← serve .now
  let n ← serve (.queue .bound)
  awaitRoomLoop prefetch (now + visibility) n

def deliver (m : Message) : ServerM Bool := do
  let failed ← serve (.send m)
  if failed then pure true
  else
    serve .enteredFlight
    pure false

/-- The functions `Consume` gives to the queue. -/
def consumeHandler (prefetch visibility : Int) : (o : QueueOp) → ServerM o.Ans
  | .awaitRoom => awaitRoom prefetch visibility
  | .deliver m => deliver m
  | .stmt s => serve (.queue (.stmt s))
  | .ctxErr => serve (.queue .ctxErr)
  | .wait => serve (.queue .wait)
  | .bound => serve (.queue .bound)
  | .diverge => serve (.queue .diverge)

/-- `Server.Consume`. -/
def serveConsume (s : Server) (req : ConsumeRequest) : ServerM (Except RpcError Unit) :=
  match firstOf (s.topicChecks req.topic) with
  | some st => pure (.error (.status st))
  | none => do
      let visibility := req.visibilityTimeoutSeconds * second
      let stream := consume ⟨s.key, req.topic, req.prefetch, visibility⟩
        (some (op .awaitRoom)) fun m => op (.deliver m)
      let failed ← stream.handle (consumeHandler req.prefetch visibility)
      match failed with
      | none => pure (.ok ())
      | some e => pure (.error (.consume e))

/-- The table behind the server; `text` is what its errors say. -/
def tableQueue (text : QueueError → Str) : QueueBackend ServerHost Message where
  ack pluginKey m := do
    let out ← serve (.queue (.stmt (.ack pluginKey m.id m.claim)))
    pure (out.result.mapError text)
  nack pluginKey m reason retryAfter := do
    let out ← serve (.queue (.stmt (.nack pluginKey m.id m.claim reason retryAfter)))
    pure ((out.result.map fun _ => ()).mapError text)
  leftFlight := serve .leftFlight

/-- A call the plugin makes for a delivery. -/
def answering (m : Message) (rpc : ServerM (Except Rpc.Status Unit)) :
    ServerM (Except RpcError Unit) := do
  serve (.request m)
  let result ← rpc
  match result with
  | .ok () => pure (.ok ())
  | .error st => do
      serve (.giveBack m)
      pure (.error (.status st))

structure ServerWorld where
  queue : QueueWorld
  inflight : Int
  /-- The deliveries on the wire that the plugin has not called for. -/
  unanswered : List Message
  /-- How often a message left when the count was zero. -/
  lost : Nat

@[reducible] def ServerOp.Choice : ServerOp → Type
  | .queue o => o.Choice
  | .send _ | .pause => Bool
  | .now => Int
  | .enteredFlight | .leftFlight | .inflight | .request _ | .giveBack _ => Unit

namespace ServerWorld

def enteredFlight (w : ServerWorld) : ServerWorld := { w with inflight := w.inflight + 1 }

def leftFlight (w : ServerWorld) : ServerWorld :=
  if w.inflight > 0 then { w with inflight := w.inflight - 1 }
  else { w with lost := w.lost + 1 }

def exec (w : ServerWorld) : (o : ServerOp) → o.Choice → Option (o.Ans × ServerWorld)
  | .queue o, choice => (w.queue.exec o choice).map fun p => (p.1, { w with queue := p.2 })
  | .send m, failed =>
    some (failed, if failed then w else { w with unanswered := m :: w.unanswered })
  | .enteredFlight, _ => some ((), w.enteredFlight)
  | .leftFlight, _ => some ((), w.leftFlight)
  | .inflight, _ => some (w.inflight, w)
  | .now, now => some (now, w)
  | .pause, gone => some (gone, w)
  | .request m, _ =>
    if m ∈ w.unanswered then some ((), { w with unanswered := w.unanswered.erase m }) else none
  | .giveBack m, _ => some ((), { w with unanswered := m :: w.unanswered })

end ServerWorld

def serverMachine : Machine ServerHost ServerWorld := ⟨ServerOp.Choice, ServerWorld.exec⟩

/-- Calls of the plugin, and statements that others run on the same table. -/
inductive ServerCall where
  | consume (req : ConsumeRequest)
  | ack (m : Message)
  | nack (m : Message) (reason : Str) (retryAfterSeconds : Int)
  | other (stmt : Statement)

def ServerCall.body (s : Server) (text : QueueError → Str) :
    ServerCall → ServerM (Except RpcError Unit)
  | .consume req => serveConsume s req
  | .ack m => answering m (s.ack (tableQueue text) m)
  | .nack m reason retryAfterSeconds =>
    answering m (s.nack (tableQueue text) m reason retryAfterSeconds)
  | .other stmt => do
      let _ ← serve (.queue (.stmt stmt))
      pure (.ok ())

def serverSystem (s : Server) (text : QueueError → Str) :
    System ServerHost ServerWorld ServerCall (Except RpcError Unit) :=
  ⟨serverMachine, ServerCall.body s text, fun _ => []⟩

abbrev ServerPool := Pool ServerHost ServerWorld ServerCall (Except RpcError Unit)

abbrev ServerThread := Thread ServerHost ServerCall (Except RpcError Unit)

/-- A new server, on a queue in any state. -/
def newServer (queue : QueueWorld) : ServerPool := ⟨⟨queue, 0, [], 0⟩, []⟩

end Moduless.HostSvc
