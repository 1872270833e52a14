import Moduless.Go.Map
import Moduless.Go.Strconv
import Moduless.HostSvc.Server
import Moduless.Interaction.Machine

/-!
Events between plugins: the in-process bus, the topics that plugins publish to, and the
streams of those who have subscribed.

A call of `Publish` and the setting up of a subscription are one step each; so is each
event that a stream hands over, and its end. Channels are numbered as they are made, and a
stream goes by the number of its channel.
-/

namespace Moduless.Events
open Go Interaction Rpc

/-- An event on the bus, under its topic. -/
structure BusEvent where
  name : Str
  data : Str
  deriving DecidableEq

/-- An event as plugins see it. -/
structure PluginEvent where
  name : Str
  data : Str
  sourcePluginKey : Str
  traceID : Str
  deriving DecidableEq

def eventTopic (sourcePluginKey name : Str) : Str := sourcePluginKey ++ ':' :: name

/-- The publisher and the event that a subscription names. -/
def subscribed (pluginKey eventName : Str) : Str × Str :=
  match cut eventName ':' with
  | some (publisher, rest) => (publisher, rest)
  | none => (pluginKey, eventName)

/-- What a running `Subscribe` call has fixed. -/
structure Stream where
  pluginKey : Str
  source : Str
  name : Str
  deriving DecidableEq

def streamOf (pluginKey eventName : Str) : Stream :=
  ⟨pluginKey, (subscribed pluginKey eventName).1, (subscribed pluginKey eventName).2⟩

def Stream.topic (st : Stream) : Str := eventTopic st.source st.name

def Stream.event (st : Stream) (b : BusEvent) : PluginEvent :=
  { name := st.name, data := b.data, sourcePluginKey := st.source, traceID := [] }

def defaultMaxSubscriptionsPerPlugin : Int := 64

/-- The handler returns the error of the adapter as it is, so it has no code of its own. -/
def tooManySubscriptions (pluginKey : Str) (limit : Int) : Status :=
  ⟨.unknown, "plugin ".toList ++ pluginKey ++ " already has ".toList ++ showInt limit ++
    " subscriptions open, the limit is ".toList ++ showInt limit ++
    "; subscribe once at start-up rather than per request".toList⟩

/-- The bus and its adapter. -/
structure EventWorld where
  subscriberBuffer : Int
  maxSubscriptionsPerPlugin : Int
  subscribers : GoMap Str (List Nat)
  buffers : Nat → List BusEvent
  made : Nat
  streams : GoMap Nat Stream
  subs : GoMap Str Int

namespace EventWorld

variable (w : EventWorld)

def maxPerPlugin : Int :=
  if w.maxSubscriptionsPerPlugin > 0 then w.maxSubscriptionsPerPlugin
  else defaultMaxSubscriptionsPerPlugin

def bufferSize : Nat := if w.subscriberBuffer ≤ 0 then 64 else w.subscriberBuffer.toNat

def listeners (topic : Str) : List Nat := (w.subscribers.get topic).getD []

/-- `EventBus.Subscribe`. -/
def subscribe (topic : Str) (ch : Nat) : GoMap Str (List Nat) :=
  w.subscribers.set topic (w.listeners topic ++ [ch])

/-- `EventBus.Unsubscribe`. -/
def unsubscribe (topic : Str) (ch : Nat) : GoMap Str (List Nat) :=
  let rest := (w.listeners topic).erase ch
  if rest = [] then w.subscribers.delete topic else w.subscribers.set topic rest

def addSubscription (pluginKey : Str) : GoMap Str Int :=
  w.subs.set pluginKey ((w.subs.get pluginKey).getD 0 + 1)

def removeSubscription (pluginKey : Str) : GoMap Str Int :=
  let n := (w.subs.get pluginKey).getD 0
  let n := if n > 0 then n - 1 else n
  if n = 0 then w.subs.delete pluginKey else w.subs.set pluginKey n

/-- `EventBus.Publish` over the channels of the topic: where the buffer is full, the event
is dropped. -/
def send (size : Nat) (ev : BusEvent) (buffers : Nat → List BusEvent) :
    List Nat → (Nat → List BusEvent) × List Nat
  | [] => (buffers, [])
  | ch :: rest =>
    if (buffers ch).length < size then
      send size ev (Function.update buffers ch (buffers ch ++ [ev])) rest
    else ((send size ev buffers rest).1, ch :: (send size ev buffers rest).2)

/-- The stream is set up. -/
def opened (pluginKey eventName : Str) : EventWorld :=
  { w with
    subscribers := w.subscribe (streamOf pluginKey eventName).topic w.made
    buffers := Function.update w.buffers w.made []
    made := w.made + 1
    streams := w.streams.set w.made (streamOf pluginKey eventName)
    subs := w.addSubscription pluginKey }

/-- The deferred calls of `Subscribe`. -/
def closed (ch : Nat) (st : Stream) : EventWorld :=
  { w with
    subscribers := w.unsubscribe st.topic ch
    streams := w.streams.delete ch
    subs := w.removeSubscription st.pluginKey }

end EventWorld

inductive EventOp where
  | publish (s : Server) (name data : Str) (metadata : Option Str) (traceID : Str)
  | subscribe (s : Server) (eventName : Str)
  | deliver (ch : Nat)
  | cancel (ch : Nat)
  deriving DecidableEq

/-- `publish` answers with the channels that were full, `subscribe` with the channel it
made, `deliver` with the event and whether it could be sent. -/
@[reducible] def EventOp.Ans : EventOp → Type
  | .publish _ _ _ _ _ => Except Status (List Nat)
  | .subscribe _ _ => Except Status Nat
  | .deliver _ => PluginEvent × Bool
  | .cancel _ => Unit

def EventHost : Interface := ⟨EventOp, EventOp.Ans⟩

@[reducible] def EventOp.Choice : EventOp → Type
  | .deliver _ => Bool
  | .publish _ _ _ _ _ | .subscribe _ _ | .cancel _ => Unit

namespace EventWorld

variable (w : EventWorld)

/-- `Server.Publish`. The bus is not given the trace id. -/
def publish (s : Server) (name data : Str) : Except Status (List Nat) × EventWorld :=
  match firstOf (s.eventChecks name) with
  | some st => (.error st, w)
  | none =>
    let topic := eventTopic s.key name
    let out := send w.bufferSize ⟨topic, data⟩ w.buffers (w.listeners topic)
    (.ok out.2, { w with buffers := out.1 })

/-- `Server.Subscribe` up to its loop. -/
def subscribeTo (s : Server) (eventName : Str) : Except Status Nat × EventWorld :=
  match firstOf (s.eventChecks eventName) with
  | some st => (.error st, w)
  | none =>
    if (w.subs.get s.key).getD 0 + 1 > w.maxPerPlugin then
      (.error (tooManySubscriptions s.key w.maxPerPlugin), w)
    else (.ok w.made, w.opened s.key eventName)

/-- One round of the loop of `Subscribe`: the first event that waits is handed over, and the
call ends if that fails. -/
def deliver (ch : Nat) (ok : Bool) : Option ((PluginEvent × Bool) × EventWorld) :=
  match w.streams.get ch with
  | none => none
  | some st =>
    match w.buffers ch with
    | [] => none
    | b :: rest =>
      let w := { w with buffers := Function.update w.buffers ch rest }
      some ((st.event b, ok), if ok then w else w.closed ch st)

/-- The context of a stream is done. -/
def cancel (ch : Nat) : Option (Unit × EventWorld) :=
  (w.streams.get ch).map fun st => ((), w.closed ch st)

end EventWorld

def EventOp.exec (w : EventWorld) : (o : EventOp) → o.Choice → Option (o.Ans × EventWorld)
  | .publish s name data _ _, () => some (w.publish s name data)
  | .subscribe s eventName, () => some (w.subscribeTo s eventName)
  | .deliver ch, ok => w.deliver ch ok
  | .cancel ch, () => w.cancel ch

def eventBus : Machine EventHost EventWorld := ⟨EventOp.Choice, EventOp.exec⟩

/-- `NewBusEvents`, with any settings. -/
def newBusEvents (subscriberBuffer maxSubscriptionsPerPlugin : Int) : EventWorld :=
  ⟨subscriberBuffer, maxSubscriptionsPerPlugin, [], fun _ => [], 0, [], []⟩

section Subscribed

variable {p n source name : Str}

theorem streamOf_plain (h : ':' ∉ n) : streamOf p n = ⟨p, p, n⟩ := by
  rw [streamOf, subscribed, cut_eq_none.mpr h]

theorem colonFree_source (h : ':' ∈ n ∨ ':' ∉ p) : ':' ∉ (streamOf p n).source := by
  rw [streamOf, subscribed]
  cases hCut : cut n ':' with
  | none => exact h.resolve_left (cut_eq_none.mp hCut)
  | some parts =>
    obtain ⟨publisher, rest⟩ := parts
    exact (cut_eq_some.mp hCut).2

theorem eventTopic_inj {p' n' : Str} (h : ':' ∉ p) (h' : ':' ∉ p') :
    eventTopic p n = eventTopic p' n' ↔ p = p' ∧ n = n' := append_sep_inj h h'

end Subscribed

section Listeners

variable (w : EventWorld) (topic t : Str) (ch : Nat)

theorem getD_set (l : List Nat) :
    ((w.subscribers.set topic l).get t).getD [] = if t = topic then l else w.listeners t := by
  rw [GoMap.get_set]
  split
  next => rfl
  next => rfl

theorem getD_unsubscribe : ((w.unsubscribe topic ch).get t).getD [] =
    if t = topic then (w.listeners topic).erase ch else w.listeners t := by
  rw [EventWorld.unsubscribe]
  split
  next hEmpty =>
    rw [GoMap.get_delete]
    split
    next => exact hEmpty.symm
    next => rfl
  next => exact getD_set w topic t _

end Listeners

section Send

variable (size : Nat) (ev : BusEvent) (buffers : Nat → List BusEvent) {ch : Nat} {l : List Nat}

theorem send_other (h : ch ∉ l) :
    (EventWorld.send size ev buffers l).1 ch = buffers ch ∧
      ch ∉ (EventWorld.send size ev buffers l).2 := by
  induction l generalizing buffers with
  | nil => exact ⟨rfl, h⟩
  | cons c l ih =>
    rw [List.mem_cons, not_or] at h
    rw [EventWorld.send]
    split
    next =>
      obtain ⟨hSame, hDropped⟩ := ih (Function.update buffers c (buffers c ++ [ev])) h.2
      rw [Function.update_of_ne h.1] at hSame
      exact ⟨hSame, hDropped⟩
    next =>
      obtain ⟨hSame, hDropped⟩ := ih buffers h.2
      exact ⟨hSame, by simp [h.1, hDropped]⟩

theorem send_listener (hNodup : l.Nodup) (h : ch ∈ l) :
    (ch ∉ (EventWorld.send size ev buffers l).2 ∧
        (EventWorld.send size ev buffers l).1 ch = buffers ch ++ [ev]) ∨
      (ch ∈ (EventWorld.send size ev buffers l).2 ∧
        (EventWorld.send size ev buffers l).1 ch = buffers ch ∧ size ≤ (buffers ch).length) := by
  induction l generalizing buffers with
  | nil => cases h
  | cons c l ih =>
    obtain ⟨hc, hNodup⟩ := List.nodup_cons.mp hNodup
    rw [EventWorld.send]
    rcases List.mem_cons.mp h with rfl | hMem
    · split
      next =>
        obtain ⟨hSame, hDropped⟩ :=
          send_other size ev (Function.update buffers ch (buffers ch ++ [ev])) hc
        rw [Function.update_self] at hSame
        exact .inl ⟨hDropped, hSame⟩
      next hFull =>
        obtain ⟨hSame, -⟩ := send_other size ev buffers hc
        exact .inr ⟨List.mem_cons_self, hSame, Nat.not_lt.mp hFull⟩
    · have hne : ch ≠ c := by
        rintro rfl
        exact hc hMem
      split
      next =>
        have hRest := ih (Function.update buffers c (buffers c ++ [ev])) hNodup hMem
        rwa [Function.update_of_ne hne] at hRest
      next =>
        have hRest := ih buffers hNodup hMem
        simpa [hne] using hRest

end Send

section Effects

variable {w w' : EventWorld} {s : Server} {n d tr : Str} {md : Option Str} {ch : Nat}

theorem exec_publish {r : Except Status (List Nat)}
    (h : eventBus.Exec w ⟨.publish s n d md tr, r⟩ w') :
    (w' = w ∧ ∃ e, r = .error e) ∨
      ∃ out, out = EventWorld.send w.bufferSize ⟨eventTopic s.key n, d⟩ w.buffers
          (w.listeners (eventTopic s.key n)) ∧
        r = .ok out.2 ∧ w' = { w with buffers := out.1 } := by
  obtain ⟨⟨⟩, hExec⟩ := h
  have hExec : w.publish s n d = (r, w') := Option.some.inj hExec
  rw [EventWorld.publish] at hExec
  cases hChecks : firstOf (s.eventChecks n) with
  | some e =>
    rw [hChecks] at hExec
    obtain ⟨hReply, hWorld⟩ := Prod.mk.inj hExec
    exact .inl ⟨hWorld.symm, e, hReply.symm⟩
  | none =>
    rw [hChecks] at hExec
    obtain ⟨hReply, hWorld⟩ := Prod.mk.inj hExec
    exact .inr ⟨_, rfl, hReply.symm, hWorld.symm⟩

theorem exec_subscribe {r : Except Status Nat}
    (h : eventBus.Exec w ⟨.subscribe s n, r⟩ w') :
    (w' = w ∧ ∃ e, r = .error e) ∨ (r = .ok w.made ∧ w' = w.opened s.key n) := by
  obtain ⟨⟨⟩, hExec⟩ := h
  have hExec : w.subscribeTo s n = (r, w') := Option.some.inj hExec
  rw [EventWorld.subscribeTo] at hExec
  cases hChecks : firstOf (s.eventChecks n) with
  | some e =>
    rw [hChecks] at hExec
    obtain ⟨hReply, hWorld⟩ := Prod.mk.inj hExec
    exact .inl ⟨hWorld.symm, e, hReply.symm⟩
  | none =>
    rw [hChecks] at hExec
    dsimp only at hExec
    split at hExec
    next =>
      obtain ⟨hReply, hWorld⟩ := Prod.mk.inj hExec
      exact .inl ⟨hWorld.symm, _, hReply.symm⟩
    next =>
      obtain ⟨hReply, hWorld⟩ := Prod.mk.inj hExec
      exact .inr ⟨hReply.symm, hWorld.symm⟩

theorem exec_deliver {r : PluginEvent × Bool} (h : eventBus.Exec w ⟨.deliver ch, r⟩ w') :
    ∃ st b rest, w.streams.get ch = some st ∧ w.buffers ch = b :: rest ∧ r.1 = st.event b ∧
      (r.2 = true ∧ w' = { w with buffers := Function.update w.buffers ch rest } ∨
        r.2 = false ∧
          w' = { w with buffers := Function.update w.buffers ch rest }.closed ch st) := by
  obtain ⟨ok, hExec⟩ := h
  have hExec : w.deliver ch ok = some (r, w') := hExec
  unfold EventWorld.deliver at hExec
  cases hStream : w.streams.get ch with
  | none =>
    rw [hStream] at hExec
    cases hExec
  | some st =>
    rw [hStream] at hExec
    cases hBuffer : w.buffers ch with
    | nil =>
      rw [hBuffer] at hExec
      cases hExec
    | cons b rest =>
      rw [hBuffer] at hExec
      obtain ⟨hReply, hWorld⟩ := Prod.mk.inj (Option.some.inj hExec)
      have hReply : r = (st.event b, ok) := hReply.symm
      rw [hReply]
      refine ⟨st, b, rest, rfl, rfl, rfl, ?_⟩
      cases ok with
      | true => exact .inl ⟨rfl, hWorld.symm⟩
      | false => exact .inr ⟨rfl, hWorld.symm⟩

theorem exec_cancel (h : eventBus.Exec w ⟨.cancel ch, ()⟩ w') :
    ∃ st, w.streams.get ch = some st ∧ w' = w.closed ch st := by
  obtain ⟨⟨⟩, hExec⟩ := h
  obtain ⟨st, hStream, hOut⟩ := Option.map_eq_some_iff.mp hExec
  exact ⟨st, hStream, (Prod.mk.inj hOut).2.symm⟩

end Effects
end Moduless.Events
