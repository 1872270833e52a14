import Moduless.HostSvc.Events
import Moduless.Manifest.Declaration

/-!
What a subscription is given, and by whom it was published.

The publisher and the name are joined with a colon into the topic, and a subscription
takes the first colon of what it names for that one. A key with a colon in it makes the
two readings differ. The bus carries the topic and the data and nothing else.
-/

namespace Moduless.Events
open Go Interaction Machine Rpc

/-- The plugin has published the event. -/
def Publishes (p n d traceID : Str) (y : Event EventHost) : Prop :=
  ∃ s md req dropped, y = ⟨.publish s n d md req, .ok dropped⟩ ∧ s.key = p ∧
    traceFrom md req = traceID

/-- Whatever a stream hands over was published as it says. -/
def Authentic (es : List (Event EventHost)) : Prop :=
  ∀ u ch ev ok rest, es = u ++ ⟨.deliver ch, (ev, ok)⟩ :: rest →
    ∃ y ∈ u, Publishes ev.sourcePluginKey ev.name ev.data ev.traceID y

/-- The data of an event that was put in the buffer of the channel. -/
def acceptedBy (topic : Str) (ch : Nat) : Event EventHost → Option Str
  | ⟨.publish s n d _ _, .ok dropped⟩ =>
    if eventTopic s.key n = topic ∧ ch ∉ dropped then some d else none
  | _ => none

def deliveredTo (ch : Nat) : Event EventHost → Option PluginEvent
  | ⟨.deliver c, r⟩ => if c = ch then some r.1 else none
  | _ => none

/-- The stream ends with the step. -/
def Ends (ch : Nat) (y : Event EventHost) : Prop :=
  y = ⟨.cancel ch, ()⟩ ∨ ∃ ev, y = ⟨.deliver ch, (ev, false)⟩

/-- While a subscription of a plugin to one of its own events runs, what the plugin
publishes under the name is handed over in order or waits, except for what found the
buffer full. -/
def Complete (size : Nat) (es : List (Event EventHost)) : Prop :=
  ∀ u s n ch v, es = u ++ ⟨.subscribe s n, .ok ch⟩ :: v → ':' ∉ n → (∀ y ∈ v, ¬ Ends ch y) →
    (∃ waiting, v.filterMap (acceptedBy (eventTopic s.key n) ch) =
      (v.filterMap (deliveredTo ch)).map PluginEvent.data ++ waiting) ∧
    (∀ ev ∈ v.filterMap (deliveredTo ch), ev.sourcePluginKey = s.key ∧ ev.name = n) ∧
    ∀ v₁ s' d md req dropped v₂, v = v₁ ++ ⟨.publish s' n d md req, .ok dropped⟩ :: v₂ →
      s'.key = s.key → ch ∈ dropped →
        (v₁.filterMap (deliveredTo ch)).length + size ≤
          (v₁.filterMap (acceptedBy (eventTopic s.key n) ch)).length

/-- The calls that the topics and the bus are up to. -/
def Unambiguous : Event EventHost → Prop
  | ⟨.publish s _ _ md req, _⟩ => ':' ∉ s.key ∧ traceFrom md req = []
  | ⟨.subscribe s n, _⟩ => ':' ∈ n ∨ ':' ∉ s.key
  | ⟨.deliver _, _⟩ | ⟨.cancel _, _⟩ => True

/-- Streams and listeners belong together. -/
structure Wired (w : EventWorld) : Prop where
  listed : ∀ topic ch, ch ∈ w.listeners topic →
    ∃ st, w.streams.get ch = some st ∧ st.topic = topic
  listening : ∀ ch st, w.streams.get ch = some st → ch ∈ w.listeners st.topic
  made : ∀ ch st, w.streams.get ch = some st → ch < w.made
  distinct : ∀ topic, (w.listeners topic).Nodup

section Wired

variable {w w' : EventWorld} {ch : Nat} {st : Stream}

theorem Wired.buffers (hw : Wired w) (buffers : Nat → List BusEvent) :
    Wired { w with buffers := buffers } := ⟨hw.listed, hw.listening, hw.made, hw.distinct⟩

theorem listeners_opened (w : EventWorld) (p n t : Str) :
    (w.opened p n).listeners t =
      if t = (streamOf p n).topic then w.listeners t ++ [w.made] else w.listeners t := by
  refine (getD_set w _ t _).trans ?_
  by_cases h : t = (streamOf p n).topic
  · rw [if_pos h, if_pos h, h]
  · rw [if_neg h, if_neg h]

theorem streams_opened (w : EventWorld) (p n : Str) (c : Nat) :
    (w.opened p n).streams.get c = if c = w.made then some (streamOf p n) else w.streams.get c :=
  GoMap.get_set _ _ _ _

theorem Wired.opened (hw : Wired w) (p n : Str) : Wired (w.opened p n) where
  listed topic c hc := by
    rw [listeners_opened] at hc
    rw [streams_opened]
    split at hc
    next hTopic =>
      rcases List.mem_append.mp hc with hc | hc
      · obtain ⟨st, hStream, hSame⟩ := hw.listed topic c hc
        rw [if_neg (hw.made c st hStream).ne]
        exact ⟨st, hStream, hSame⟩
      · rw [if_pos (List.mem_singleton.mp hc)]
        exact ⟨_, rfl, hTopic.symm⟩
    next =>
      obtain ⟨st, hStream, hSame⟩ := hw.listed topic c hc
      rw [if_neg (hw.made c st hStream).ne]
      exact ⟨st, hStream, hSame⟩
  listening c st hStream := by
    rw [streams_opened] at hStream
    rw [listeners_opened]
    split at hStream
    next hc =>
      cases hStream
      rw [if_pos rfl, hc]
      simp
    next =>
      have hOld := hw.listening c st hStream
      split
      next => exact List.mem_append_left _ hOld
      next => exact hOld
  made c st hStream := by
    rw [streams_opened] at hStream
    change c < w.made + 1
    split at hStream
    next hc => omega
    next => exact (hw.made c st hStream).trans (Nat.lt_succ_self _)
  distinct topic := by
    rw [listeners_opened]
    split
    next =>
      refine List.nodup_append.mpr ⟨hw.distinct topic, List.nodup_singleton _, ?_⟩
      intro c hc c' hc' hEq
      obtain ⟨st, hStream, -⟩ := hw.listed topic c hc
      have hLt := hw.made c st hStream
      rw [List.mem_singleton.mp hc'] at hEq
      omega
    next => exact hw.distinct topic

theorem listeners_closed (w : EventWorld) (ch : Nat) (st : Stream) (t : Str) :
    (w.closed ch st).listeners t =
      if t = st.topic then (w.listeners st.topic).erase ch else w.listeners t :=
  getD_unsubscribe w st.topic t ch

theorem streams_closed (w : EventWorld) (ch : Nat) (st : Stream) (c : Nat) :
    (w.closed ch st).streams.get c = if c = ch then none else w.streams.get c :=
  GoMap.get_delete _ _ _

theorem Wired.closed (hw : Wired w) (hStream : w.streams.get ch = some st) :
    Wired (w.closed ch st) where
  listed topic c hc := by
    rw [listeners_closed] at hc
    rw [streams_closed]
    split at hc
    next hTopic =>
      obtain ⟨hne, hMem⟩ := (hw.distinct _).mem_erase_iff.mp hc
      rw [if_neg hne, hTopic]
      exact hw.listed st.topic c hMem
    next hTopic =>
      obtain ⟨st', hStream', hSame⟩ := hw.listed topic c hc
      have hne : c ≠ ch := by
        rintro rfl
        cases hStream.symm.trans hStream'
        exact hTopic hSame.symm
      rw [if_neg hne]
      exact ⟨st', hStream', hSame⟩
  listening c st' hStream' := by
    rw [streams_closed] at hStream'
    split at hStream'
    next => cases hStream'
    next hne =>
      have hOld := hw.listening c st' hStream'
      rw [listeners_closed]
      split
      next hTopic => exact (hw.distinct _).mem_erase_iff.mpr ⟨hne, hTopic ▸ hOld⟩
      next => exact hOld
  made c st' hStream' := by
    rw [streams_closed] at hStream'
    split at hStream'
    next => cases hStream'
    next => exact hw.made c st' hStream'
  distinct topic := by
    rw [listeners_closed]
    split
    next => exact (hw.distinct _).erase _
    next => exact hw.distinct topic

theorem Wired.step (hw : Wired w) {y : Event EventHost} (h : eventBus.Exec w y w') : Wired w' := by
  obtain ⟨o, r⟩ := y
  cases o with
  | publish s n d md req =>
    obtain ⟨rfl, -⟩ | ⟨out, -, -, rfl⟩ := exec_publish h
    · exact hw
    · exact hw.buffers _
  | subscribe s n =>
    obtain ⟨rfl, -⟩ | ⟨-, rfl⟩ := exec_subscribe h
    · exact hw
    · exact hw.opened _ _
  | deliver ch =>
    obtain ⟨st, b, rest, hStream, -, -, ⟨-, rfl⟩ | ⟨-, rfl⟩⟩ := exec_deliver h
    · exact hw.buffers _
    · exact (hw.buffers _).closed hStream
  | cancel ch =>
    obtain ⟨st, hStream, rfl⟩ := exec_cancel h
    exact hw.closed hStream

theorem wired_new (size limit : Int) : Wired (newBusEvents size limit) where
  listed _ _ h := by cases h
  listening _ _ h := by cases h
  made _ _ h := by cases h
  distinct _ := List.nodup_nil

end Wired

/-- An event with the data was published to the topic. -/
def PublishedTo (topic data : Str) (y : Event EventHost) : Prop :=
  ∃ s n md req dropped, y = ⟨.publish s n data md req, .ok dropped⟩ ∧ eventTopic s.key n = topic

section Publish

variable {w w' : EventWorld} {ch : Nat} {st : Stream} {s : Server} {n d req : Str}
  {md : Option Str} {r : Except Status (List Nat)}

theorem publish_frame (h : eventBus.Exec w ⟨.publish s n d md req, r⟩ w') :
    w'.streams = w.streams ∧ w'.bufferSize = w.bufferSize := by
  obtain ⟨rfl, -⟩ | ⟨out, -, -, rfl⟩ := exec_publish h <;> exact ⟨rfl, rfl⟩

/-- What a publication does to the buffer of a stream. -/
theorem publish_feeds (hw : Wired w) (hStream : w.streams.get ch = some st)
    (h : eventBus.Exec w ⟨.publish s n d md req, r⟩ w') :
    (acceptedBy st.topic ch ⟨.publish s n d md req, r⟩ = none ∧ w'.buffers ch = w.buffers ch) ∨
      (acceptedBy st.topic ch ⟨.publish s n d md req, r⟩ = some d ∧
        w'.buffers ch = w.buffers ch ++ [⟨st.topic, d⟩]) := by
  obtain ⟨rfl, e, rfl⟩ | ⟨out, rfl, rfl, rfl⟩ := exec_publish h
  · exact .inl ⟨rfl, rfl⟩
  · by_cases hTopic : eventTopic s.key n = st.topic
    · have hListens := hw.listening ch st hStream
      rw [← hTopic] at hListens ⊢
      obtain ⟨hKept, hGot⟩ | ⟨hDropped, hSame, -⟩ :=
        send_listener w.bufferSize ⟨eventTopic s.key n, d⟩ w.buffers (hw.distinct _) hListens
      · exact .inr ⟨if_pos ⟨rfl, hKept⟩, hGot⟩
      · exact .inl ⟨if_neg fun h => h.2 hDropped, hSame⟩
    · have hOther : ch ∉ w.listeners (eventTopic s.key n) := by
        intro hListens
        obtain ⟨st', hStream', hSame⟩ := hw.listed _ ch hListens
        cases hStream.symm.trans hStream'
        exact hTopic hSame.symm
      refine .inl ⟨if_neg fun h => hTopic h.1, ?_⟩
      exact (send_other w.bufferSize ⟨eventTopic s.key n, d⟩ w.buffers hOther).1

theorem publish_drops (hw : Wired w) {dropped : List Nat}
    (h : eventBus.Exec w ⟨.publish s n d md req, .ok dropped⟩ w') (hDropped : ch ∈ dropped) :
    w.bufferSize ≤ (w.buffers ch).length := by
  obtain ⟨-, e, hr⟩ | ⟨out, rfl, hr, -⟩ := exec_publish h
  · cases hr
  · cases hr
    by_cases hListens : ch ∈ w.listeners (eventTopic s.key n)
    · obtain ⟨hKept, -⟩ | ⟨-, -, hFull⟩ :=
        send_listener w.bufferSize ⟨eventTopic s.key n, d⟩ w.buffers (hw.distinct _) hListens
      · exact absurd hDropped hKept
      · exact hFull
    · exact absurd hDropped (send_other w.bufferSize _ w.buffers hListens).2

theorem publishedTo_of_accepted {topic d' : Str}
    (h : acceptedBy topic ch ⟨.publish s n d md req, r⟩ = some d') :
    PublishedTo topic d ⟨.publish s n d md req, r⟩ := by
  cases r with
  | error e => cases h
  | ok dropped =>
    obtain ⟨hAccepted, -⟩ := Option.ite_none_right_eq_some.mp h
    exact ⟨s, n, md, req, dropped, rfl, hAccepted.1⟩

end Publish

/-- What waits in a buffer was published to the topic of the stream, and who subscribed
without ambiguity names a publisher without a colon. -/
structure Sourced (es : List (Event EventHost)) (w : EventWorld) : Prop extends Wired w where
  published : ∀ ch st b, w.streams.get ch = some st → b ∈ w.buffers ch →
    ∃ y ∈ es, PublishedTo st.topic b.data y
  colonFree : ∀ ch st, w.streams.get ch = some st → ':' ∉ st.source

section Sourced

variable {es : List (Event EventHost)} {w w' : EventWorld} {y : Event EventHost}

theorem Sourced.published_snoc (hw : Sourced es w) {ch : Nat} {st : Stream} {b : BusEvent}
    (hStream : w.streams.get ch = some st) (hb : b ∈ w.buffers ch) :
    ∃ z ∈ es ++ [y], PublishedTo st.topic b.data z := by
  obtain ⟨z, hz, hTo⟩ := hw.published ch st b hStream hb
  exact ⟨z, List.mem_append_left _ hz, hTo⟩

/-- With no more streams, and no more in their buffers, nothing has to be shown. -/
theorem Sourced.shrink (hw : Sourced es w) (hWired : Wired w')
    (hStreams : ∀ ch st, w'.streams.get ch = some st → w.streams.get ch = some st)
    (hBuffers : ∀ ch b, b ∈ w'.buffers ch → b ∈ w.buffers ch) : Sourced (es ++ [y]) w' where
  toWired := hWired
  published ch st b hStream hb := hw.published_snoc (hStreams ch st hStream) (hBuffers ch b hb)
  colonFree ch st hStream := hw.colonFree ch st (hStreams ch st hStream)

theorem Sourced.step (hw : Sourced es w) (h : eventBus.Exec w y w') (hy : Unambiguous y) :
    Sourced (es ++ [y]) w' := by
  have hWired := hw.toWired.step h
  obtain ⟨o, r⟩ := y
  cases o with
  | publish s n d md req =>
    obtain ⟨hStreams, -⟩ := publish_frame h
    refine ⟨hWired, fun ch st b hStream hb => ?_, fun ch st hStream => ?_⟩
    · rw [hStreams] at hStream
      obtain ⟨-, hSame⟩ | ⟨hAccepted, hGot⟩ := publish_feeds hw.toWired hStream h
      · rw [hSame] at hb
        exact hw.published_snoc hStream hb
      · rw [hGot] at hb
        rcases List.mem_append.mp hb with hb | hb
        · exact hw.published_snoc hStream hb
        · rw [List.mem_singleton.mp hb]
          exact ⟨_, List.mem_append_right _ (List.mem_singleton_self _),
            publishedTo_of_accepted hAccepted⟩
    · rw [hStreams] at hStream
      exact hw.colonFree ch st hStream
  | subscribe s n =>
    obtain ⟨rfl, -⟩ | ⟨-, rfl⟩ := exec_subscribe h
    · exact hw.shrink hWired (fun _ _ h => h) fun _ _ h => h
    · refine ⟨hWired, fun ch st b hStream hb => ?_, fun ch st hStream => ?_⟩
      · rw [streams_opened] at hStream
        change b ∈ Function.update w.buffers w.made [] ch at hb
        split at hStream
        next hNew =>
          rw [hNew, Function.update_self] at hb
          cases hb
        next hOther =>
          rw [Function.update_of_ne hOther] at hb
          exact hw.published_snoc hStream hb
      · rw [streams_opened] at hStream
        split at hStream
        next =>
          cases hStream
          exact colonFree_source hy
        next => exact hw.colonFree ch st hStream
  | deliver ch =>
    obtain ⟨st, b, rest, hStream, hBuffer, -, hEnd⟩ := exec_deliver h
    have hBuffers : ∀ c b', b' ∈ Function.update w.buffers ch rest c → b' ∈ w.buffers c := by
      intro c b' hb'
      by_cases hc : c = ch
      · rw [hc, Function.update_self] at hb'
        rw [hc, hBuffer]
        exact List.mem_cons_of_mem _ hb'
      · rwa [Function.update_of_ne hc] at hb'
    obtain ⟨-, rfl⟩ | ⟨-, rfl⟩ := hEnd
    · exact hw.shrink hWired (fun _ _ h => h) hBuffers
    · refine hw.shrink hWired (fun c st' hGet => ?_) hBuffers
      rw [streams_closed] at hGet
      exact (Option.ite_none_left_eq_some.mp hGet).2
  | cancel ch =>
    obtain ⟨st, hStream, rfl⟩ := exec_cancel h
    refine hw.shrink hWired (fun c st' hGet => ?_) fun _ _ h => h
    rw [streams_closed] at hGet
    exact (Option.ite_none_left_eq_some.mp hGet).2

theorem sourced_of_trace {size limit : Int}
    (h : eventBus.Trace (newBusEvents size limit) es w) (hCalls : ∀ y ∈ es, Unambiguous y) :
    Sourced es w := by
  refine h.history (J := Sourced) ⟨wired_new size limit, ?_, ?_⟩ fun u s y s' hy hs hExec =>
    hs.step hExec (hCalls y hy)
  · intro ch st b hStream
    cases hStream
  · intro ch st hStream
    cases hStream

theorem authentic_of_trace {size limit : Int}
    (h : eventBus.Trace (newBusEvents size limit) es w) (hCalls : ∀ y ∈ es, Unambiguous y) :
    Authentic es := by
  rintro u ch ev ok rest rfl
  obtain ⟨w₁, hBefore, hRest⟩ := trace_append.mp h
  have hw := sourced_of_trace hBefore fun y hy => hCalls y (by simp [hy])
  cases hRest with
  | cons hExec _ =>
    obtain ⟨st, b, buffered, hStream, hBuffer, hEvent, -⟩ := exec_deliver hExec
    obtain ⟨y, hy, s, n, md, req, dropped, rfl, hTopic⟩ :=
      hw.published ch st b hStream (by rw [hBuffer]; exact List.mem_cons_self)
    have hCall := hCalls _ (List.mem_append_left _ hy)
    obtain ⟨hKey, hTrace⟩ : ':' ∉ s.key ∧ traceFrom md req = [] := hCall
    obtain ⟨hSource, hName⟩ := (eventTopic_inj hKey (hw.colonFree ch st hStream)).mp hTopic
    have hEvent : ev = st.event b := hEvent
    rw [hEvent]
    exact ⟨_, hy, s, md, req, dropped, by rw [hName]; rfl, hSource, hTrace⟩

end Sourced

/-- A running stream and what came in and went out since it was set up. -/
structure Fed (size : Nat) (st : Stream) (ch : Nat) (v : List (Event EventHost)) (w : EventWorld) :
    Prop extends Wired w where
  bufferSize : w.bufferSize = size
  running : w.streams.get ch = some st
  balance : v.filterMap (acceptedBy st.topic ch) =
    (v.filterMap (deliveredTo ch)).map PluginEvent.data ++ (w.buffers ch).map BusEvent.data
  named : ∀ ev ∈ v.filterMap (deliveredTo ch), ev.sourcePluginKey = st.source ∧ ev.name = st.name

section Fed

variable {size : Nat} {st : Stream} {ch : Nat} {v : List (Event EventHost)} {w w' : EventWorld}
  {y : Event EventHost}

theorem Fed.idle (hw : Fed size st ch v w) (hWired : Wired w')
    (hSize : w'.bufferSize = w.bufferSize) (hStream : w'.streams.get ch = w.streams.get ch)
    (hBuffer : w'.buffers ch = w.buffers ch) (hAccepted : acceptedBy st.topic ch y = none)
    (hDelivered : deliveredTo ch y = none) : Fed size st ch (v ++ [y]) w' where
  toWired := hWired
  bufferSize := hSize.trans hw.bufferSize
  running := hStream.trans hw.running
  balance := by
    simp only [List.filterMap_append, List.filterMap_cons, hAccepted, hDelivered,
      List.filterMap_nil, List.append_nil, hBuffer]
    exact hw.balance
  named := by
    simp only [List.filterMap_append, List.filterMap_cons, hDelivered, List.filterMap_nil,
      List.append_nil]
    exact hw.named

theorem Fed.step (hw : Fed size st ch v w) (h : eventBus.Exec w y w') (hy : ¬ Ends ch y) :
    Fed size st ch (v ++ [y]) w' := by
  have hWired := hw.toWired.step h
  obtain ⟨o, r⟩ := y
  cases o with
  | publish s n d md req =>
    obtain ⟨hStreams, hSize⟩ := publish_frame h
    obtain ⟨hAccepted, hSame⟩ | ⟨hAccepted, hGot⟩ := publish_feeds hw.toWired hw.running h
    · exact hw.idle hWired hSize (by rw [hStreams]) hSame hAccepted rfl
    · have hDelivered : deliveredTo ch ⟨.publish s n d md req, r⟩ = none := rfl
      refine ⟨hWired, hSize.trans hw.bufferSize, by rw [hStreams]; exact hw.running, ?_, ?_⟩
      · simp only [List.filterMap_append, List.filterMap_cons, hAccepted, hDelivered,
          List.filterMap_nil, List.append_nil, hGot, List.map_append, ← List.append_assoc]
        rw [hw.balance]
        rfl
      · simp only [List.filterMap_append, List.filterMap_cons, hDelivered, List.filterMap_nil,
          List.append_nil]
        exact hw.named
  | subscribe s n =>
    obtain ⟨rfl, -⟩ | ⟨-, rfl⟩ := exec_subscribe h
    · exact hw.idle hWired rfl rfl rfl rfl rfl
    · have hOld : ch ≠ w.made := (hw.made ch st hw.running).ne
      refine hw.idle hWired rfl ?_ (Function.update_of_ne hOld _ _) rfl rfl
      rw [streams_opened, if_neg hOld]
  | deliver c =>
    obtain ⟨st', b, rest, hStream, hBuffer, hEvent, hEnd⟩ := exec_deliver h
    by_cases hc : c = ch
    · subst hc
      cases hw.running.symm.trans hStream
      obtain ⟨-, rfl⟩ | ⟨hFailed, -⟩ := hEnd
      · have hDelivered : deliveredTo c ⟨.deliver c, r⟩ = some (st.event b) :=
          (if_pos rfl).trans (congrArg some hEvent)
        refine ⟨hWired, hw.bufferSize, hw.running, ?_, ?_⟩
        · have hAccepted : acceptedBy st.topic c ⟨.deliver c, r⟩ = none := rfl
          simp only [List.filterMap_append, List.filterMap_cons, hAccepted, hDelivered,
            List.filterMap_nil, List.append_nil, Function.update_self]
          rw [hw.balance, hBuffer]
          simp [Stream.event]
        · intro ev hev
          simp only [List.filterMap_append, List.filterMap_cons, hDelivered, List.filterMap_nil,
            List.mem_append, List.mem_singleton] at hev
          rcases hev with hev | rfl
          · exact hw.named ev hev
          · exact ⟨rfl, rfl⟩
      · refine absurd (.inr ⟨r.1, ?_⟩) hy
        rw [← hFailed]
        rfl
    · have hDelivered : deliveredTo ch ⟨.deliver c, r⟩ = none := if_neg hc
      have hKept : Function.update w.buffers c rest ch = w.buffers ch :=
        Function.update_of_ne (Ne.symm hc) _ _
      obtain ⟨-, rfl⟩ | ⟨-, rfl⟩ := hEnd
      · exact hw.idle hWired rfl rfl hKept rfl hDelivered
      · refine hw.idle hWired rfl ?_ hKept rfl hDelivered
        rw [streams_closed, if_neg (Ne.symm hc)]
  | cancel c =>
    obtain ⟨st', hStream, rfl⟩ := exec_cancel h
    have hc : ch ≠ c := by
      rintro rfl
      exact hy (.inl rfl)
    refine hw.idle hWired rfl ?_ rfl rfl rfl
    rw [streams_closed, if_neg hc]

theorem fed_of_trace {w₁ : EventWorld} (h : eventBus.Trace w₁ v w) (hw : Fed size st ch [] w₁)
    (hOpen : ∀ y ∈ v, ¬ Ends ch y) : Fed size st ch v w :=
  h.history (J := Fed size st ch) hw fun _ _ y _ hy hs hExec => hs.step hExec (hOpen y hy)

theorem bufferSize_step (h : eventBus.Exec w y w') : w'.bufferSize = w.bufferSize := by
  obtain ⟨o, r⟩ := y
  cases o with
  | publish s n d md req => exact (publish_frame h).2
  | subscribe s n =>
    obtain ⟨rfl, -⟩ | ⟨-, rfl⟩ := exec_subscribe h <;> rfl
  | deliver c =>
    obtain ⟨st, b, rest, -, -, -, ⟨-, rfl⟩ | ⟨-, rfl⟩⟩ := exec_deliver h <;> rfl
  | cancel c =>
    obtain ⟨st, -, rfl⟩ := exec_cancel h
    rfl

theorem complete_of_trace {es : List (Event EventHost)} {buffer limit : Int}
    (h : eventBus.Trace (newBusEvents buffer limit) es w) :
    Complete (newBusEvents buffer limit).bufferSize es := by
  rintro u s n ch v rfl hPlain hOpen
  obtain ⟨w₁, hBefore, hRest⟩ := trace_append.mp h
  have hw₁ : Wired w₁ ∧ w₁.bufferSize = (newBusEvents buffer limit).bufferSize :=
    hBefore.invariant
      (J := fun w => Wired w ∧ w.bufferSize = (newBusEvents buffer limit).bufferSize)
      (fun s y s' _ hs hExec => ⟨hs.1.step hExec, (bufferSize_step hExec).trans hs.2⟩)
      ⟨wired_new buffer limit, rfl⟩
  cases hRest with
  | cons hExec hTrace =>
    obtain ⟨-, e, hError⟩ | ⟨hMade, rfl⟩ := exec_subscribe hExec
    · cases hError
    cases hMade
    have hStart : Fed (newBusEvents buffer limit).bufferSize ⟨s.key, s.key, n⟩ w₁.made []
        (w₁.opened s.key n) := by
      refine ⟨hw₁.1.opened _ _, hw₁.2, ?_, ?_, fun ev hev => (by cases hev)⟩
      · rw [streams_opened, if_pos rfl, streamOf_plain hPlain]
      · change [] = (Function.update w₁.buffers w₁.made [] w₁.made).map BusEvent.data
        rw [Function.update_self]
        rfl
    have hFed := fed_of_trace hTrace hStart hOpen
    refine ⟨⟨_, hFed.balance⟩, hFed.named, ?_⟩
    rintro v₁ s' d md req dropped v₂ rfl hKey hDropped
    obtain ⟨w₂, hUntil, hFrom⟩ := trace_append.mp hTrace
    have hFed₁ := fed_of_trace hUntil hStart fun y hy => hOpen y (by simp [hy])
    cases hFrom with
    | cons hPublish _ =>
      have hFull := publish_drops hFed₁.toWired hPublish hDropped
      rw [hFed₁.bufferSize] at hFull
      have hBalance := congrArg List.length hFed₁.balance
      rw [List.length_append, List.length_map, List.length_map] at hBalance
      change _ ≤ (v₁.filterMap (acceptedBy (Stream.topic ⟨s.key, s.key, n⟩) w₁.made)).length
      omega

end Fed

/-- If no plugin that publishes, and none that subscribes to an event of its own, has a colon
in its key, and no publication has a trace id, then everything that is handed over was
published as it says; and a subscription to a plain name misses nothing that its plugin
publishes but what finds its buffer full. -/
theorem events_authentic {buffer limit : Int} {es : List (Event EventHost)} {w : EventWorld}
    (h : eventBus.Trace (newBusEvents buffer limit) es w) (hCalls : ∀ y ∈ es, Unambiguous y) :
    Authentic es ∧ Complete (newBusEvents buffer limit).bufferSize es :=
  ⟨authentic_of_trace h hCalls, complete_of_trace h⟩

section Samples

def caller (key : String) : Server := ⟨key.toList, [permEvents], false, false, true, false⟩

/-- A subscription, one publication and what is handed over. -/
def delivery (subscriber publisher : String) (eventName name : String) (metadata : Option Str)
    (ev : PluginEvent) : List (Event EventHost) :=
  [⟨.subscribe (caller subscriber) eventName.toList, .ok 0⟩,
    ⟨.publish (caller publisher) name.toList "x".toList metadata [], .ok []⟩,
    ⟨.deliver 0, (ev, true)⟩]

def ownEvent : PluginEvent := ⟨"saved".toList, "x".toList, "notes".toList, []⟩

def impersonated : PluginEvent := ⟨"eu:paid".toList, "x".toList, "shop".toList, []⟩

theorem own_trace (metadata : Option Str) :
    ∃ w, eventBus.Trace (newBusEvents 0 0) (delivery "notes" "notes" "saved" "saved" metadata
      ownEvent) w :=
  ⟨_, .cons ⟨(), rfl⟩ (.cons ⟨(), rfl⟩ (.cons ⟨true, rfl⟩ (.nil _)))⟩

theorem events_authentic_own :
    Authentic (delivery "notes" "notes" "saved" "saved" none ownEvent) ∧
      Complete 64 (delivery "notes" "notes" "saved" "saved" none ownEvent) := by
  obtain ⟨w, h⟩ := own_trace none
  have hColon : ':' ∉ "notes".toList := by simp
  refine events_authentic h ?_
  simp only [delivery, List.forall_mem_cons]
  exact ⟨.inr hColon, ⟨hColon, rfl⟩, trivial, by simp⟩

theorem publishes_delivery {subscriber publisher eventName name : String} {metadata : Option Str}
    {ev : PluginEvent} (h : Authentic (delivery subscriber publisher eventName name metadata ev)) :
    publisher.toList = ev.sourcePluginKey ∧ traceFrom metadata [] = ev.traceID := by
  obtain ⟨y, hy, s, md, req, dropped, rfl, hKey, hTrace⟩ := h [_, _] 0 ev true [] rfl
  simp only [List.mem_cons, List.not_mem_nil, or_false] at hy
  rcases hy with hy | hy
  · cases congrArg Event.op hy
  · injection congrArg Event.op hy with hCaller _ _ hMetadata hReq
    rw [hCaller] at hKey
    rw [hMetadata, hReq] at hTrace
    exact ⟨hKey, hTrace⟩

/-- The trace id of a publication is lost; and what `shop:eu` publishes is handed over as if
`shop` had published it. -/
theorem events_altered :
    (∀ k ∈ ["notes".toList, "shop".toList, "shop:eu".toList, "audit".toList],
      k ≠ [] ∧ k.any Manifest.illegalInKey = false) ∧
    (∃ w, eventBus.Trace (newBusEvents 0 0)
        (delivery "notes" "notes" "saved" "saved" (some "t-1".toList) ownEvent) w ∧
      ¬ Authentic (delivery "notes" "notes" "saved" "saved" (some "t-1".toList) ownEvent)) ∧
    ∃ w, eventBus.Trace (newBusEvents 0 0)
        (delivery "audit" "shop:eu" "shop:eu:paid" "paid" none impersonated) w ∧
      ¬ Authentic (delivery "audit" "shop:eu" "shop:eu:paid" "paid" none impersonated) := by
  refine ⟨by decide, ?_, ?_⟩
  · obtain ⟨w, h⟩ := own_trace (some "t-1".toList)
    refine ⟨w, h, fun hAuthentic => ?_⟩
    exact absurd (publishes_delivery hAuthentic).2 (by decide)
  · refine ⟨_, .cons ⟨(), rfl⟩ (.cons ⟨(), rfl⟩ (.cons ⟨true, rfl⟩ (.nil _))), fun hAuthentic => ?_⟩
    exact absurd (publishes_delivery hAuthentic).1 (by decide)

end Samples
end Moduless.Events
