import Moduless.Gateway.Operations

/-!
The body Core's own handlers receive.

Whether a request is buffered is decided for the whole chain before it is
routed, and what was read is never put back. So a handler behind the gateway
finds the client's body only when nothing asked for buffering.
-/

namespace Moduless.Gateway
open Go Pathmatch Pipeline PluginHost Interaction

def drained (body : Option Str) : Option Str := body.map fun _ => []

/-- What is left of a body, given whether it was read. -/
def remaining (read : Bool) (body : Option Str) : Option Str :=
  if read then drained body else body

theorem remaining_eq_iff {read : Bool} {body : Option Str} :
    remaining read body = body ↔ read = false ∨ body = none ∨ body = some [] := by
  cases read <;> cases body <;> simp [remaining, drained, eq_comm]

namespace PluginHandler

variable (h : PluginHandler)

theorem readBody_drains (r : Request) :
    (h.readBody r).Returns fun out => out.2.body = drained r.body := by
  unfold readBody
  split
  next hb => simp [hb, drained]
  next body hb =>
    simp only [ask_eq, Program.call_bind, Program.ret_bind, Program.returns_call]
    intro delivered
    split
    next => simp [hb, drained]
    next => exact Program.returns_bind (Program.returns_true _) fun _ _ => by simp [hb, drained]

theorem bufferBody_body (needed : Bool) (r : Request) (rc : RequestContext) :
    Program.ReturnsOk (fun out => out.1.body = remaining needed r.body)
      (h.bufferBody needed r rc) := by
  unfold bufferBody
  cases needed with
  | false => exact Program.returnsOk_pure rfl
  | true =>
    refine Program.returnsOk_lift (h.readBody_drains r) fun read hRead => ?_
    split
    next => exact Program.returnsOk_throw
    next => exact Program.returnsOk_pure hRead

/-- A request that leaves the routing as one of Core's own has been buffered
exactly when the chain needs request bodies. -/
theorem beforeRouting_body (chain : Chain) (r : Request) (rc : RequestContext) :
    Program.ReturnsOk
      (fun out => out.1 = false → out.2.1.body = remaining chain.needsRequestBody r.body)
      (h.beforeRouting chain r rc) := by
  refine Program.returnsOk_early (h.bufferBody_body _ r rc) fun read hRead => ?_
  refine Program.returnsOk_early (Program.returnsOk_true _) fun rc _ => ?_
  split
  next =>
    exact Program.returnsOk_early (Program.returnsOk_true _) fun _ _ =>
      Program.returnsOk_pure (by simp)
  next =>
    refine Program.returnsOk_pure fun hRoute => ?_
    have hRoute : hasPrefix r.urlPath pluginAPIPrefix = false := hRoute
    rwa [hRoute, Bool.or_false] at hRead

theorem route_body (chain : Chain) (r : Request) (rc : RequestContext) :
    Program.ReturnsOk
      (fun out => ∀ r' rc', out = .next r' rc' →
        r'.body = remaining chain.needsRequestBody r.body)
      (h.route chain r rc) := by
  refine Program.returnsOk_early (h.beforeRouting_body chain r rc) fun routed hRouted => ?_
  split
  next =>
    exact Program.returnsOk_early (Program.returnsOk_true _) fun _ _ =>
      Program.returnsOk_pure (by simp)
  next hCore =>
    refine Program.returnsOk_pure fun r' rc' heq => ?_
    cases heq
    exact hRouted (by simpa using hCore)

/-- The operations of a request whose hand-over, if any, satisfies `P`. -/
def HandsOver (P : Request → Prop) : Op → Prop
  | .ask (.next r) => P r
  | o => o.Serving

theorem handsOver_of_serving {P : Request → Prop} {o : Op} (h : o.Serving) : HandsOver P o := by
  unfold HandsOver
  split
  next => exact h.elim
  next => exact h

theorem serveRequest_handsOver (r : Request) (snap : Snapshot) (rc : RequestContext) :
    (h.serveRequest snap r rc).Uses (HandsOver fun r' =>
      r'.body = remaining snap.chain.needsRequestBody r.body) := by
  refine Program.uses_bind ?_ fun out => by cases out <;> trivial
  refine Program.Uses.early_returns
    ((h.serving_route _ r rc).mono fun _ => handsOver_of_serving)
    (h.route_body snap.chain r rc) fun routed hRouted => ?_
  cases routed with
  | next r₁ rc₁ =>
    refine Program.uses_lifted ?_
    refine Program.uses_bind
      ((serving_releaseAdmissions rc₁).mono fun _ => handsOver_of_serving)
      fun rc₂ => uses_ask (hRouted r₁ rc₁ rfl) fun _ => ?_
    rw [Program.uses_ite]
    exact ⟨fun _ => trivial, fun _ => trivial⟩
  | backend key sub rc₁ =>
    exact Program.uses_lift
      ((h.serving_callBackend _ _ _ _).mono fun _ => handsOver_of_serving)
      fun _ => (serving_afterBackend _ _ _).mono fun _ => handsOver_of_serving

theorem serveWith_handsOver (snap : Snapshot) (r : Request) :
    (h.serveWith snap r).Uses (HandsOver fun r' =>
      r'.body = remaining snap.chain.needsRequestBody r.body) := by
  refine Program.uses_bind ((serving_of_routine (routine_traceIDFor r)).mono fun _ =>
    handsOver_of_serving) fun traceID => uses_ask trivial fun _ => uses_ask trivial fun now => ?_
  refine Program.uses_bind (h.serveRequest_handsOver r snap _) fun rc => ?_
  refine Program.uses_bind ((serving_runAsync _ _).mono fun _ => handsOver_of_serving) fun _ => ?_
  exact Program.uses_bind ((serving_releaseAdmissions rc).mono fun _ => handsOver_of_serving)
    fun _ => trivial

/-- One of Core's own handlers can read the body the client sent exactly when no
filter of the chain asked for request bodies, or there is nothing to read. -/
theorem next_body_iff (r r' : Request) (snap : Snapshot) (t : List (Event Host))
    (k : HttpResponse → HostM Unit)
    (hNext : (h.serve r).Leads (⟨.current, snap⟩ :: t) (.call (.ask (.next r')) k)) :
    r'.body = r.body ↔
      (∀ ph, ∀ f ∈ snap.chain.filters ph, f.decl.needsRequestBody = false) ∨
        r.body = none ∨ r.body = some [] := by
  cases hNext with
  | step hRest =>
    have hBody : r'.body = remaining snap.chain.needsRequestBody r.body :=
      ((h.serveWith_handsOver snap r).leads hRest).1
    have hChain : snap.chain.needsRequestBody = false ↔
        ∀ ph, ∀ f ∈ snap.chain.filters ph, f.decl.needsRequestBody = false := by
      rw [← Bool.not_eq_true, Chain.needsRequestBody, snap.chain.requestBody_iff]
      simp [Chain.filters]
    rw [hBody, remaining_eq_iff, hChain]

end PluginHandler

/-- A plugin that inspects requests, with or without their bodies, on its own paths. -/
def inspector (reads : Bool) : Manifest :=
  { key := "waf".toList
    version := "1".toList
    weight := 0
    entrypoint := "waf".toList
    replicas := 1
    permissions := []
    config := []
    filters := [
      { name := "inspect".toList
        phase := phasePreRoute
        match_ := ⟨["/api/orders/**".toList], []⟩
        order := 0
        failClosed := true
        timeoutMS := 0
        needsRequestBody := reads
        needsResponseBody := false
        maxBodyBytes := 0 }] }

def inspectorRegistration (reads : Bool) : Registration :=
  { key := "waf".toList
    instances := [newInstance 0 "waf".toList "waf-0".toList "1".toList 0]
    filters :=
      match (inspector reads).compileFilters with
      | .ok fs => fs
      | .error _ => []
    allowIdentityMutation := false
    known := by cases reads <;> decide }

def inspectorSnapshot (reads : Bool) : Snapshot :=
  (Registry.empty.installPlugin (inspectorRegistration reads) ["waf".toList] (.refl _)).2.current

def login : Request :=
  { method := "POST".toList
    urlPath := "/api/auth/login".toList
    rawQuery := []
    clientIP := "10.0.0.1".toList
    header := []
    sessionToken := []
    body := some "user=ada".toList }

/-- A login behind a chain with a body-reading filter: the filter's paths do not
cover it, and the login handler finds an empty body. -/
theorem login_body_lost : ∃ t r' k,
    (PluginHandler.serve ⟨true, 0, 0⟩ login).Leads (⟨.current, inspectorSnapshot true⟩ :: t)
      (.call (.ask (.next r')) k) ∧ r'.body ≠ login.body := by
  refine ⟨[⟨.ask .newTraceID, ['1']⟩, ⟨.ask (.setHeader requestIDHeader ['1']), ()⟩,
    ⟨.ask .now, (0 : Int)⟩, ⟨.ask .receive, true⟩, ⟨.ask (.range []), ⟨[], .refl _⟩⟩], _, _,
    .step (.step (.step (.step (.step (.step (.stay _)))))), ?_⟩
  decide

/-- Behind a filter that does not read bodies the same login finds its body. -/
theorem login_body_kept : ∃ t r' k,
    (PluginHandler.serve ⟨true, 0, 0⟩ login).Leads (⟨.current, inspectorSnapshot false⟩ :: t)
      (.call (.ask (.next r')) k) ∧ r'.body = login.body := by
  have hNext : (PluginHandler.serve ⟨true, 0, 0⟩ login).Leads
      [⟨.current, inspectorSnapshot false⟩, ⟨.ask .newTraceID, ['1']⟩,
        ⟨.ask (.setHeader requestIDHeader ['1']), ()⟩, ⟨.ask .now, (0 : Int)⟩,
        ⟨.ask (.range []), ⟨[], .refl _⟩⟩] _ :=
    .step (.step (.step (.step (.step (.stay _)))))
  refine ⟨_, _, _, hNext, (PluginHandler.next_body_iff _ _ _ _ _ _ hNext).mpr (.inl ?_)⟩
  intro ph
  cases ph <;> decide

end Moduless.Gateway
