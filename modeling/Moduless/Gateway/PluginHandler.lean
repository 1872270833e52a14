import Moduless.Gateway.Path
import Moduless.Interaction.Early
import Moduless.Pipeline.Runner

/-!
The gateway's plugin handler: the phases of a request, the routing decision
between plugins and Core's own handlers, and the call to a plugin's backend.

A `Stage` is a part of the handler that may answer the request and return. What
it throws is the request context at that point, which the deferred log phase
still needs.
-/

namespace Moduless.Gateway
open Go Pipeline PluginHost Interaction

abbrev Stage := ExceptT RequestContext HostM

/-- `hasAuth` says whether a session resolver is configured. -/
structure PluginHandler where
  hasAuth : Bool
  backendTimeout : Duration
  maxBodyBytes : Int

def defaultBackendTimeout : Duration := 30 * second

def defaultMaxRequestBody : Int := 8388608

def statusOK : Int := 200
def statusUnauthorized : Int := 401
def statusNotFound : Int := 404
def statusBadGateway : Int := 502

def normalizeStatus (code : Int) : Int :=
  if code = 0 then statusOK
  else if code < 100 ∨ code > 599 then statusBadGateway
  else code

/-- `http.Error`. -/
def httpError (message : Str) (code : Int) : HostM Unit :=
  ask (.respond code
    (plainText ++ [("X-Content-Type-Options".toList, ["nosniff".toList])]) (message ++ ['\n']))

def itoa (n : Int) : Str :=
  if n < 0 then '-' :: Nat.toDigits 10 n.natAbs else Nat.toDigits 10 n.natAbs

def requestIDHeader : Str := "X-Request-Id".toList

def traceIDFor (r : Request) : HostM Str :=
  let fallback : HostM Str :=
    let rid := r.header.getFirst requestIDHeader
    if rid ≠ [] then pure rid else ask .newTraceID
  match split (r.header.getFirst "traceparent".toList) '-' with
  | _ :: traceID :: _ :: _ =>
    if traceID.length = 32 && traceID ≠ List.replicate 32 '0' then pure traceID else fallback
  | _ => fallback

def newRequestContext (traceID : Str) (r : Request) (now : Int) : RequestContext :=
  { traceID := traceID
    method := r.method
    path := r.urlPath
    query := r.rawQuery
    clientIP := r.clientIP
    header := r.header
    startedAt := now }

/-- Sends a short circuit and records what it sent. -/
def writeResponse (rc : RequestContext) (resp : HttpResponse) : HostM RequestContext := do
  let status := normalizeStatus resp.statusCode
  let _ ← ask (.respond status resp.headers resp.body)
  pure { rc with
    responseStatus := status
    responseHeader := fromProtoHeaders resp.headers
    responseBody := resp.body }

def writeFinal (rc : RequestContext) : HostM Unit :=
  ask (.respond (normalizeStatus rc.responseStatus) rc.responseHeader rc.responseBody)

/-- Runs a phase; a short circuit is written and ends the request. -/
def runPhase (chain : Chain) (phase : Phase) (rc : RequestContext) : Stage RequestContext := do
  let out ← run chain phase rc
  match out.1 with
  | some resp =>
    let rc ← writeResponse out.2 resp
    throw rc
  | none => pure out.2

/-- Where a request goes when it leaves the pipeline: to Core's own handlers or
to a plugin's backend. -/
inductive Route where
  | next (r : Request) (rc : RequestContext)
  | backend (key sub : Str) (rc : RequestContext)

/-- Why a backend call gave no response. -/
inductive BackendError where
  | unavailable (key : Str) (gone : Bool)
  | callFailed (e : Str)

namespace BackendError

def message : BackendError → Str
  | .unavailable key true => "plugin ".toList ++ key ++ " is not enabled".toList
  | .unavailable key false => "plugin ".toList ++ key ++ " is not accepting requests".toList
  | .callFailed e => e

def status : BackendError → Int
  | .unavailable _ true => statusNotFound
  | .unavailable _ false => statusServiceUnavailable
  | .callFailed _ => statusBadGateway

end BackendError

namespace PluginHandler

variable (h : PluginHandler)

def maxBody : Int := if h.maxBodyBytes > 0 then h.maxBodyBytes else defaultMaxRequestBody

def timeout : Duration := if h.backendTimeout > 0 then h.backendTimeout else defaultBackendTimeout

/-- Reads the whole body, if the connection delivers it and it is within the
limit. What was read is gone from the request. -/
def readBody (r : Request) : HostM (Option Str × Request) :=
  match r.body with
  | none => pure (some [], r)
  | some body => do
      let delivered ← ask .receive
      if delivered && (body.length : Int) ≤ h.maxBody then
        pure (some body, { r with body := some [] })
      else
        httpError "request body too large".toList statusRequestEntityTooLarge
        pure (none, { r with body := some [] })

def bufferBody (needed : Bool) (r : Request) (rc : RequestContext) :
    Stage (Request × RequestContext) :=
  if needed then do
    let read ← h.readBody r
    match read.1 with
    | none => throw { rc with responseStatus := statusRequestEntityTooLarge }
    | some body => pure (read.2, { rc with requestBody := body })
  else pure (r, rc)

/-- `serve` up to the routing decision: whether this is a plugin route, the
request as it is handed on, and the context. -/
def beforeRouting (chain : Chain) (r : Request) (rc : RequestContext) :
    Stage (Bool × Request × RequestContext) := do
  let isPluginRoute := hasPrefix r.urlPath pluginAPIPrefix
  let buffered := chain.needsRequestBody || isPluginRoute
  let read ← h.bufferBody buffered r rc
  let rc ← runPhase chain .preRoute read.2
  if !isPluginRoute && hasPrefix rc.path pluginAPIPrefix then
    let read ← h.bufferBody (!buffered) read.1 rc
    pure (true, read)
  else pure (isPluginRoute, read.1, rc)

/-- Core's own routes: the reservations are released before the hand-over. -/
def serveCore (chain : Chain) (r : Request) (rc : RequestContext) : HostM RequestContext := do
  let rc ← rc.releaseAdmissions
  let rec_ ← ask (.next r)
  if !chain.hasPhase .postHandler && !chain.hasPhase .log then pure rc
  else
    pure { rc with
      responseStatus := rec_.statusCode
      responseHeader := rec_.headers
      responseBody := if chain.needsResponseBody then rec_.body else [] }

def resolveIdentity (r : Request) (rc : RequestContext) : HostM RequestContext :=
  if h.hasAuth then do
    let user ← ask (.resolveUser r.sessionToken)
    match user with
    | none => pure rc
    | some user => pure { rc with identity := some ⟨itoa user.id, user.username, [user.role]⟩ }
  else pure rc

/-- `servePlugin` up to the call of the backend: the plugin and the sub-path the
request is routed to. -/
def beforeBackend (chain : Chain) (r : Request) (rc : RequestContext) :
    Stage (Str × Str × RequestContext) := do
  let rc ← h.resolveIdentity r rc
  let rc ← runPhase chain .authenticate rc
  let rc ← runPhase chain .authorize rc
  if h.hasAuth && rc.identity.isNone then
    httpError "unauthenticated".toList statusUnauthorized
    throw { rc with responseStatus := statusUnauthorized }
  else
    let rc ← runPhase chain .preHandler rc
    match splitPluginPath rc.path with
    | none =>
      httpError "404 page not found".toList statusNotFound
      throw rc
    | some (key, sub) => pure (key, sub, rc)

def dispatch (i : Instance) (sub : Str) (rc : RequestContext) :
    HostM (Except BackendError HttpResponse) := do
  let _ ← ask (.httpCall i
    { traceID := rc.traceID
      method := rc.method
      path := sub
      query := rc.query
      headers := rc.header
      body := rc.requestBody
      identity := rc.identity
      clientIP := rc.clientIP } h.timeout)
  let answer ← ask (.httpReturn i)
  match answer with
  | .error e =>
    i.recordFailure
    pure (.error (.callFailed e))
  | .ok resp =>
    i.recordSuccess
    pure (.ok resp)

/-- The second attempt of `callBackend`, against the live registry. -/
def callLive (inst : Option Instance) (key sub : Str) (rc : RequestContext) :
    HostM (Except BackendError HttpResponse × RequestContext) := do
  let cur ← op .current
  let next ← cur.pick key
  match next with
  | none => pure (.error (.unavailable key true), rc)
  | some next =>
    if inst = some next then pure (.error (.unavailable key false), rc)
    else
      let admitted ← rc.admitKey key next
      if !admitted.1 then pure (.error (.unavailable key false), admitted.2)
      else
        let result ← h.dispatch next sub admitted.2
        pure (result, admitted.2)

def callBackend (snap : Snapshot) (key sub : Str) (rc : RequestContext) :
    HostM (Except BackendError HttpResponse × RequestContext) := do
  let inst ← snap.pick key
  match inst with
  | none => h.callLive none key sub rc
  | some i =>
    let admitted ← rc.admitKey key i
    if !admitted.1 then h.callLive (some i) key sub admitted.2
    else
      let result ← h.dispatch i sub admitted.2
      pure (result, admitted.2)

/-- `servePlugin` after a backend call that failed. -/
def afterFailure (chain : Chain) (e : BackendError) (rc : RequestContext) :
    Stage RequestContext := do
  let rc ← runPhase chain .onError { rc with responseStatus := e.status }
  httpError e.message e.status
  pure rc

/-- The end of `servePlugin`: the post-handler phase and the final response. -/
def finish (chain : Chain) (rc : RequestContext) : Stage RequestContext := do
  let rc ← runPhase chain .postHandler rc
  writeFinal rc
  pure rc

/-- `servePlugin` after a backend call that gave a response. -/
def afterResponse (chain : Chain) (resp : HttpResponse) (rc : RequestContext) :
    Stage RequestContext := do
  let rc := { rc with
    responseStatus := resp.statusCode
    responseHeader := fromProtoHeaders resp.headers
    responseBody := resp.body }
  if rc.responseStatus ≥ 500 then
    let rc ← runPhase chain .onError rc
    finish chain rc
  else finish chain rc

/-- `servePlugin` after the call of the backend. -/
def afterBackend (chain : Chain) (result : Except BackendError HttpResponse)
    (rc : RequestContext) : Stage RequestContext :=
  match result with
  | .error e => afterFailure chain e rc
  | .ok resp => afterResponse chain resp rc

/-- `serve` and `servePlugin` up to the point where the request leaves the
pipeline. -/
def route (chain : Chain) (r : Request) (rc : RequestContext) : Stage Route := do
  let routed ← h.beforeRouting chain r rc
  if routed.1 then
    let (key, sub, rc) ← h.beforeBackend chain routed.2.1 routed.2.2
    pure (.backend key sub rc)
  else pure (.next routed.2.1 routed.2.2)

def serveStages (snap : Snapshot) (r : Request) (rc : RequestContext) :
    Stage RequestContext := do
  let routed ← h.route snap.chain r rc
  match routed with
  | .next r rc => serveCore snap.chain r rc
  | .backend key sub rc =>
    let result ← h.callBackend snap key sub rc
    afterBackend snap.chain result.1 result.2

/-- The body of `serve` between its `defer` statements and its returns. -/
def serveRequest (snap : Snapshot) (r : Request) (rc : RequestContext) :
    HostM RequestContext := do
  let out ← (h.serveStages snap r rc).run
  match out with
  | .error rc => pure rc
  | .ok rc => pure rc

/-- `serve` with its snapshot loaded. On every way out the log phase is started,
then the reservations are freed. -/
def serveWith (snap : Snapshot) (r : Request) : HostM Unit := do
  let traceID ← traceIDFor r
  let _ ← ask (.setHeader requestIDHeader traceID)
  let now ← ask .now
  let rc ← h.serveRequest snap r (newRequestContext traceID r now)
  runAsync snap.chain rc.forAsync
  let _ ← rc.releaseAdmissions
  pure ()

def serve (r : Request) : HostM Unit := do
  let snap ← op .current
  h.serveWith snap r

end PluginHandler
end Moduless.Gateway
