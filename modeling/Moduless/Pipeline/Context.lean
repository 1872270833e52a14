import Moduless.PluginHost.Instance

/-!
The state one request carries through the pipeline, the messages exchanged
with a filter, and how a filter's decision is folded back into the request.
-/

namespace Moduless.Pipeline
open Go PluginHost

abbrev Headers := GoMap Str (List Str)

def validHeaderFieldByte (c : Char) : Bool :=
  c.isAlphanum || "!#$%&'*+-.^_`|~".toList.contains c

def canonicalFrom (upper : Bool) : Str → Str
  | [] => []
  | c :: s => (if upper then c.toUpper else c.toLower) :: canonicalFrom (c = '-') s

/-- `http.CanonicalHeaderKey`; a key with a byte no header name may hold is left
as it is. -/
def canonicalHeaderKey (k : Str) : Str :=
  if k.all validHeaderFieldByte then canonicalFrom true k else k

namespace Headers

def del (h : Headers) (k : Str) : Headers := h.delete (canonicalHeaderKey k)

def getFirst (h : Headers) (k : Str) : Str :=
  match h.get (canonicalHeaderKey k) with
  | some (v :: _) => v
  | _ => []

end Headers

def setCanonical (h : Headers) (e : Str × List Str) : Headers :=
  h.set (canonicalHeaderKey e.1) e.2

def fromProtoHeaders (wire : Headers) : Headers := wire.foldl setCanonical []

/-- Removals run before additions. -/
def applyHeaderMutation (h : Headers) (set : Headers) (remove : List Str) : Headers :=
  set.foldl setCanonical (remove.foldl Headers.del h)

structure Identity where
  userID : Str
  username : Str
  roles : List Str
  deriving DecidableEq

structure HttpResponse where
  statusCode : Int
  headers : Headers
  body : Str
  deriving DecidableEq

structure HttpRequest where
  traceID : Str
  method : Str
  path : Str
  query : Str
  headers : Headers
  body : Str
  identity : Option Identity
  clientIP : Str
  deriving DecidableEq

/-- An incoming `http.Request`. `clientIP` is the host part of its remote
address; `body` is what is still to be read, `none` for a nil body. -/
structure Request where
  method : Str
  urlPath : Str
  rawQuery : Str
  clientIP : Str
  header : Headers
  sessionToken : Str
  body : Option Str
  deriving DecidableEq

structure FilterRequest where
  traceID : Str
  phase : Phase
  method : Str
  path : Str
  query : Str
  headers : Headers
  clientIP : Str
  identity : Option Identity
  context : GoMap Str Str
  elapsedMicros : Int
  filterName : Str
  body : Str
  upstreamStatus : Int
  upstreamHeaders : Headers
  upstreamBody : Str
  deriving DecidableEq

structure RequestMutation where
  setRequestHeaders : Headers
  removeRequestHeaders : List Str
  setResponseHeaders : Headers
  removeResponseHeaders : List Str
  rewritePath : Str
  setIdentity : Option Identity
  setContext : GoMap Str Str
  deriving DecidableEq

/-- `other` is a value the wire can carry and Core does not know. -/
inductive Action where
  | continue_
  | shortCircuit
  | mutate
  | other
  deriving DecidableEq

structure FilterResponse where
  action : Action
  shortCircuitResponse : Option HttpResponse
  mutation : Option RequestMutation
  deriving DecidableEq

structure RequestContext where
  traceID : Str
  method : Str
  path : Str
  query : Str
  clientIP : Str
  header : Headers
  identity : Option Identity := none
  values : GoMap Str Str := []
  requestBody : Str := []
  responseStatus : Int := 0
  responseHeader : Headers := []
  responseBody : Str := []
  startedAt : Int
  protoHeaders : Option Headers := none
  admissions : GoMap Str Lease := []

/-- A context that holds no admission. -/
abbrev AsyncContext := { rc : RequestContext // rc.admissions = [] }

namespace RequestContext

/-- A copy for work that outlives the response; it keeps its own admissions. -/
def forAsync (rc : RequestContext) : AsyncContext :=
  ⟨{ rc with protoHeaders := none, admissions := [] }, rfl⟩

/-- The request headers in wire form, and the context with them cached. -/
def wireHeaders (rc : RequestContext) : Headers × RequestContext :=
  match rc.protoHeaders with
  | some wire => (wire, rc)
  | none => (rc.header, { rc with protoHeaders := some rc.header })

end RequestContext

def isResponsePhase : Phase → Bool
  | .postHandler | .onError | .log => true
  | _ => false

def identityMutationAllowed : Phase → Bool
  | .authenticate | .authorize => true
  | _ => false

namespace RequestContext

def buildFilterRequest (rc : RequestContext) (phase : Phase) (f : Filter) (now : Int) :
    FilterRequest × RequestContext :=
  let (wire, rc) := rc.wireHeaders
  let upstream := isResponsePhase phase
  ({ traceID := rc.traceID
     phase := phase
     method := rc.method
     path := rc.path
     query := rc.query
     headers := wire
     clientIP := rc.clientIP
     identity := rc.identity
     context := rc.values
     elapsedMicros := (now - rc.startedAt).tdiv 1000
     filterName := f.decl.name
     body := if f.decl.needsRequestBody then rc.requestBody else []
     upstreamStatus := if upstream then rc.responseStatus else 0
     upstreamHeaders := if upstream then rc.responseHeader else []
     upstreamBody := if upstream && f.decl.needsResponseBody then rc.responseBody else [] }, rc)

def applyMutation (rc : RequestContext) (m : Option RequestMutation) (phase : Phase)
    (allowIdentity : Bool) : RequestContext :=
  match m with
  | none => rc
  | some m =>
    { rc with
      header := applyHeaderMutation rc.header m.setRequestHeaders m.removeRequestHeaders
      protoHeaders := none
      responseHeader :=
        if isResponsePhase phase then
          applyHeaderMutation rc.responseHeader m.setResponseHeaders m.removeResponseHeaders
        else rc.responseHeader
      path := if m.rewritePath ≠ [] && !isResponsePhase phase then m.rewritePath else rc.path
      identity :=
        match m.setIdentity with
        | some id => if allowIdentity then some id else rc.identity
        | none => rc.identity
      values := m.setContext.foldl (fun values e => values.set e.1 e.2) rc.values }

theorem wireHeaders_eq (rc : RequestContext) :
    rc.wireHeaders = (rc.protoHeaders.getD rc.header,
      { rc with protoHeaders := some (rc.protoHeaders.getD rc.header) }) := by
  cases rc with
  | mk _ _ _ _ _ _ _ _ _ _ _ _ _ protoHeaders _ => cases protoHeaders <;> rfl

@[simp] theorem wireHeaders_admissions (rc : RequestContext) :
    rc.wireHeaders.2.admissions = rc.admissions := by
  unfold wireHeaders
  split <;> rfl

@[simp] theorem buildFilterRequest_admissions (rc : RequestContext) (phase : Phase) (f : Filter)
    (now : Int) : (rc.buildFilterRequest phase f now).2.admissions = rc.admissions :=
  rc.wireHeaders_admissions

@[simp] theorem applyMutation_admissions (rc : RequestContext) (m : Option RequestMutation)
    (phase : Phase) (allow : Bool) :
    (rc.applyMutation m phase allow).admissions = rc.admissions := by
  cases m <;> rfl

end RequestContext
end Moduless.Pipeline
