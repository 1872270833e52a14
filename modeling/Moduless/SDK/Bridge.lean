import Moduless.Go.URL
import Moduless.Pipeline.Context

/-!
The plugin's side of a call: `HandleHTTP` of the SDK rebuilds an `http.Request`
from Core's message and hands it to the author's handler.
-/

namespace Moduless.SDK
open Go Pipeline

/-- The `http.Request` an author's handler is given; the trace and the identity
are in its context. -/
structure AuthorRequest where
  method : Str
  url : URL
  header : Headers
  body : Str
  contentLength : Int
  remoteAddr : Str
  requestURI : Str
  host : Str
  traceID : Str
  identity : Option Identity
  deriving DecidableEq

/-- Captures what the handler wrote. -/
structure ResponseRecorder where
  header : Headers := []
  body : Str := []
  status : Int := 200
  wroteHeader : Bool := false

/-- What a handler does with its response: it fills the header map, and it calls
`WriteHeader`, `Write` and `Flush`. -/
inductive ResponseCall where
  | header (h : Headers)
  | writeHeader (status : Int)
  | write (p : Str)
  | flush

namespace ResponseRecorder

def writeHeader (r : ResponseRecorder) (status : Int) : ResponseRecorder :=
  if r.wroteHeader then r else { r with status := status, wroteHeader := true }

def call (r : ResponseRecorder) : ResponseCall → ResponseRecorder
  | .header h => { r with header := h }
  | .writeHeader status => r.writeHeader status
  | .write p =>
    let r := r.writeHeader 200
    { r with body := r.body ++ p }
  | .flush => r

end ResponseRecorder

def methodOr (m : Str) : Str := if m = [] then "GET".toList else m

def hostFrom (h : Headers) : Str :=
  match h.get "Host".toList with
  | some (v :: _) => v
  | _ => "plugin.local".toList

def headersFrom (wire : Headers) : Headers := wire.foldl setCanonical []

def target (req : HttpRequest) : Str :=
  if req.query ≠ [] then req.path ++ '?' :: req.query else req.path

/-- The request for the handler, `none` when the target does not parse. -/
def authorRequest (req : HttpRequest) : Option AuthorRequest :=
  (parseRequestURI (target req)).map fun u =>
    { method := methodOr req.method
      url := u
      header := headersFrom req.headers
      body := req.body
      contentLength := req.body.length
      remoteAddr := req.clientIP
      requestURI := target req
      host := hostFrom req.headers
      traceID := req.traceID
      identity := req.identity }

def statusBadRequest : Int := 400
def statusNotImplemented : Int := 501

/-- `HandleHTTP`; there is no handler in a plugin that serves no HTTP API. -/
def handleHTTP (handler : Option (AuthorRequest → List ResponseCall)) (req : HttpRequest) :
    HttpResponse :=
  match handler with
  | none => ⟨statusNotImplemented, [], "this plugin serves no HTTP API".toList⟩
  | some serveHTTP =>
    match authorRequest req with
    | none => ⟨statusBadRequest, [], "bad request path".toList⟩
    | some r =>
      let written := (serveHTTP r).foldl ResponseRecorder.call {}
      ⟨int32 written.status, written.header, written.body⟩

theorem beforeQuery_target (req : HttpRequest) :
    beforeQuery (target req) = beforeQuery req.path := by
  rw [target]
  split
  · exact beforeQuery_append _ _
  · rfl

theorem afterQuery_target {req : HttpRequest} (h : '?' ∉ req.path) :
    afterQuery (target req) = req.query := by
  rw [target]
  split
  next => exact afterQuery_append h
  next hq => rw [afterQuery_of_not_mem h, not_not.mp hq]

theorem any_target (req : HttpRequest) :
    (target req).any isCTL = (req.path ++ req.query).any isCTL := by
  have hMark : isCTL '?' = false := by decide
  rw [target]
  split
  next => simp [hMark]
  next hq => simp [not_not.mp hq]

theorem slash_target {req : HttpRequest} (h : ['/'] <+: req.path) : ['/'] <+: target req := by
  rw [target]
  split
  · exact h.trans (List.prefix_append _ _)
  · exact h

/-- The request an author's handler is given, in terms of the message. -/
theorem authorRequest_iff {req : HttpRequest} (hSlash : ['/'] <+: req.path) {path rawQuery : Str} :
    (∃ a, authorRequest req = some a ∧ a.url.path = path ∧ a.url.rawQuery = rawQuery) ↔
      (req.path ++ req.query).any isCTL = false ∧ Spells (beforeQuery req.path) path ∧
        afterQuery (target req) = rawQuery := by
  have hParse := @parseRequestURI_iff (target req) path rawQuery
  rw [any_target, beforeQuery_target, and_iff_right (slash_target hSlash)] at hParse
  rw [← hParse]
  constructor
  · rintro ⟨a, ha, hPath, hQuery⟩
    obtain ⟨u, hu, rfl⟩ := Option.map_eq_some_iff.mp ha
    exact ⟨u, hu, hPath, hQuery⟩
  · rintro ⟨u, hu, hPath, hQuery⟩
    exact ⟨_, by rw [authorRequest, hu]; rfl, hPath, hQuery⟩

end Moduless.SDK
