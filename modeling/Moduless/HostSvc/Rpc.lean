import Moduless.DB.Queue
import Moduless.HostSvc.Filters
import Moduless.HostSvc.Server
import Moduless.Manifest.Declaration

/-!
The host services of a plugin on the wire: documents, transactions, the queue and
outbound requests.

A handler checks what the plugin was granted, calls the backend and puts a failure into
a status. What the backends answer is not fixed here, and neither is whether a message
gets through.
-/

namespace Moduless.Rpc
open Go Interaction
open HostSvc (Filter WireFilter filtersFrom)
open DB (EnqueueOptions)

/-- What the document store answers; everything without a sentinel is `other`. -/
inductive StoreError where
  | versionConflict
  | tooManyTx (pluginKey : Str) (opened limit : Int)
  | unknownTx
  | other (text : Str)
  deriving DecidableEq

def StoreError.error : StoreError → Str
  | .versionConflict => "version conflict".toList
  | .tooManyTx pluginKey opened limit =>
    "too many open transactions: plugin ".toList ++ pluginKey ++ " already has ".toList ++
      showInt opened ++ " transactions open, the limit is ".toList ++ showInt limit ++
      "; a transaction holds a database connection, so they must be short and few".toList
  | .unknownTx => "unknown or expired transaction".toList
  | .other text => text

def dataErr : StoreError → Status
  | .versionConflict =>
    ⟨.aborted, "version conflict: the document changed since you read it".toList⟩
  | .tooManyTx pluginKey opened limit =>
    ⟨.resourceExhausted, (StoreError.tooManyTx pluginKey opened limit).error⟩
  | .unknownTx =>
    ⟨.failedPrecondition, ("unknown or expired transaction; transactions are rolled back " ++
      "once their timeout passes").toList⟩
  | .other text => ⟨.internal, text⟩

/-- `Query` and `Aggregate` take every failure for the caller's mistake. -/
def invalidArgument (e : StoreError) : Status := ⟨.invalidArgument, e.error⟩

/-- What the queue answers to `Enqueue`. -/
inductive EnqueueError where
  /-- `checkDepth`. -/
  | overDepth (pluginKey : Str) (depth limit : Int)
  | other (text : Str)
  deriving DecidableEq

def EnqueueError.error : EnqueueError → Str
  | .overDepth pluginKey depth limit =>
    "plugin ".toList ++ pluginKey ++ " has ".toList ++ showInt depth ++
      " messages waiting, at or over the limit of ".toList ++ showInt limit ++
      ("; the queue is a shared table, so a backlog this size is everyone's problem").toList
  | .other text => text

def enqueueErr (e : EnqueueError) : Status := ⟨.internal, "enqueue: ".toList ++ e.error⟩

inductive EgressError where
  | notAllowed (detail : Str)
  | rateLimited (limit : Int)
  | badRequest (detail : Str)
  | deadlineExceeded (text : Str)
  | other (text : Str)
  deriving DecidableEq

def EgressError.error : EgressError → Str
  | .notAllowed detail => "outbound request refused: ".toList ++ detail
  | .rateLimited limit =>
    "outbound rate limit exceeded (".toList ++ showInt limit ++ "/minute)".toList
  | .badRequest detail => "invalid outbound request: ".toList ++ detail
  | .deadlineExceeded text | .other text => text

def egressErr (e : EgressError) : Status :=
  match e with
  | .notAllowed _ => ⟨.permissionDenied, e.error⟩
  | .rateLimited _ => ⟨.resourceExhausted, e.error⟩
  | .badRequest _ => ⟨.invalidArgument, e.error⟩
  | .deadlineExceeded _ => ⟨.deadlineExceeded, e.error⟩
  | .other _ => ⟨.unavailable, e.error⟩

inductive AggregateFunc where
  | unspecified
  | count
  | sum
  | avg
  | min
  | max
  deriving DecidableEq

def aggregateFuncName : AggregateFunc → Str
  | .sum => "SUM".toList
  | .avg => "AVG".toList
  | .min => "MIN".toList
  | .max => "MAX".toList
  | .unspecified | .count => "COUNT".toList

structure QueryOptions where
  filters : List Filter
  sort : List DB.SortField
  limit : Int
  cursor : Str

structure QueryResult where
  documents : List Str
  ids : List Str
  nextCursor : Str
  hasMore : Bool

structure AggregateOptions where
  filters : List Filter
  func : Str
  field : Str
  groupBy : List Str

/-- A bucket; `value` has the bits of the number. -/
structure AggregateBucket where
  keys : GoMap Str Str
  value : UInt64

structure EgressRequest where
  method : Str
  url : Str
  headers : GoMap Str (List Str)
  body : Str
  timeout : Int
  traceID : Str

structure EgressResponse where
  statusCode : Int
  headers : GoMap Str (List Str)
  body : Str

inductive DataOp where
  | put (pluginKey collection docID data txID : Str) (expectedVersion : Int)
  | get (pluginKey collection docID txID : Str)
  | delete (pluginKey collection docID txID : Str)
  | query (pluginKey collection : Str) (opts : QueryOptions) (txID : Str)
  | aggregate (pluginKey collection : Str) (opts : AggregateOptions) (txID : Str)
  | beginTx (pluginKey : Str) (timeout : Int)
  | commitTx (pluginKey txID : Str)
  | rollbackTx (pluginKey txID : Str)

/-- What a method of the store returns besides an error; a document that is not there has no
version. -/
@[reducible] def DataOp.Result : DataOp → Type
  | .put .. => Int
  | .get .. => Option (Str × Int)
  | .delete .. => Bool
  | .query .. => QueryResult
  | .aggregate .. => List AggregateBucket
  | .beginTx .. => Str
  | .commitTx .. | .rollbackTx .. => Unit

inductive BackendOp where
  | data (o : DataOp)
  | enqueue (pluginKey topic payload : Str) (opts : EnqueueOptions)
  | ack (pluginKey : Str) (messageID : Int)
  | nack (pluginKey : Str) (messageID : Int) (reason : Str) (retryAfter : Int)
  | fetch (pluginKey : Str) (req : EgressRequest)

namespace BackendOp

@[reducible] def Error : BackendOp → Type
  | .data _ => StoreError
  | .enqueue .. => EnqueueError
  | .ack .. | .nack .. => Str
  | .fetch .. => EgressError

@[reducible] def Result : BackendOp → Type
  | .data o => o.Result
  | .enqueue .. => Int × Bool
  | .ack .. | .nack .. => Unit
  | .fetch .. => EgressResponse

end BackendOp

/-- A message of a queue as the plugin receives it. -/
structure Delivery where
  id : Int
  topic : Str
  payload : Str
  attempt : Int
  maxAttempts : Int
  parentTraceID : Str

/-- How a call ends that the transport or the caller's context breaks off. -/
inductive Interruption where
  | canceled
  | deadlineExceeded
  | unavailable
  | internal
  | unknown
  deriving DecidableEq

def Interruption.code : Interruption → Code
  | .canceled => .canceled
  | .deadlineExceeded => .deadlineExceeded
  | .unavailable => .unavailable
  | .internal => .internal
  | .unknown => .unknown

/-- `send` is the way of a request to Core, `answer` and `refusal` are those of a response
and of an error back. `recv` is the next message of a stream, `handler` the plugin's own
code for it, `done` whether the context of the caller is; `diverge` has no answer. -/
inductive WireOp where
  | backend (o : BackendOp)
  | send
  | answer
  | refusal
  | recv
  | handler (m : Delivery)
  | done
  | diverge

/-- A message that is lost leaves a status with the caller. A request or a response may be
too large for the transport, an error is not. -/
@[reducible] def WireOp.Ans : WireOp → Type
  | .backend o => Except o.Error o.Result
  | .send | .answer => Option Status
  | .refusal => Option (Interruption × Str)
  | .recv => Except Status Delivery
  | .handler _ => Option Str
  | .done => Bool
  | .diverge => Empty

def Wire : Interface := ⟨WireOp, WireOp.Ans⟩

abbrev WireM := Program Wire

def wire (o : WireOp) : WireM o.Ans := Program.perform (I := Wire) o

/-- Checks, then the backend, and its failure put into a status. -/
def respond (checks : List (Option Status)) (o : BackendOp) (classify : o.Error → Status) :
    WireM (Except Status o.Result) :=
  match firstOf checks with
  | some st => pure (.error st)
  | none => do
      let r ← wire (.backend o)
      pure (r.mapError classify)

namespace Server

variable (s : Server)

def dataBackend : Option Status :=
  if s.hasData then none else some (unavailable "the document store")

def requireTx (txID : Str) : Option Status :=
  if txID = [] then none else s.require permDBTx

def documentChecks (txID : Str) : List (Option Status) :=
  [s.require permDB, s.requireTx txID, s.dataBackend]

def transactionChecks : List (Option Status) := [s.require permDBTx, s.dataBackend]

def put (collection docID data txID : Str) (expectedVersion : Int) : WireM (Except Status Int) :=
  respond (s.documentChecks txID)
    (.data (.put s.key collection docID data txID expectedVersion)) dataErr

def get (collection docID txID : Str) : WireM (Except Status (Option (Str × Int))) :=
  respond (s.documentChecks txID) (.data (.get s.key collection docID txID)) dataErr

def delete (collection docID txID : Str) : WireM (Except Status Bool) :=
  respond (s.documentChecks txID) (.data (.delete s.key collection docID txID)) dataErr

def query (collection : Str) (filters : List WireFilter) (sort : List DB.SortField) (limit : Int)
    (cursor txID : Str) : WireM (Except Status QueryResult) :=
  respond (s.documentChecks txID)
    (.data (.query s.key collection ⟨filtersFrom filters, sort, limit, cursor⟩ txID))
    invalidArgument

def aggregate (collection : Str) (filters : List WireFilter) (func : AggregateFunc) (field : Str)
    (groupBy : List Str) (txID : Str) : WireM (Except Status (List AggregateBucket)) :=
  respond (s.documentChecks txID)
    (.data (.aggregate s.key collection
      ⟨filtersFrom filters, aggregateFuncName func, field, groupBy⟩ txID))
    invalidArgument

def beginTx (timeoutSeconds : Int) : WireM (Except Status Str) :=
  respond s.transactionChecks (.data (.beginTx s.key (timeoutSeconds * second))) dataErr

def commitTx (txID : Str) : WireM (Except Status Unit) :=
  respond s.transactionChecks (.data (.commitTx s.key txID)) dataErr

def rollbackTx (txID : Str) : WireM (Except Status Unit) :=
  respond s.transactionChecks (.data (.rollbackTx s.key txID)) dataErr

/-- `Enqueue`; `metadata` is the trace id that came with the call. -/
def enqueue (metadata : Option Str) (topic payload : Str)
    (delaySeconds priority maxAttempts : Int) (dedupKey traceID : Str) :
    WireM (Except Status (Int × Bool)) :=
  respond
    (s.topicChecks topic)
    (.enqueue s.key topic payload
      ⟨delaySeconds * second, dedupKey, priority, maxAttempts,
        traceFrom metadata traceID⟩)
    enqueueErr

def fetch (metadata : Option Str) (method url : Str) (headers : GoMap Str (List Str)) (body : Str)
    (timeoutMs : Int) (traceID : Str) : WireM (Except Status EgressResponse) :=
  respond
    [s.require permHTTPEgress, if s.hasEgress then none else some (unavailable "outbound HTTP")]
    (.fetch s.key
      ⟨method, url, headers, body, timeoutMs * millisecond, traceFrom metadata traceID⟩)
    egressErr

end Server

/-- The queue on the other side of the wire. The count of the server is not seen there. -/
def wireQueue : QueueBackend Wire Int where
  ack pluginKey messageID := wire (.backend (.ack pluginKey messageID))
  nack pluginKey messageID reason retryAfter :=
    wire (.backend (.nack pluginKey messageID reason retryAfter))
  leftFlight := pure ()

end Moduless.Rpc
