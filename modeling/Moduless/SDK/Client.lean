import Moduless.HostSvc.Rpc

/-!
The clients through which a plugin calls Core.

A call goes to Core and its answer comes back, each way if the transport lets it. A
status that arrives becomes an error of the plugin; most calls attach a sentinel to it
with `hostErr`, some hand it on as it is.
-/

namespace Moduless.SDK
open Go Interaction Rpc
open HostSvc (WireFilter)

/-- The sentinels a plugin tells failures apart by. -/
inductive Kind where
  | versionConflict
  | txExpired
  | notAllowed
  | rateLimited
  | notFound
  deriving DecidableEq

inductive SdkError where
  | hostUnavailable
  | encode (text : Str)
  | decode (text : Str)
  | body (text : Str)
  | status (st : Status)
  | host (kind : Kind) (st : Status)
  deriving DecidableEq

/-- `errors.Is` with a sentinel. -/
def SdkError.is (k : Kind) : SdkError → Bool
  | .host kind _ => kind = k
  | .hostUnavailable | .encode _ | .decode _ | .body _ | .status _ => false

def kindOf : Code → Option Kind
  | .aborted => some .versionConflict
  | .failedPrecondition => some .txExpired
  | .permissionDenied => some .notAllowed
  | .resourceExhausted => some .rateLimited
  | .notFound => some .notFound
  | _ => none

def hostErr (st : Status) : SdkError :=
  match kindOf st.code with
  | some kind => .host kind st
  | none => .status st

/-- A call of Core over the transport. -/
def exchange {α : Type} (rpc : WireM (Except Status α)) : WireM (Except Status α) := do
  let lost ← wire .send
  match lost with
  | some st => pure (.error st)
  | none => do
      let r ← rpc
      match r with
      | .ok a => do
          let lost ← wire .answer
          match lost with
          | some st => pure (.error st)
          | none => pure (.ok a)
      | .error st => do
          let lost ← wire .refusal
          match lost with
          | some (i, message) => pure (.error ⟨i.code, message⟩)
          | none => pure (.error st)

/-- A client is bound to a Core or, outside of one, to nothing. -/
abbrev Client := Option Server

def call {α : Type} (c : Client) (rpc : Server → WireM (Except Status α))
    (wrap : Status → SdkError) : WireM (Except SdkError α) :=
  match c with
  | none => pure (.error .hostUnavailable)
  | some s => do
      let r ← exchange (rpc s)
      pure (r.mapError wrap)

/-- A call with an argument that is encoded first. -/
def callEncoded {α : Type} (c : Client) (what : String) (value : Except Str Str)
    (rpc : Server → Str → WireM (Except Status α)) (wrap : Status → SdkError) :
    WireM (Except SdkError α) :=
  match c, value with
  | none, _ => pure (.error .hostUnavailable)
  | some _, .error text => pure (.error (.encode (what.toList ++ text)))
  | some s, .ok data => call (some s) (fun s => rpc s data) wrap

/-- Where a document goes, if anywhere: the function gives the error of decoding it. -/
abbrev Dest := Option (Str → Option Str)

def decodeDocument (dest : Dest) : Option (Str × Int) → Except SdkError (Bool × Int)
  | none => .ok (false, 0)
  | some (data, version) =>
    match dest.bind fun decode => decode data with
    | some text => .error (.decode ("decode document: ".toList ++ text))
    | none => .ok (true, version)

/-- The seconds that the wire carries for a duration, rounded up. The sum is one of 64 bits
and the quotient is cut down to 32. -/
def wholeSeconds (d : Int) : Int :=
  if d ≤ 0 then 0 else int32 ((int64 (d + second - 1)).tdiv second)

namespace DBClient

def put (c : Client) (collection id : Str) (value : Except Str Str) :
    WireM (Except SdkError Int) :=
  callEncoded c "encode document: " value (fun s data => s.put collection id data [] 0) hostErr

def putIfVersion (c : Client) (collection id : Str) (value : Except Str Str) (expected : Int) :
    WireM (Except SdkError Int) :=
  callEncoded c "encode document: " value (fun s data => s.put collection id data [] expected)
    hostErr

def get (c : Client) (collection id : Str) (dest : Dest) :
    WireM (Except SdkError (Bool × Int)) := do
  let r ← call c (fun s => s.get collection id []) hostErr
  pure (r.bind (decodeDocument dest))

def delete (c : Client) (collection id : Str) : WireM (Except SdkError Bool) :=
  call c (fun s => s.delete collection id []) hostErr

end DBClient

structure Query where
  c : Client
  collection : Str
  filters : List WireFilter
  sort : List DB.SortField
  limit : Int
  cursor : Str

namespace Query

/-- Where a page goes: the function gives the error of decoding it. -/
abbrev Dest := Option (List Str → Option Str)

def decodeDocuments {α : Type} (dest : Dest) (docs : List Str) (a : α) : Except SdkError α :=
  match dest.bind fun decode => decode docs with
  | some text => .error (.decode ("decode documents: ".toList ++ text))
  | none => .ok a

def page (q : Query) (txID : Str) : WireM (Except SdkError QueryResult) :=
  call q.c (fun s => s.query q.collection q.filters q.sort q.limit q.cursor txID) hostErr

def all (q : Query) (dest : Dest) : WireM (Except SdkError Str) := do
  let r ← q.page []
  pure (r.bind fun res => decodeDocuments dest res.documents res.nextCursor)

def rows (q : Query) (dest : Dest) : WireM (Except SdkError (List Str × Str)) := do
  let r ← q.page []
  pure (r.bind fun res => decodeDocuments dest res.documents (res.ids, res.nextCursor))

def buckets (q : Query) (func : AggregateFunc) (field : Str) (groupBy : List Str) (txID : Str) :
    WireM (Except SdkError (List AggregateBucket)) :=
  call q.c (fun s => s.aggregate q.collection q.filters func field groupBy txID) hostErr

/-- `Count`: the value of the first bucket, if there is one. -/
def count (q : Query) : WireM (Except SdkError (Option UInt64)) := do
  let r ← q.buckets .count [] [] []
  pure (r.map fun bs => bs.head?.map AggregateBucket.value)

/-- The later buckets of a key replace the earlier ones. -/
def totals (groupBy : List Str) (bs : List AggregateBucket) : GoMap Str UInt64 :=
  bs.foldl (fun out b => out.set ((groupBy.head?.bind b.keys.get).getD []) b.value) []

/-- `Sum`, `Avg`, `Min` and `Max`. -/
def aggregate (q : Query) (func : AggregateFunc) (field : Str) (groupBy : List Str) :
    WireM (Except SdkError (GoMap Str UInt64)) := do
  let r ← q.buckets func field groupBy []
  pure (r.map (totals groupBy))

end Query

/-- The document store inside a transaction. -/
structure TxClient where
  c : Client
  id : Str

namespace TxClient

variable (t : TxClient)

def putIfVersion (collection id : Str) (value : Except Str Str) (expected : Int) :
    WireM (Except SdkError Int) :=
  callEncoded t.c "encode document: " value (fun s data => s.put collection id data t.id expected)
    hostErr

def put (collection id : Str) (value : Except Str Str) : WireM (Except SdkError Int) :=
  t.putIfVersion collection id value 0

def get (collection id : Str) (dest : Dest) : WireM (Except SdkError (Bool × Int)) := do
  let r ← call t.c (fun s => s.get collection id t.id) hostErr
  pure (r.bind (decodeDocument dest))

/-- The status is handed on as it is. -/
def delete (collection id : Str) : WireM (Except SdkError Bool) :=
  call t.c (fun s => s.delete collection id t.id) .status

end TxClient

namespace DBClient

/-- How `Tx` begins. -/
def beginTx (c : Client) (timeout : Int) : WireM (Except SdkError Str) :=
  call c (fun s => s.beginTx (wholeSeconds timeout)) hostErr

/-- How `Tx` ends. The status is handed on as it is. -/
def commitTx (c : Client) (txID : Str) : WireM (Except SdkError Unit) :=
  call c (fun s => s.commitTx txID) .status

/-- The deferred rollback, whose failure is not reported. -/
def rollbackTx (c : Client) (txID : Str) : WireM Unit := do
  let _ ← call c (fun s => s.rollbackTx txID) .status
  pure ()

/-- `Tx`, with the code of the plugin as `fn`. -/
def tx (c : Client) (timeout : Int) (fn : TxClient → WireM (Option SdkError)) :
    WireM (Option SdkError) := do
  let began ← beginTx c timeout
  match began with
  | .error e => pure (some e)
  | .ok id => do
      let failed ← fn ⟨c, id⟩
      match failed with
      | some e => do
          rollbackTx c id
          pure (some e)
      | none => do
          let committed ← commitTx c id
          match committed with
          | .error e => do
              rollbackTx c id
              pure (some e)
          | .ok _ => pure none

end DBClient

/-- What the options of `Publish` fill in. -/
structure EnqueueRequest where
  delaySeconds : Int := 0
  dedupKey : Str := []
  priority : Int := 0
  maxAttempts : Int := 0

inductive EnqueueOption where
  | delay (d : Int)
  | dedupKey (key : Str)
  | priority (p : Int)
  | maxAttempts (n : Int)

def EnqueueOption.apply (r : EnqueueRequest) : EnqueueOption → EnqueueRequest
  | .delay d => { r with delaySeconds := wholeSeconds d }
  | .dedupKey key => { r with dedupKey := key }
  | .priority p => { r with priority := int32 p }
  | .maxAttempts n => { r with maxAttempts := int32 n }

/-- The metadata of a call: the trace id of the context, if it has one. -/
def outgoing (traceID : Str) : Option Str := if traceID ≠ [] then some traceID else none

namespace QueueClient

def publish (c : Client) (traceID topic : Str) (payload : Except Str Str)
    (opts : List EnqueueOption) : WireM (Except SdkError (Int × Bool)) :=
  callEncoded c "encode payload: " payload
    (fun s data =>
      let req := opts.foldl EnqueueOption.apply {}
      s.enqueue (outgoing traceID) topic data req.delaySeconds req.priority req.maxAttempts
        req.dedupKey [])
    hostErr

/-- The loop of `Consume`, which goes round as often as it is told. -/
def consumeLoop (s : Server) : Nat → WireM (Option SdkError)
  | 0 => .call (I := Wire) .diverge fun e => nomatch e
  | n + 1 => do
      let next ← wire .recv
      match next with
      | .error st => do
          let stopped ← wire .done
          if stopped then pure none else pure (some (.status st))
      | .ok m => do
          let failed ← wire (.handler m)
          match failed with
          | some reason => do
              let _ ← exchange (s.nack wireQueue m.id reason 0)
              consumeLoop s n
          | none => do
              let acked ← exchange (s.ack wireQueue m.id)
              match acked with
              | .error st => pure (some (.status st))
              | .ok _ => consumeLoop s n

/-- `Consume`; opening the stream may fail in the transport. -/
def consume (c : Client) (rounds : Nat) : WireM (Option SdkError) :=
  match c with
  | none => pure (some .hostUnavailable)
  | some s => do
      let lost ← wire .send
      match lost with
      | some st => pure (some (.status st))
      | none => consumeLoop s rounds

end QueueClient

/-- `HTTPClient.Do`; reading the body of the request may fail. -/
def HTTPClient.do (c : Client) (traceID method url : Str) (headers : GoMap Str (List Str))
    (body : Except Str Str) : WireM (Except SdkError EgressResponse) :=
  match c, body with
  | none, _ => pure (.error .hostUnavailable)
  | some _, .error text => pure (.error (.body text))
  | some s, .ok data =>
    call (some s) (fun s => s.fetch (outgoing traceID) method url headers data 0 []) hostErr

end Moduless.SDK
