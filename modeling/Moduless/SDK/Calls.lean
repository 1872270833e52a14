import Moduless.SDK.Failures

/-!
The calls of a plugin on documents, transactions, the queue and outbound requests, and
which of them keep the meaning of a failure.
-/

namespace Moduless.SDK
open Go Interaction Program Rpc
open HostSvc (WireFilter)

section Checks

/-- The codes of a request that Core does not take up. -/
def Mild (st : Status) : Prop :=
  st.code ∈ [Code.permissionDenied, .unavailable, .invalidArgument]

theorem Mild.silent {st : Status} (h : Mild st) : ∀ k ∈ judged, kindOf st.code ≠ some k := by
  unfold Mild at h
  rw [code_judged]
  revert h
  cases st.code <;> decide

theorem firstOf_mild {checks : List (Option Status)}
    (h : ∀ check ∈ checks, ∀ st ∈ check, Mild st) :
    ∀ st, firstOf checks = some st → ∀ k ∈ judged, kindOf st.code ≠ some k := by
  induction checks with
  | nil =>
    intro st hFirst
    cases hFirst
  | cons check checks ih =>
    intro st hFirst
    cases check with
    | none => exact ih (fun c hc => h c (List.mem_cons_of_mem _ hc)) st hFirst
    | some st' =>
      cases hFirst
      exact (h _ List.mem_cons_self st rfl).silent

variable (s : Server)

theorem require_mild (perm : Str) : ∀ st ∈ s.require perm, Mild st := by
  intro st hst
  obtain ⟨-, hSome⟩ := Option.ite_none_left_eq_some.mp hst
  rw [← Option.some.inj hSome]
  exact List.mem_cons_self

theorem requireTx_mild (txID : Str) : ∀ st ∈ s.requireTx txID, Mild st := by
  intro st hst
  obtain ⟨-, hRequire⟩ := Option.ite_none_left_eq_some.mp hst
  exact require_mild s _ st hRequire

theorem configured_mild (configured : Bool) (what : String) :
    ∀ st ∈ (if configured then none else some (Server.unavailable what)), Mild st := by
  intro st hst
  obtain ⟨-, hSome⟩ := Option.ite_none_left_eq_some.mp hst
  rw [← Option.some.inj hSome]
  exact List.mem_cons_of_mem _ List.mem_cons_self

theorem documentChecks_silent (txID : Str) :
    ∀ st, firstOf (s.documentChecks txID) = some st → ∀ k ∈ judged, kindOf st.code ≠ some k := by
  apply firstOf_mild
  simp only [Server.documentChecks, List.forall_mem_cons]
  exact ⟨require_mild s _, requireTx_mild s _, configured_mild _ _, by simp⟩

theorem transactionChecks_silent :
    ∀ st, firstOf s.transactionChecks = some st → ∀ k ∈ judged, kindOf st.code ≠ some k := by
  apply firstOf_mild
  simp only [Server.transactionChecks, List.forall_mem_cons]
  exact ⟨require_mild s _, configured_mild _ _, by simp⟩

end Checks

section Reports

variable {o : BackendOp}

theorem reports_dataErr (o : DataOp) : Reports (.data o) dataErr true true := by
  intro e k hk
  rw [and_iff_right rfl, and_iff_right rfl]
  cases e with
  | versionConflict | tooManyTx _ _ _ | unknownTx | other _ => exact Iff.rfl

theorem reports_egressErr (pluginKey : Str) (req : EgressRequest) :
    Reports (.fetch pluginKey req) egressErr true true := by
  intro e k hk
  rw [and_iff_right rfl, and_iff_right rfl]
  cases e with
  | notAllowed _ =>
    have hOther : ∀ k ∈ judged, some Kind.notAllowed ≠ some k := by decide
    exact iff_of_false (hOther k hk) fun h => by cases h
  | rateLimited _ | badRequest _ | deadlineExceeded _ | other _ => exact Iff.rfl

theorem reports_uniform {classify : o.Error → Status} {code : Code}
    (hCode : ∀ e, (classify e).code = code) (hSilent : ∀ k ∈ judged, kindOf code ≠ some k) :
    Reports o classify true false := by
  intro e k hk
  rw [hCode]
  exact iff_of_false (fun h => hSilent k hk h.2) fun h => by cases h.1

theorem reports_unattached (classify : o.Error → Status) : Reports o classify false false :=
  fun _ _ _ => iff_of_false (fun h => by cases h.1) fun h => by cases h.1

end Reports

section Handlers

variable (s : Server)

theorem answers_documents (o : DataOp) (txID : Str) :
    Answers true true (respond (s.documentChecks txID) (.data o) dataErr) :=
  answers_respond (reports_dataErr o) (documentChecks_silent s txID)

theorem answers_invalidArgument (o : DataOp) (txID : Str) :
    Answers true false (respond (s.documentChecks txID) (.data o) invalidArgument) :=
  answers_respond (reports_uniform (fun _ => rfl) (by decide)) (documentChecks_silent s txID)

theorem answers_enqueue (metadata : Option Str) (topic payload : Str)
    (delaySeconds priority maxAttempts : Int) (dedupKey traceID : Str) :
    Answers true false (s.enqueue metadata topic payload delaySeconds priority maxAttempts dedupKey
      traceID) := by
  refine answers_respond (reports_uniform (fun _ => rfl) (by decide)) (firstOf_mild ?_)
  simp only [Server.topicChecks, Server.queueChecks, List.cons_append, List.nil_append,
    List.forall_mem_cons]
  refine ⟨require_mild s _, configured_mild _ _, fun st hst => ?_, by simp⟩
  obtain ⟨-, hSome⟩ := Option.ite_none_right_eq_some.mp hst
  rw [← Option.some.inj hSome]
  exact List.mem_cons_of_mem _ (List.mem_cons_of_mem _ List.mem_cons_self)

theorem answers_fetch (metadata : Option Str) (method url : Str) (headers : GoMap Str (List Str))
    (body : Str) (timeoutMs : Int) (traceID : Str) :
    Answers true true (s.fetch metadata method url headers body timeoutMs traceID) := by
  refine answers_respond (reports_egressErr _ _) (firstOf_mild ?_)
  simp only [List.forall_mem_cons]
  exact ⟨require_mild s _, configured_mild _ _, by simp⟩

end Handlers

/-- The calls of a plugin. The last two are of `Query` and `Aggregate` with a transaction, which
the query builder does not make. -/
inductive SdkCall where
  | put (collection id : Str) (value : Except Str Str)
  | putIfVersion (collection id : Str) (value : Except Str Str) (expected : Int)
  | get (collection id : Str) (dest : Dest)
  | delete (collection id : Str)
  | all (q : Query) (dest : Query.Dest)
  | rows (q : Query) (dest : Query.Dest)
  | count (q : Query)
  | aggregate (q : Query) (func : AggregateFunc) (field : Str) (groupBy : List Str)
  | beginTx (timeout : Int)
  | txPut (txID collection id : Str) (value : Except Str Str)
  | txPutIfVersion (txID collection id : Str) (value : Except Str Str) (expected : Int)
  | txGet (txID collection id : Str) (dest : Dest)
  | txDelete (txID collection id : Str)
  | commitTx (txID : Str)
  | publish (traceID topic : Str) (payload : Except Str Str) (opts : List EnqueueOption)
  | consume (rounds : Nat)
  | fetch (traceID method url : Str) (headers : GoMap Str (List Str)) (body : Except Str Str)
  | queryIn (q : Query) (txID : Str)
  | aggregateIn (q : Query) (func : AggregateFunc) (field : Str) (groupBy : List Str) (txID : Str)

def failing {α : Type} (p : WireM (Except SdkError α)) : WireM (Option SdkError) := do
  let r ← p
  pure (failure r)

namespace SdkCall

def run (c : Client) : SdkCall → WireM (Option SdkError)
  | .put collection id value => failing (DBClient.put c collection id value)
  | .putIfVersion collection id value expected =>
    failing (DBClient.putIfVersion c collection id value expected)
  | .get collection id dest => failing (DBClient.get c collection id dest)
  | .delete collection id => failing (DBClient.delete c collection id)
  | .all q dest => failing (q.all dest)
  | .rows q dest => failing (q.rows dest)
  | .count q => failing q.count
  | .aggregate q func field groupBy => failing (q.aggregate func field groupBy)
  | .beginTx timeout => failing (DBClient.beginTx c timeout)
  | .txPut txID collection id value => failing (TxClient.put ⟨c, txID⟩ collection id value)
  | .txPutIfVersion txID collection id value expected =>
    failing (TxClient.putIfVersion ⟨c, txID⟩ collection id value expected)
  | .txGet txID collection id dest => failing (TxClient.get ⟨c, txID⟩ collection id dest)
  | .txDelete txID collection id => failing (TxClient.delete ⟨c, txID⟩ collection id)
  | .commitTx txID => failing (DBClient.commitTx c txID)
  | .publish traceID topic payload opts =>
    failing (QueueClient.publish c traceID topic payload opts)
  | .consume rounds => QueueClient.consume c rounds
  | .fetch traceID method url headers body =>
    failing (HTTPClient.do c traceID method url headers body)
  | .queryIn q txID => failing (q.page txID)
  | .aggregateIn q func field groupBy txID => failing (q.buckets func field groupBy txID)

/-- The status of the call goes through `hostErr`. -/
def attaches : SdkCall → Bool
  | .txDelete .. | .commitTx _ | .consume _ => false
  | _ => true

/-- What Core answers with a meaning arrives as that. -/
def distinguishes : SdkCall → Bool
  | .txDelete .. | .commitTx _ => false
  | .all .. | .rows .. | .count _ | .aggregate .. | .queryIn .. | .aggregateIn .. => false
  | .publish .. => false
  | _ => true

end SdkCall

section Theorem

variable {t : List (Event Wire)} {err : Option SdkError} {attaches distinguishes : Bool}

theorem failing_kept_iff {α : Type} {p : WireM (Except SdkError α)}
    (hp : ∀ t r, p.Finishes t r → (Kept t (failure r) ↔ Clear attaches distinguishes t))
    (h : (failing p).Finishes t err) : Kept t err ↔ Clear attaches distinguishes t := by
  obtain ⟨r, u, v, rfl, hu, hv⟩ := finishes_bind.mp h
  obtain ⟨rfl, rfl⟩ := finishes_ret.mp hv
  rw [List.append_nil]
  exact hp u r hu

theorem failing_bind_kept_iff {α β : Type} {p : WireM (Except SdkError α)}
    {f : α → Except SdkError β} (hf : ∀ a e, f a = .error e → ∀ k ∈ judged, e.is k = false)
    (hp : ∀ t r, p.Finishes t r → (Kept t (failure r) ↔ Clear attaches distinguishes t))
    (h : (failing (do let r ← p; pure (r.bind f))).Finishes t err) :
    Kept t err ↔ Clear attaches distinguishes t := by
  refine failing_kept_iff (fun t r hr => ?_) h
  obtain ⟨r', u, v, rfl, hu, hv⟩ := finishes_bind.mp hr
  obtain ⟨rfl, rfl⟩ := finishes_ret.mp hv
  rw [List.append_nil, kept_failure_bind hf]
  exact hp u r' hu

theorem failing_map_kept_iff {α β : Type} {p : WireM (Except SdkError α)} {f : α → β}
    (hp : ∀ t r, p.Finishes t r → (Kept t (failure r) ↔ Clear attaches distinguishes t))
    (h : (failing (do let r ← p; pure (r.map f))).Finishes t err) :
    Kept t err ↔ Clear attaches distinguishes t := by
  have hMap : ∀ r : Except SdkError α, r.map f = r.bind fun a => .ok (f a) := by
    intro r
    cases r <;> rfl
  simp only [hMap] at h
  exact failing_bind_kept_iff (fun a e hf => by cases hf) hp h

theorem decodeDocument_silent (dest : Dest) (doc : Option (Str × Int)) (e : SdkError)
    (h : decodeDocument dest doc = .error e) : ∀ k ∈ judged, e.is k = false := by
  unfold decodeDocument at h
  split at h
  next => cases h
  next =>
    split at h
    next =>
      cases h
      exact fun _ _ => rfl
    next => cases h

theorem decodeDocuments_silent {α : Type} (dest : Query.Dest) (docs : List Str) (a : α)
    (e : SdkError) (h : Query.decodeDocuments dest docs a = .error e) :
    ∀ k ∈ judged, e.is k = false := by
  unfold Query.decodeDocuments at h
  split at h
  next =>
    cases h
    exact fun _ _ => rfl
  next => cases h

/-- The operations whose answers have no meaning. -/
def Idle (o : WireOp) : Prop := ∀ r : o.Ans, meaning ⟨o, r⟩ = none

theorem uses_wire {α : Type} {N : WireOp → Prop} {o : WireOp} {f : o.Ans → WireM α} (ho : N o)
    (hf : ∀ r, (f r).Uses N) : (wire o >>= f).Uses N := ⟨ho, hf⟩

theorem returns_wire {α : Type} {Q : α → Prop} {o : WireOp} {f : o.Ans → WireM α}
    (hf : ∀ r, (f r).Returns Q) : (wire o >>= f).Returns Q := hf

theorem uses_exchange {α : Type} {rpc : WireM (Except Status α)} (h : rpc.Uses Idle) :
    (exchange rpc).Uses Idle := by
  refine uses_wire (fun _ => rfl) fun lost => ?_
  cases lost with
  | some st => trivial
  | none =>
    refine uses_bind h fun r => ?_
    cases r with
    | ok a =>
      refine uses_wire (fun _ => rfl) fun lost => ?_
      cases lost <;> trivial
    | error st =>
      refine uses_wire (fun _ => rfl) fun lost => ?_
      cases lost <;> trivial

theorem uses_settle {s : Server} {what : String} {call : WireM (Except Str Unit)}
    (h : call.Uses Idle) : (s.settle wireQueue what call).Uses Idle := by
  unfold Server.settle
  split
  next => trivial
  next =>
    refine uses_bind h fun result => ?_
    cases result <;> trivial

theorem uses_ack (s : Server) (id : Int) : (s.ack wireQueue id).Uses Idle :=
  uses_settle ⟨fun r => by cases r <;> rfl, fun _ => trivial⟩

theorem uses_nack (s : Server) (id : Int) (reason : Str) (retryAfterSeconds : Int) :
    (s.nack wireQueue id reason retryAfterSeconds).Uses Idle :=
  uses_settle ⟨fun r => by cases r <;> rfl, fun _ => trivial⟩

theorem uses_consumeLoop (s : Server) (n : Nat) : (QueueClient.consumeLoop s n).Uses Idle := by
  induction n with
  | zero => exact ⟨fun _ => rfl, fun e => nomatch e⟩
  | succ n ih =>
    refine uses_wire (fun r => by cases r <;> rfl) fun next => ?_
    cases next with
    | error st =>
      refine uses_wire (fun _ => rfl) fun stopped => ?_
      cases stopped <;> trivial
    | ok m =>
      refine uses_wire (fun r => by cases r <;> rfl) fun failed => ?_
      cases failed with
      | some reason =>
        exact uses_bind (uses_exchange (uses_nack s _ _ _)) fun _ => ih
      | none =>
        refine uses_bind (uses_exchange (uses_ack s _)) fun acked => ?_
        cases acked with
        | error st => trivial
        | ok _ => exact ih

/-- An error without a sentinel, or none. -/
def Plain (err : Option SdkError) : Prop := ∀ k ∈ judged, ∀ e ∈ err, e.is k = false

theorem plain_none : Plain none := fun _ _ _ he => by cases he

theorem plain_status (st : Status) : Plain (some (.status st)) := by
  intro k hk e he
  cases he
  rfl

theorem returns_consumeLoop (s : Server) (n : Nat) :
    (QueueClient.consumeLoop s n).Returns Plain := by
  induction n with
  | zero => exact fun e => nomatch e
  | succ n ih =>
    refine returns_wire fun next => ?_
    cases next with
    | error st =>
      refine returns_wire fun stopped => ?_
      cases stopped with
      | true => exact plain_none
      | false => exact plain_status st
    | ok m =>
      refine returns_wire fun failed => ?_
      cases failed with
      | some reason => exact returns_bind (returns_true _) fun _ _ => ih
      | none =>
        refine returns_bind (returns_true _) fun acked _ => ?_
        cases acked with
        | error st => exact plain_status st
        | ok _ => exact ih

theorem consume_kept_iff {c : Client} {rounds : Nat}
    (h : (QueueClient.consume c rounds).Finishes t err) : Kept t err ↔ Clear false true t := by
  have hUses : (QueueClient.consume c rounds).Uses Idle := by
    cases c with
    | none => trivial
    | some s =>
      refine uses_wire (fun _ => rfl) fun lost => ?_
      cases lost with
      | some st => trivial
      | none => exact uses_consumeLoop s rounds
  have hReturns : (QueueClient.consume c rounds).Returns Plain := by
    cases c with
    | none =>
      intro k hk e he
      cases he
      rfl
    | some s =>
      refine returns_wire fun lost => ?_
      cases lost with
      | some st => exact plain_status st
      | none => exact returns_consumeLoop s rounds
  have hQuiet : ∀ y ∈ t, meaning y = none := fun y hy => hUses.hist h y hy y.ans
  refine iff_of_true ((kept_of_quiet hQuiet).mpr (hReturns.finishes h)) ?_
  exact (clear_of_quiet hQuiet).mpr fun hAttaches => by cases hAttaches

theorem do_kept_iff {c : Client} {traceID method url : Str} {headers : GoMap Str (List Str)}
    {body : Except Str Str} {r : Except SdkError EgressResponse}
    (h : (HTTPClient.do c traceID method url headers body).Finishes t r) :
    Kept t (failure r) ↔ Clear true true t := by
  cases c with
  | none =>
    obtain ⟨rfl, rfl⟩ := finishes_ret.mp h
    exact kept_nil_iff fun _ _ => rfl
  | some s =>
    cases body with
    | error text =>
      obtain ⟨rfl, rfl⟩ := finishes_ret.mp h
      exact kept_nil_iff fun _ _ => rfl
    | ok data =>
      have h : (call (some s) (fun s => s.fetch (outgoing traceID) method url headers data 0 [])
        hostErr).Finishes t r := h
      exact call_kept_iff wraps_hostErr (fun s => answers_fetch s _ _ _ _ _ _ _) h

/-- The error of a call matches the sentinels that Core's answer has a meaning for, and no
others, exactly if nothing comes in the way: `Query`, `Aggregate` and `Enqueue` give all
failures one code, `TxClient.Delete` and the commit of `Tx` attach no sentinel, the
transport may lose an error of Core or fail with a code that stands for one. -/
theorem failures_kept_iff {c : Client} {call : SdkCall} (h : (call.run c).Finishes t err) :
    Kept t err ↔ Clear call.attaches call.distinguishes t := by
  cases call with
  | put collection id value | putIfVersion collection id value _
  | txPut _ collection id value | txPutIfVersion _ collection id value _ =>
    refine failing_kept_iff (fun t r hr => ?_) h
    refine callEncoded_kept_iff wraps_hostErr ?_ hr
    exact fun s data => answers_documents s _ _
  | get collection id dest | txGet _ collection id dest =>
    refine failing_bind_kept_iff (decodeDocument_silent dest) (fun t r hr => ?_) h
    refine call_kept_iff wraps_hostErr ?_ hr
    exact fun s => answers_documents s _ _
  | delete collection id =>
    refine failing_kept_iff (fun t r hr => ?_) h
    refine call_kept_iff wraps_hostErr ?_ hr
    exact fun s => answers_documents s _ _
  | all q dest | rows q dest =>
    refine failing_bind_kept_iff (fun _ => decodeDocuments_silent dest _ _) (fun t r hr => ?_) h
    refine call_kept_iff wraps_hostErr ?_ hr
    exact fun s => answers_invalidArgument s _ _
  | count q | aggregate q func field groupBy =>
    refine failing_map_kept_iff (fun t r hr => ?_) h
    refine call_kept_iff wraps_hostErr ?_ hr
    exact fun s => answers_invalidArgument s _ _
  | queryIn q txID | aggregateIn q func field groupBy txID =>
    refine failing_kept_iff (fun t r hr => ?_) h
    refine call_kept_iff wraps_hostErr ?_ hr
    exact fun s => answers_invalidArgument s _ _
  | beginTx timeout =>
    refine failing_kept_iff (fun t r hr => ?_) h
    refine call_kept_iff wraps_hostErr ?_ hr
    exact fun s => answers_respond (reports_dataErr _) (transactionChecks_silent s)
  | commitTx txID =>
    refine failing_kept_iff (fun t r hr => ?_) h
    refine call_kept_iff wraps_status ?_ hr
    exact fun s => answers_respond (reports_unattached _) (transactionChecks_silent s)
  | txDelete txID collection id =>
    refine failing_kept_iff (fun t r hr => ?_) h
    refine call_kept_iff wraps_status ?_ hr
    exact fun s => answers_respond (reports_unattached _) (documentChecks_silent s _)
  | publish traceID topic payload opts =>
    refine failing_kept_iff (fun t r hr => ?_) h
    refine callEncoded_kept_iff wraps_hostErr ?_ hr
    exact fun s data => answers_enqueue s _ _ _ _ _ _ _ _
  | consume rounds => exact consume_kept_iff h
  | fetch traceID method url headers body =>
    refine failing_kept_iff (fun t r hr => ?_) h
    exact do_kept_iff hr

/-- The error of `Tx` is that of its beginning, the plugin's own, or that of its commit. -/
theorem tx_error {c : Client} {timeout : Int} {fn : TxClient → WireM (Option SdkError)}
    {e : SdkError} (h : (DBClient.tx c timeout fn).Finishes t (some e)) :
    (DBClient.beginTx c timeout).Finishes t (.error e) ∨
      ∃ u v w txID, t = u ++ v ++ w ∧ (DBClient.beginTx c timeout).Finishes u (.ok txID) ∧
        ((fn ⟨c, txID⟩).Finishes v (some e) ∨
          (fn ⟨c, txID⟩).Finishes v none ∧
            ∃ w₁ w₂, w = w₁ ++ w₂ ∧ (DBClient.commitTx c txID).Finishes w₁ (.error e)) := by
  obtain ⟨began, u, rest, rfl, hBegin, hRest⟩ := finishes_bind.mp h
  cases began with
  | error e' =>
    obtain ⟨rfl, hSame⟩ := finishes_ret.mp hRest
    cases hSame
    rw [List.append_nil]
    exact .inl hBegin
  | ok txID =>
    obtain ⟨failed, v, w, rfl, hFn, hEnd⟩ := finishes_bind.mp hRest
    refine .inr ⟨u, v, w, txID, (List.append_assoc _ _ _).symm, hBegin, ?_⟩
    cases failed with
    | some e' =>
      obtain ⟨_, w₁, w₂, rfl, -, hRet⟩ := finishes_bind.mp hEnd
      obtain ⟨-, hSame⟩ := finishes_ret.mp hRet
      cases hSame
      exact .inl hFn
    | none =>
      obtain ⟨committed, w₁, w₂, rfl, hCommit, hLast⟩ := finishes_bind.mp hEnd
      cases committed with
      | ok _ =>
        obtain ⟨-, hSame⟩ := finishes_ret.mp hLast
        cases hSame
      | error e' =>
        obtain ⟨_, w₃, w₄, rfl, -, hRet⟩ := finishes_bind.mp hLast
        obtain ⟨-, hSame⟩ := finishes_ret.mp hRet
        cases hSame
        exact .inr ⟨hFn, w₁, _, rfl, hCommit⟩

end Theorem

section Samples

/-- Core with everything granted and set up. -/
def granted : Server :=
  ⟨"notes".toList, [permDB, permDBTx, permQueue, permHTTPEgress], true, true, false, true⟩

/-- A call whose backend answers with the error. -/
def refusedBy (o : BackendOp) (e : o.Error) : List (Event Wire) :=
  [⟨.send, none⟩, ⟨.backend o, .error e⟩, ⟨.refusal, none⟩]

def txUnknown : Status := dataErr .unknownTx

def getOp : BackendOp := .data (.get "notes".toList "notes".toList ['1'] ['t'])

/-- A read in a transaction that Core has rolled back. -/
theorem failures_kept_get :
    ((SdkCall.txGet ['t'] "notes".toList ['1'] none).run (some granted)).Finishes
        (refusedBy getOp .unknownTx) (some (.host .txExpired txUnknown)) ∧
      Kept (refusedBy getOp .unknownTx) (some (.host .txExpired txUnknown)) := by
  have hRun : ((SdkCall.txGet ['t'] "notes".toList ['1'] none).run (some granted)).Finishes
      (refusedBy getOp .unknownTx) (some (.host .txExpired txUnknown)) :=
    .step (.step (.step (.stay _)))
  refine ⟨hRun, (failures_kept_iff hRun).mpr ⟨fun _ y hy st hst => ?_, fun h => ?_⟩⟩
  · simp only [refusedBy, List.mem_cons, List.not_mem_nil, or_false] at hy
    rcases hy with rfl | rfl | rfl <;> cases hst
  · rcases h with hFalse | ⟨y, hy, hInterrupted⟩
    · cases hFalse
    · simp only [refusedBy, List.mem_cons, List.not_mem_nil, or_false] at hy
      rcases hy with rfl | rfl | rfl <;> cases hInterrupted

theorem not_kept_of_plain {o : BackendOp} {e : o.Error} {err : Option SdkError}
    (hPlain : Plain err) (hKind : backendKind o e ≠ none) : ¬ Kept (refusedBy o e) err := by
  rw [kept_of_silent hPlain]
  exact fun hQuiet => hKind (hQuiet _ (List.mem_cons_of_mem _ List.mem_cons_self))

def deleteOp : BackendOp := .data (.delete "notes".toList "notes".toList ['1'] ['t'])

def commitOp : BackendOp := .data (.commitTx "notes".toList ['t'])

def queryOp : BackendOp := .data (.query "notes".toList "notes".toList ⟨[], [], 0, []⟩ ['t'])

def enqueueOp : BackendOp := .enqueue "notes".toList "mail".toList ['1'] ⟨0, [], 0, 0, []⟩

def overDepth : EnqueueError := .overDepth "notes".toList 100000 100000

def notesQuery : Query := ⟨some granted, "notes".toList, [], [], 0, []⟩

/-- A response that is too large for the transport. -/
def oversized : Status := ⟨.resourceExhausted, "received message larger than max".toList⟩

/-- A transaction that ends with a commit of one that is gone. -/
def expiredTx : List (Event Wire) :=
  [⟨.send, none⟩, ⟨.backend (.data (.beginTx "notes".toList 0)), .ok ['t']⟩, ⟨.answer, none⟩] ++
    refusedBy commitOp .unknownTx ++
    refusedBy (.data (.rollbackTx "notes".toList ['t'])) .unknownTx

/-- A delete and a commit in a transaction that is gone, a query in one and a message to a full
queue lose what they mean, and a document that is too large looks like a ceiling. -/
theorem failures_lost :
    (((SdkCall.txDelete ['t'] "notes".toList ['1']).run (some granted)).Finishes
        (refusedBy deleteOp .unknownTx) (some (.status txUnknown)) ∧
      ¬ Kept (refusedBy deleteOp .unknownTx) (some (.status txUnknown))) ∧
    (((DBClient.tx (some granted) 0 fun _ => pure none).Finishes expiredTx
        (some (.status txUnknown))) ∧
      ((SdkCall.commitTx ['t']).run (some granted)).Finishes
        (refusedBy commitOp .unknownTx) (some (.status txUnknown)) ∧
      ¬ Kept (refusedBy commitOp .unknownTx) (some (.status txUnknown))) ∧
    (((SdkCall.queryIn notesQuery ['t']).run (some granted)).Finishes
        (refusedBy queryOp .unknownTx) (some (.status (invalidArgument .unknownTx))) ∧
      ¬ Kept (refusedBy queryOp .unknownTx) (some (.status (invalidArgument .unknownTx)))) ∧
    (((SdkCall.publish [] "mail".toList (.ok ['1']) []).run (some granted)).Finishes
        (refusedBy enqueueOp overDepth) (some (.status (enqueueErr overDepth))) ∧
      ¬ Kept (refusedBy enqueueOp overDepth) (some (.status (enqueueErr overDepth)))) ∧
    (((SdkCall.txGet ['t'] "notes".toList ['1'] none).run (some granted)).Finishes
        [⟨.send, none⟩, ⟨.backend getOp, .ok (some ([], 1))⟩, ⟨.answer, some oversized⟩]
        (some (.host .rateLimited oversized)) ∧
      ¬ Kept [⟨.send, none⟩, ⟨.backend getOp, .ok (some ([], 1))⟩, ⟨.answer, some oversized⟩]
        (some (.host .rateLimited oversized))) := by
  refine ⟨⟨.step (.step (.step (.stay _))), ?_⟩, ⟨?_, .step (.step (.step (.stay _))), ?_⟩,
    ⟨.step (.step (.step (.stay _))), ?_⟩, ⟨.step (.step (.step (.stay _))), ?_⟩,
    ⟨.step (.step (.step (.stay _))), ?_⟩⟩
  · exact not_kept_of_plain (plain_status _) (by decide)
  · exact .step (.step (.step (.step (.step (.step (.step (.step (.step (.stay _)))))))))
  · exact not_kept_of_plain (plain_status _) (by decide)
  · exact not_kept_of_plain (plain_status _) (by decide)
  · exact not_kept_of_plain (plain_status _) (by decide)
  · rw [kept_of_quiet (quiet_of_filterMap rfl)]
    intro hSilent
    cases hSilent .rateLimited (by decide) _ rfl

end Samples
end Moduless.SDK
