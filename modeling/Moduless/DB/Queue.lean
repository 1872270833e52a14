import Mathlib.Data.List.Sort
import Moduless.Go.Builtin

/-!
The durable queue: its table and the statements on it.

A row is a message. The columns a message is posted with are never written again;
every `UPDATE` only moves it along. PostgreSQL refuses a change that would leave
two messages in flight under one deduplication key, so a table without such a
pair is the only one there can be. Times and durations are in nanoseconds.
-/

namespace Moduless.DB
open Go

inductive Status where
  | pending
  | processing
  | done
  | dead
  deriving DecidableEq

/-- The columns no statement writes after the insert. -/
structure Posted where
  id : Int
  ownerKey : Str
  topic : Str
  payload : Str
  priority : Int
  maxAttempts : Int
  dedupKey : Option Str
  parentTraceID : Str
  deriving DecidableEq

/-- The columns that follow a message on its way. -/
structure Progress where
  status : Status
  attempts : Int
  availableAt : Int
  lockedUntil : Option Int
  lastError : Option Str
  updatedAt : Int
  deriving DecidableEq

structure Row extends Posted, Progress
  deriving DecidableEq

namespace Row

def inFlight (r : Row) : Bool := r.status = .pending || r.status = .processing

/-- Two rows that `idx_plugin_queue_dedup` does not let stand together. -/
def Clash (a b : Row) : Prop :=
  a.inFlight = true ∧ b.inFlight = true ∧ a.ownerKey = b.ownerKey ∧ a.topic = b.topic ∧
    a.dedupKey ≠ none ∧ a.dedupKey = b.dedupKey

instance (a b : Row) : Decidable (a.Clash b) :=
  inferInstanceAs (Decidable (_ ∧ _ ∧ _ ∧ _ ∧ _ ∧ _))

theorem Clash.symm {a b : Row} : a.Clash b → b.Clash a := by
  rintro ⟨hA, hB, hOwner, hTopic, hSome, hKey⟩
  exact ⟨hB, hA, hOwner.symm, hTopic.symm, hKey ▸ hSome, hKey.symm⟩

def move (r : Row) (p : Progress) : Row := { r with toProgress := p }

@[simp] theorem move_toPosted (r : Row) (p : Progress) : (r.move p).toPosted = r.toPosted := rfl

@[simp] theorem move_toProgress (r : Row) (p : Progress) : (r.move p).toProgress = p := rfl

end Row

structure QueueTable where
  rows : List Row
  nextID : Int
  serial : rows.Pairwise (·.id < ·.id)
  below : ∀ r ∈ rows, r.id < nextID
  indexed : rows.Pairwise (¬ Row.Clash · ·)

namespace QueueTable

def empty : QueueTable := ⟨[], 1, .nil, by simp, .nil⟩

/-- One row of an `UPDATE`. -/
def moveIf (cond : Row → Bool) (set : Row → Progress) (r : Row) : Row :=
  if cond r then r.move (set r) else r

theorem moveIf_toPosted (cond : Row → Bool) (set : Row → Progress) (r : Row) :
    (moveIf cond set r).toPosted = r.toPosted := by
  unfold moveIf
  split <;> rfl

theorem moveIf_id (cond : Row → Bool) (set : Row → Progress) (r : Row) :
    (moveIf cond set r).id = r.id :=
  congrArg Posted.id (moveIf_toPosted cond set r)

/-- `UPDATE plugin_queue SET set WHERE cond`; `none` where the index is violated. -/
def update (t : QueueTable) (cond : Row → Bool) (set : Row → Progress) : Option QueueTable :=
  if h : (t.rows.map (moveIf cond set)).Pairwise (¬ Row.Clash · ·) then
    some
      { rows := t.rows.map (moveIf cond set)
        nextID := t.nextID
        serial := by
          rw [List.pairwise_map]
          simpa only [moveIf_id] using t.serial
        below := by
          simpa only [List.forall_mem_map, moveIf_id] using t.below
        indexed := h }
  else none

/-- `INSERT … ON CONFLICT DO NOTHING` of a row with the next number of the
sequence, which is used up either way. -/
def insert (t : QueueTable) (r : Row) (hid : r.id = t.nextID) : Bool × QueueTable :=
  if h : ∀ a ∈ t.rows, ¬ a.Clash r then
    (true,
      { rows := t.rows ++ [r]
        nextID := t.nextID + 1
        serial := by
          refine List.pairwise_append.mpr ⟨t.serial,
            List.pairwise_singleton _ _, fun a ha b hb => ?_⟩
          rw [List.mem_singleton.mp hb, hid]
          exact t.below a ha
        below := by
          intro a ha
          rcases List.mem_append.mp ha with ha | ha
          · exact Int.lt_add_one_of_le (Int.le_of_lt (t.below a ha))
          · rw [List.mem_singleton.mp ha, hid]
            exact Int.lt_succ _
        indexed := by
          refine List.pairwise_append.mpr ⟨t.indexed,
            List.pairwise_singleton _ _, fun a ha b hb => ?_⟩
          rw [List.mem_singleton.mp hb]
          exact h a ha })
  else
    (false, { t with
      nextID := t.nextID + 1
      below := fun a ha => Int.lt_add_one_of_le (Int.le_of_lt (t.below a ha)) })

/-- `DELETE FROM plugin_queue WHERE cond`. -/
def delete (t : QueueTable) (cond : Row → Bool) : QueueTable where
  rows := t.rows.filter fun r => !cond r
  nextID := t.nextID
  serial := t.serial.filter _
  below := fun r hr => t.below r (List.mem_filter.mp hr).1
  indexed := t.indexed.filter _

theorem eq_of_id {t : QueueTable} {a b : Row} (ha : a ∈ t.rows) (hb : b ∈ t.rows)
    (h : a.id = b.id) : a = b := by
  by_contra hne
  rcases List.Pairwise.forall_of_forall_of_flip (R := fun a b => a = b ∨ a.id < b.id ∨ b.id < a.id)
      (fun _ _ => .inl rfl) (t.serial.imp fun h => .inr (.inl h))
      (t.serial.imp fun h => .inr (.inr h)) ha hb with h' | h' | h'
  · exact hne h'
  · omega
  · omega

end QueueTable

inductive QueueError where
  | topicRequired
  | refused
  | noDeadMessage (id : Int) (ownerKey : Str)
  deriving DecidableEq

/-- One delivery attempt. `claim` is not sent: it is the number of the statement
that returned the message. -/
structure Message where
  id : Int
  topic : Str
  payload : Str
  attempt : Int
  maxAttempts : Int
  parentTraceID : Str
  claim : Nat
  deriving DecidableEq

def Row.message (r : Row) (claim : Nat) : Message :=
  ⟨r.id, r.topic, r.payload, r.attempts, r.maxAttempts, r.parentTraceID, claim⟩

structure EnqueueOptions where
  delay : Int
  dedupKey : Str
  priority : Int
  maxAttempts : Int
  traceID : Str
  deriving DecidableEq

def defaultMaxAttempts : Int := 5

def defaultVisibility : Int := 30000000000

/-- What `OnDeadLetter` is told. -/
structure DeadLetter where
  ownerKey : Str
  topic : Str
  id : Int
  attempts : Int
  reason : Str
  deriving DecidableEq

/-- What a statement finds: the time its caller reads and the time of the database
that goes into `updated_at`. `locked` are the rows other statements hold, `number`
counts the statements. -/
structure Moment where
  now : Int
  stamp : Int
  locked : List Int := []
  number : Nat := 0

section Statements

variable (at_ : Moment) (t : QueueTable)

def enqueuedRow (ownerKey topic payload : Str) (opts : EnqueueOptions) : Row where
  id := t.nextID
  ownerKey := ownerKey
  topic := topic
  payload := payload
  priority := opts.priority
  maxAttempts := if opts.maxAttempts ≤ 0 then defaultMaxAttempts else opts.maxAttempts
  dedupKey := if opts.dedupKey ≠ [] then some opts.dedupKey else none
  parentTraceID := opts.traceID
  status := .pending
  attempts := 0
  availableAt := at_.now + opts.delay
  lockedUntil := none
  lastError := none
  updatedAt := at_.stamp

/-- The id of the message and whether one like it was already in flight. -/
def enqueue (ownerKey topic payload : Str) (opts : EnqueueOptions) :
    Except QueueError (Int × Bool) × QueueTable :=
  if topic = [] then (.error .topicRequired, t)
  else
    match t.insert (enqueuedRow at_ t ownerKey topic payload opts) rfl with
    | (true, t') => (.ok (t.nextID, false), t')
    | (false, t') => (.ok (0, true), t')

def claimable (ownerKey topic : Str) (r : Row) : Bool :=
  r.ownerKey = ownerKey && r.topic = topic && r.status = .pending && r.availableAt ≤ at_.now &&
    !at_.locked.contains r.id

/-- `ORDER BY priority DESC, id`. -/
def byPriority (a b : Row) : Prop :=
  b.priority < a.priority ∨ a.priority = b.priority ∧ a.id ≤ b.id

instance : DecidableRel byPriority := fun _ _ => inferInstanceAs (Decidable (_ ∨ _ ∧ _))

/-- The rows a claim selects; rows that others hold are stepped over. -/
def claimed (ownerKey topic : Str) (limit : Int) : List Row :=
  ((t.rows.filter (claimable at_ ownerKey topic)).insertionSort byPriority).take
    (if limit ≤ 0 then 1 else limit).toNat

def leaseUntil (visibility : Int) : Int :=
  at_.now + if visibility ≤ 0 then defaultVisibility else visibility

def leased (visibility : Int) (r : Row) : Progress :=
  { r.toProgress with
    status := .processing
    attempts := r.attempts + 1
    lockedUntil := some (leaseUntil at_ visibility)
    updatedAt := at_.stamp }

def claim (ownerKey topic : Str) (limit visibility : Int) :
    Except QueueError (List Message) × QueueTable :=
  let rows := claimed at_ t ownerKey topic limit
  match t.update (fun r => (rows.map (·.id)).contains r.id) (leased at_ visibility) with
  | some t' => (.ok (rows.map fun r => (r.move (leased at_ visibility r)).message at_.number), t')
  | none => (.error .refused, t)

/-- The row an acknowledgement or a rejection is about. -/
def held (ownerKey : Str) (id : Int) (r : Row) : Bool :=
  r.id = id && r.ownerKey = ownerKey && r.status = .processing

def acked (r : Row) : Progress :=
  { r.toProgress with status := .done, lockedUntil := none, updatedAt := at_.stamp }

/-- It does not matter to the caller whether there was such a row. -/
def ack (ownerKey : Str) (id : Int) : Except QueueError Unit × QueueTable :=
  match t.update (held ownerKey id) (acked at_) with
  | some t' => (.ok (), t')
  | none => (.error .refused, t)

/-- Back to be tried again, or given up. -/
def releasedStatus (r : Row) : Status := if r.attempts ≥ r.maxAttempts then .dead else .pending

def nacked (reason : Str) (retryAfter : Int) (r : Row) : Progress :=
  { r.toProgress with
    status := releasedStatus r
    availableAt := at_.now + if retryAfter ≤ 0 then 0 else retryAfter
    lockedUntil := none
    lastError := some reason
    updatedAt := at_.stamp }

/-- The dead letter, if the message was given up. -/
def nack (ownerKey : Str) (id : Int) (reason : Str) (retryAfter : Int) :
    Except QueueError (Option DeadLetter) × QueueTable :=
  match t.update (held ownerKey id) (nacked at_ reason retryAfter) with
  | some t' =>
    (.ok ((t.rows.find? (held ownerKey id)).bind fun r =>
      if releasedStatus r = .dead then some ⟨ownerKey, r.topic, id, r.attempts, reason⟩
      else none), t')
  | none => (.error .refused, t)

def expired (r : Row) : Bool :=
  r.status = .processing && r.lockedUntil.any (· < at_.now)

def reaped (r : Row) : Progress :=
  { r.toProgress with
    status := releasedStatus r
    lockedUntil := none
    lastError := some (r.lastError.getD "visibility timeout expired".toList)
    updatedAt := at_.stamp }

def reapExpired : Except QueueError Nat × QueueTable :=
  match t.update (expired at_) (reaped at_) with
  | some t' => (.ok (t.rows.countP (expired at_)), t')
  | none => (.error .refused, t)

def isDead (ownerKey : Str) (id : Int) (r : Row) : Bool :=
  r.id = id && r.ownerKey = ownerKey && r.status = .dead

def retried (r : Row) : Progress :=
  { r.toProgress with
    status := .pending
    attempts := 0
    availableAt := at_.now
    lockedUntil := none
    updatedAt := at_.stamp }

/-- The index may refuse it: another message with the same key can be in flight by
now. -/
def retryDead (ownerKey : Str) (id : Int) : Except QueueError Unit × QueueTable :=
  match t.update (isDead ownerKey id) (retried at_) with
  | some t' =>
    if t.rows.any (isDead ownerKey id) then (.ok (), t')
    else (.error (.noDeadMessage id ownerKey), t')
  | none => (.error .refused, t)

def purgeable (olderThan : Int) (r : Row) : Bool :=
  r.status = .done && r.updatedAt < at_.now - olderThan

def purgeDone (olderThan : Int) : Except QueueError Nat × QueueTable :=
  (.ok (t.rows.countP (purgeable at_ olderThan)), t.delete (purgeable at_ olderThan))

end Statements

/-- A call of the queue. `answered` is not sent: it is the number of the claim whose
delivery the caller means. -/
inductive Statement where
  | enqueue (ownerKey topic payload : Str) (opts : EnqueueOptions)
  | claim (ownerKey topic : Str) (limit visibility : Int)
  | ack (ownerKey : Str) (id : Int) (answered : Nat)
  | nack (ownerKey : Str) (id : Int) (answered : Nat) (reason : Str) (retryAfter : Int)
  | reapExpired
  | retryDead (ownerKey : Str) (id : Int)
  | purgeDone (olderThan : Int)

namespace Statement

@[reducible] def Result : Statement → Type
  | .enqueue _ _ _ _ => Int × Bool
  | .claim _ _ _ _ => List Message
  | .nack _ _ _ _ _ => Option DeadLetter
  | .reapExpired | .purgeDone _ => Nat
  | .ack _ _ _ | .retryDead _ _ => Unit

def run (at_ : Moment) (t : QueueTable) : (s : Statement) → Except QueueError s.Result × QueueTable
  | .enqueue ownerKey topic payload opts => DB.enqueue at_ t ownerKey topic payload opts
  | .claim ownerKey topic limit visibility => DB.claim at_ t ownerKey topic limit visibility
  | .ack ownerKey id _ => DB.ack at_ t ownerKey id
  | .nack ownerKey id _ reason retryAfter => DB.nack at_ t ownerKey id reason retryAfter
  | .reapExpired => DB.reapExpired at_ t
  | .retryDead ownerKey id => DB.retryDead at_ t ownerKey id
  | .purgeDone olderThan => DB.purgeDone at_ t olderThan

def owner : Statement → Option Str
  | .enqueue ownerKey _ _ _ | .claim ownerKey _ _ _ | .ack ownerKey _ _
  | .nack ownerKey _ _ _ _ | .retryDead ownerKey _ => some ownerKey
  | .reapExpired | .purgeDone _ => none

end Statement

end Moduless.DB
