import Moduless.DB.QueueSteps
import Moduless.Interaction.Schedule

/-!
The queue as plugins use it: `Consume` as a program, and the runs in which any
number of consumers and callers work on one table.

A call of the queue reads the clock and runs its statement in one step. The clock
never goes back. The world keeps a log of every step with the table before and
after it, the latest first; no program sees the log. Statements are numbered by
their place in it.
-/

namespace Moduless.HostSvc
open Go DB Interaction

inductive QueueOp where
  | stmt (s : Statement)
  | ctxErr
  | awaitRoom
  | wait
  | deliver (m : Message)
  | bound
  | diverge

/-- What a call returns, and the time it read. -/
structure Outcome (s : Statement) where
  now : Int
  result : Except QueueError s.Result

/-- `ctxErr` and `wait` say whether the context is done, `awaitRoom` and `deliver`
whether they failed. -/
@[reducible] def QueueOp.Ans : QueueOp → Type
  | .stmt s => Outcome s
  | .ctxErr | .awaitRoom | .wait | .deliver _ => Bool
  | .bound => Nat
  | .diverge => Empty

def QueueHost : Interface := ⟨QueueOp, QueueOp.Ans⟩

abbrev QueueM := Program QueueHost

def op (o : QueueOp) : QueueM o.Ans := Program.perform (I := QueueHost) o

def diverge {α : Type} : QueueM α := .call (I := QueueHost) .diverge fun e => nomatch e

inductive ConsumeError where
  | claim (e : QueueError)
  | stream
  deriving DecidableEq

/-- Rejects a batch whose stream broke; errors are ignored. -/
def releaseBatch (pluginKey : Str) : List Message → QueueM Unit
  | [] => pure ()
  | m :: rest => do
      let _ ← op (.stmt (.nack pluginKey m.id m.claim "consumer disconnected".toList 0))
      releaseBatch pluginKey rest

/-- Hands messages over up to the first failure. -/
def deliverBatch (deliver : Message → QueueM Bool) : List Message → QueueM Bool
  | [] => pure false
  | m :: rest => do
      let failed ← deliver m
      if failed then pure true else deliverBatch deliver rest

structure Consumer where
  pluginKey : Str
  topic : Str
  prefetch : Int
  visibility : Int

/-- The rounds of `Consume`; `none` is a nil error. -/
def consumeLoop (c : Consumer) (awaitRoom : Option (QueueM Bool))
    (deliver : Message → QueueM Bool) : Nat → QueueM (Option ConsumeError)
  | 0 => diverge
  | n + 1 => do
      let gone ← op .ctxErr
      if gone then pure none
      else
        let failed ← awaitRoom.getD (pure false)
        if failed then pure none
        else
          let claimed ← op (.stmt (.claim c.pluginKey c.topic c.prefetch c.visibility))
          match claimed.result with
          | .error e => pure (some (.claim e))
          | .ok [] =>
            let gone ← op .wait
            if gone then pure none else consumeLoop c awaitRoom deliver n
          | .ok msgs =>
            let broken ← deliverBatch deliver msgs
            if broken then
              releaseBatch c.pluginKey msgs
              pure (some .stream)
            else consumeLoop c awaitRoom deliver n

def consume (c : Consumer) (awaitRoom : Option (QueueM Bool)) (deliver : Message → QueueM Bool) :
    QueueM (Option ConsumeError) := do
  let n ← op .bound
  consumeLoop
    { c with
      prefetch := if c.prefetch ≤ 0 then 1 else c.prefetch
      visibility := if c.visibility ≤ 0 then defaultVisibility else c.visibility }
    awaitRoom deliver n

structure Entry where
  event : Event QueueHost
  before : QueueTable
  after : QueueTable

structure QueueWorld where
  table : QueueTable
  clock : Int
  log : List Entry

/-- A database can refuse a statement, and its answer can get lost. -/
inductive Fault where
  | none
  | refused
  | lost

/-- How a call goes; `reorder` is the order in which claimed rows are returned. -/
structure Turn where
  now : Int
  stamp : Int
  locked : List Int := []
  fault : Fault := .none
  reorder : List Message → List Message := id

def Turn.moment (turn : Turn) (number : Nat) : Moment :=
  ⟨turn.now, turn.stamp, turn.locked, number⟩

def rearrange (f : List Message → List Message) : (s : Statement) → s.Result → Option s.Result
  | .claim _ _ _ _, msgs => if (f msgs).Perm msgs then some (f msgs) else none
  | .enqueue _ _ _ _, r => some r
  | .ack _ _ _, r => some r
  | .nack _ _ _ _ _, r => some r
  | .reapExpired, r => some r
  | .retryDead _ _, r => some r
  | .purgeDone _, r => some r

def Turn.settle (turn : Turn) (number : Nat) (t : QueueTable) (s : Statement) :
    Option (Except QueueError s.Result × QueueTable) :=
  match turn.fault with
  | .refused => some (.error .refused, t)
  | .lost => some (.error .refused, (s.run (turn.moment number) t).2)
  | .none =>
    match s.run (turn.moment number) t with
    | (.error e, t') => some (.error e, t')
    | (.ok r, t') => (rearrange turn.reorder s r).map (.ok ·, t')

@[reducible] def QueueOp.Choice : QueueOp → Type
  | .stmt _ => Turn
  | .ctxErr | .awaitRoom | .wait | .deliver _ => Bool
  | .bound => Nat
  | .diverge => Unit

namespace QueueWorld

def record (w : QueueWorld) (e : Event QueueHost) : QueueWorld :=
  { w with log := ⟨e, w.table, w.table⟩ :: w.log }

def exec (w : QueueWorld) : (o : QueueOp) → o.Choice → Option (o.Ans × QueueWorld)
  | .stmt s, turn =>
    if turn.now < w.clock then none
    else
      (turn.settle w.log.length w.table s).map fun p =>
        (⟨turn.now, p.1⟩, ⟨p.2, turn.now, ⟨⟨.stmt s, ⟨turn.now, p.1⟩⟩, w.table, p.2⟩ :: w.log⟩)
  | .ctxErr, gone => some (gone, w.record ⟨.ctxErr, gone⟩)
  | .awaitRoom, failed => some (failed, w.record ⟨.awaitRoom, failed⟩)
  | .wait, gone => some (gone, w.record ⟨.wait, gone⟩)
  | .deliver m, failed => some (failed, w.record ⟨.deliver m, failed⟩)
  | .bound, n => some (n, w.record ⟨.bound, n⟩)
  | .diverge, _ => none

end QueueWorld

def queueMachine : Machine QueueHost QueueWorld := ⟨QueueOp.Choice, QueueWorld.exec⟩

inductive QueueCall where
  | stmt (s : Statement)
  | consume (c : Consumer)

def QueueCall.body : QueueCall → QueueM (Option ConsumeError)
  | .stmt s => do
      let _ ← op (.stmt s)
      pure none
  | .consume c => HostSvc.consume c (some (op .awaitRoom)) fun m => op (.deliver m)

def queueSystem : System QueueHost QueueWorld QueueCall (Option ConsumeError) :=
  ⟨queueMachine, QueueCall.body, fun _ => []⟩

abbrev QueuePool := Pool QueueHost QueueWorld QueueCall (Option ConsumeError)

abbrev QueueThread := Thread QueueHost QueueCall (Option ConsumeError)

/-- The runs of the queue: any calls and consumers, in any interleaving. -/
abbrev QueueReach : QueuePool → QueuePool → Prop :=
  queueSystem.Reach (fun _ _ => True) fun _ _ _ => True

/-- An empty queue at some time. -/
def opened (clock : Int) : QueuePool := ⟨⟨.empty, clock, []⟩, []⟩

/-- Choices for a step at a given time at which nothing fails. -/
def calmAt (now : Int) : (o : QueueOp) → o.Choice
  | .stmt _ => { now := now, stamp := now }
  | .ctxErr | .awaitRoom | .wait | .deliver _ => false
  | .bound => (100 : Nat)
  | .diverge => ()

/-- What an answer tells of the tables before and after. -/
def Answers (at_ : Moment) (t t' : QueueTable) : (s : Statement) → Except QueueError s.Result → Prop
  | .claim ownerKey topic _ visibility, .ok msgs =>
    ∀ m ∈ msgs, ∃ r ∈ t.rows, r.status = .pending ∧
      r.ownerKey = ownerKey ∧ r.topic = topic ∧ r.move (leased at_ visibility r) ∈ t'.rows ∧
      m = (r.move (leased at_ visibility r)).message at_.number
  | .enqueue ownerKey topic payload opts, .ok (id, false) =>
    id = t.nextID ∧ enqueuedRow at_ t ownerKey topic payload opts ∈ t'.rows
  | _, _ => True

section Steps

variable {t t' : QueueTable}

theorem answers_of_error (at_ : Moment) (s : Statement) (e : QueueError) :
    Answers at_ t t' s (.error e) := by
  cases s <;> trivial

theorem answers_run {at_ : Moment} {s : Statement} {r r' : s.Result}
    {f : List Message → List Message}
    (hRun : s.run at_ t = (.ok r, t')) (hr : rearrange f s r = some r') :
    Answers at_ t t' s (.ok r') := by
  cases s with
  | claim ownerKey topic limit visibility =>
    intro m hm
    have hClaim : claim at_ t ownerKey topic limit visibility = (.ok r, t') := hRun
    simp only [rearrange] at hr
    split_ifs at hr with hPerm
    cases hr
    have hReturns := claim_returns (congrArg Prod.fst hClaim) (hPerm.mem_iff.mp hm)
    rwa [hClaim] at hReturns
  | enqueue ownerKey topic payload opts =>
    cases hr
    have hEnqueue : enqueue at_ t ownerKey topic payload opts = (.ok r, t') := hRun
    unfold enqueue QueueTable.insert at hEnqueue
    split_ifs at hEnqueue with hTopic hClash
    · cases hEnqueue
    · cases hEnqueue
      exact ⟨rfl, List.mem_append_right _ (List.mem_singleton_self _)⟩
    · cases hEnqueue
      trivial
  | _ => trivial

theorem settle_spec {turn : Turn} {n : Nat} {s : Statement} {r : Except QueueError s.Result}
    (h : turn.settle n t s = some (r, t')) :
    Effect (turn.moment n) s t t' ∧ Answers (turn.moment n) t t' s r := by
  unfold Turn.settle at h
  split at h
  next =>
    cases h
    exact ⟨.refl s, answers_of_error _ s _⟩
  next =>
    cases h
    exact ⟨s.run_effect, answers_of_error _ s _⟩
  next =>
    have hEffect : Effect (turn.moment n) s t (s.run (turn.moment n) t).2 := s.run_effect
    split at h
    next e t₁ hRun =>
      cases h
      rw [hRun] at hEffect
      exact ⟨hEffect, answers_of_error _ s _⟩
    next r₁ t₁ hRun =>
      obtain ⟨r₂, hr, hPair⟩ := Option.map_eq_some_iff.mp h
      cases hPair
      rw [hRun] at hEffect
      exact ⟨hEffect, answers_run hRun hr⟩

end Steps

/-- What a step of a run does to the world. -/
inductive WorldStep (w : QueueWorld) : Event QueueHost → QueueWorld → Prop
  | stmt {at_ : Moment} {s : Statement} {r : Except QueueError s.Result} {t' : QueueTable} :
      w.clock ≤ at_.now → at_.number = w.log.length → Effect at_ s w.table t' →
        Answers at_ w.table t' s r →
      WorldStep w ⟨.stmt s, ⟨at_.now, r⟩⟩
        ⟨t', at_.now, ⟨⟨.stmt s, ⟨at_.now, r⟩⟩, w.table, t'⟩ :: w.log⟩
  | other {e : Event QueueHost} : (∀ s, e.op ≠ .stmt s) → WorldStep w e (w.record e)

theorem WorldStep.log {w w' : QueueWorld} {e : Event QueueHost} (h : WorldStep w e w') :
    w'.log = ⟨e, w.table, w'.table⟩ :: w.log := by
  cases h <;> rfl

theorem WorldStep.clock_le {w w' : QueueWorld} {e : Event QueueHost} (h : WorldStep w e w') :
    w.clock ≤ w'.clock := by
  cases h with
  | stmt hClock _ _ _ => exact hClock
  | other _ => exact Int.le_refl _

theorem worldStep_of_exec {w w' : QueueWorld} {e : Event QueueHost} (h : queueMachine.Exec w e w') :
    WorldStep w e w' := by
  obtain ⟨o, r⟩ := e
  obtain ⟨choice, hExec⟩ : ∃ choice : o.Choice, w.exec o choice = some (r, w') := h
  cases o with
  | stmt s =>
    simp only [QueueWorld.exec] at hExec
    split_ifs at hExec with hClock
    obtain ⟨⟨res, t'⟩, hSettle, hPair⟩ := Option.map_eq_some_iff.mp hExec
    obtain ⟨rfl, rfl⟩ := Prod.mk.inj hPair
    obtain ⟨hEffect, hAnswers⟩ := settle_spec hSettle
    have hStep : WorldStep w ⟨.stmt s, ⟨(choice.moment w.log.length).now, res⟩⟩ _ :=
      .stmt (not_lt.mp hClock) rfl hEffect hAnswers
    exact hStep
  | ctxErr | awaitRoom | wait | deliver m | bound =>
    cases hExec
    exact .other fun _ => QueueOp.noConfusion
  | diverge => cases hExec

end Moduless.HostSvc
