import Moduless.HostSvc.QueueInvariant

/-!
Leases of the queue. A claim leases the messages it returns until its visibility
has passed. `Ack` and `Nack` name the message only, so an answer to an earlier
delivery ends whatever lease the message is under; leases are exclusive in the
runs without such answers.
-/

namespace Moduless.HostSvc
open Go DB Interaction

/-- A claim that returned messages. -/
structure Delivery where
  ownerKey : Str
  now : Int
  visibility : Int
  messages : List Message

/-- The end of the leases a claim takes. -/
def Delivery.until_ (d : Delivery) : Int :=
  d.now + if d.visibility ≤ 0 then defaultVisibility else d.visibility

/-- What the step delivered, if it was a claim. -/
def Entry.delivery (e : Entry) : Option Delivery :=
  match e.event with
  | ⟨.stmt (.claim ownerKey _ _ visibility), ⟨now, .ok msgs⟩⟩ =>
    some ⟨ownerKey, now, visibility, msgs⟩
  | _ => none

/-- The step put the message under a lease. -/
def Entry.claims (id : Int) (e : Entry) : Bool :=
  e.before.rows.any (fun r => r.id = id && r.status = .pending) &&
    e.after.rows.any fun r => r.id = id && r.status = .processing

/-- The number of the last step that put a message under a lease. -/
def lastClaim (id : Int) : List Entry → Option Nat
  | [] => none
  | e :: log => if e.claims id then some log.length else lastClaim id log

/-- The delivery an operation acknowledges or rejects: owner, message and claim. -/
def QueueOp.answers : QueueOp → Option (Str × Int × Nat)
  | .stmt (.ack ownerKey id answered) => some (ownerKey, id, answered)
  | .stmt (.nack ownerKey id answered _ _) => some (ownerKey, id, answered)
  | _ => none

/-- An answer that finds its message under a lease is to the delivery under lease. -/
def answersCurrent (w : QueueWorld) (e : Event QueueHost) : Bool :=
  match QueueOp.answers e.op with
  | some (ownerKey, id, answered) =>
    !w.table.rows.any (held ownerKey id) || lastClaim id w.log = some answered
  | none => true

/-- Runs in which no late answer arrives. -/
abbrev TimelyReach : QueuePool → QueuePool → Prop :=
  queueSystem.Reach (fun _ _ => True) fun p _ e => answersCurrent p.state e = true

/-- The message is under the lease of this delivery. -/
def Leased (w : QueueWorld) (d : Delivery) (m : Message) : Prop :=
  lastClaim m.id w.log = some m.claim ∧
    ∃ r ∈ w.table.rows, r.id = m.id ∧ r.ownerKey = d.ownerKey ∧ r.status = .processing ∧
      r.attempts = m.attempt ∧ r.lockedUntil = some d.until_

/-- No step of the log acknowledged or rejected this delivery. -/
def Unanswered (log : List Entry) (d : Delivery) (m : Message) : Prop :=
  ∀ e ∈ log, QueueOp.answers e.event.op ≠ some (d.ownerKey, m.id, m.claim)

/-- The rule for what holds of each delivered message in view of the steps after its
delivery. -/
theorem reach_delivered {start : QueuePool → QueueCall → Prop}
    {C : QueueWorld → Event QueueHost → Prop}
    {P : QueueWorld → List Entry → Delivery → Message → Prop} {clock : Int} {q : QueuePool}
    (h : queueSystem.Reach start (fun p _ e => C p.state e) (opened clock) q)
    (hNew : ∀ w e w' d m, WorldStep w e w' → Entry.delivery ⟨e, w.table, w'.table⟩ = some d →
      m ∈ d.messages → P w' [] d m)
    (hOld : ∀ w e w' later d m, C w e → WorldStep w e w' → P w later d m →
      P w' (⟨e, w.table, w'.table⟩ :: later) d m)
    {later earlier : List Entry} {a : Entry} {d : Delivery} {m : Message}
    (hLog : q.state.log = later ++ a :: earlier) (hDelivery : a.delivery = some d)
    (hm : m ∈ d.messages) : P q.state later d m := by
  have hAll : ∀ later a earlier d m, q.state.log = later ++ a :: earlier → a.delivery = some d →
      m ∈ d.messages → P q.state later d m := by
    refine reach_world (J := fun w => ∀ later a earlier d m, w.log = later ++ a :: earlier →
      a.delivery = some d → m ∈ d.messages → P w later d m) h ?_ ?_
    · intro later a earlier d m hLog
      simp [opened] at hLog
    · intro w e w' ih hCond hStep later a earlier d m hLog hDelivery hm
      rw [hStep.log] at hLog
      cases later with
      | nil =>
        obtain ⟨rfl, -⟩ := List.cons.inj hLog
        exact hNew w e w' d m hStep hDelivery hm
      | cons a₀ later =>
        obtain ⟨rfl, hRest⟩ := List.cons.inj hLog
        exact hOld w e w' later d m hCond hStep (ih later a earlier d m hRest hDelivery hm)
  exact hAll later a earlier d m hLog hDelivery hm

theorem claims_iff {id : Int} {e : Entry} : e.claims id = true ↔
    (∃ r ∈ e.before.rows, r.id = id ∧ r.status = .pending) ∧
      ∃ r ∈ e.after.rows, r.id = id ∧ r.status = .processing := by
  simp [Entry.claims, List.any_eq_true]

theorem not_claims {e : Entry} {r : Row} (hr : r ∈ e.before.rows) (hStatus : r.status ≠ .pending) :
    e.claims r.id = false := by
  rw [Bool.eq_false_iff]
  intro hClaims
  obtain ⟨⟨r', hr', hid, hPending⟩, -⟩ := claims_iff.mp hClaims
  exact hStatus (QueueTable.eq_of_id hr' hr hid ▸ hPending)

theorem lastClaim_cons {id : Int} {e : Entry} (h : e.claims id = false) (log : List Entry) :
    lastClaim id (e :: log) = lastClaim id log := by
  rw [lastClaim, if_neg (by simp [h])]

theorem lastClaim_claims {id : Int} {e : Entry} (h : e.claims id = true) (log : List Entry) :
    lastClaim id (e :: log) = some log.length := by
  rw [lastClaim, if_pos h]

theorem delivery_other {e : Event QueueHost} (h : ∀ s, e.op ≠ .stmt s) (t t' : QueueTable) :
    Entry.delivery ⟨e, t, t'⟩ = none := by
  unfold Entry.delivery
  split
  next hEvent => exact absurd (congrArg Event.op hEvent) (h _)
  next => rfl

section Step

variable {w w' : QueueWorld} {e : Event QueueHost} {d : Delivery} {m : Message}

theorem WorldStep.delivered (h : WorldStep w e w')
    (hDelivery : Entry.delivery ⟨e, w.table, w'.table⟩ = some d) (hm : m ∈ d.messages) :
    w.clock ≤ d.now ∧ (∃ r ∈ w.table.rows, r.id = m.id ∧ r.status = .pending) ∧
      ∃ r ∈ w'.table.rows, m = r.message w.log.length ∧ r.status = .processing ∧
        r.ownerKey = d.ownerKey ∧ r.lockedUntil = some d.until_ := by
  cases h with
  | other hOther =>
    rw [delivery_other hOther] at hDelivery
    cases hDelivery
  | @stmt at_ s r t' hClock hNumber hEffect hAnswers =>
    unfold Entry.delivery at hDelivery
    split at hDelivery
    next ownerKey topic limit visibility now msgs hEvent =>
      cases hEvent
      cases hDelivery
      obtain ⟨row, hRow, hPending, hOwner, -, hMoved, rfl⟩ := hAnswers m hm
      exact ⟨hClock, ⟨row, hRow, rfl, hPending⟩, _, hMoved, by rw [hNumber], rfl, hOwner, rfl⟩
    next => cases hDelivery

theorem WorldStep.leased (h : WorldStep w e w')
    (hDelivery : Entry.delivery ⟨e, w.table, w'.table⟩ = some d) (hm : m ∈ d.messages) :
    Leased w' d m := by
  obtain ⟨-, hBefore, r, hr, rfl, hStatus, hOwner, hUntil⟩ := h.delivered hDelivery hm
  have hClaims : Entry.claims r.id ⟨e, w.table, w'.table⟩ = true :=
    claims_iff.mpr ⟨hBefore, r, hr, rfl, hStatus⟩
  refine ⟨?_, r, hr, rfl, hOwner, hStatus, rfl, hUntil⟩
  rw [h.log]
  exact lastClaim_claims hClaims w.log

theorem Leased.answered (h : Leased w d m) (hCurrent : answersCurrent w e = true) {answered : Nat}
    (hSome : QueueOp.answers e.op = some (d.ownerKey, m.id, answered)) : answered = m.claim := by
  obtain ⟨hLast, row, hRow, hid, hOwner, hStatus, -⟩ := h
  have hHeld : w.table.rows.any (held d.ownerKey m.id) = true :=
    List.any_eq_true.mpr ⟨row, hRow, held_iff.mpr ⟨hid, hOwner, hStatus⟩⟩
  rw [answersCurrent, hSome] at hCurrent
  simp only [hHeld, hLast, Bool.not_true, Bool.false_or, decide_eq_true_eq, Option.some.injEq]
    at hCurrent
  exact hCurrent.symm

/-- A lease that has not ended survives every step but its own answer. -/
theorem Leased.step (h : Leased w d m) (hStep : WorldStep w e w')
    (hCurrent : answersCurrent w e = true)
    (hAnswer : QueueOp.answers e.op ≠ some (d.ownerKey, m.id, m.claim))
    (hTime : w'.clock ≤ d.until_) : Leased w' d m := by
  have hOther : ∀ answered, QueueOp.answers e.op ≠ some (d.ownerKey, m.id, answered) :=
    fun answered hSome => hAnswer (h.answered hCurrent hSome ▸ hSome)
  obtain ⟨hLast, row, hRow, hid, hOwner, hStatus, hAttempts, hUntil⟩ := h
  have hClaims : Entry.claims m.id ⟨e, w.table, w'.table⟩ = false :=
    hid ▸ not_claims hRow (by simp [hStatus])
  refine ⟨by rw [hStep.log, lastClaim_cons hClaims, hLast], ?_⟩
  cases hStep with
  | other _ => exact ⟨row, hRow, hid, hOwner, hStatus, hAttempts, hUntil⟩
  | stmt _ _ hEffect _ =>
    rcases hEffect.kept row hRow with hKept | ⟨row', -, hChange⟩ | ⟨hDone, -⟩
    · exact ⟨row, hKept, hid, hOwner, hStatus, hAttempts, hUntil⟩
    · cases hChange with
      | claim _ _ hPending _ => exact absurd (hStatus.symm.trans hPending) (by decide)
      | ack hKey _ =>
        rw [← hKey, hOwner, hid] at hOther
        exact absurd rfl (hOther _)
      | nack hKey _ =>
        rw [← hKey, hOwner, hid] at hOther
        exact absurd rfl (hOther _)
      | reap _ hLocked hPast =>
        have hEnd := Option.some.inj (hUntil.symm.trans hLocked)
        dsimp only at hTime
        omega
      | retry _ hDead => exact absurd (hStatus.symm.trans hDead) (by decide)
    · exact absurd (hStatus.symm.trans hDone) (by decide)

/-- Until it ends, an unanswered lease is in force, and no later claim returned its
message. -/
def LeaseHolds (w : QueueWorld) (later : List Entry) (d : Delivery) (m : Message) : Prop :=
  Unanswered later d m →
    (∀ e ∈ later, ∀ d' m', e.delivery = some d' → m' ∈ d'.messages → m'.id = m.id →
      d.until_ < d'.now) ∧
    (w.clock ≤ d.until_ → Leased w d m)

theorem LeaseHolds.step {later : List Entry} (hCurrent : answersCurrent w e = true)
    (hStep : WorldStep w e w') (h : LeaseHolds w later d m) :
    LeaseHolds w' (⟨e, w.table, w'.table⟩ :: later) d m := by
  intro hUnanswered
  obtain ⟨hAnswer, hOld⟩ := List.forall_mem_cons.mp hUnanswered
  obtain ⟨hLater, hLease⟩ := h hOld
  constructor
  · refine List.forall_mem_cons.mpr ⟨fun d' m' hDelivery hm' hid => ?_, hLater⟩
    obtain ⟨hNow, ⟨row, hRow, hRowID, hPending⟩, -⟩ := hStep.delivered hDelivery hm'
    by_contra hEarly
    obtain ⟨-, leased, hLeased, hLeasedID, -, hStatus, -⟩ := hLease (by omega)
    have hSame := QueueTable.eq_of_id hRow hLeased (by rw [hRowID, hLeasedID, hid])
    rw [hSame, hStatus] at hPending
    cases hPending
  · exact fun hTime => (hLease (Int.le_trans hStep.clock_le hTime)).step
      hStep hCurrent hAnswer hTime

end Step

/-- In runs without late answers leases are exclusive: as long as a delivery is not
answered, no later claim returned its message before the lease ended, and until then
the message is under that lease. -/
theorem leases_exclusive {clock : Int} {q : QueuePool} (h : TimelyReach (opened clock) q)
    {later earlier : List Entry} {e : Entry} {d : Delivery} {m : Message}
    (hLog : q.state.log = later ++ e :: earlier) (hDelivery : e.delivery = some d)
    (hm : m ∈ d.messages) (hUnanswered : Unanswered later d m) :
    (∀ e' ∈ later, ∀ d' m', e'.delivery = some d' → m' ∈ d'.messages → m'.id = m.id →
      d.until_ < d'.now) ∧
    (q.state.clock ≤ d.until_ → Leased q.state d m) :=
  reach_delivered (C := fun w e => answersCurrent w e = true) (P := LeaseHolds) h
    (fun _ _ _ _ _ hStep hDelivery hm _ => ⟨by simp, fun _ => hStep.leased hDelivery hm⟩)
    (fun _ _ _ _ _ _ => LeaseHolds.step) hLog hDelivery hm hUnanswered

def mailEnqueue (maxAttempts : Int) : QueueCall :=
  .stmt (.enqueue "mail".toList "out".toList [] ⟨0, [], 0, maxAttempts, []⟩)

def mailClaim (visibility : Int) : QueueCall :=
  .stmt (.claim "mail".toList "out".toList 1 visibility)

/-- A message is claimed at time 1 for 10, and another claim comes at time 5. -/
def leasedPool : QueuePool :=
  (queueSystem.play (fun _ _ => true) (fun p _ e => answersCurrent p.state e)
    [.begin (mailEnqueue 5), .begin (mailClaim 10), .begin (mailClaim 10), .run 0 1 (calmAt 0),
      .run 1 1 (calmAt 1), .run 2 1 (calmAt 5)] (opened 0)).get rfl

/-- The second claim comes while the lease runs and gets nothing. -/
theorem leases_exclusive_mail : ∃ e d m, leasedPool.state.log[1]? = some e ∧
    e.delivery = some d ∧ m ∈ d.messages ∧ m.id = 1 ∧ Leased leasedPool.state d m := by
  have hReach : TimelyReach (opened 0) leasedPool :=
    System.reach_get_play (fun _ _ _ => trivial) (fun _ _ _ h => h) rfl
  refine ⟨_, _, _, rfl, rfl, List.mem_cons_self, rfl, ?_⟩
  have hSplit : leasedPool.state.log = [_] ++ _ :: _ := rfl
  refine (leases_exclusive hReach hSplit rfl List.mem_cons_self ?_).2 (by decide)
  exact List.forall_mem_singleton.mpr (by decide)

/-- The first claim's lease expires, the message is reaped and claimed again at time
12 for 30. The first claim's holder rejects it at time 13, and a third claim gets it
at time 14. -/
def lateNackPool : QueuePool :=
  (queueSystem.play (fun _ _ => true) (fun _ _ _ => true)
    [.begin (mailEnqueue 5), .begin (mailClaim 10), .begin (.stmt .reapExpired),
      .begin (mailClaim 30), .begin (.stmt (.nack "mail".toList 1 1 [] 0)), .begin (mailClaim 30),
      .run 0 1 (calmAt 0), .run 1 1 (calmAt 1), .run 2 1 (calmAt 12), .run 3 1 (calmAt 12),
      .run 4 1 (calmAt 13), .run 5 1 (calmAt 14)] (opened 0)).get rfl

/-- The late rejection ends a lease that is not its own: the message goes to another
claim at time 14, although it was leased until 42 and that delivery was not answered. -/
theorem lease_broken : QueueReach (opened 0) lateNackPool ∧
    ∃ e e' d d' m m', lateNackPool.state.log[2]? = some e ∧ lateNackPool.state.log[0]? = some e' ∧
      e.delivery = some d ∧ m ∈ d.messages ∧ Unanswered (lateNackPool.state.log.take 2) d m ∧
      e'.delivery = some d' ∧ m' ∈ d'.messages ∧ m'.id = m.id ∧ d'.now < d.until_ := by
  refine ⟨System.reach_get_play (fun _ _ _ => trivial) (fun _ _ _ _ => trivial) rfl,
    _, _, _, _, _, _, rfl, rfl, rfl, List.mem_cons_self, ?_, rfl, List.mem_cons_self, rfl,
    by decide⟩
  exact List.forall_mem_cons.mpr ⟨by decide, List.forall_mem_singleton.mpr (by decide)⟩

end Moduless.HostSvc
