import Moduless.HostSvc.Consumption
import Moduless.HostSvc.Leases

/-!
Messages that are given up. An attempt counts from the claim on, whether or not the
message is handed over, so a message can die without any consumer having seen it.
The runs described here are those in which that cannot happen.
-/

namespace Moduless.HostSvc
open Go DB Interaction Discipline

/-- The message the step handed over to a consumer. -/
def Entry.handsOver (e : Entry) : Option Message :=
  match e.event with
  | ⟨.deliver m, false⟩ => some m
  | _ => none

/-- The step took the message from the dead. -/
def Entry.retries (id : Int) (e : Entry) : Bool :=
  e.before.rows.any (fun r => r.id = id && r.status = .dead) &&
    e.after.rows.any fun r => r.id = id && r.status = .pending

def sinceRetry (id : Int) (log : List Entry) : List Entry := log.takeWhile fun e => !e.retries id

def sinceClaim (id : Int) (log : List Entry) : List Entry := log.takeWhile fun e => !e.claims id

/-- The message was handed over since it was enqueued or last retried. -/
def seen (id : Int) (log : List Entry) : Bool :=
  (sinceRetry id log).any fun e => e.handsOver.any (·.id = id)

/-- This very delivery was handed over. -/
def handedOver (m : Message) (log : List Entry) : Bool := log.any fun e => e.handsOver = some m

/-- The delivery the message is under lease for was handed over. -/
def handedNow (id : Int) (log : List Entry) : Bool :=
  log.any fun e => e.handsOver.any fun m => m.id = id && lastClaim id log = some m.claim

/-- A stream breaks only where the messages of the batch that are not handed over have
attempts left. A rejection is to the delivery under lease, and a caller rejects what
was handed over. A lease that is a message's last runs out only after the message was
handed over. -/
def careful (p : QueuePool) (th : QueueThread) (e : Event QueueHost) : Bool :=
  match e with
  | ⟨.deliver m, true⟩ =>
    p.state.log.all fun a => a.delivery.all fun d => !d.messages.contains m ||
      d.messages.all fun m' => handedOver m' p.state.log || m'.attempt < m'.maxAttempts
  | ⟨.stmt (.nack ownerKey id answered _ _), _⟩ =>
    (!p.state.table.rows.any (held ownerKey id) || lastClaim id p.state.log = some answered) &&
      (th.call.batch.isSome ||
        p.state.log.any fun a => a.handsOver.any fun m => m.id = id && m.claim = answered)
  | ⟨.stmt .reapExpired, out⟩ =>
    p.state.table.rows.all fun r => !expired ⟨out.now, 0, [], 0⟩ r ||
      r.attempts < r.maxAttempts || handedNow r.id p.state.log
  | _ => true

abbrev CarefulReach : QueuePool → QueuePool → Prop :=
  queueSystem.Reach (fun _ _ => True) fun p th e => careful p th e = true

section Log

variable {id : Int} {e : Entry} {log : List Entry}

theorem retries_iff : e.retries id = true ↔
    (∃ r ∈ e.before.rows, r.id = id ∧ r.status = .dead) ∧
      ∃ r ∈ e.after.rows, r.id = id ∧ r.status = .pending := by
  simp [Entry.retries, List.any_eq_true]

theorem not_retries_before {r : Row} (hr : r ∈ e.before.rows) (hStatus : r.status ≠ .dead) :
    e.retries r.id = false := by
  rw [Bool.eq_false_iff]
  intro hRetries
  obtain ⟨⟨r', hr', hid, hDead⟩, -⟩ := retries_iff.mp hRetries
  exact hStatus (QueueTable.eq_of_id hr' hr hid ▸ hDead)

theorem not_retries_after {r : Row} (hr : r ∈ e.after.rows) (hStatus : r.status ≠ .pending) :
    e.retries r.id = false := by
  rw [Bool.eq_false_iff]
  intro hRetries
  obtain ⟨-, r', hr', hid, hPending⟩ := retries_iff.mp hRetries
  exact hStatus (QueueTable.eq_of_id hr' hr hid ▸ hPending)

theorem seen_cons (he : e.retries id = false) (h : seen id log = true) :
    seen id (e :: log) = true := by
  rw [seen, sinceRetry, List.takeWhile_cons, he]
  rw [seen, sinceRetry] at h
  simp [h]

theorem handedOver_cons {m : Message} (h : handedOver m log = true) :
    handedOver m (e :: log) = true := by
  rw [handedOver] at h
  simp [handedOver, h]

theorem mem_sinceClaim {n : Nat} (hLast : lastClaim id log = some n) {later earlier : List Entry}
    (hLog : log = later ++ e :: earlier) (hn : n < earlier.length) : e ∈ sinceClaim id log := by
  subst hLog
  induction later with
  | nil =>
    rw [List.nil_append, lastClaim] at hLast
    split_ifs at hLast with hClaims
    · cases hLast
      exact absurd hn (Nat.lt_irrefl _)
    · simp [sinceClaim, hClaims]
  | cons a later ih =>
    rw [List.cons_append, lastClaim] at hLast
    split_ifs at hLast with hClaims
    · cases hLast
      simp only [List.length_append, List.length_cons] at hn
      omega
    · have hMem := ih hLast
      simp only [sinceClaim] at hMem
      simp [sinceClaim, hClaims, hMem]

theorem mem_takeWhile_of_forall {α : Type} {p q : α → Bool} {l : List α} {x : α}
    (hx : x ∈ l.takeWhile p) (h : ∀ y ∈ l.takeWhile p, q y = true) : x ∈ l.takeWhile q := by
  induction l with
  | nil => simp at hx
  | cons a l ih =>
    rw [List.takeWhile_cons] at hx h
    split_ifs at hx h with ha
    · obtain ⟨hHead, hTail⟩ := List.forall_mem_cons.mp h
      rw [List.takeWhile_cons, if_pos hHead]
      rcases List.mem_cons.mp hx with rfl | hx
      · exact List.mem_cons_self
      · exact List.mem_cons_of_mem _ (ih hx hTail)
    · cases hx

end Log

/-- What a run keeps of its dead and its leased messages. -/
structure Accounted (w : QueueWorld) : Prop where
  dead : ∀ r ∈ w.table.rows, r.status = .dead → seen r.id w.log = true
  fresh : ∀ r ∈ w.table.rows, r.status = .processing →
    ∀ a ∈ sinceClaim r.id w.log, a.retries r.id = false
  matched : ∀ a ∈ w.log, ∀ d m, a.delivery = some d → m ∈ d.messages →
    m.claim < w.log.length ∧ (lastClaim m.id w.log = some m.claim → ∀ r ∈ w.table.rows,
      r.id = m.id → r.status = .processing → r.attempts = m.attempt ∧ r.maxAttempts = m.maxAttempts)
  causal : ∀ later a earlier m, w.log = later ++ a :: earlier → a.handsOver = some m →
    m.claim < earlier.length

/-- A delivery of the running lease that was handed over lies after the last retry. -/
theorem Accounted.seen_of_handed {w : QueueWorld} (h : Accounted w) {r : Row}
    (hr : r ∈ w.table.rows) (hStatus : r.status = .processing) {m : Message} (hm : m.id = r.id)
    (hLast : lastClaim r.id w.log = some m.claim) {a : Entry} (ha : a ∈ w.log)
    (hHanded : a.handsOver = some m) : seen r.id w.log = true := by
  obtain ⟨later, earlier, hLog⟩ := List.append_of_mem ha
  have hSince := mem_sinceClaim hLast hLog (h.causal later a earlier m hLog hHanded)
  have hRetry : a ∈ sinceRetry r.id w.log :=
    mem_takeWhile_of_forall hSince fun b hb => by simp [h.fresh r hr hStatus b hb]
  exact List.any_eq_true.mpr ⟨a, hRetry, by simp [hHanded, hm]⟩

section Step

variable {w w' : QueueWorld} {e : Event QueueHost}

theorem WorldStep.came (h : WorldStep w e w') {r' : Row} (hr' : r' ∈ w'.table.rows) :
    r' ∈ w.table.rows ∨ r'.status = .pending ∨ ∃ r ∈ w.table.rows, ∃ at_ s res,
      e = ⟨.stmt s, ⟨at_.now, res⟩⟩ ∧ Change at_ s r r' := by
  cases h with
  | other _ => exact .inl hr'
  | @stmt at_ s res t' _ _ hEffect _ =>
    rcases hEffect.came r' hr' with hOld | ⟨r, hr, hChange⟩ | ⟨_, _, _, _, _, rfl⟩
    · exact .inl hOld
    · exact .inr (.inr ⟨r, hr, at_, s, res, rfl, hChange⟩)
    · exact .inr (.inl rfl)

theorem Change.claimed {at_ : Moment} {s : Statement} {r r' : Row} (h : Change at_ s r r')
    (hStatus : r'.status = .processing) : r.status = .pending := by
  have hReleased : releasedStatus r ≠ .processing := by
    unfold releasedStatus
    split <;> exact Status.noConfusion
  cases h with
  | claim _ _ hPending _ => exact hPending
  | ack _ _ => cases hStatus
  | nack _ _ => exact absurd hStatus hReleased
  | reap _ _ _ => exact absurd hStatus hReleased
  | retry _ _ => cases hStatus

theorem WorldStep.processing (h : WorldStep w e w') {r' : Row} (hr' : r' ∈ w'.table.rows)
    (hStatus : r'.status = .processing) :
    r' ∈ w.table.rows ∨ Entry.claims r'.id ⟨e, w.table, w'.table⟩ = true := by
  rcases h.came hr' with hOld | hPending | ⟨r, hr, at_, s, res, rfl, hChange⟩
  · exact .inl hOld
  · rw [hStatus] at hPending
    cases hPending
  · have hid : r.id = r'.id := congrArg Posted.id hChange.toPosted.symm
    exact .inr (claims_iff.mpr ⟨⟨r, hr, hid, Change.claimed hChange hStatus⟩,
      r', hr', rfl, hStatus⟩)

theorem Accounted.matched_step (h : Accounted w) (hStep : WorldStep w e w') {a : Entry}
    (ha : a ∈ w'.log) {d : Delivery} {m : Message} (hDelivery : a.delivery = some d)
    (hm : m ∈ d.messages) : m.claim < w'.log.length ∧ (lastClaim m.id w'.log = some m.claim →
      ∀ r ∈ w'.table.rows, r.id = m.id → r.status = .processing →
        r.attempts = m.attempt ∧ r.maxAttempts = m.maxAttempts) := by
  rw [hStep.log] at ha ⊢
  rw [List.length_cons]
  rcases List.mem_cons.mp ha with rfl | ha
  · obtain ⟨-, -, row, hRow, rfl, -⟩ := hStep.delivered hDelivery hm
    refine ⟨Nat.lt_succ_self _, fun _ r hr hid _ => ?_⟩
    rw [QueueTable.eq_of_id hr hRow hid]
    exact ⟨rfl, rfl⟩
  · obtain ⟨hLess, hMatched⟩ := h.matched a ha d m hDelivery hm
    refine ⟨by omega, fun hLast r hr hid hStatus => ?_⟩
    have hClaims : Entry.claims m.id ⟨e, w.table, w'.table⟩ = false := by
      rw [Bool.eq_false_iff]
      intro hClaims
      rw [lastClaim_claims hClaims, Option.some.injEq] at hLast
      omega
    rw [lastClaim_cons hClaims] at hLast
    rcases hStep.processing hr hStatus with hOld | hNew
    · exact hMatched hLast r hOld hid hStatus
    · rw [hid, hClaims] at hNew
      cases hNew

theorem Accounted.fresh_step (h : Accounted w) (hStep : WorldStep w e w') {r' : Row}
    (hr' : r' ∈ w'.table.rows) (hStatus : r'.status = .processing) :
    ∀ a ∈ sinceClaim r'.id w'.log, a.retries r'.id = false := by
  rw [hStep.log, sinceClaim, List.takeWhile_cons]
  rcases hStep.processing hr' hStatus with hOld | hClaims
  · rw [not_claims hOld (by simp [hStatus])]
    refine List.forall_mem_cons.mpr ⟨?_, h.fresh r' hOld hStatus⟩
    exact not_retries_before hOld (by simp [hStatus])
  · simp [hClaims]

/-- A step keeps the account if it lets only seen messages die and hands over only
what was claimed before. -/
theorem Accounted.step (h : Accounted w) (hStep : WorldStep w e w')
    (hDeath : ∀ at_ s res r r', e = ⟨.stmt s, ⟨at_.now, res⟩⟩ → r ∈ w.table.rows →
      Change at_ s r r' → r'.status = .dead → seen r.id w.log = true)
    (hCause : ∀ m, e = ⟨.deliver m, false⟩ → m.claim < w.log.length) : Accounted w' := by
  refine ⟨?_, fun _ => h.fresh_step hStep, fun _ ha _ _ => h.matched_step hStep ha, ?_⟩
  · intro r' hr' hDead
    rw [hStep.log]
    refine seen_cons (not_retries_after hr' (by simp [hDead])) ?_
    rcases hStep.came hr' with hOld | hPending | ⟨r, hr, at_, s, res, hEvent, hChange⟩
    · exact h.dead r' hOld hDead
    · rw [hDead] at hPending
      cases hPending
    · have hid : r'.id = r.id := congrArg Posted.id hChange.toPosted
      rw [hid]
      exact hDeath at_ s res r r' hEvent hr hChange hDead
  · intro later a earlier m hLog hHanded
    rw [hStep.log] at hLog
    cases later with
    | nil =>
      obtain ⟨rfl, rfl⟩ := List.cons.inj hLog
      unfold Entry.handsOver at hHanded
      split at hHanded
      next hEvent =>
        cases hHanded
        exact hCause m hEvent
      next => cases hHanded
    | cons a₀ later => exact h.causal later a earlier m (List.cons.inj hLog).2 hHanded

end Step

end Moduless.HostSvc
