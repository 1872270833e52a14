import Moduless.HostSvc.DeadLetters
import Moduless.Interaction.Accounts

/-!
No message is given up unseen in careful runs. The account of each consumer says
what became of its batch when its stream broke; with it a rejection by `Consume`
itself hits only messages that were handed over or have attempts left.
-/

namespace Moduless.HostSvc
open Go DB Interaction Discipline

/-- The batch was claimed, and if its stream broke, what was not handed over has
attempts left. -/
structure Batch.Known (b : Batch) (log : List Entry) : Prop where
  delivered : b.messages = [] ∨ ∃ a ∈ log, ∃ d, a.delivery = some d ∧ d.messages = b.messages
  broken : b.broken = true → ∀ m ∈ b.messages,
    handedOver m log = true ∨ m.attempt < m.maxAttempts

theorem Batch.Known.mono {b : Batch} {log : List Entry} (h : b.Known log) (e : Entry) :
    b.Known (e :: log) := by
  constructor
  · refine h.delivered.imp_right ?_
    rintro ⟨a, ha, hDelivered⟩
    exact ⟨a, List.mem_cons_of_mem _ ha, hDelivered⟩
  · exact fun hBroken m hm => (h.broken hBroken m hm).imp_left handedOver_cons

theorem Batch.Known.mem {b : Batch} {log : List Entry} (h : b.Known log) {m : Message}
    (hm : m ∈ b.messages) : ∃ a ∈ log, ∃ d, a.delivery = some d ∧ d.messages = b.messages := by
  refine h.delivered.resolve_left fun hNil => ?_
  rw [hNil] at hm
  cases hm

section Careful

variable {p : QueuePool} {th : QueueThread}

theorem careful_deliver {m : Message} (h : careful p th ⟨.deliver m, true⟩ = true) {a : Entry}
    (ha : a ∈ p.state.log) {d : Delivery} (hDelivery : a.delivery = some d) (hm : m ∈ d.messages) :
    ∀ m' ∈ d.messages, handedOver m' p.state.log = true ∨ m'.attempt < m'.maxAttempts := by
  have hAll := List.all_eq_true.mp h a ha
  rw [hDelivery] at hAll
  simpa [hm] using hAll

theorem careful_nack {ownerKey reason : Str} {id retryAfter : Int} {answered : Nat}
    {out : Outcome (.nack ownerKey id answered reason retryAfter)}
    (h : careful p th ⟨.stmt (.nack ownerKey id answered reason retryAfter), out⟩ = true)
    {r : Row} (hr : r ∈ p.state.table.rows) (hHeld : held ownerKey id r = true) :
    lastClaim id p.state.log = some answered ∧ (th.call.batch = none →
      ∃ a ∈ p.state.log, ∃ m, a.handsOver = some m ∧ m.id = id ∧ m.claim = answered) := by
  have hAny : p.state.table.rows.any (held ownerKey id) = true :=
    List.any_eq_true.mpr ⟨r, hr, hHeld⟩
  simp only [careful, hAny, Bool.not_true, Bool.false_or, Bool.and_eq_true, decide_eq_true_eq,
    Bool.or_eq_true] at h
  refine ⟨h.1, fun hNone => ?_⟩
  rw [hNone] at h
  obtain ⟨a, ha, hHanded⟩ := List.any_eq_true.mp (h.2.resolve_left (by simp))
  obtain ⟨m, hm, hSame⟩ := (Option.any_eq_true _ _).mp hHanded
  simp only [Bool.and_eq_true, decide_eq_true_eq] at hSame
  exact ⟨a, ha, m, hm, hSame.1, hSame.2⟩

theorem careful_reap {out : Outcome .reapExpired}
    (h : careful p th ⟨.stmt .reapExpired, out⟩ = true)
    {r : Row} (hr : r ∈ p.state.table.rows) (hExpired : expired ⟨out.now, 0, [], 0⟩ r = true)
    (hLast : r.maxAttempts ≤ r.attempts) : handedNow r.id p.state.log = true := by
  have hRow := List.all_eq_true.mp h r hr
  simpa [hExpired, not_lt.mpr hLast] using hRow

end Careful

/-- Only a rejection or an expired lease kills a message, and only on its last
attempt. -/
theorem Change.died {at_ : Moment} {s : Statement} {r r' : Row} (h : Change at_ s r r')
    (hDead : r'.status = .dead) : r.status = .processing ∧ r.maxAttempts ≤ r.attempts ∧
      ((∃ answered reason retryAfter, s = .nack r.ownerKey r.id answered reason retryAfter) ∨
        s = .reapExpired ∧ expired ⟨at_.now, 0, [], 0⟩ r = true) := by
  have hReleased : releasedStatus r = .dead → r.maxAttempts ≤ r.attempts := by
    unfold releasedStatus
    split
    next hMax => exact fun _ => hMax
    next => exact fun hStatus => Status.noConfusion hStatus
  cases h with
  | claim _ _ _ _ => cases hDead
  | ack _ _ => cases hDead
  | nack hOwner hStatus => exact ⟨hStatus, hReleased hDead, .inl ⟨_, _, _, by rw [hOwner]⟩⟩
  | reap hStatus hUntil hPast =>
    exact ⟨hStatus, hReleased hDead, .inr ⟨rfl, expired_iff.mpr ⟨hStatus, _, hUntil, hPast⟩⟩⟩
  | retry _ _ => cases hDead

/-- The account of a pool: of its queue and of every consumer's batch. -/
structure PoolAccounted (p : QueuePool) : Prop where
  world : Accounted p.state
  batches : ∀ th ∈ p.threads, ∀ b, consuming.account th.call.batch th.hist = some b →
    b.Known p.state.log

section Run

variable {p : QueuePool} {c : QueueCall} {t : List (Event QueueHost)} {o : QueueOp}
  {k : o.Ans → QueueM (Option ConsumeError)} {r : o.Ans}

theorem account_of_none (h : consuming.account c.batch t = none) : c.batch = none := by
  cases hc : c.batch with
  | none => rfl
  | some b₀ =>
    have hSome : ∀ t b, ∃ b', consuming.account (some b) t = some b' := by
      intro t
      induction t with
      | nil => exact fun b => ⟨b, rfl⟩
      | cons e t ih => exact fun b => ih _
    obtain ⟨b', hb'⟩ := hSome t b₀
    rw [hc, hb'] at h
    cases h

/-- In a careful step only messages die that were seen. -/
theorem PoolAccounted.death (h : PoolAccounted p) (hth : ⟨c, t, .call o k⟩ ∈ p.threads)
    (hPermit : consuming.permits (consuming.account c.batch t) o)
    (hCareful : careful p ⟨c, t, .call o k⟩ ⟨o, r⟩ = true) {at_ : Moment} {s : Statement}
    {res : Except QueueError s.Result} {row row' : Row}
    (hEvent : (⟨o, r⟩ : Event QueueHost) = ⟨.stmt s, ⟨at_.now, res⟩⟩)
    (hRow : row ∈ p.state.table.rows) (hChange : Change at_ s row row')
    (hDead : row'.status = .dead) : seen row.id p.state.log = true := by
  cases hEvent
  obtain ⟨hStatus, hMax, ⟨answered, reason, retryAfter, rfl⟩ | ⟨rfl, hExpired⟩⟩ :=
    Change.died hChange hDead
  · obtain ⟨hLast, hDirect⟩ := careful_nack hCareful hRow (held_iff.mpr ⟨rfl, rfl, hStatus⟩)
    cases hAccount : consuming.account c.batch t with
    | none =>
      obtain ⟨a, ha, m, hHanded, hid, rfl⟩ := hDirect (account_of_none hAccount)
      exact h.world.seen_of_handed hRow hStatus hid hLast ha hHanded
    | some b =>
      rw [hAccount] at hPermit
      obtain ⟨hBroken, m, hm, hid, rfl⟩ := hPermit
      have hKnown := h.batches _ hth b hAccount
      obtain ⟨a, ha, d, hDelivery, hMessages⟩ := hKnown.mem hm
      have hMatched := (h.world.matched a ha d m hDelivery (hMessages ▸ hm)).2
      rw [hid] at hMatched
      obtain ⟨hAttempts, hBudget⟩ := hMatched hLast row hRow rfl hStatus
      rcases hKnown.broken hBroken m hm with hHanded | hLeft
      · obtain ⟨a, ha, hHanded⟩ := List.any_eq_true.mp hHanded
        exact h.world.seen_of_handed hRow hStatus hid hLast ha (of_decide_eq_true hHanded)
      · omega
  · obtain ⟨a, ha, hHanded⟩ := List.any_eq_true.mp (careful_reap hCareful hRow hExpired hMax)
    obtain ⟨m, hm, hSame⟩ := (Option.any_eq_true _ _).mp hHanded
    simp only [Bool.and_eq_true, decide_eq_true_eq] at hSame
    exact h.world.seen_of_handed hRow hStatus hSame.1 hSame.2 ha hm

theorem PoolAccounted.cause (h : PoolAccounted p) (hth : ⟨c, t, .call o k⟩ ∈ p.threads)
    (hPermit : consuming.permits (consuming.account c.batch t) o) {m : Message}
    (hOp : o = .deliver m) : ∃ a ∈ p.state.log, ∃ d, a.delivery = some d ∧ m ∈ d.messages ∧
      ∀ b, consuming.account c.batch t = some b → d.messages = b.messages := by
  subst hOp
  cases hAccount : consuming.account c.batch t with
  | none =>
    rw [hAccount] at hPermit
    obtain ⟨s, hs⟩ := hPermit
    cases hs
  | some b =>
    rw [hAccount] at hPermit
    obtain ⟨a, ha, d, hDelivery, hMessages⟩ := (h.batches _ hth b hAccount).mem hPermit
    refine ⟨a, ha, d, hDelivery, hMessages ▸ hPermit, fun b' hb' => ?_⟩
    rw [hMessages, Option.some.inj hb']

theorem PoolAccounted.batch_step (h : PoolAccounted p) (hth : ⟨c, t, .call o k⟩ ∈ p.threads)
    (hPermit : consuming.permits (consuming.account c.batch t) o)
    (hCareful : careful p ⟨c, t, .call o k⟩ ⟨o, r⟩ = true) {table : QueueTable} {b : Batch}
    (hAccount : consuming.account c.batch t = some b) :
    (b.next ⟨o, r⟩).Known (⟨⟨o, r⟩, p.state.table, table⟩ :: p.state.log) := by
  have hKnown := (h.batches _ hth b hAccount).mono ⟨⟨o, r⟩, p.state.table, table⟩
  unfold Batch.next
  split
  next ownerKey topic limit visibility now msgs hEvent =>
    cases hEvent
    exact ⟨.inr ⟨_, List.mem_cons_self, _, rfl, rfl⟩, fun hBroken => Bool.noConfusion hBroken⟩
  next m hEvent =>
    cases hEvent
    obtain ⟨a, ha, d, hDelivery, hm, hMessages⟩ := h.cause hth hPermit rfl
    refine ⟨hKnown.delivered, fun _ m' hm' => ?_⟩
    refine (careful_deliver hCareful ha hDelivery hm m' ?_).imp_left handedOver_cons
    rw [hMessages b hAccount]
    exact hm'
  next => exact hKnown

end Run

/-- In careful runs a message that is dead was handed over to a consumer since it was
enqueued or last retried. -/
theorem dead_seen {clock : Int} {q : QueuePool} (h : CarefulReach (opened clock) q) :
    ∀ r ∈ q.state.table.rows, r.status = .dead → seen r.id q.state.log = true := by
  have hAll : PoolAccounted q := by
    refine (h.disciplined (D := consuming) (a := QueueCall.batch) (Q := fun _ _ _ => True)
      (J := PoolAccounted) obeys_queueCall (fun _ _ _ _ _ _ _ _ => trivial) rfl ?_ ?_ ?_).1
    · exact ⟨⟨by simp [opened, QueueTable.empty], by simp [opened, QueueTable.empty],
        by simp [opened], by simp [opened]⟩, by simp [opened]⟩
    · rintro p c ⟨hWorld, hBatches⟩ _
      refine ⟨hWorld, System.forall_begin hBatches fun b hb => ?_⟩
      cases c with
      | stmt s => cases hb
      | consume c =>
        cases hb
        exact ⟨.inl rfl, fun hBroken => Bool.noConfusion hBroken⟩
    · intro s before after c t o k r s' hp hPermit _ hExec hCareful
      have hStep := worldStep_of_exec hExec
      have hth : ⟨c, t, .call o k⟩ ∈ before ++ ⟨c, t, .call o k⟩ :: after := by simp
      refine ⟨hp.world.step hStep ?_ ?_, ?_⟩
      · exact fun at_ stmt res row row' hEvent hRow hChange hDead =>
          hp.death hth hPermit hCareful hEvent hRow hChange hDead
      · intro m hEvent
        obtain ⟨a, ha, d, hDelivery, hm, -⟩ := hp.cause hth hPermit (congrArg Event.op hEvent)
        exact (hp.world.matched a ha d m hDelivery hm).1
      · dsimp only
        rw [hStep.log]
        refine System.forall_run (fun th hth b hb => (hp.batches th hth b hb).mono _) ?_
          fun _ hc' => absurd hc' List.not_mem_nil
        intro b hb
        rw [account_snoc] at hb
        obtain ⟨b₀, hb₀, rfl⟩ := Option.map_eq_some_iff.mp hb
        exact hp.batch_step hth hPermit hCareful hb₀
  exact hAll.world.dead

def mailConsumer (prefetch : Int) : QueueCall :=
  .consume ⟨"mail".toList, "out".toList, prefetch, 10⟩

/-- A message with one attempt is handed over and rejected by the plugin. -/
def refusedPool : QueuePool :=
  (queueSystem.play (fun _ _ => true) careful
    [.begin (mailEnqueue 1), .begin (mailConsumer 1), .run 0 1 (calmAt 0), .run 1 5 (calmAt 1),
      .begin (.stmt (.nack "mail".toList 1 4 "no".toList 0)),
      .run 2 1 (calmAt 2)] (opened 0)).get rfl

theorem dead_seen_refused : ∃ r ∈ refusedPool.state.table.rows,
    r.status = .dead ∧ seen r.id refusedPool.state.log = true := by
  have hReach : CarefulReach (opened 0) refusedPool :=
    System.reach_get_play (fun _ _ _ => trivial) (fun _ _ _ h => h) rfl
  have hr := List.mem_of_getElem? (l := refusedPool.state.table.rows) (i := 0) rfl
  exact ⟨_, hr, rfl, dead_seen hReach _ hr rfl⟩

/-- Choices for a step at which handing over fails. -/
def brokenAt (now : Int) : (o : QueueOp) → o.Choice
  | .deliver _ => true
  | o => calmAt now o

/-- Two messages with one attempt each are claimed together, and the stream breaks on
the first. -/
def brokenPool : QueuePool :=
  (queueSystem.play (fun _ _ => true) (fun _ _ _ => true)
    [.begin (mailEnqueue 1), .begin (mailEnqueue 1), .begin (mailConsumer 2), .run 0 1 (calmAt 0),
      .run 1 1 (calmAt 0), .run 2 7 (brokenAt 1)] (opened 0)).get rfl

/-- Both are dead, and neither was handed over. -/
theorem dead_unseen : QueueReach (opened 0) brokenPool ∧
    brokenPool.state.table.rows.length = 2 ∧ ∀ r ∈ brokenPool.state.table.rows, r.status = .dead ∧
      seen r.id brokenPool.state.log = false :=
  ⟨System.reach_get_play (fun _ _ _ => trivial) (fun _ _ _ _ => trivial) rfl, rfl, by decide⟩

end Moduless.HostSvc
