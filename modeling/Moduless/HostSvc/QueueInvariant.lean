import Moduless.HostSvc.Queue

/-!
What holds of the queue's table in every run: the bounds on attempts, the
deduplication index, and that a message leaves the table only when it has been
purged after its acknowledgement.
-/

namespace Moduless.DB

/-- The bounds a row keeps in each of its states. -/
structure Row.Sound (r : Row) : Prop where
  budget : 1 ≤ r.maxAttempts
  counted : 0 ≤ r.attempts
  pending : r.status = .pending → r.attempts < r.maxAttempts
  processing : r.status = .processing →
    1 ≤ r.attempts ∧ r.attempts ≤ r.maxAttempts ∧ r.lockedUntil ≠ none
  dead : r.status = .dead → r.maxAttempts ≤ r.attempts

theorem sound_enqueuedRow (at_ : Moment) (t : QueueTable) (ownerKey topic payload : Go.Str)
    (opts : EnqueueOptions) : (enqueuedRow at_ t ownerKey topic payload opts).Sound := by
  have hBudget : 1 ≤ (enqueuedRow at_ t ownerKey topic payload opts).maxAttempts := by
    dsimp only [enqueuedRow]
    split
    next => decide
    next h => omega
  exact ⟨hBudget, Int.le_refl 0, fun _ => hBudget, fun h => Status.noConfusion h,
    fun h => Status.noConfusion h⟩

/-- A rejected or reaped message is retried exactly while it has attempts left. -/
theorem sound_released {r : Row} (h : r.Sound)
    {p : Progress} (hStatus : p.status = releasedStatus r)
    (hAttempts : p.attempts = r.attempts) : (r.move p).Sound := by
  have hCases : (r.maxAttempts ≤ r.attempts ∧ p.status = .dead) ∨
      (r.attempts < r.maxAttempts ∧ p.status = .pending) := by
    rw [hStatus, releasedStatus]
    split
    next hMax => exact .inl ⟨hMax, rfl⟩
    next hMax => exact .inr ⟨not_le.mp hMax, rfl⟩
  have hCounted : 0 ≤ p.attempts := hAttempts ▸ h.counted
  rcases hCases with ⟨hMax, hDead⟩ | ⟨hMax, hPending⟩
  · exact ⟨h.budget, hCounted, fun hs => Status.noConfusion (hDead.symm.trans hs),
      fun hs => Status.noConfusion (hDead.symm.trans hs), fun _ => hAttempts ▸ hMax⟩
  · exact ⟨h.budget, hCounted, fun _ => hAttempts ▸ hMax,
      fun hs => Status.noConfusion (hPending.symm.trans hs),
      fun hs => Status.noConfusion (hPending.symm.trans hs)⟩

theorem Change.sound {at_ : Moment} {s : Statement} {r r' : Row} (h : Change at_ s r r')
    (hr : r.Sound) : r'.Sound := by
  cases h with
  | claim _ _ hStatus _ =>
    have hLess := hr.pending hStatus
    have hCounted := hr.counted
    have hNext : 0 ≤ r.attempts + 1 := by omega
    exact ⟨hr.budget, hNext, fun h => Status.noConfusion h,
      fun _ => ⟨Int.add_le_add_right hCounted 1, hLess, Option.some_ne_none _⟩,
      fun h => Status.noConfusion h⟩
  | ack _ _ =>
    exact ⟨hr.budget, hr.counted, fun h => Status.noConfusion h, fun h => Status.noConfusion h,
      fun h => Status.noConfusion h⟩
  | nack _ _ => exact sound_released hr rfl rfl
  | reap _ _ _ => exact sound_released hr rfl rfl
  | retry _ _ =>
    exact ⟨hr.budget, Int.le_refl 0, fun _ => hr.budget, fun h => Status.noConfusion h,
      fun h => Status.noConfusion h⟩

theorem Effect.sound {at_ : Moment} {s : Statement} {t t' : QueueTable} (h : Effect at_ s t t')
    (ht : ∀ r ∈ t.rows, r.Sound) : ∀ r ∈ t'.rows, r.Sound := by
  intro r' hr'
  rcases h.came r' hr' with hr | ⟨r, hr, hChange⟩ | ⟨_, _, _, _, _, rfl⟩
  · exact ht r' hr
  · exact hChange.sound (ht r hr)
  · exact sound_enqueuedRow _ _ _ _ _ _

theorem Effect.frame {at_ : Moment} {s : Statement} {t t' : QueueTable} (h : Effect at_ s t t')
    {ownerKey : Go.Str} (hOwner : s.owner = some ownerKey) {r : Row} (hr : r.ownerKey ≠ ownerKey) :
    r ∈ t.rows ↔ r ∈ t'.rows := by
  constructor
  · intro hMem
    rcases h.kept r hMem with hSame | ⟨r', _, hChange⟩ | ⟨_, _, rfl⟩
    · exact hSame
    · exact absurd (hChange.owner hOwner) hr
    · cases hOwner
  · intro hMem
    rcases h.came r hMem with hSame | ⟨r₀, _, hChange⟩ | ⟨_, _, _, _, rfl, rfl⟩
    · exact hSame
    · have hPosted := congrArg Posted.ownerKey hChange.toPosted
      exact absurd (hPosted.trans (hChange.owner hOwner)) hr
    · exact absurd (Option.some.inj hOwner) hr

theorem QueueTable.eq_of_clash {t : QueueTable} {a b : Row} (ha : a ∈ t.rows) (hb : b ∈ t.rows)
    (h : a.Clash b) : a = b := by
  by_contra hne
  have hSymm : Std.Symm fun a b : Row => ¬ a.Clash b := ⟨fun _ _ hNot hClash => hNot hClash.symm⟩
  exact t.indexed.forall ha hb hne h

/-- A message that is no longer in the table was done and has been purged. -/
theorem Effect.gone {at_ : Moment} {s : Statement} {t t' : QueueTable} (h : Effect at_ s t t')
    {r : Row} (hr : r ∈ t.rows) : (∃ r' ∈ t'.rows, r'.toPosted = r.toPosted) ∨
      (r.status = .done ∧ (∃ olderThan, s = .purgeDone olderThan) ∧
        ∀ r' ∈ t'.rows, r'.id ≠ r.id) := by
  rcases h.kept r hr with hSame | ⟨r', hr', hChange⟩ | ⟨hDone, olderThan, rfl⟩
  · exact .inl ⟨r, hSame, rfl⟩
  · exact .inl ⟨r', hr', hChange.toPosted⟩
  · by_cases hStay : r ∈ t'.rows
    · exact .inl ⟨r, hStay, rfl⟩
    · refine .inr ⟨hDone, ⟨olderThan, rfl⟩, fun r' hr' hid => hStay ?_⟩
      rcases h.came r' hr' with hOld | ⟨_, _, hChange⟩ | ⟨_, _, _, _, hs, _⟩
      · exact QueueTable.eq_of_id hOld hr hid ▸ hr'
      · cases hChange
      · cases hs

end Moduless.DB

namespace Moduless.HostSvc
open Go DB Interaction

/-- The rule for invariants of the world. -/
theorem reach_world {start : QueuePool → QueueCall → Prop} {C : QueueWorld → Event QueueHost → Prop}
    {J : QueueWorld → Prop} {p q : QueuePool}
    (h : queueSystem.Reach start (fun p _ e => C p.state e) p q) (hInit : J p.state)
    (hStep : ∀ w e w', J w → C w e → WorldStep w e w' → J w') : J q.state :=
  h.invariant (J := fun p => J p.state) hInit (fun _ _ hp _ => hp)
    fun _ _ _ _ _ _ _ _ _ hp hExec hCond => hStep _ _ _ hp hCond (worldStep_of_exec hExec)

/-- The step acknowledged the message. -/
def Entry.Acked (id : Int) (e : Entry) : Prop :=
  (∃ ownerKey answered out, e.event = ⟨.stmt (.ack ownerKey id answered), out⟩) ∧
    (∃ r ∈ e.before.rows, r.id = id ∧ r.status = .processing) ∧
    ∃ r ∈ e.after.rows, r.id = id ∧ r.status = .done

/-- The step purged the message. -/
def Entry.Purged (id : Int) (e : Entry) : Prop :=
  (∃ olderThan out, e.event = ⟨.stmt (.purgeDone olderThan), out⟩) ∧
    (∃ r ∈ e.before.rows, r.id = id ∧ r.status = .done) ∧ ∀ r ∈ e.after.rows, r.id ≠ id

/-- The step accepted a new message. -/
def Entry.Accepted (id : Int) (ownerKey topic payload : Str) (e : Entry) : Prop :=
  ∃ opts now, e.event = ⟨.stmt (.enqueue ownerKey topic payload opts), ⟨now, .ok (id, false)⟩⟩

/-- The message was purged at some step after it had been acknowledged. -/
def PurgedAfterAck (id : Int) (log : List Entry) : Prop :=
  ∃ later purge earlier, log = later ++ purge :: earlier ∧ purge.Purged id ∧
    ∃ e ∈ earlier, e.Acked id

def InTable (t : QueueTable) (id : Int) (ownerKey topic payload : Str) : Prop :=
  ∃ r ∈ t.rows, r.id = id ∧ r.ownerKey = ownerKey ∧ r.topic = topic ∧ r.payload = payload

/-- The statement of the step changed rows of its owner only. -/
def Entry.Framed (e : Entry) : Prop :=
  ∀ s out, e.event = ⟨.stmt s, out⟩ → ∀ ownerKey, s.owner = some ownerKey →
    ∀ r : Row, r.ownerKey ≠ ownerKey → (r ∈ e.before.rows ↔ r ∈ e.after.rows)

structure QueueWorld.Sound (w : QueueWorld) : Prop where
  rows : ∀ r ∈ w.table.rows, r.Sound
  done : ∀ r ∈ w.table.rows, r.status = .done → ∃ e ∈ w.log, e.Acked r.id
  kept : ∀ e ∈ w.log, ∀ id ownerKey topic payload, e.Accepted id ownerKey topic payload →
    InTable w.table id ownerKey topic payload ∨ PurgedAfterAck id w.log
  framed : ∀ e ∈ w.log, e.Framed

theorem PurgedAfterAck.cons {id : Int} {log : List Entry} (h : PurgedAfterAck id log) (e : Entry) :
    PurgedAfterAck id (e :: log) := by
  obtain ⟨later, purge, earlier, rfl, hPurge, hAck⟩ := h
  exact ⟨e :: later, purge, earlier, rfl, hPurge, hAck⟩

/-- Only an acknowledgement makes a message done. -/
theorem Change.acked {at_ : Moment} {s : Statement} {r r' : Row} (h : Change at_ s r r')
    (hDone : r'.status = .done) :
    (∃ ownerKey answered, s = .ack ownerKey r.id answered) ∧ r.status = .processing := by
  have hReleased : releasedStatus r ≠ .done := by
    unfold releasedStatus
    split <;> exact Status.noConfusion
  cases h with
  | claim _ _ _ _ => cases hDone
  | ack _ hStatus => exact ⟨⟨_, _, rfl⟩, hStatus⟩
  | nack _ _ => exact absurd hDone hReleased
  | reap _ _ _ => exact absurd hDone hReleased
  | retry _ _ => cases hDone

section Step

variable {w : QueueWorld}

theorem QueueWorld.Sound.other (h : w.Sound) {e : Event QueueHost} (hOther : ∀ s, e.op ≠ .stmt s) :
    (w.record e).Sound := by
  refine ⟨h.rows, ?_, ?_, ?_⟩
  · intro r hr hDone
    obtain ⟨a, ha, hAcked⟩ := h.done r hr hDone
    exact ⟨a, List.mem_cons_of_mem _ ha, hAcked⟩
  · intro a ha id ownerKey topic payload hAccepted
    rcases List.mem_cons.mp ha with rfl | ha
    · obtain ⟨opts, now, rfl⟩ := hAccepted
      exact absurd rfl (hOther _)
    · exact (h.kept a ha id ownerKey topic payload hAccepted).imp_right fun hp => hp.cons _
  · refine List.forall_mem_cons.mpr ⟨?_, h.framed⟩
    rintro s out rfl
    exact absurd rfl (hOther s)

variable {at_ : Moment} {s : Statement} {r : Except QueueError s.Result} {t' : QueueTable}

theorem QueueWorld.Sound.done_stmt (h : w.Sound) (hEffect : Effect at_ s w.table t') {r' : Row}
    (hr' : r' ∈ t'.rows) (hDone : r'.status = .done) :
    ∃ e ∈ ⟨⟨.stmt s, ⟨at_.now, r⟩⟩, w.table, t'⟩ :: w.log, Entry.Acked r'.id e := by
  rcases hEffect.came r' hr' with hOld | ⟨r₀, hr₀, hChange⟩ | ⟨_, _, _, _, _, rfl⟩
  · obtain ⟨e, he, hAcked⟩ := h.done r' hOld hDone
    exact ⟨e, List.mem_cons_of_mem _ he, hAcked⟩
  · obtain ⟨⟨ownerKey, answered, rfl⟩, hStatus⟩ := Change.acked hChange hDone
    have hid : r'.id = r₀.id := congrArg Posted.id hChange.toPosted
    rw [hid]
    exact ⟨_, List.mem_cons_self, ⟨ownerKey, answered, _, rfl⟩, ⟨r₀, hr₀, rfl, hStatus⟩,
      r', hr', hid, hDone⟩
  · cases hDone

/-- A message in the table stays there, or it is purged by this step. -/
theorem QueueWorld.Sound.kept_stmt (h : w.Sound) (hEffect : Effect at_ s w.table t') {id : Int}
    {ownerKey topic payload : Str} (hIn : InTable w.table id ownerKey topic payload) :
    InTable t' id ownerKey topic payload ∨
      PurgedAfterAck id (⟨⟨.stmt s, ⟨at_.now, r⟩⟩, w.table, t'⟩ :: w.log) := by
  obtain ⟨row, hRow, rfl, rfl, rfl, rfl⟩ := hIn
  rcases hEffect.gone hRow with ⟨row', hRow', hPosted⟩ | ⟨hDone, ⟨olderThan, rfl⟩, hGone⟩
  · exact .inl ⟨row', hRow', by rw [hPosted], by rw [hPosted], by rw [hPosted], by rw [hPosted]⟩
  · exact .inr ⟨[], _, w.log, rfl, ⟨⟨olderThan, _, rfl⟩, ⟨row, hRow, rfl, hDone⟩, hGone⟩,
      h.done row hRow hDone⟩

theorem QueueWorld.Sound.step {w' : QueueWorld} {e : Event QueueHost} (h : w.Sound)
    (hStep : WorldStep w e w') : w'.Sound := by
  cases hStep with
  | other hOther => exact h.other hOther
  | @stmt at_ s r t' _ _ hEffect hAnswers =>
    refine ⟨hEffect.sound h.rows, fun _ hr' hDone => h.done_stmt hEffect hr' hDone, ?_, ?_⟩
    · intro a ha id ownerKey topic payload hAccepted
      rcases List.mem_cons.mp ha with rfl | ha
      · obtain ⟨opts, now, hEvent⟩ := hAccepted
        cases hEvent
        obtain ⟨rfl, hRow⟩ := hAnswers
        exact .inl ⟨_, hRow, rfl, rfl, rfl, rfl⟩
      · rcases h.kept a ha id ownerKey topic payload hAccepted with hIn | hPurged
        · exact h.kept_stmt hEffect hIn
        · exact .inr (hPurged.cons _)
    · refine List.forall_mem_cons.mpr ⟨?_, h.framed⟩
      intro s' out hEvent ownerKey hOwner row hRow
      cases hEvent
      exact hEffect.frame hOwner hRow

end Step

theorem sound_opened (clock : Int) : (opened clock).state.Sound :=
  ⟨by simp [opened, QueueTable.empty], by simp [opened, QueueTable.empty], by simp [opened],
    by simp [opened]⟩

/-- In every run: the rows keep the bounds of their states, a deduplication key is
in flight at most once, an accepted message is in the table until it has been
acknowledged and then purged, and a statement given an owner's key changes rows of
that owner only. -/
theorem queue_invariant {clock : Int} {q : QueuePool} (h : QueueReach (opened clock) q) :
    (∀ r ∈ q.state.table.rows,
      (r.status = .pending → r.attempts < r.maxAttempts) ∧
      (r.status = .processing →
        1 ≤ r.attempts ∧ r.attempts ≤ r.maxAttempts ∧ r.lockedUntil ≠ none) ∧
      (r.status = .dead → r.maxAttempts ≤ r.attempts)) ∧
    (∀ a ∈ q.state.table.rows, ∀ b ∈ q.state.table.rows, a.Clash b → a = b) ∧
    (∀ e ∈ q.state.log, ∀ id ownerKey topic payload, e.Accepted id ownerKey topic payload →
      InTable q.state.table id ownerKey topic payload ∨ PurgedAfterAck id q.state.log) ∧
    ∀ e ∈ q.state.log, e.Framed := by
  have hSound : q.state.Sound := reach_world (C := fun _ _ => True) h (sound_opened clock)
    fun _ _ _ hw _ hStep => hw.step hStep
  refine ⟨fun r hr => ?_, fun a ha b hb hClash => QueueTable.eq_of_clash ha hb hClash,
    hSound.kept, hSound.framed⟩
  have hRow := hSound.rows r hr
  exact ⟨hRow.pending, hRow.processing, hRow.dead⟩

/-- A message that is enqueued, claimed once and rejected. -/
def rejectedPool : QueuePool :=
  (queueSystem.play (fun _ _ => true) (fun _ _ _ => true)
    [.begin (.stmt (.enqueue "mail".toList "out".toList [] ⟨0, "k".toList, 0, 1, []⟩)),
      .begin (.stmt (.claim "mail".toList "out".toList 1 10)),
      .begin (.stmt (.nack "mail".toList 1 1 "no".toList 0)),
      .run 0 1 (calmAt 0), .run 1 1 (calmAt 1), .run 2 1 (calmAt 2)] (opened 0)).get rfl

theorem queue_invariant_rejected : ∃ r ∈ rejectedPool.state.table.rows,
    r.status = .dead ∧ r.maxAttempts ≤ r.attempts := by
  have hReach : QueueReach (opened 0) rejectedPool :=
    System.reach_get_play (fun _ _ _ => trivial) (fun _ _ _ _ => trivial) rfl
  have hr := List.mem_of_getElem? (l := rejectedPool.state.table.rows) (i := 0) rfl
  exact ⟨_, hr, rfl, ((queue_invariant hReach).1 _ hr).2.2 rfl⟩

end Moduless.HostSvc
