import Mathlib.Data.List.Pairwise
import Moduless.DB.Queue

/-!
What the statements of the queue do to its rows. `Change` lists the moves of a
message, `Effect` says that a statement does nothing else but insert and purge.
Every invariant of the queue is read off these two.
-/

namespace Moduless.DB
open Go

/-- A statement moves a message. -/
inductive Change (at_ : Moment) : Statement → Row → Row → Prop
  | claim {ownerKey topic : Str} {limit visibility : Int} {r : Row} :
      r.ownerKey = ownerKey → r.topic = topic → r.status = .pending → r.availableAt ≤ at_.now →
      Change at_ (.claim ownerKey topic limit visibility) r (r.move (leased at_ visibility r))
  | ack {ownerKey : Str} {answered : Nat} {r : Row} :
      r.ownerKey = ownerKey → r.status = .processing →
      Change at_ (.ack ownerKey r.id answered) r (r.move (acked at_ r))
  | nack {ownerKey reason : Str} {answered : Nat} {retryAfter : Int} {r : Row} :
      r.ownerKey = ownerKey → r.status = .processing →
      Change at_ (.nack ownerKey r.id answered reason retryAfter) r
        (r.move (nacked at_ reason retryAfter r))
  | reap {r : Row} {until_ : Int} :
      r.status = .processing → r.lockedUntil = some until_ → until_ < at_.now →
      Change at_ .reapExpired r (r.move (reaped at_ r))
  | retry {ownerKey : Str} {r : Row} :
      r.ownerKey = ownerKey → r.status = .dead →
      Change at_ (.retryDead ownerKey r.id) r (r.move (retried at_ r))

theorem Change.toPosted {at_ : Moment} {s : Statement} {r r' : Row} (h : Change at_ s r r') :
    r'.toPosted = r.toPosted := by
  cases h <;> rfl

theorem Change.owner {at_ : Moment} {s : Statement} {r r' : Row} (h : Change at_ s r r')
    {ownerKey : Str} (hOwner : s.owner = some ownerKey) : r.ownerKey = ownerKey := by
  cases h with
  | claim hKey | ack hKey | nack hKey | retry hKey => exact hKey.trans (Option.some.inj hOwner)
  | reap => cases hOwner

/-- How a statement takes one table to another. -/
structure Effect (at_ : Moment) (s : Statement) (t t' : QueueTable) : Prop where
  kept : ∀ r ∈ t.rows, r ∈ t'.rows ∨ (∃ r' ∈ t'.rows, Change at_ s r r') ∨
    r.status = .done ∧ ∃ olderThan, s = .purgeDone olderThan
  came : ∀ r' ∈ t'.rows, r' ∈ t.rows ∨ (∃ r ∈ t.rows, Change at_ s r r') ∨
    ∃ ownerKey topic payload opts, s = .enqueue ownerKey topic payload opts ∧
      r' = enqueuedRow at_ t ownerKey topic payload opts

section Effects

variable {at_ : Moment} {t t' : QueueTable}

theorem Effect.refl (s : Statement) : Effect at_ s t t :=
  ⟨fun _ hr => .inl hr, fun _ hr => .inl hr⟩

theorem QueueTable.mem_update {cond : Row → Bool} {set : Row → Progress}
    (h : t.update cond set = some t') {r' : Row} :
    r' ∈ t'.rows ↔ ∃ r ∈ t.rows, QueueTable.moveIf cond set r = r' := by
  unfold update at h
  split at h
  next =>
    cases h
    exact List.mem_map
  next => cases h

theorem effect_update {s : Statement} {cond : Row → Bool} {set : Row → Progress}
    (hCond : ∀ r ∈ t.rows, cond r = true → Change at_ s r (r.move (set r)))
    (h : t.update cond set = some t') : Effect at_ s t t' := by
  have hMove : ∀ r ∈ t.rows, QueueTable.moveIf cond set r = r ∨
      Change at_ s r (QueueTable.moveIf cond set r) := by
    intro r hr
    unfold QueueTable.moveIf
    split
    next hc => exact .inr (hCond r hr hc)
    next => exact .inl rfl
  constructor
  · intro r hr
    have hNew := (QueueTable.mem_update h).mpr ⟨r, hr, rfl⟩
    rcases hMove r hr with hSame | hChange
    · exact .inl (hSame ▸ hNew)
    · exact .inr (.inl ⟨_, hNew, hChange⟩)
  · intro r' hr'
    obtain ⟨r, hr, rfl⟩ := (QueueTable.mem_update h).mp hr'
    rcases hMove r hr with hSame | hChange
    · rw [hSame]
      exact .inl hr
    · exact .inr (.inl ⟨r, hr, hChange⟩)

theorem claimed_claimable {ownerKey topic : Str} {limit : Int} {r : Row}
    (h : r ∈ claimed at_ t ownerKey topic limit) :
    r ∈ t.rows ∧ claimable at_ ownerKey topic r = true := by
  have hMem := List.mem_of_mem_take h
  rw [List.mem_insertionSort] at hMem
  exact List.mem_filter.mp hMem

theorem change_claimed {ownerKey topic : Str} {limit : Int} {r : Row} (visibility : Int)
    (h : r ∈ claimed at_ t ownerKey topic limit) :
    Change at_ (.claim ownerKey topic limit visibility) r (r.move (leased at_ visibility r)) := by
  obtain ⟨-, hClaimable⟩ := claimed_claimable h
  simp only [claimable, Bool.and_eq_true, decide_eq_true_eq] at hClaimable
  obtain ⟨⟨⟨⟨hOwner, hTopic⟩, hStatus⟩, hTime⟩, -⟩ := hClaimable
  exact .claim hOwner hTopic hStatus hTime

theorem claimed_of_contains {ownerKey topic : Str} {limit : Int} {r : Row} (hr : r ∈ t.rows)
    (h : ((claimed at_ t ownerKey topic limit).map (·.id)).contains r.id = true) :
    r ∈ claimed at_ t ownerKey topic limit := by
  obtain ⟨c, hc, hid⟩ := List.mem_map.mp (List.contains_iff_mem.mp h)
  rw [← QueueTable.eq_of_id (claimed_claimable hc).1 hr hid]
  exact hc

theorem held_iff {ownerKey : Str} {id : Int} {r : Row} :
    held ownerKey id r = true ↔ r.id = id ∧ r.ownerKey = ownerKey ∧ r.status = .processing := by
  simp [held, and_assoc]

theorem expired_iff {r : Row} : expired at_ r = true ↔
    r.status = .processing ∧ ∃ until_, r.lockedUntil = some until_ ∧ until_ < at_.now := by
  simp [expired, Option.any_eq_true]

theorem isDead_iff {ownerKey : Str} {id : Int} {r : Row} :
    isDead ownerKey id r = true ↔ r.id = id ∧ r.ownerKey = ownerKey ∧ r.status = .dead := by
  simp [isDead, and_assoc]

theorem effect_enqueue (ownerKey topic payload : Str) (opts : EnqueueOptions) :
    Effect at_ (.enqueue ownerKey topic payload opts) t
      (enqueue at_ t ownerKey topic payload opts).2 := by
  unfold enqueue QueueTable.insert
  split_ifs with hTopic hClash
  · exact .refl _
  · constructor
    · exact fun r hr => .inl (List.mem_append_left _ hr)
    · intro r' hr'
      rcases List.mem_append.mp hr' with hr' | hr'
      · exact .inl hr'
      · exact .inr (.inr ⟨_, _, _, _, rfl, List.mem_singleton.mp hr'⟩)
  · exact ⟨fun _ hr => .inl hr, fun _ hr => .inl hr⟩

theorem effect_claim (ownerKey topic : Str) (limit visibility : Int) :
    Effect at_ (.claim ownerKey topic limit visibility) t
      (claim at_ t ownerKey topic limit visibility).2 := by
  unfold claim
  dsimp only
  split
  next hUpdate =>
    exact effect_update (fun r hr hc =>
      change_claimed visibility (claimed_of_contains hr hc)) hUpdate
  next => exact .refl _

theorem effect_ack (ownerKey : Str) (id : Int) (answered : Nat) :
    Effect at_ (.ack ownerKey id answered) t (ack at_ t ownerKey id).2 := by
  unfold ack
  split
  next hUpdate =>
    refine effect_update (fun r _ hc => ?_) hUpdate
    obtain ⟨rfl, hOwner, hStatus⟩ := held_iff.mp hc
    exact .ack hOwner hStatus
  next => exact .refl _

theorem effect_nack (ownerKey : Str) (id : Int) (answered : Nat) (reason : Str) (retryAfter : Int) :
    Effect at_ (.nack ownerKey id answered reason retryAfter) t
      (nack at_ t ownerKey id reason retryAfter).2 := by
  unfold nack
  split
  next hUpdate =>
    refine effect_update (fun r _ hc => ?_) hUpdate
    obtain ⟨rfl, hOwner, hStatus⟩ := held_iff.mp hc
    exact .nack hOwner hStatus
  next => exact .refl _

theorem effect_reapExpired : Effect at_ .reapExpired t (reapExpired at_ t).2 := by
  unfold reapExpired
  split
  next hUpdate =>
    refine effect_update (fun r _ hc => ?_) hUpdate
    obtain ⟨hStatus, until_, hUntil, hPast⟩ := expired_iff.mp hc
    exact .reap hStatus hUntil hPast
  next => exact .refl _

theorem effect_retryDead (ownerKey : Str) (id : Int) :
    Effect at_ (.retryDead ownerKey id) t (retryDead at_ t ownerKey id).2 := by
  unfold retryDead
  split
  next t' hUpdate =>
    have hEffect : Effect at_ (.retryDead ownerKey id) t t' := by
      refine effect_update (fun r _ hc => ?_) hUpdate
      obtain ⟨rfl, hOwner, hStatus⟩ := isDead_iff.mp hc
      exact .retry hOwner hStatus
    split <;> exact hEffect
  next => exact .refl _

theorem effect_purgeDone (olderThan : Int) :
    Effect at_ (.purgeDone olderThan) t (purgeDone at_ t olderThan).2 := by
  constructor
  · intro r hr
    by_cases hPurge : purgeable at_ olderThan r = true
    · have hStatus : r.status = .done := by
        simp only [purgeable, Bool.and_eq_true, decide_eq_true_eq] at hPurge
        exact hPurge.1
      exact .inr (.inr ⟨hStatus, olderThan, rfl⟩)
    · exact .inl (List.mem_filter.mpr ⟨hr, by simpa using hPurge⟩)
  · exact fun r' hr' => .inl (List.mem_filter.mp hr').1

theorem Statement.run_effect (s : Statement) : Effect at_ s t (s.run at_ t).2 := by
  cases s with
  | enqueue ownerKey topic payload opts => exact effect_enqueue ownerKey topic payload opts
  | claim ownerKey topic limit visibility => exact effect_claim ownerKey topic limit visibility
  | ack ownerKey id answered => exact effect_ack ownerKey id answered
  | nack ownerKey id answered reason retryAfter =>
    exact effect_nack ownerKey id answered reason retryAfter
  | reapExpired => exact effect_reapExpired
  | retryDead ownerKey id => exact effect_retryDead ownerKey id
  | purgeDone olderThan => exact effect_purgeDone olderThan

theorem claim_returns {ownerKey topic : Str} {limit visibility : Int} {msgs : List Message}
    (h : (claim at_ t ownerKey topic limit visibility).1 = .ok msgs) {m : Message} (hm : m ∈ msgs) :
    ∃ r ∈ t.rows, r.status = .pending ∧ r.ownerKey = ownerKey ∧ r.topic = topic ∧
      r.move (leased at_ visibility r) ∈ (claim at_ t ownerKey topic limit visibility).2.rows ∧
      m = (r.move (leased at_ visibility r)).message at_.number := by
  unfold claim at h ⊢
  dsimp only at h ⊢
  split at h
  next t' hUpdate =>
    cases h
    obtain ⟨r, hClaimed, rfl⟩ := List.mem_map.mp hm
    have hr := (claimed_claimable hClaimed).1
    have hMoved : QueueTable.moveIf
        (fun r => ((claimed at_ t ownerKey topic limit).map (·.id)).contains r.id)
        (leased at_ visibility) r = r.move (leased at_ visibility r) := by
      unfold QueueTable.moveIf
      rw [if_pos (List.contains_iff_mem.mpr (List.mem_map_of_mem hClaimed))]
    refine ⟨r, hr, ?_, ?_, ?_, (QueueTable.mem_update hUpdate).mpr ⟨r, hr, hMoved⟩, rfl⟩
    all_goals
      cases change_claimed visibility hClaimed
      assumption
  next => cases h

/-- The index cannot object to an update that brings no message into flight. -/
theorem update_of_inFlight {cond : Row → Bool} {set : Row → Progress}
    (h : ∀ r ∈ t.rows, cond r = true → (r.move (set r)).inFlight = true → r.inFlight = true) :
    ∃ t', t.update cond set = some t' := by
  have hLive : ∀ r ∈ t.rows, (QueueTable.moveIf cond set r).inFlight = true →
      r.inFlight = true := by
    intro r hr hMoved
    unfold QueueTable.moveIf at hMoved
    split at hMoved
    next hc => exact h r hr hc hMoved
    next => exact hMoved
  have hIndexed : (t.rows.map (QueueTable.moveIf cond set)).Pairwise (¬ Row.Clash · ·) := by
    rw [List.pairwise_map]
    refine t.indexed.imp_of_mem fun {a b} ha hb hab hClash => hab ?_
    obtain ⟨hA, hB, hOwner, hTopic, hSome, hKey⟩ := hClash
    simp only [QueueTable.moveIf_toPosted] at hOwner hTopic hSome hKey
    exact ⟨hLive a ha hA, hLive b hb hB, hOwner, hTopic, hSome, hKey⟩
  exact ⟨_, dif_pos hIndexed⟩

theorem inFlight_of_status {r : Row} (h : r.status = .pending ∨ r.status = .processing) :
    r.inFlight = true := by
  rw [Row.inFlight]
  rcases h with h | h <;> rw [h] <;> rfl

/-- Only the retry of a dead message can be refused because of the index. -/
theorem Statement.run_not_refused {s : Statement} (h : ∀ ownerKey id, s ≠ .retryDead ownerKey id) :
    (s.run at_ t).1 ≠ .error .refused := by
  have hHeld : ∀ (set : Row → Progress) ownerKey id,
      ∃ t', t.update (held ownerKey id) set = some t' := by
    intro set ownerKey id
    exact update_of_inFlight fun r _ hc _ => inFlight_of_status (.inr (held_iff.mp hc).2.2)
  cases s with
  | enqueue ownerKey topic payload opts =>
    simp only [run, DB.enqueue, QueueTable.insert]
    split_ifs <;> simp
  | claim ownerKey topic limit visibility =>
    obtain ⟨t', hUpdate⟩ : ∃ t', t.update
        (fun r => ((claimed at_ t ownerKey topic limit).map (·.id)).contains r.id)
        (leased at_ visibility) = some t' := by
      refine update_of_inFlight fun r hr hc _ => ?_
      cases change_claimed visibility (claimed_of_contains hr hc) with
      | claim _ _ hStatus _ => exact inFlight_of_status (.inl hStatus)
    simp only [run, DB.claim, hUpdate]
    intro hError
    cases hError
  | ack ownerKey id answered =>
    obtain ⟨t', hUpdate⟩ := hHeld (acked at_) ownerKey id
    simp [run, DB.ack, hUpdate]
  | nack ownerKey id answered reason retryAfter =>
    obtain ⟨t', hUpdate⟩ := hHeld (nacked at_ reason retryAfter) ownerKey id
    simp [run, DB.nack, hUpdate]
  | reapExpired =>
    obtain ⟨t', hUpdate⟩ : ∃ t', t.update (expired at_) (reaped at_) = some t' :=
      update_of_inFlight fun r _ hc _ => inFlight_of_status (.inr (expired_iff.mp hc).1)
    simp [run, DB.reapExpired, hUpdate]
  | retryDead ownerKey id => exact absurd rfl (h ownerKey id)
  | purgeDone olderThan => simp [run, DB.purgeDone]

/-- Another message that is in flight has the key of the dead one. -/
def Supplanted (t : QueueTable) (ownerKey : Str) (id : Int) : Prop :=
  ∃ r ∈ t.rows, isDead ownerKey id r = true ∧ ∃ a ∈ t.rows, a.inFlight = true ∧
    a.ownerKey = r.ownerKey ∧ a.topic = r.topic ∧ a.dedupKey ≠ none ∧ a.dedupKey = r.dedupKey

theorem inFlight_retried (ownerKey : Str) (id : Int) (r : Row) :
    (QueueTable.moveIf (isDead ownerKey id) (retried at_) r).inFlight =
      (isDead ownerKey id r || r.inFlight) := by
  unfold QueueTable.moveIf
  split
  next hDead => simp [hDead, Row.inFlight, Row.move, retried]
  next hAlive => simp [hAlive]

/-- The retry may stand unless the key is taken. -/
theorem retry_indexed_iff {ownerKey : Str} {id : Int} :
    (t.rows.map (QueueTable.moveIf (isDead ownerKey id) (retried at_))).Pairwise
      (¬ Row.Clash · ·) ↔ ¬ Supplanted t ownerKey id := by
  rw [List.pairwise_map]
  constructor
  · rintro hIndexed ⟨r, hr, hDead, a, ha, hFlight, hOwner, hTopic, hSome, hKey⟩
    have hne : a ≠ r := by
      rintro rfl
      simp [Row.inFlight, (isDead_iff.mp hDead).2.2] at hFlight
    have hSymm : Std.Symm fun a b : Row => ¬ (QueueTable.moveIf (isDead ownerKey id) (retried at_)
        a).Clash (QueueTable.moveIf (isDead ownerKey id) (retried at_) b) :=
      ⟨fun _ _ h hClash => h hClash.symm⟩
    refine hIndexed.forall ha hr hne ⟨?_, ?_, ?_⟩
    · rw [inFlight_retried, hFlight, Bool.or_true]
    · rw [inFlight_retried, hDead, Bool.true_or]
    · simp only [QueueTable.moveIf_toPosted]
      exact ⟨hOwner, hTopic, hSome, hKey⟩
  · intro hFree
    refine (t.serial.and t.indexed).imp_of_mem fun {a b} ha hb hab hClash => ?_
    obtain ⟨hA, hB, hSame⟩ := hClash
    simp only [QueueTable.moveIf_toPosted] at hSame
    rw [inFlight_retried, Bool.or_eq_true] at hA hB
    obtain ⟨hOwner, hTopic, hSome, hKey⟩ := hSame
    rcases hA with hA | hA <;> rcases hB with hB | hB
    · have hOne := (isDead_iff.mp hA).1.trans (isDead_iff.mp hB).1.symm
      omega
    · exact hFree ⟨a, ha, hA, b, hb, hB, hOwner.symm, hTopic.symm, hKey ▸ hSome, hKey.symm⟩
    · exact hFree ⟨b, hb, hB, a, ha, hA, hOwner, hTopic, hSome, hKey⟩
    · exact hab.2 ⟨hA, hB, hOwner, hTopic, hSome, hKey⟩

/-- The index refuses a statement only if it is the retry of a dead message whose key is
in flight again, and then it does. -/
theorem Statement.refused_iff (s : Statement) (at_ : Moment) (t : QueueTable) :
    (s.run at_ t).1 = .error .refused ↔
      ∃ ownerKey id, s = .retryDead ownerKey id ∧ Supplanted t ownerKey id := by
  by_cases hRetry : ∃ ownerKey id, s = .retryDead ownerKey id
  · obtain ⟨ownerKey, id, rfl⟩ := hRetry
    have hIndexed := @retry_indexed_iff at_ t ownerKey id
    simp only [run, DB.retryDead, QueueTable.update]
    by_cases hTaken : Supplanted t ownerKey id
    · rw [dif_neg (fun h => hIndexed.mp h hTaken)]
      refine iff_of_true rfl ?_
      exact ⟨ownerKey, id, rfl, hTaken⟩
    · refine iff_of_false ?_ ?_
      · rw [dif_pos (hIndexed.mpr hTaken)]
        dsimp only
        split_ifs <;> simp
      · rintro ⟨_, _, hSame, hTaken'⟩
        cases hSame
        exact hTaken hTaken'
  · refine iff_of_false (run_not_refused fun ownerKey id h => hRetry ⟨ownerKey, id, h⟩) ?_
    rintro ⟨ownerKey, id, rfl, -⟩
    exact hRetry ⟨ownerKey, id, rfl⟩

end Effects

end Moduless.DB
