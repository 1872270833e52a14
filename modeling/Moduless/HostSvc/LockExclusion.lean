import Moduless.HostSvc.Locks

/-!
What a lease is worth: while it runs, nobody else is given the name.

All statements are about the calls made so far, in any order and by whatever holders. A
lease that has run out or that another one has taken over the name from can do no harm
with its id.
-/

namespace Moduless.Memory
open Go Interaction Machine

/-- The plugin and the name that a call is about. -/
def LockOp.subject : LockOp → Str × Str
  | .tryAcquire p n _ | .renew p n _ _ | .release p n _ => (p, n)

/-- The lease that a call has given, with its id and its expiry. -/
def leaseOf : Event LockHost → Option Lease
  | ⟨.tryAcquire _ _ _, r⟩ | ⟨.renew _ _ _ _, r⟩ => r.lease
  | ⟨.release _ _ _, _⟩ => none

/-- The call has granted the lease, or renewed it, to expire at `e`. -/
def Sets (p n leaseID : Str) (e : Int) (x : Event LockHost) : Prop :=
  x.op.subject = (p, n) ∧ leaseOf x = some ⟨leaseID, e⟩

/-- The lease was granted or last renewed to expire at `e`. -/
def LastSet (es : List (Event LockHost)) (p n leaseID : Str) (e : Int) : Prop :=
  ∃ u g v, es = u ++ g :: v ∧ Sets p n leaseID e g ∧ ∀ y ∈ v, ∀ e', ¬ Sets p n leaseID e' y

/-- Moreover `Release` has not been called with its id since. -/
def Standing (es : List (Event LockHost)) (p n leaseID : Str) (e : Int) : Prop :=
  ∃ u g v, es = u ++ g :: v ∧ Sets p n leaseID e g ∧
    ∀ y ∈ v, (∀ e', ¬ Sets p n leaseID e' y) ∧ y.op ≠ .release p n leaseID

/-- After the lease, the name was granted to somebody else. -/
def Superseded (es : List (Event LockHost)) (p n leaseID : Str) : Prop :=
  ∃ u g v e ttl r lease, es = u ++ g :: v ∧ Sets p n leaseID e g ∧
    ⟨.tryAcquire p n ttl, r⟩ ∈ v ∧ r.lease = some lease

/-- The lease on a name that has not expired at the time. -/
def MemoryLocks.running (l : MemoryLocks) (t : Nat) (p n : Str) : Option LockState :=
  (l.held.get (lockKey p n)).filter fun st => !expired t st.expiresAt

section Steps

variable {w w' : LockWorld} {x : Event LockHost} {p n leaseID : Str} {e : Int}

theorem held_of_sets (h : lockTable.Exec w x w') (hSets : Sets p n leaseID e x) :
    w'.locks.held.get (lockKey p n) = some ⟨leaseID, e⟩ ∧ 0 < e := by
  obtain ⟨o, r⟩ := x
  obtain ⟨hSubject, hLease⟩ := hSets
  cases o with
  | tryAcquire p' n' ttl =>
    cases hSubject
    obtain ⟨-, -, drawn, l, -, -, -, ⟨hNone, -⟩ | ⟨hSome, hHold, -⟩⟩ := exec_tryAcquire h
    · cases hNone.symm.trans hLease
    · cases hSome.symm.trans hLease
      rw [hHold, MemoryLocks.get_hold, if_pos rfl]
      have := ttl.property
      exact ⟨rfl, by omega⟩
  | renew p' n' id ttl =>
    cases hSubject
    obtain ⟨-, -, -, ⟨hNone, -⟩ | ⟨cur, e', -, -, -, hPos, hSome, hHold⟩⟩ := exec_renew h
    · cases hNone.symm.trans hLease
    · cases hSome.symm.trans hLease
      rw [hHold, MemoryLocks.get_hold, if_pos rfl]
      exact ⟨rfl, hPos⟩
  | release p' n' id => cases hLease

theorem nulFree_of_sets (h : Sets p n leaseID e x) (hx : NulFree x.op.subject.1) : NulFree p := by
  rw [h.1] at hx
  exact hx

theorem clock_mono (h : lockTable.Exec w x w') : w.clock ≤ w'.clock := by
  obtain ⟨o, r⟩ := x
  cases o with
  | tryAcquire p n ttl =>
    obtain ⟨hClock, hNow, -⟩ := exec_tryAcquire h
    exact hNow ▸ hClock
  | renew p n id ttl =>
    obtain ⟨hClock, hNow, -⟩ := exec_renew h
    exact hClock.trans hNow
  | release p n id =>
    obtain ⟨rfl, -⟩ | ⟨cur, -, -, rfl⟩ := exec_release h <;> exact le_rfl

/-- A name's entry is the one it had before with the same id, or a new one with an id that
was not drawn before. -/
theorem held_before (h : lockTable.Exec w x w') {k : Str} {st : LockState}
    (hHeld : w'.locks.held.get k = some st) :
    (st.leaseID ∉ w.drawn ∧ st.leaseID ∈ w'.drawn ∧ k = lockKey x.op.subject.1 x.op.subject.2 ∧
        leaseOf x = some ⟨st.leaseID, st.expiresAt⟩) ∨
      ∃ st₀, w.locks.held.get k = some st₀ ∧ st₀.leaseID = st.leaseID ∧
        (st₀ = st ∨ k = lockKey x.op.subject.1 x.op.subject.2 ∧
          leaseOf x = some ⟨st.leaseID, st.expiresAt⟩) := by
  obtain ⟨o, r⟩ := x
  cases o with
  | tryAcquire p n ttl =>
    obtain ⟨-, -, drawn, l, hFresh, hDrawn, hSwept, ⟨-, hLocks⟩ | ⟨hSome, hLocks, -⟩⟩ :=
      exec_tryAcquire h
    · rw [hLocks] at hHeld
      exact .inr ⟨st, (hSwept k st).1 hHeld, rfl, .inl rfl⟩
    · rw [hLocks, MemoryLocks.get_hold] at hHeld
      split at hHeld
      next hk =>
        cases hHeld
        exact .inl ⟨hFresh, by simp [hDrawn], hk, hSome⟩
      next => exact .inr ⟨st, (hSwept k st).1 hHeld, rfl, .inl rfl⟩
  | renew p n id ttl =>
    obtain ⟨-, -, -, ⟨-, hLocks⟩ | ⟨cur, e', hCur, hId, -, -, hSome, hLocks⟩⟩ := exec_renew h
    · rw [hLocks] at hHeld
      exact .inr ⟨st, hHeld, rfl, .inl rfl⟩
    · rw [hLocks, MemoryLocks.get_hold] at hHeld
      split at hHeld
      next hk =>
        cases hHeld
        exact .inr ⟨cur, hk ▸ hCur, hId, .inr ⟨hk, hSome⟩⟩
      next => exact .inr ⟨st, hHeld, rfl, .inl rfl⟩
  | release p n id =>
    obtain ⟨rfl, -⟩ | ⟨cur, -, -, rfl⟩ := exec_release h
    · exact .inr ⟨st, hHeld, rfl, .inl rfl⟩
    · rw [MemoryLocks.get_drop] at hHeld
      split at hHeld
      next => cases hHeld
      next => exact .inr ⟨st, hHeld, rfl, .inl rfl⟩

theorem drawn_mono (h : lockTable.Exec w x w') {id : Str} (hId : id ∈ w.drawn) : id ∈ w'.drawn := by
  obtain ⟨o, r⟩ := x
  cases o with
  | tryAcquire p n ttl =>
    obtain ⟨-, -, drawn, l, -, hDrawn, -⟩ := exec_tryAcquire h
    rw [hDrawn]
    exact List.mem_cons_of_mem _ hId
  | renew p n leaseID ttl =>
    obtain ⟨-, -, hDrawn, -⟩ := exec_renew h
    exact hDrawn ▸ hId
  | release p n leaseID =>
    obtain ⟨rfl, -⟩ | ⟨cur, -, -, rfl⟩ := exec_release h <;> exact hId

/-- The ids of the entries were drawn, and no two entries have one. -/
structure Known (w : LockWorld) : Prop where
  drawn : ∀ k st, w.locks.held.get k = some st → st.leaseID ∈ w.drawn
  unique : ∀ k k' st st', w.locks.held.get k = some st → w.locks.held.get k' = some st' →
    st.leaseID = st'.leaseID → k = k'

theorem Known.step (hw : Known w) (h : lockTable.Exec w x w') : Known w' where
  drawn k st hHeld := by
    obtain ⟨-, hNew, -⟩ | ⟨st₀, hOld, hId, -⟩ := held_before h hHeld
    · exact hNew
    · exact hId ▸ drawn_mono h (hw.drawn k st₀ hOld)
  unique k k' st st' hHeld hHeld' hEq := by
    obtain ⟨hNew, -, hk, -⟩ | ⟨st₀, hOld, hId, -⟩ := held_before h hHeld
    · obtain ⟨-, -, hk', -⟩ | ⟨st₁, hOld', hId', -⟩ := held_before h hHeld'
      · exact hk.trans hk'.symm
      · refine absurd ?_ hNew
        rw [hEq, ← hId']
        exact hw.drawn k' st₁ hOld'
    · obtain ⟨hNew', -⟩ | ⟨st₁, hOld', hId', -⟩ := held_before h hHeld'
      · refine absurd ?_ hNew'
        rw [← hEq, ← hId]
        exact hw.drawn k st₀ hOld
      · exact hw.unique k k' st₀ st₁ hOld hOld' (hId.trans (hEq.trans hId'.symm))

theorem known_of_trace {maxHeld : Int} {now : Nat} {es : List (Event LockHost)}
    (h : lockTable.Trace (newLocks maxHeld now) es w) : Known w := by
  refine h.invariant (fun s e s' _ hs hExec => hs.step hExec) ⟨?_, ?_⟩
  · intro k st hHeld
    cases hHeld
  · intro k k' st st' hHeld
    cases hHeld

/-- The lease is held, or its time is over. -/
def Keeps (p n leaseID : Str) (e : Int) (w : LockWorld) : Prop :=
  e ≤ w.clock ∨ w.locks.held.get (lockKey p n) = some ⟨leaseID, e⟩

theorem Keeps.step (hw : Keeps p n leaseID e w) (h : lockTable.Exec w x w') (hp : NulFree p)
    (hx : NulFree x.op.subject.1) (hSets : ∀ e', ¬ Sets p n leaseID e' x)
    (hRelease : x.op ≠ .release p n leaseID) : Keeps p n leaseID e w' := by
  have hClock := clock_mono h
  obtain hOver | hHeld := hw
  · exact .inl (Int.le_trans hOver (Int.ofNat_le.mpr hClock))
  obtain ⟨o, r⟩ := x
  cases o with
  | tryAcquire p' n' ttl =>
    obtain ⟨-, hNow, drawn, l, -, -, hSwept, hOut⟩ := exec_tryAcquire h
    by_cases hOver : e ≤ r.now
    · exact .inl (hNow ▸ hOver)
    · have hRunning : expired r.now e = false := not_expired_of_lt (Int.not_le.mp hOver)
      have hLive := (hSwept _ _).2 hHeld hRunning
      refine .inr ?_
      obtain ⟨-, hLocks⟩ | ⟨-, hLocks, hFree⟩ := hOut
      · rw [hLocks, hLive]
      · rw [hLocks, MemoryLocks.get_hold, if_neg, hLive]
        intro hk
        exact absurd (hFree _ (hk ▸ hLive)) (Bool.eq_false_iff.mp hRunning)
  | renew p' n' id ttl =>
    refine .inr ?_
    obtain ⟨-, -, -, ⟨-, hLocks⟩ | ⟨cur, e', hCur, hId, -, -, hSome, hLocks⟩⟩ := exec_renew h
    · rw [hLocks, hHeld]
    · rw [hLocks, MemoryLocks.get_hold, if_neg, hHeld]
      intro hk
      obtain ⟨rfl, rfl⟩ := (namespaced_inj hp hx).mp hk
      cases hCur.symm.trans hHeld
      cases hId
      exact hSets e' ⟨rfl, hSome⟩
  | release p' n' id =>
    refine .inr ?_
    obtain ⟨rfl, -⟩ | ⟨cur, hCur, hId, rfl⟩ := exec_release h
    · exact hHeld
    · rw [MemoryLocks.get_drop, if_neg, hHeld]
      intro hk
      obtain ⟨rfl, rfl⟩ := (namespaced_inj hp hx).mp hk
      cases hCur.symm.trans hHeld
      exact hRelease (congrArg _ hId.symm)

/-- The id was drawn, and only the name has an entry with it. -/
structure Confined (p n leaseID : Str) (w : LockWorld) : Prop where
  drawn : leaseID ∈ w.drawn
  only : ∀ k st, w.locks.held.get k = some st → st.leaseID = leaseID → k = lockKey p n

/-- Moreover the entry has the expiry. -/
structure Dated (p n leaseID : Str) (e : Int) (w : LockWorld) : Prop
    extends Confined p n leaseID w where
  expiry : ∀ k st, w.locks.held.get k = some st → st.leaseID = leaseID → st.expiresAt = e

/-- The id was drawn, and no entry has it. -/
structure Gone (leaseID : Str) (w : LockWorld) : Prop where
  drawn : leaseID ∈ w.drawn
  none : ∀ k st, w.locks.held.get k = some st → st.leaseID ≠ leaseID

theorem dated_of_sets (hw : Known w) (h : lockTable.Exec w x w') (hSets : Sets p n leaseID e x) :
    Dated p n leaseID e w' := by
  have hw' := hw.step h
  obtain ⟨hHeld, -⟩ := held_of_sets h hSets
  have hOnly : ∀ k st, w'.locks.held.get k = some st → st.leaseID = leaseID → k = lockKey p n :=
    fun k st hk hId => hw'.unique k _ st _ hk hHeld hId
  refine ⟨⟨hw'.drawn _ _ hHeld, hOnly⟩, fun k st hk hId => ?_⟩
  cases hOnly k st hk hId
  cases hk.symm.trans hHeld
  rfl

theorem Confined.step (hw : Confined p n leaseID w) (h : lockTable.Exec w x w') :
    Confined p n leaseID w' where
  drawn := drawn_mono h hw.drawn
  only k st hHeld hId := by
    obtain ⟨hNew, -⟩ | ⟨st₀, hOld, hSame, -⟩ := held_before h hHeld
    · exact absurd (hId ▸ hw.drawn) hNew
    · exact hw.only k st₀ hOld (hSame.trans hId)

theorem Dated.step (hw : Dated p n leaseID e w) (h : lockTable.Exec w x w') (hp : NulFree p)
    (hx : NulFree x.op.subject.1) (hSets : ∀ e', ¬ Sets p n leaseID e' x) :
    Dated p n leaseID e w' where
  toConfined := hw.toConfined.step h
  expiry k st hHeld hId := by
    obtain ⟨hNew, -⟩ | ⟨st₀, hOld, hSame, rfl | ⟨hk, hLease⟩⟩ := held_before h hHeld
    · exact absurd (hId ▸ hw.drawn) hNew
    · exact hw.expiry k st₀ hOld hId
    · have hName := hw.only k st₀ hOld (hSame.trans hId)
      obtain ⟨hP, hN⟩ := (namespaced_inj hp hx).mp (hName.symm.trans hk)
      exact absurd ⟨Prod.ext hP.symm hN.symm, hId ▸ hLease⟩ (hSets st.expiresAt)

theorem Gone.step (hw : Gone leaseID w) (h : lockTable.Exec w x w') : Gone leaseID w' where
  drawn := drawn_mono h hw.drawn
  none k st hHeld hId := by
    obtain ⟨hNew, -⟩ | ⟨st₀, hOld, hSame, -⟩ := held_before h hHeld
    · exact hNew (hId ▸ hw.drawn)
    · exact hw.none k st₀ hOld (hSame.trans hId)

theorem Confined.superseded (hw : Confined p n leaseID w) {ttl : TTL} {r : LockReply}
    {lease : Lease} (h : lockTable.Exec w ⟨.tryAcquire p n ttl, r⟩ w')
    (hLease : r.lease = some lease) : Gone leaseID w' := by
  refine ⟨drawn_mono h hw.drawn, fun k st hHeld hId => ?_⟩
  have hName := (hw.step h).only k st hHeld hId
  obtain ⟨-, -, drawn, l, hFresh, -, -, ⟨hNone, -⟩ | ⟨-, hLocks, -⟩⟩ := exec_tryAcquire h
  · cases hNone.symm.trans hLease
  · rw [hLocks, hName, MemoryLocks.get_hold, if_pos rfl] at hHeld
    cases hHeld
    cases hId
    exact hFresh hw.drawn

theorem running_frame (h : lockTable.Exec w x w') (hp : NulFree p) (hx : NulFree x.op.subject.1)
    (hOther : x.op.subject ≠ (p, n)) {t : Nat} (ht : w'.clock ≤ t) :
    w'.locks.running t p n = w.locks.running t p n := by
  have hKey : lockKey p n ≠ lockKey x.op.subject.1 x.op.subject.2 := by
    intro hk
    obtain ⟨hP, hN⟩ := (namespaced_inj hp hx).mp hk
    exact hOther (Prod.ext hP.symm hN.symm)
  obtain ⟨o, r⟩ := x
  cases o with
  | tryAcquire p' n' ttl =>
    change lockKey p n ≠ lockKey p' n' at hKey
    obtain ⟨-, hNow, drawn, l, -, -, hSwept, hOut⟩ := exec_tryAcquire h
    have hSame : w'.locks.held.get (lockKey p n) = l.held.get (lockKey p n) := by
      obtain ⟨-, hLocks⟩ | ⟨-, hLocks, -⟩ := hOut
      · rw [hLocks]
      · rw [hLocks, MemoryLocks.get_hold, if_neg hKey]
    rw [MemoryLocks.running, MemoryLocks.running, hSame]
    refine Option.ext fun st => ?_
    simp only [Option.filter_eq_some_iff, Bool.not_eq_true']
    refine and_congr_left fun hLive => ⟨(hSwept _ st).1, fun hHeld => (hSwept _ st).2 hHeld ?_⟩
    by_contra hExpired
    have hLater := expired_mono (hNow ▸ ht) (Bool.not_eq_false _ ▸ hExpired)
    exact absurd hLater (Bool.eq_false_iff.mp hLive)
  | renew p' n' id ttl =>
    obtain ⟨-, -, -, ⟨-, hLocks⟩ | ⟨cur, e', -, -, -, -, -, hLocks⟩⟩ := exec_renew h
    · rw [hLocks]
    · change lockKey p n ≠ lockKey p' n' at hKey
      rw [MemoryLocks.running, hLocks, MemoryLocks.get_hold, if_neg hKey]
      rfl
  | release p' n' id =>
    obtain ⟨rfl, -⟩ | ⟨cur, -, -, rfl⟩ := exec_release h
    · rfl
    · change lockKey p n ≠ lockKey p' n' at hKey
      rw [MemoryLocks.running, MemoryLocks.get_drop, if_neg hKey]
      rfl

end Steps

section Traces

variable {w₀ w w' : LockWorld} {es : List (Event LockHost)} {x : Event LockHost}
  {p n leaseID : Str} {e : Int}

theorem keeps_of_standing (h : lockTable.Trace w₀ es w)
    (hKeys : ∀ y ∈ es, NulFree y.op.subject.1) (hLease : Standing es p n leaseID e) :
    Keeps p n leaseID e w := by
  obtain ⟨u, g, v, rfl, hSets, hAfter⟩ := hLease
  obtain ⟨w₁, -, hRest⟩ := trace_append.mp h
  cases hRest with
  | cons hExec hTrace =>
    have hp : NulFree p := nulFree_of_sets hSets (hKeys g (by simp))
    refine hTrace.invariant (fun s y s' hy hs hStep => ?_) (.inr (held_of_sets hExec hSets).1)
    exact hs.step hStep hp (hKeys y (by simp [hy])) (hAfter y hy).1 (hAfter y hy).2

theorem dated_of_lastSet {maxHeld : Int} {now : Nat}
    (h : lockTable.Trace (newLocks maxHeld now) es w)
    (hKeys : ∀ y ∈ es, NulFree y.op.subject.1) (hLease : LastSet es p n leaseID e) :
    Dated p n leaseID e w ∧ 0 < e := by
  obtain ⟨u, g, v, rfl, hSets, hAfter⟩ := hLease
  obtain ⟨w₁, hBefore, hRest⟩ := trace_append.mp h
  cases hRest with
  | cons hExec hTrace =>
    have hp : NulFree p := nulFree_of_sets hSets (hKeys g (by simp))
    refine ⟨hTrace.invariant (fun s y s' hy hs hStep => ?_)
      (dated_of_sets (known_of_trace hBefore) hExec hSets), (held_of_sets hExec hSets).2⟩
    exact hs.step hStep hp (hKeys y (by simp [hy])) (hAfter y hy)

theorem gone_of_superseded {maxHeld : Int} {now : Nat}
    (h : lockTable.Trace (newLocks maxHeld now) es w) (hLease : Superseded es p n leaseID) :
    Gone leaseID w := by
  obtain ⟨u, g, v, e, ttl, r, lease, rfl, hSets, hTaken, hGiven⟩ := hLease
  obtain ⟨v₁, v₂, rfl⟩ := List.append_of_mem hTaken
  obtain ⟨w₁, hBefore, hRest⟩ := trace_append.mp h
  cases hRest with
  | cons hExec hTrace =>
    obtain ⟨w₂, hUntil, hAfter⟩ := trace_append.mp hTrace
    have hConfined : Confined p n leaseID w₂ :=
      hUntil.invariant (fun s y s' _ hs hStep => hs.step hStep)
        (dated_of_sets (known_of_trace hBefore) hExec hSets).toConfined
    cases hAfter with
    | cons hTake hEnd =>
      exact hEnd.invariant (fun s y s' _ hs hStep => hs.step hStep)
        (hConfined.superseded hTake hGiven)

end Traces

/-- While a lease stands, no attempt on its name succeeds; a renewal with the id of a lease
that has expired or was superseded, and a release with the id of one that was superseded,
change nothing; a release with the id of one that has expired can only drop the entry that
has lapsed; and no call touches the leases of another name. -/
theorem leases_exclude {maxHeld : Int} {start : Nat} {es : List (Event LockHost)}
    {w w' : LockWorld} {x : Event LockHost}
    (h : lockTable.Trace (newLocks maxHeld start) es w) (hx : lockTable.Exec w x w')
    (hKeys : ∀ y ∈ es ++ [x], NulFree y.op.subject.1) :
    (∀ p n leaseID e ttl r, Standing es p n leaseID e → x = ⟨.tryAcquire p n ttl, r⟩ →
        r.lease.isSome → e ≤ r.now) ∧
      (∀ p n p' n' leaseID e ttl r, x = ⟨.renew p' n' leaseID ttl, r⟩ →
        (LastSet es p n leaseID e ∧ e ≤ r.now ∨ Superseded es p n leaseID) →
        r.lease = none ∧ w'.locks = w.locks) ∧
      (∀ p n p' n' leaseID, x = ⟨.release p' n' leaseID, ()⟩ → Superseded es p n leaseID →
        w'.locks = w.locks) ∧
      (∀ p n p' n' leaseID e, x = ⟨.release p' n' leaseID, ()⟩ → LastSet es p n leaseID e →
        w'.locks = w.locks ∨ w'.locks = w.locks.drop (lockKey p n) ∧
          ∃ st, w.locks.held.get (lockKey p n) = some st ∧ ∀ t : Nat, e ≤ t →
            expired t st.expiresAt = true) ∧
      (∀ p n, NulFree p → x.op.subject ≠ (p, n) → ∀ t, w'.clock ≤ t →
        w'.locks.running t p n = w.locks.running t p n) := by
  have hPast : ∀ y ∈ es, NulFree y.op.subject.1 := fun y hy => hKeys y (by simp [hy])
  refine ⟨?_, ?_, ?_, ?_, ?_⟩
  · rintro p n leaseID e ttl r hLease rfl hSome
    obtain ⟨hClock, -, drawn, l, -, -, hSwept, ⟨hNone, -⟩ | ⟨-, -, hFree⟩⟩ := exec_tryAcquire hx
    · simp [hNone] at hSome
    · obtain hOver | hHeld := keeps_of_standing h hPast hLease
      · omega
      · by_contra hBefore
        have hLive := not_expired_of_lt (Int.not_le.mp hBefore)
        have hExpired := hFree _ ((hSwept _ _).2 hHeld hLive)
        rw [hLive] at hExpired
        cases hExpired
  · rintro p n p' n' leaseID e ttl r rfl hStale
    obtain ⟨-, -, -, hSame | ⟨cur, e', hCur, hId, hLive, -⟩⟩ := exec_renew hx
    · exact hSame
    · obtain ⟨hLast, hOver⟩ | hTaken := hStale
      · obtain ⟨hDated, hPos⟩ := dated_of_lastSet h hPast hLast
        rw [hDated.expiry _ cur hCur hId, (expired_iff hPos).mpr hOver] at hLive
        cases hLive
      · exact absurd hId ((gone_of_superseded h hTaken).none _ cur hCur)
  · rintro p n p' n' leaseID rfl hTaken
    obtain ⟨rfl, -⟩ | ⟨cur, hCur, hId, -⟩ := exec_release hx
    · rfl
    · exact absurd hId ((gone_of_superseded h hTaken).none _ cur hCur)
  · rintro p n p' n' leaseID e rfl hLast
    obtain ⟨hDated, hPos⟩ := dated_of_lastSet h hPast hLast
    obtain ⟨rfl, -⟩ | ⟨cur, hCur, hId, rfl⟩ := exec_release hx
    · exact .inl rfl
    · have hName := hDated.only _ cur hCur hId
      refine .inr ⟨hName ▸ rfl, cur, hName ▸ hCur, fun t ht => ?_⟩
      rw [hDated.expiry _ cur hCur hId]
      exact (expired_iff hPos).mpr ht
  · intro p n hp hOther t ht
    exact running_frame hx hp (hKeys x (by simp)) hOther ht

section Nightly

def tenNanos : TTL := ⟨10, by decide⟩

/-- A lease until 10, and another name taken at 10. -/
def nightlyTrace : List (Event LockHost) :=
  [⟨.tryAcquire "jobs".toList "nightly".toList tenNanos, ⟨0, some ⟨"a".toList, 10⟩⟩⟩,
    ⟨.tryAcquire "jobs".toList "hourly".toList tenNanos, ⟨10, some ⟨"b".toList, 20⟩⟩⟩]

def nightlyWorld : LockWorld :=
  ⟨⟨[(lockKey "jobs".toList "hourly".toList, ⟨"b".toList, 20⟩),
      (lockKey "jobs".toList "nightly".toList, ⟨"a".toList, 10⟩)], by decide, 0, 0⟩,
    10, ["b".toList, "a".toList]⟩

theorem nightly_nulFree : NulFree "jobs".toList := by
  simp [NulFree]

/-- After the first of the two calls. -/
def heldWorld : LockWorld :=
  ⟨⟨[(lockKey "jobs".toList "nightly".toList, ⟨"a".toList, 10⟩)], by decide, 0, 0⟩, 0,
    ["a".toList]⟩

/-- The lease stands; another call at 5 is refused, and none can be granted then. -/
theorem leases_exclude_nightly :
    Standing (nightlyTrace.take 1) "jobs".toList "nightly".toList "a".toList 10 ∧
      (∃ w', lockTable.Exec heldWorld
        ⟨.tryAcquire "jobs".toList "nightly".toList tenNanos, ⟨5, none⟩⟩ w') ∧
      ∀ lease w', ¬ lockTable.Exec heldWorld
        ⟨.tryAcquire "jobs".toList "nightly".toList tenNanos, ⟨5, some lease⟩⟩ w' := by
  have hStanding : Standing (nightlyTrace.take 1) "jobs".toList "nightly".toList "a".toList 10 :=
    ⟨[], _, [], rfl, ⟨rfl, rfl⟩, nofun⟩
  refine ⟨hStanding, ⟨_, (5, "b".toList), rfl⟩, fun lease w' hx => ?_⟩
  have hTrace : lockTable.Trace (newLocks 0 0) (nightlyTrace.take 1) heldWorld :=
    .cons ⟨(0, "a".toList), rfl⟩ (.nil _)
  have hKeys : ∀ y ∈ nightlyTrace.take 1 ++
      [⟨.tryAcquire "jobs".toList "nightly".toList tenNanos, ⟨5, some lease⟩⟩],
      NulFree y.op.subject.1 := by
    simp only [nightlyTrace, List.take, List.cons_append, List.nil_append, List.forall_mem_cons]
    exact ⟨nightly_nulFree, nightly_nulFree, by simp⟩
  have hLate := (leases_exclude hTrace hx hKeys).1 _ _ _ 10 tenNanos _ hStanding rfl rfl
  exact absurd hLate (show ¬ (10 : Int) ≤ (5 : Nat) by decide)

/-- A release with the id of a lease that has expired frees the place its entry takes. -/
theorem expired_release_frees : lockTable.Trace (newLocks 0 0) nightlyTrace nightlyWorld ∧
    LastSet nightlyTrace "jobs".toList "nightly".toList "a".toList 10 ∧
      (10 : Int) ≤ nightlyWorld.clock ∧
      ∃ w', lockTable.Exec nightlyWorld
          ⟨.release "jobs".toList "nightly".toList "a".toList, ()⟩ w' ∧
        w'.locks.held.length = 1 ∧ nightlyWorld.locks.held.length = 2 := by
  refine ⟨.cons ⟨(0, "a".toList), rfl⟩ (.cons ⟨(10, "b".toList), rfl⟩ (.nil _)),
    ⟨[], _, _, rfl, ⟨rfl, rfl⟩, ?_⟩, by decide, _, ⟨(), rfl⟩, rfl, rfl⟩
  intro y hy
  obtain rfl := List.mem_singleton.mp hy
  exact fun e' h => absurd h.1 (by decide)

end Nightly
end Moduless.Memory
