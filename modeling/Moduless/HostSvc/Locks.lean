import Moduless.HostSvc.Memory
import Moduless.Interaction.Machine

/-!
The in-process locks: leases with an expiry instead of mutexes.

Every method holds the mutex of the table from its first access to its last, so that a
call is one step with the times it reads and, for a new lease, the id it draws. Any number
of holders that call in any order make a trace of such steps. The clock does not go back
from one reading to the next, and no id is drawn twice.
-/

namespace Moduless.Memory
open Go Interaction

structure LockState where
  leaseID : Str
  expiresAt : Int
  deriving DecidableEq

structure Lease where
  id : Str
  expiresAt : Int
  deriving DecidableEq

structure MemoryLocks where
  held : GoMap Str LockState
  distinct : held.keys.Nodup
  maxHeld : Int
  lastSweep : Nat

/-- How long a lease is to last. -/
abbrev TTL := { d : Int // 0 < d }

def defaultMaxLocks : Int := 10000

/-- 30 seconds. -/
def lockSweepInterval : Int := 30000000000

/-- 30 seconds. -/
def defaultLockTTL : TTL := ⟨30000000000, by decide⟩

/-- `Acquire` and `Renew` put the default in the place of a duration that is not positive. -/
def lockTTL (ttl : Int) : TTL := if h : 0 < ttl then ⟨ttl, h⟩ else defaultLockTTL

def lockKey (pluginKey name : Str) : Str := namespaced pluginKey name

namespace MemoryLocks

def limit (l : MemoryLocks) : Int := if l.maxHeld > 0 then l.maxHeld else defaultMaxLocks

def keep (l : MemoryLocks) (p : Str × LockState → Bool) : MemoryLocks :=
  { l with held := l.held.filter p, distinct := GoMap.nodup_filter l.distinct p }

/-- `l.held[k] = st`. -/
def hold (l : MemoryLocks) (k : Str) (st : LockState) : MemoryLocks :=
  { l with held := l.held.set k st, distinct := GoMap.nodup_set l.distinct k st }

/-- `delete(l.held, k)`. -/
def drop (l : MemoryLocks) (k : Str) : MemoryLocks :=
  { l with held := l.held.delete k, distinct := GoMap.nodup_delete l.distinct k }

def sweepExpiredLocked (l : MemoryLocks) (now : Nat) : MemoryLocks :=
  if (now : Int) - l.lastSweep < lockSweepInterval then l
  else { l with lastSweep := now }.keep fun e => !expired now e.2.expiresAt

def tryAcquire (l : MemoryLocks) (pluginKey name : Str) (ttl : TTL) (now : Nat) (leaseID : Str) :
    Option Lease × MemoryLocks :=
  let k := lockKey pluginKey name
  let l := l.sweepExpiredLocked now
  if (l.held.get k).any fun cur => !expired now cur.expiresAt then (none, l)
  else if (l.held.get k).isNone && (l.limit > 0 && (l.held.length : Int) ≥ l.limit) then (none, l)
  else (some ⟨leaseID, now + ttl⟩, l.hold k ⟨leaseID, now + ttl⟩)

/-- The clock is read once for the check and once for the new expiry. -/
def renew (l : MemoryLocks) (pluginKey name leaseID : Str) (ttl : Int) (now later : Nat) :
    Option Lease × MemoryLocks :=
  match l.held.get (lockKey pluginKey name) with
  | none => (none, l)
  | some cur =>
    if cur.leaseID ≠ leaseID ∨ expired now cur.expiresAt then (none, l)
    else
      (some ⟨leaseID, later + lockTTL ttl⟩,
        l.hold (lockKey pluginKey name) { cur with expiresAt := later + lockTTL ttl })

def release (l : MemoryLocks) (pluginKey name leaseID : Str) : MemoryLocks :=
  match l.held.get (lockKey pluginKey name) with
  | none => l
  | some cur => if cur.leaseID = leaseID then l.drop (lockKey pluginKey name) else l

end MemoryLocks

inductive LockOp where
  | tryAcquire (pluginKey name : Str) (ttl : TTL)
  | renew (pluginKey name leaseID : Str) (ttl : Int)
  | release (pluginKey name leaseID : Str)
  deriving DecidableEq

/-- What a call read off the clock first, and the lease it gave. -/
structure LockReply where
  now : Nat
  lease : Option Lease
  deriving DecidableEq

@[reducible] def LockOp.Ans : LockOp → Type
  | .tryAcquire _ _ _ | .renew _ _ _ _ => LockReply
  | .release _ _ _ => Unit

def LockHost : Interface := ⟨LockOp, LockOp.Ans⟩

/-- The table with the latest reading of the clock and the ids drawn so far. -/
structure LockWorld where
  locks : MemoryLocks
  clock : Nat
  drawn : List Str

/-- The readings of a call, and the id it draws. -/
@[reducible] def LockOp.Choice : LockOp → Type
  | .tryAcquire _ _ _ => Nat × Str
  | .renew _ _ _ _ => Nat × Nat
  | .release _ _ _ => Unit

def LockOp.exec (w : LockWorld) : (o : LockOp) → o.Choice → Option (o.Ans × LockWorld)
  | .tryAcquire pluginKey name ttl, (now, leaseID) =>
    if w.clock ≤ now ∧ leaseID ∉ w.drawn then
      let out := w.locks.tryAcquire pluginKey name ttl now leaseID
      some (⟨now, out.1⟩, ⟨out.2, now, leaseID :: w.drawn⟩)
    else none
  | .renew pluginKey name leaseID ttl, (now, later) =>
    if w.clock ≤ now ∧ now ≤ later then
      let out := w.locks.renew pluginKey name leaseID ttl now later
      some (⟨now, out.1⟩, { w with locks := out.2, clock := later })
    else none
  | .release pluginKey name leaseID, () =>
    some ((), { w with locks := w.locks.release pluginKey name leaseID })

def lockTable : Machine LockHost LockWorld := ⟨LockOp.Choice, LockOp.exec⟩

/-- `NewMemoryLocks`, with any limit and at any time. -/
def newLocks (maxHeld : Int) (now : Nat) : LockWorld :=
  ⟨⟨[], List.nodup_nil, maxHeld, now⟩, now, []⟩

section Effects

variable {l l' : MemoryLocks} {w w' : LockWorld} {p n leaseID k : Str} {st : LockState}
  {t now : Nat}

/-- Nothing but entries that have expired is gone. -/
def Swept (now : Nat) (l l' : MemoryLocks) : Prop :=
  ∀ k st, (l'.held.get k = some st → l.held.get k = some st) ∧
    (l.held.get k = some st → expired now st.expiresAt = false → l'.held.get k = some st)

theorem swept_sweepExpiredLocked (l : MemoryLocks) (now : Nat) :
    Swept now l (l.sweepExpiredLocked now) := by
  intro k st
  rw [MemoryLocks.sweepExpiredLocked]
  split
  next => exact ⟨id, fun h _ => h⟩
  next =>
    refine ⟨fun h => (GoMap.get_of_filter l.distinct h).1, fun h hLive => ?_⟩
    exact GoMap.get_filter h (by simp [hLive])

theorem MemoryLocks.get_hold (l : MemoryLocks) (k j : Str) (st : LockState) :
    (l.hold k st).held.get j = if j = k then some st else l.held.get j := GoMap.get_set _ _ _ _

theorem MemoryLocks.get_drop (l : MemoryLocks) (k j : Str) :
    (l.drop k).held.get j = if j = k then none else l.held.get j := GoMap.get_delete _ _ _

/-- An attempt is refused, or it takes a place that is free or has expired. -/
theorem exec_tryAcquire {ttl : TTL} {r : LockReply}
    (h : lockTable.Exec w ⟨.tryAcquire p n ttl, r⟩ w') :
    w.clock ≤ r.now ∧ w'.clock = r.now ∧ ∃ leaseID l, leaseID ∉ w.drawn ∧
      w'.drawn = leaseID :: w.drawn ∧ Swept r.now w.locks l ∧
      ((r.lease = none ∧ w'.locks = l) ∨
        (r.lease = some ⟨leaseID, r.now + ttl⟩ ∧
          w'.locks = l.hold (lockKey p n) ⟨leaseID, r.now + ttl⟩ ∧
          ∀ cur, l.held.get (lockKey p n) = some cur → expired r.now cur.expiresAt = true)) := by
  obtain ⟨⟨now, leaseID⟩, hExec⟩ := h
  obtain ⟨⟨hClock, hFresh⟩, hOut⟩ := Option.ite_none_right_eq_some.mp hExec
  cases hOut
  refine ⟨hClock, rfl, leaseID, _, hFresh, rfl, swept_sweepExpiredLocked w.locks now, ?_⟩
  simp only [MemoryLocks.tryAcquire]
  by_cases hHeld : ((w.locks.sweepExpiredLocked now).held.get (lockKey p n)).any
      fun cur => !expired now cur.expiresAt
  · rw [if_pos hHeld]
    exact .inl ⟨rfl, rfl⟩
  · rw [if_neg hHeld]
    split
    next => exact .inl ⟨rfl, rfl⟩
    next =>
      refine .inr ⟨rfl, rfl, fun cur hCur => ?_⟩
      simpa [hCur] using hHeld

/-- A renewal fails, or it gives the lease that is running a new expiry. -/
theorem exec_renew {ttl : Int} {r : LockReply}
    (h : lockTable.Exec w ⟨.renew p n leaseID ttl, r⟩ w') :
    w.clock ≤ r.now ∧ r.now ≤ w'.clock ∧ w'.drawn = w.drawn ∧
      ((r.lease = none ∧ w'.locks = w.locks) ∨
        ∃ cur e, w.locks.held.get (lockKey p n) = some cur ∧ cur.leaseID = leaseID ∧
          expired r.now cur.expiresAt = false ∧ 0 < e ∧ r.lease = some ⟨leaseID, e⟩ ∧
          w'.locks = w.locks.hold (lockKey p n) ⟨leaseID, e⟩) := by
  obtain ⟨⟨now, later⟩, hExec⟩ := h
  obtain ⟨⟨hClock, hLater⟩, hOut⟩ := Option.ite_none_right_eq_some.mp hExec
  cases hOut
  refine ⟨hClock, hLater, rfl, ?_⟩
  simp only [MemoryLocks.renew]
  cases hCur : w.locks.held.get (lockKey p n) with
  | none => exact .inl ⟨rfl, rfl⟩
  | some cur =>
    dsimp only
    by_cases hStale : cur.leaseID ≠ leaseID ∨ expired now cur.expiresAt
    · rw [if_pos hStale]
      exact .inl ⟨rfl, rfl⟩
    · rw [if_neg hStale]
      simp only [not_or, not_not, Bool.not_eq_true] at hStale
      refine .inr ⟨cur, later + lockTTL ttl, rfl, hStale.1, hStale.2, ?_, rfl, ?_⟩
      · have := (lockTTL ttl).property
        omega
      · rw [hStale.1]

/-- A release drops the entry with the id, if it is the one that is held. -/
theorem exec_release (h : lockTable.Exec w ⟨.release p n leaseID, ()⟩ w') :
    (w' = w ∧ ∀ cur, w.locks.held.get (lockKey p n) = some cur → cur.leaseID ≠ leaseID) ∨
      ∃ cur, w.locks.held.get (lockKey p n) = some cur ∧ cur.leaseID = leaseID ∧
        w' = { w with locks := w.locks.drop (lockKey p n) } := by
  obtain ⟨⟨⟩, hExec⟩ := h
  obtain rfl : { w with locks := w.locks.release p n leaseID } = w' :=
    (Prod.mk.inj (Option.some.inj hExec)).2
  simp only [MemoryLocks.release]
  cases hCur : w.locks.held.get (lockKey p n) with
  | none => exact .inl ⟨rfl, fun cur h => (by cases h)⟩
  | some cur =>
    dsimp only
    by_cases hOwn : cur.leaseID = leaseID
    · rw [if_pos hOwn]
      exact .inr ⟨cur, rfl, hOwn, rfl⟩
    · rw [if_neg hOwn]
      exact .inl ⟨rfl, fun _ h => Option.some.inj h ▸ hOwn⟩

end Effects
end Moduless.Memory
