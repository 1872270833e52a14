import Moduless.Go.Builtin
import Moduless.Go.Map
import Moduless.Interaction.Schedule

/-!
The registry of the transactions plugins have open, and the calls on it.

A call is a program whose operations are the critical sections of the registry's
lock and the calls of the database between them. Any number of calls run at once.
The world keeps the database's side of every transaction with the plugin it was
begun for, and the ids that were given out; ids are never given out twice.
-/

namespace Moduless.DB
open Go Interaction

def defaultTxTimeout : Int := 30000000000

def maxTxTimeout : Int := 300000000000

def maxOpenTxPerPlugin : Int := 8

abbrev TxHandle := Nat

structure OpenTx where
  tx : TxHandle
  pluginKey : Str
  expiresAt : Int
  deriving DecidableEq

inductive TxError where
  | unknownTx
  | tooManyTx (pluginKey : Str) (opened limit : Int)
  | beginFailed
  | commitFailed
  | rollbackFailed
  deriving DecidableEq

/-- `opened` is the source's `open`. -/
structure TxRegistry where
  txs : GoMap Str OpenTx
  maxOpen : Int
  opened : GoMap Str Int

namespace TxRegistry

def limit (r : TxRegistry) : Int := if 0 < r.maxOpen then r.maxOpen else maxOpenTxPerPlugin

/-- A missing key counts as zero. -/
def count (r : TxRegistry) (pluginKey : Str) : Int := (r.opened.get pluginKey).getD 0

/-- The first critical section of `Begin`. -/
def reserve (r : TxRegistry) (pluginKey : Str) : Except TxError Unit × TxRegistry :=
  if r.limit ≤ r.count pluginKey then
    (.error (.tooManyTx pluginKey (r.count pluginKey) r.limit), r)
  else (.ok (), { r with opened := r.opened.set pluginKey (r.count pluginKey + 1) })

/-- Gives a slot back, in `Begin` after a failure and in `dropLocked`. -/
def release (r : TxRegistry) (pluginKey : Str) : TxRegistry :=
  if 0 < r.count pluginKey then
    if r.count pluginKey - 1 = 0 then { r with opened := r.opened.delete pluginKey }
    else { r with opened := r.opened.set pluginKey (r.count pluginKey - 1) }
  else r

def insert (r : TxRegistry) (txID : Str) (t : OpenTx) : TxRegistry :=
  { r with txs := r.txs.set txID t }

def dropLocked (r : TxRegistry) (txID : Str) (t : OpenTx) : TxRegistry :=
  release { r with txs := r.txs.delete txID } t.pluginKey

/-- The transaction a plugin may use under an id. -/
def owned (r : TxRegistry) (pluginKey txID : Str) : Option OpenTx :=
  (r.txs.get txID).filter (·.pluginKey = pluginKey)

end TxRegistry

inductive TxStatus where
  | active
  | committed
  | rolledBack
  deriving DecidableEq

/-- The database's side of a transaction. -/
structure SqlTx where
  owner : Str
  status : TxStatus
  deriving DecidableEq

structure TxWorld where
  registry : TxRegistry
  sqls : List SqlTx
  issued : GoMap Str OpenTx

namespace TxWorld

/-- Ends a transaction unless it has ended before. -/
def finish (w : TxWorld) (tx : TxHandle) (status : TxStatus) : TxWorld :=
  { w with sqls := w.sqls.modify tx fun x =>
      if x.status = .active then { x with status := status } else x }

def active (w : TxWorld) (tx : TxHandle) : Bool :=
  (w.sqls[tx]?).any (·.status = .active)

/-- Rolls a registered transaction back and drops it, under the lock. -/
def discard (w : TxWorld) (txID : Str) (t : OpenTx) : TxWorld :=
  let w := w.finish t.tx .rolledBack
  { w with registry := w.registry.dropLocked txID t }

def discardAll (w : TxWorld) (entries : List (Str × OpenTx)) : TxWorld :=
  entries.foldl (fun w e => w.discard e.1 e.2) w

def lookup (w : TxWorld) (pluginKey txID : Str) (now : Int) :
    Except TxError TxHandle × TxWorld :=
  match w.registry.owned pluginKey txID with
  | none => (.error .unknownTx, w)
  | some t => if t.expiresAt < now then (.error .unknownTx, w.discard txID t) else (.ok t.tx, w)

def take (w : TxWorld) (pluginKey txID : Str) : Except TxError OpenTx × TxWorld :=
  match w.registry.owned pluginKey txID with
  | none => (.error .unknownTx, w)
  | some t => (.ok t, { w with registry := w.registry.dropLocked txID t })

def expired (w : TxWorld) (now : Int) : List (Str × OpenTx) :=
  w.registry.txs.filter (·.2.expiresAt < now)

def reapExpired (w : TxWorld) (now : Int) : Nat × TxWorld :=
  ((w.expired now).length, w.discardAll (w.expired now))

def close (w : TxWorld) : TxWorld := w.discardAll w.registry.txs

end TxWorld

inductive TxOp where
  | reserve (pluginKey : Str)
  | beginTx (pluginKey : Str)
  | release (pluginKey : Str)
  | insert (pluginKey : Str) (tx : TxHandle) (timeout : Int)
  | lookup (pluginKey txID : Str)
  | take (pluginKey txID : Str)
  | commit (tx : TxHandle)
  | rollback (tx : TxHandle)
  | reapExpired
  | close

/-- `commit` and `rollback` say whether they succeeded. -/
@[reducible] def TxOp.Ans : TxOp → Type
  | .reserve _ => Except TxError Unit
  | .beginTx _ => Option TxHandle
  | .release _ | .close => Unit
  | .insert _ _ _ => Str
  | .lookup _ _ => Except TxError TxHandle
  | .take _ _ => Except TxError OpenTx
  | .commit _ | .rollback _ => Bool
  | .reapExpired => Nat

def TxHost : Interface := ⟨TxOp, TxOp.Ans⟩

abbrev TxM := Program TxHost

def txOp (o : TxOp) : TxM o.Ans := Program.perform (I := TxHost) o

inductive TxReply where
  | began (txID : Str)
  | found (tx : TxHandle)
  | done
  | reaped (n : Nat)
  deriving DecidableEq

def clampTimeout (timeout : Int) : Int :=
  let timeout := if timeout ≤ 0 then defaultTxTimeout else timeout
  if maxTxTimeout < timeout then maxTxTimeout else timeout

inductive TxCall where
  | begin (pluginKey : Str) (timeout : Int)
  | lookup (pluginKey txID : Str)
  | commit (pluginKey txID : Str)
  | rollback (pluginKey txID : Str)
  | reapExpired
  | close
  deriving DecidableEq

namespace TxCall

def body : TxCall → TxM (Except TxError TxReply)
  | .begin pluginKey timeout => do
      match ← txOp (.reserve pluginKey) with
      | .error e => pure (.error e)
      | .ok () =>
        match ← txOp (.beginTx pluginKey) with
        | none =>
          txOp (.release pluginKey)
          pure (.error .beginFailed)
        | some tx =>
          let txID ← txOp (.insert pluginKey tx (clampTimeout timeout))
          pure (.ok (.began txID))
  | .lookup pluginKey txID => do
      match ← txOp (.lookup pluginKey txID) with
      | .error e => pure (.error e)
      | .ok tx => pure (.ok (.found tx))
  | .commit pluginKey txID => do
      match ← txOp (.take pluginKey txID) with
      | .error e => pure (.error e)
      | .ok t =>
        let ok ← txOp (.commit t.tx)
        pure (if ok then .ok .done else .error .commitFailed)
  | .rollback pluginKey txID => do
      match ← txOp (.take pluginKey txID) with
      | .error e => pure (.error e)
      | .ok t =>
        let ok ← txOp (.rollback t.tx)
        pure (if ok then .ok .done else .error .rollbackFailed)
  | .reapExpired => do
      let n ← txOp .reapExpired
      pure (.ok (.reaped n))
  | .close => do
      txOp .close
      pure (.ok .done)

def key : TxCall → Option Str
  | .begin p _ | .lookup p _ | .commit p _ | .rollback p _ => some p
  | .reapExpired | .close => none

end TxCall

/-- How a `Commit` of an active transaction ends in the database: the answer to
one that took effect can get lost. -/
inductive CommitOutcome where
  | succeeded
  | failed
  | lost
  deriving DecidableEq

@[reducible] def TxOp.Choice : TxOp → Type
  | .reserve _ | .release _ | .take _ _ | .close => Unit
  | .beginTx _ | .rollback _ => Bool
  | .insert _ _ _ => Str × Int
  | .lookup _ _ | .reapExpired => Int
  | .commit _ => CommitOutcome

namespace TxWorld

def insert (w : TxWorld) (txID : Str) (t : OpenTx) : TxWorld :=
  { w with registry := w.registry.insert txID t, issued := w.issued.set txID t }

/-- A transaction that has ended cannot be committed. -/
def commit (w : TxWorld) (tx : TxHandle) (outcome : CommitOutcome) : Bool × TxWorld :=
  if w.active tx then
    match outcome with
    | .succeeded => (true, w.finish tx .committed)
    | .failed => (false, w.finish tx .rolledBack)
    | .lost => (false, w.finish tx .committed)
  else (false, w)

def exec (w : TxWorld) : (o : TxOp) → o.Choice → Option (o.Ans × TxWorld)
  | .reserve p, _ =>
    let (r, registry) := w.registry.reserve p
    some (r, { w with registry := registry })
  | .beginTx p, begins =>
    if begins then some (some w.sqls.length, { w with sqls := w.sqls ++ [⟨p, .active⟩] })
    else some (none, w)
  | .release p, _ => some ((), { w with registry := w.registry.release p })
  | .insert p tx timeout, (txID, now) =>
    if w.issued.has txID then none
    else some (txID, w.insert txID ⟨tx, p, now + timeout⟩)
  | .lookup p txID, now => some (w.lookup p txID now)
  | .take p txID, _ => some (w.take p txID)
  | .commit tx, outcome => some (w.commit tx outcome)
  | .rollback tx, ok => some (ok && w.active tx, w.finish tx .rolledBack)
  | .reapExpired, now => some (w.reapExpired now)
  | .close, _ => some ((), w.close)

end TxWorld

def txMachine : Machine TxHost TxWorld := ⟨TxOp.Choice, TxWorld.exec⟩

def txSystem : System TxHost TxWorld TxCall (Except TxError TxReply) :=
  ⟨txMachine, TxCall.body, fun _ => []⟩

abbrev TxPool := Pool TxHost TxWorld TxCall (Except TxError TxReply)

abbrev TxThread := Thread TxHost TxCall (Except TxError TxReply)

/-- The runs of the registry: any calls, in any interleaving. -/
abbrev TxReach : TxPool → TxPool → Prop :=
  txSystem.Reach (fun _ _ => True) fun _ _ _ => True

/-- `NewTxRegistry`, with the ceiling it is given. -/
def newTxRegistry (maxOpen : Int) : TxRegistry := ⟨[], maxOpen, []⟩

def newTxWorld (maxOpen : Int) : TxWorld := ⟨newTxRegistry maxOpen, [], []⟩

namespace TxWorld

/-- What an operation can do, with its answer. -/
inductive Did (w : TxWorld) : Event TxHost → TxWorld → Prop
  | refused {p : Str} {e : TxError} (h : w.registry.limit ≤ w.registry.count p) :
      Did w ⟨.reserve p, .error e⟩ w
  | reserved {p : Str} (h : w.registry.count p < w.registry.limit) :
      Did w ⟨.reserve p, .ok ()⟩ { w with registry :=
        { w.registry with opened := w.registry.opened.set p (w.registry.count p + 1) } }
  | begun {p : Str} :
      Did w ⟨.beginTx p, some w.sqls.length⟩ { w with sqls := w.sqls ++ [⟨p, .active⟩] }
  | notBegun {p : Str} : Did w ⟨.beginTx p, none⟩ w
  | released {p : Str} {u : Unit} :
      Did w ⟨.release p, u⟩ { w with registry := w.registry.release p }
  | inserted {p txID : Str} {tx : TxHandle} {timeout now : Int} (h : w.issued.get txID = none) :
      Did w ⟨.insert p tx timeout, txID⟩ (w.insert txID ⟨tx, p, now + timeout⟩)
  | notFound {p txID : Str} : Did w ⟨.lookup p txID, .error .unknownTx⟩ w
  | expired {p txID : Str} {t : OpenTx} (h : w.registry.owned p txID = some t) :
      Did w ⟨.lookup p txID, .error .unknownTx⟩ (w.discard txID t)
  | found {p txID : Str} {t : OpenTx} (h : w.registry.owned p txID = some t) :
      Did w ⟨.lookup p txID, .ok t.tx⟩ w
  | notTaken {p txID : Str} : Did w ⟨.take p txID, .error .unknownTx⟩ w
  | taken {p txID : Str} {t : OpenTx} (h : w.registry.owned p txID = some t) :
      Did w ⟨.take p txID, .ok t⟩ { w with registry := w.registry.dropLocked txID t }
  | committed {tx : TxHandle} {ok : Bool} {status : TxStatus} :
      Did w ⟨.commit tx, ok⟩ (w.finish tx status)
  | notCommitted {tx : TxHandle} {ok : Bool} : Did w ⟨.commit tx, ok⟩ w
  | rolledBack {tx : TxHandle} {ok : Bool} : Did w ⟨.rollback tx, ok⟩ (w.finish tx .rolledBack)
  | reaped {n : Nat} {now : Int} : Did w ⟨.reapExpired, n⟩ (w.discardAll (w.expired now))
  | closed {u : Unit} : Did w ⟨.close, u⟩ (w.discardAll w.registry.txs)

theorem did_of_exec {w w' : TxWorld} {e : Event TxHost} (h : txMachine.Exec w e w') :
    w.Did e w' := by
  obtain ⟨o, r⟩ := e
  obtain ⟨choice, h⟩ := h
  change w.exec o choice = some (r, w') at h
  cases o with
  | reserve p =>
    simp only [exec, TxRegistry.reserve] at h
    split at h
    next hFull =>
      cases h
      exact .refused hFull
    next hRoom =>
      cases h
      exact .reserved (by omega)
  | beginTx p =>
    simp only [exec] at h
    split at h
    next =>
      cases h
      exact .begun
    next =>
      cases h
      exact .notBegun
  | release p =>
    cases h
    exact .released
  | insert p tx timeout =>
    obtain ⟨txID, now⟩ := choice
    simp only [exec] at h
    split at h
    next => cases h
    next hNew =>
      cases h
      exact .inserted (by simpa [GoMap.has] using hNew)
  | lookup p txID =>
    simp only [exec, lookup] at h
    cases hOwned : w.registry.owned p txID with
    | none =>
      rw [hOwned] at h
      cases h
      exact .notFound
    | some t =>
      rw [hOwned] at h
      dsimp only at h
      split at h
      next =>
        cases h
        exact .expired hOwned
      next =>
        cases h
        exact .found hOwned
  | take p txID =>
    simp only [exec, take] at h
    cases hOwned : w.registry.owned p txID with
    | none =>
      rw [hOwned] at h
      cases h
      exact .notTaken
    | some t =>
      rw [hOwned] at h
      cases h
      exact .taken hOwned
  | commit tx =>
    simp only [exec, commit] at h
    split at h
    next =>
      cases choice with
      | succeeded | failed | lost =>
        cases h
        exact .committed
    next =>
      cases h
      exact .notCommitted
  | rollback tx =>
    obtain ⟨-, rfl⟩ := Prod.mk.inj (Option.some.inj h)
    exact .rolledBack
  | reapExpired =>
    obtain ⟨-, rfl⟩ := Prod.mk.inj (Option.some.inj h)
    exact .reaped
  | close =>
    obtain ⟨-, rfl⟩ := Prod.mk.inj (Option.some.inj h)
    exact .closed

end TxWorld
end Moduless.DB
