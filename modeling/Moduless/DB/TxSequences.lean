import Moduless.DB.TxQuota

/-!
Sequences of calls on the registry, one after the other, at any readings of the
clock.

Each call is run to its end; what it does to the registered transactions is to take
out the ones it ends or, for a `Begin`, to add one under a new id.
-/

namespace Moduless.DB
open Go Interaction

/-- How a call goes, and the time its clock shows. -/
structure TxTurn where
  now : Int
  txID : Str := []
  begins : Bool := true
  outcome : CommitOutcome := .succeeded
  rollsBack : Bool := true

def TxTurn.choices (turn : TxTurn) : (o : TxOp) → o.Choice
  | .reserve _ | .release _ | .take _ _ | .close => ()
  | .beginTx _ => turn.begins
  | .rollback _ => turn.rollsBack
  | .insert _ _ _ => (turn.txID, turn.now)
  | .lookup _ _ | .reapExpired => turn.now
  | .commit _ => turn.outcome

/-- A call at a time ends a transaction that is registered. -/
def TxCall.Ends : TxCall → Int → Str → OpenTx → Prop
  | .commit p id, _, txID, t | .rollback p id, _, txID, t => p = t.pluginKey ∧ id = txID
  | .lookup p id, now, txID, t => p = t.pluginKey ∧ id = txID ∧ t.expiresAt < now
  | .reapExpired, now, _, t => t.expiresAt < now
  | .close, _, _, _ => True
  | .begin _ _, _, _, _ => False

instance TxCall.decidableEnds :
    (c : TxCall) → (now : Int) → (txID : Str) → (t : OpenTx) → Decidable (c.Ends now txID t)
  | .commit _ _, _, _, _ | .rollback _ _, _, _, _ => inferInstanceAs (Decidable (_ ∧ _))
  | .lookup _ _, _, _, _ => inferInstanceAs (Decidable (_ ∧ _ ∧ _))
  | .reapExpired, now, _, t => inferInstanceAs (Decidable (t.expiresAt < now))
  | .close, _, _, _ => inferInstanceAs (Decidable True)
  | .begin _ _, _, _, _ => inferInstanceAs (Decidable False)

/-- A call of a sequence. -/
structure TxEntry where
  call : TxCall
  turn : TxTurn

namespace TxEntry

def run (e : TxEntry) (w : TxWorld) : Option (Except TxError TxReply × TxWorld) :=
  txMachine.result e.turn.choices w e.call.body

def runAll : List TxEntry → TxWorld → Option TxWorld
  | [], w => some w
  | e :: es, w => (e.run w).bind fun out => runAll es out.2

def Ends (e : TxEntry) (txID : Str) (t : OpenTx) : Prop := e.call.Ends e.turn.now txID t

instance (e : TxEntry) (txID : Str) (t : OpenTx) : Decidable (e.Ends txID t) :=
  TxCall.decidableEnds e.call e.turn.now txID t

end TxEntry

section Registered

variable {w : TxWorld} {txID : Str} {t : OpenTx}

@[simp] theorem TxWorld.txs_discard (w : TxWorld) (id : Str) (t : OpenTx) :
    (w.discard id t).registry.txs = w.registry.txs.delete id := by
  simp [discard, finish, TxRegistry.dropLocked]

theorem TxWorld.txs_discardAll (entries : List (Str × OpenTx)) (w : TxWorld) :
    (w.discardAll entries).registry.txs =
      w.registry.txs.filter fun e => e.1 ∉ GoMap.keys entries := by
  induction entries generalizing w with
  | nil => simp [discardAll, GoMap.keys]
  | cons e entries ih =>
    have hNext := ih (w.discard e.1 e.2)
    simp only [txs_discard, GoMap.delete, List.filter_filter] at hNext
    refine hNext.trans (List.filter_congr fun x _ => ?_)
    rw [Bool.eq_iff_iff]
    simp only [Bool.and_eq_true, decide_eq_true_eq]
    simp [GoMap.keys, and_comm]

theorem TxWorld.issued_discardAll (entries : List (Str × OpenTx)) (w : TxWorld) :
    (w.discardAll entries).issued = w.issued := by
  induction entries generalizing w with
  | nil => rfl
  | cons e entries ih => exact ih (w.discard e.1 e.2)

theorem TxRegistry.delete_owned {r : TxRegistry} (hKeys : (GoMap.keys r.txs).Nodup) {p id : Str}
    (h : r.owned p id = some t) :
    r.txs.delete id = r.txs.filter fun x => ¬ (p = x.2.pluginKey ∧ id = x.1) := by
  obtain ⟨hGet, rfl⟩ := owned_eq_some.mp h
  refine List.filter_congr fun x hx => decide_eq_decide.mpr ?_
  refine ⟨fun hne hBoth => hne hBoth.2.symm, fun hNot heq => hNot ?_⟩
  have hSame : r.txs.get x.1 = some x.2 := (GoMap.get_eq_some_iff hKeys).mpr hx
  rw [heq, hGet] at hSame
  exact ⟨congrArg OpenTx.pluginKey (Option.some.inj hSame), heq.symm⟩

theorem TxRegistry.filter_unowned {r : TxRegistry} (hKeys : (GoMap.keys r.txs).Nodup)
    {p id : Str} (h : r.owned p id = none) {x : Str × OpenTx} (hx : x ∈ r.txs) :
    ¬ (p = x.2.pluginKey ∧ id = x.1) := by
  rintro ⟨rfl, rfl⟩
  have hGet : r.txs.get x.1 = some x.2 := (GoMap.get_eq_some_iff hKeys).mpr hx
  rw [TxRegistry.owned_eq_some.mpr ⟨hGet, rfl⟩] at h
  cases h

end Registered

/-- The transaction a `Begin` registers. -/
def TxEntry.registers (e : TxEntry) (w : TxWorld) (p : Str) (timeout : Int) : OpenTx :=
  ⟨w.sqls.length, p, e.turn.now + clampTimeout timeout⟩

namespace TxEntry

variable {e : TxEntry} {w w' : TxWorld} {r : Except TxError TxReply}

/-- A call removes exactly the transactions it ends, and a successful `Begin` adds
one under a new id. -/
inductive Shifts (e : TxEntry) (w : TxWorld) : Except TxError TxReply → TxWorld → Prop
  | kept {r : Except TxError TxReply} {w' : TxWorld}
      (txs : w'.registry.txs = w.registry.txs.filter fun x => ¬ e.Ends x.1 x.2)
      (issued : w'.issued = w.issued) (quiet : ∀ txID, r ≠ .ok (.began txID)) : Shifts e w r w'
  | added {p : Str} {timeout : Int} {w' : TxWorld} (call : e.call = .begin p timeout)
      (new : w.issued.get e.turn.txID = none)
      (txs : w'.registry.txs = w.registry.txs.set e.turn.txID (e.registers w p timeout))
      (issued : w'.issued = w.issued.set e.turn.txID (e.registers w p timeout)) :
      Shifts e w (.ok (.began e.turn.txID)) w'

theorem run_begin {p : Str} {timeout : Int} (hCall : e.call = .begin p timeout) :
    e.run w =
      match w.registry.reserve p with
      | (.error err, registry) => some (.error err, { w with registry := registry })
      | (.ok _, registry) =>
        if e.turn.begins then
          if w.issued.has e.turn.txID then none
          else some (.ok (.began e.turn.txID), TxWorld.insert
            { w with registry := registry, sqls := w.sqls ++ [⟨p, .active⟩] }
            e.turn.txID (e.registers w p timeout))
        else some (.error .beginFailed, { w with registry := registry.release p }) := by
  rw [run, hCall]
  refine (Machine.result_call _ _ _ _).trans ?_
  change Option.bind (some ((w.registry.reserve p).1,
    { w with registry := (w.registry.reserve p).2 })) _ = _
  cases w.registry.reserve p with
  | mk out registry =>
    cases out with
    | error err => rfl
    | ok u =>
      refine (Machine.result_call _ _ _ _).trans ?_
      change Option.bind (if e.turn.begins then
        some (some w.sqls.length, { w with registry := registry, sqls := _ })
        else some (none, { w with registry := registry })) _ = _
      cases e.turn.begins with
      | false => rfl
      | true =>
        refine (Machine.result_call _ _ _ _).trans ?_
        change Option.bind (if w.issued.has e.turn.txID then none else some _) _ = _
        cases w.issued.has e.turn.txID <;> rfl

theorem run_lookup {p txID : Str} (hCall : e.call = .lookup p txID) :
    e.run w =
      match w.lookup p txID e.turn.now with
      | (.error err, w') => some (.error err, w')
      | (.ok tx, w') => some (.ok (.found tx), w') := by
  rw [run, hCall]
  refine (Machine.result_call _ _ _ _).trans ?_
  change Option.bind (some (w.lookup p txID e.turn.now)) _ = _
  cases w.lookup p txID e.turn.now with
  | mk out w' => cases out <;> rfl

theorem run_commit {p txID : Str} (hCall : e.call = .commit p txID) :
    e.run w =
      match w.take p txID with
      | (.error err, w') => some (.error err, w')
      | (.ok t, w') =>
        match w'.commit t.tx e.turn.outcome with
        | (ok, w'') => some (if ok then .ok .done else .error .commitFailed, w'') := by
  rw [run, hCall]
  refine (Machine.result_call _ _ _ _).trans ?_
  change Option.bind (some (w.take p txID)) _ = _
  cases w.take p txID with
  | mk out w' => cases out <;> rfl

theorem run_rollback {p txID : Str} (hCall : e.call = .rollback p txID) :
    e.run w =
      match w.take p txID with
      | (.error err, w') => some (.error err, w')
      | (.ok t, w') =>
        some (if e.turn.rollsBack && w'.active t.tx then .ok .done else .error .rollbackFailed,
          w'.finish t.tx .rolledBack) := by
  rw [run, hCall]
  refine (Machine.result_call _ _ _ _).trans ?_
  change Option.bind (some (w.take p txID)) _ = _
  cases w.take p txID with
  | mk out w' => cases out <;> rfl

theorem run_reapExpired (hCall : e.call = .reapExpired) :
    e.run w = some (.ok (.reaped (w.expired e.turn.now).length),
      w.discardAll (w.expired e.turn.now)) := by
  rw [run, hCall]
  exact Machine.result_call _ _ _ _

theorem run_close (hCall : e.call = .close) :
    e.run w = some (.ok .done, w.discardAll w.registry.txs) := by
  rw [run, hCall]
  exact Machine.result_call _ _ _ _

section Shifts

theorem filter_ends_none {txs : GoMap Str OpenTx} (hNever : ∀ x ∈ txs, ¬ e.Ends x.1 x.2) :
    txs = txs.filter fun x => ¬ e.Ends x.1 x.2 :=
  (List.filter_eq_self.mpr fun x hx => decide_eq_true (hNever x hx)).symm

theorem shifts_of_take {p id : Str} (hKeys : (GoMap.keys w.registry.txs).Nodup)
    (hEnds : ∀ txID t, e.Ends txID t ↔ p = t.pluginKey ∧ id = txID) {w₁ : TxWorld}
    {out : Except TxError OpenTx} (h : w.take p id = (out, w₁)) :
    w₁.registry.txs = w.registry.txs.filter (fun x => ¬ e.Ends x.1 x.2) ∧
      w₁.issued = w.issued := by
  simp only [TxWorld.take] at h
  cases hOwned : w.registry.owned p id with
  | none =>
    rw [hOwned] at h
    cases h
    refine ⟨filter_ends_none fun x hx => ?_, rfl⟩
    rw [hEnds]
    exact TxRegistry.filter_unowned hKeys hOwned hx
  | some t =>
    rw [hOwned] at h
    cases h
    refine ⟨?_, rfl⟩
    simp only [hEnds]
    simpa [TxRegistry.dropLocked] using TxRegistry.delete_owned hKeys hOwned

theorem shifts_begin {p : Str} {timeout : Int} (hCall : e.call = .begin p timeout)
    (h : e.run w = some (r, w')) : e.Shifts w r w' := by
  have hNever : w.registry.txs = w.registry.txs.filter fun x => ¬ e.Ends x.1 x.2 :=
    filter_ends_none fun x _ => by simp [Ends, hCall, TxCall.Ends]
  rw [run_begin hCall] at h
  cases hReserve : w.registry.reserve p with
  | mk out registry =>
    have hTxs : registry.txs = w.registry.txs := by
      simp only [TxRegistry.reserve] at hReserve
      split at hReserve <;> cases hReserve <;> rfl
    rw [hReserve] at h
    cases out with
    | error err =>
      cases h
      exact .kept (hTxs.trans hNever) rfl (by simp)
    | ok u =>
      dsimp only at h
      split at h
      next =>
        split at h
        next => cases h
        next hNew =>
          cases h
          refine .added hCall (by simpa [GoMap.has] using hNew) ?_ rfl
          simp [TxWorld.insert, TxRegistry.insert, hTxs]
      next =>
        cases h
        exact .kept (by simpa [hTxs] using hNever) rfl (by simp)

theorem shifts_lookup {p id : Str} (hKeys : (GoMap.keys w.registry.txs).Nodup)
    (hCall : e.call = .lookup p id) (h : e.run w = some (r, w')) : e.Shifts w r w' := by
  have hEnds (txID : Str) (t : OpenTx) :
      e.Ends txID t ↔ (p = t.pluginKey ∧ id = txID) ∧ t.expiresAt < e.turn.now := by
    simp [Ends, hCall, TxCall.Ends, and_assoc]
  rw [run_lookup hCall, TxWorld.lookup] at h
  cases hOwned : w.registry.owned p id with
  | none =>
    rw [hOwned] at h
    cases h
    refine .kept (filter_ends_none fun x hx => ?_) rfl (by simp)
    rw [hEnds]
    exact fun hBoth => TxRegistry.filter_unowned hKeys hOwned hx hBoth.1
  | some t =>
    rw [hOwned] at h
    have hEntry : ∀ x ∈ w.registry.txs, p = x.2.pluginKey ∧ id = x.1 → x.2 = t := by
      rintro x hx ⟨-, rfl⟩
      have hGet := (TxRegistry.owned_eq_some.mp hOwned).1
      exact Option.some.inj (((GoMap.get_eq_some_iff hKeys).mpr hx).symm.trans hGet)
    by_cases hLate : t.expiresAt < e.turn.now
    · simp only [hLate, if_true] at h
      cases h
      refine .kept ?_ rfl (by simp)
      rw [TxWorld.txs_discard, TxRegistry.delete_owned hKeys hOwned]
      refine List.filter_congr fun x hx => decide_eq_decide.mpr (not_congr ?_)
      rw [hEnds]
      exact ⟨fun hBoth => ⟨hBoth, hEntry x hx hBoth ▸ hLate⟩, And.left⟩
    · simp only [hLate, if_false] at h
      cases h
      refine .kept (filter_ends_none fun x hx => ?_) rfl (by simp)
      rw [hEnds]
      exact fun hBoth => hLate (hEntry x hx hBoth.1 ▸ hBoth.2)

theorem shifts_commit {p id : Str} (hKeys : (GoMap.keys w.registry.txs).Nodup)
    (hCall : e.call = .commit p id) (h : e.run w = some (r, w')) : e.Shifts w r w' := by
  rw [run_commit hCall] at h
  cases hTake : w.take p id with
  | mk out w₁ =>
    obtain ⟨hTxs, hIssued⟩ := shifts_of_take (e := e) hKeys
      (by simp [Ends, hCall, TxCall.Ends]) hTake
    rw [hTake] at h
    cases out with
    | error err =>
      cases h
      exact .kept hTxs hIssued (by simp)
    | ok t =>
      have hRest : (w₁.commit t.tx e.turn.outcome).2.registry = w₁.registry ∧
          (w₁.commit t.tx e.turn.outcome).2.issued = w₁.issued := by
        simp only [TxWorld.commit]
        split
        next => cases e.turn.outcome <;> exact ⟨rfl, rfl⟩
        next => exact ⟨rfl, rfl⟩
      cases hCommit : w₁.commit t.tx e.turn.outcome with
      | mk ok w₂ =>
        rw [hCommit] at hRest
        simp only [hCommit] at h
        cases h
        refine .kept (hRest.1 ▸ hTxs) (hRest.2.trans hIssued) fun txID => ?_
        cases ok <;> simp

theorem shifts_rollback {p id : Str} (hKeys : (GoMap.keys w.registry.txs).Nodup)
    (hCall : e.call = .rollback p id) (h : e.run w = some (r, w')) : e.Shifts w r w' := by
  rw [run_rollback hCall] at h
  cases hTake : w.take p id with
  | mk out w₁ =>
    obtain ⟨hTxs, hIssued⟩ := shifts_of_take (e := e) hKeys
      (by simp [Ends, hCall, TxCall.Ends]) hTake
    rw [hTake] at h
    cases out with
    | error err =>
      cases h
      exact .kept hTxs hIssued (by simp)
    | ok t =>
      cases h
      refine .kept hTxs hIssued fun txID => ?_
      split <;> simp

theorem shifts_reapExpired (hKeys : (GoMap.keys w.registry.txs).Nodup)
    (hCall : e.call = .reapExpired) (h : e.run w = some (r, w')) : e.Shifts w r w' := by
  rw [run_reapExpired hCall] at h
  cases h
  refine .kept ?_ (TxWorld.issued_discardAll _ _) (by simp)
  rw [TxWorld.txs_discardAll]
  refine List.filter_congr fun x hx => decide_eq_decide.mpr (not_congr ?_)
  simp only [GoMap.keys, List.mem_map, TxWorld.expired, List.mem_filter, decide_eq_true_eq, Ends,
    hCall, TxCall.Ends]
  refine ⟨?_, fun hLate => ⟨x, ⟨hx, hLate⟩, rfl⟩⟩
  rintro ⟨y, ⟨hy, hLate⟩, hSame⟩
  have hGet := (GoMap.get_eq_some_iff hKeys).mpr hy
  rw [hSame, (GoMap.get_eq_some_iff hKeys).mpr hx] at hGet
  rwa [Option.some.inj hGet]

theorem shifts_close (hCall : e.call = .close) (h : e.run w = some (r, w')) :
    e.Shifts w r w' := by
  rw [run_close hCall] at h
  cases h
  refine .kept ?_ (TxWorld.issued_discardAll _ _) (by simp)
  rw [TxWorld.txs_discardAll]
  refine List.filter_congr fun x hx => decide_eq_decide.mpr (not_congr ?_)
  simpa [Ends, hCall, TxCall.Ends, GoMap.keys] using ⟨_, hx⟩

theorem shifts_of_run (hKeys : (GoMap.keys w.registry.txs).Nodup) (h : e.run w = some (r, w')) :
    e.Shifts w r w' := by
  cases hCall : e.call with
  | «begin» p timeout => exact shifts_begin hCall h
  | lookup p id => exact shifts_lookup hKeys hCall h
  | commit p id => exact shifts_commit hKeys hCall h
  | rollback p id => exact shifts_rollback hKeys hCall h
  | reapExpired => exact shifts_reapExpired hKeys hCall h
  | close => exact shifts_close hCall h

end Shifts
end TxEntry

end Moduless.DB
