import Moduless.DB.TxSequences

/-!
Deadlines of transactions.

`Lookup` and `ReapExpired` look at the deadline. `Commit` and `Rollback` share the
helper `take`, which does not, so a late `Commit` is refused only if an earlier
call has taken the transaction out of the registry.
-/

namespace Moduless.DB
open Go Interaction

/-- An id that was given out for the transaction, which may be registered still. -/
structure Known (txID : Str) (t : OpenTx) (w : TxWorld) : Prop where
  keys : (GoMap.keys w.registry.txs).Nodup
  issued : w.issued.get txID = some t
  only : ∀ t', w.registry.txs.get txID = some t' → t' = t

section Sequences

variable {e : TxEntry} {w w' : TxWorld} {r : Except TxError TxReply} {txID : Str} {t : OpenTx}

theorem TxEntry.nodup_run (hKeys : (GoMap.keys w.registry.txs).Nodup)
    (h : e.run w = some (r, w')) : (GoMap.keys w'.registry.txs).Nodup := by
  cases TxEntry.shifts_of_run hKeys h with
  | kept hTxs _ _ =>
    rw [hTxs]
    exact hKeys.sublist (List.filter_sublist.map _)
  | added _ _ hTxs _ =>
    rw [hTxs]
    exact GoMap.nodup_set hKeys _ _

/-- A known transaction stays registered under the calls that do not end it. -/
theorem Known.run (hKnown : Known txID t w) (h : e.run w = some (r, w')) :
    Known txID t w' ∧
      (w'.registry.txs.get txID = some t ↔
        w.registry.txs.get txID = some t ∧ ¬ e.Ends txID t) := by
  have hKeys' := TxEntry.nodup_run hKnown.keys h
  cases TxEntry.shifts_of_run hKnown.keys h with
  | kept hTxs hIssued _ =>
    have hGet (t' : OpenTx) : w'.registry.txs.get txID = some t' ↔
        w.registry.txs.get txID = some t' ∧ ¬ e.Ends txID t' := by
      rw [GoMap.get_eq_some_iff hKeys', GoMap.get_eq_some_iff hKnown.keys, hTxs, List.mem_filter,
        decide_eq_true_eq]
    exact ⟨⟨hKeys', hIssued ▸ hKnown.issued, fun t' h' => hKnown.only t' ((hGet t').mp h').1⟩,
      hGet t⟩
  | added hCall hNew hTxs hIssued =>
    have hne : txID ≠ e.turn.txID := by
      rintro rfl
      simp [hKnown.issued] at hNew
    have hGet : w'.registry.txs.get txID = w.registry.txs.get txID := by
      simp [hTxs, GoMap.get_set, hne]
    refine ⟨⟨hKeys', ?_, hGet ▸ hKnown.only⟩, by simp [hGet, TxEntry.Ends, hCall, TxCall.Ends]⟩
    simp [hIssued, GoMap.get_set, hne, hKnown.issued]

theorem Known.runAll {es : List TxEntry} (hKnown : Known txID t w)
    (h : TxEntry.runAll es w = some w') :
    Known txID t w' ∧
      (w'.registry.txs.get txID = some t ↔
        w.registry.txs.get txID = some t ∧ ∀ e ∈ es, ¬ e.Ends txID t) := by
  induction es generalizing w with
  | nil =>
    cases h
    exact ⟨hKnown, by simp⟩
  | cons e es ih =>
    obtain ⟨⟨r, w₁⟩, hStep, hRest⟩ := Option.bind_eq_some_iff.mp h
    obtain ⟨hKnown₁, hOne⟩ := hKnown.run hStep
    obtain ⟨hKnown', hAll⟩ := ih hKnown₁ hRest
    exact ⟨hKnown', by rw [hAll, hOne, List.forall_mem_cons, and_assoc]⟩

theorem TxEntry.nodup_runAll {es : List TxEntry} (hKeys : (GoMap.keys w.registry.txs).Nodup)
    (h : TxEntry.runAll es w = some w') : (GoMap.keys w'.registry.txs).Nodup := by
  induction es generalizing w with
  | nil =>
    cases h
    exact hKeys
  | cons e es ih =>
    obtain ⟨⟨r, w₁⟩, hStep, hRest⟩ := Option.bind_eq_some_iff.mp h
    exact ih (TxEntry.nodup_run hKeys hStep) hRest

theorem known_of_begin {p : Str} {timeout : Int} (hKeys : (GoMap.keys w.registry.txs).Nodup)
    (hCall : e.call = .begin p timeout) (h : e.run w = some (.ok (.began txID), w')) :
    Known txID (e.registers w p timeout) w' ∧
      w'.registry.txs.get txID = some (e.registers w p timeout) := by
  have hKeys' := TxEntry.nodup_run hKeys h
  cases TxEntry.shifts_of_run hKeys h with
  | kept _ _ hQuiet => exact absurd rfl (hQuiet txID)
  | added hCall' _ hTxs hIssued =>
    obtain ⟨rfl, rfl⟩ := TxCall.begin.inj (hCall.symm.trans hCall')
    exact ⟨⟨hKeys', by simp [hIssued], by simp [hTxs]⟩, by simp [hTxs]⟩

end Sequences

/-- The call is told that there is no such transaction, and does not make it
durable. -/
def Denied (tx : TxHandle) (w : TxWorld) (r : Except TxError TxReply) (w' : TxWorld) : Prop :=
  r = .error .unknownTx ∧
    ((w'.sqls[tx]?).map SqlTx.status = some .committed →
      (w.sqls[tx]?).map SqlTx.status = some .committed)

section Late

variable {e : TxEntry} {w w' : TxWorld} {r : Except TxError TxReply} {txID p : Str} {t : OpenTx}

theorem TxWorld.status_rolledBack {tx i : TxHandle}
    (h : ((w.finish tx .rolledBack).sqls[i]?).map SqlTx.status = some .committed) :
    (w.sqls[i]?).map SqlTx.status = some .committed := by
  rw [sqls_finish, Option.map_map] at h
  cases hGet : w.sqls[i]? with
  | none => simp [hGet] at h
  | some x =>
    rw [hGet, Option.map_some, Function.comp_apply] at h
    split at h
    next => simp at h
    next => exact h

/-- A late `Lookup` is refused, registered or not. -/
theorem denied_lookup (hKnown : Known txID t w) (hCall : e.call = .lookup p txID)
    (hLate : t.expiresAt < e.turn.now) (h : e.run w = some (r, w')) : Denied t.tx w r w' := by
  rw [TxEntry.run_lookup hCall, TxWorld.lookup] at h
  cases hOwned : w.registry.owned p txID with
  | none =>
    rw [hOwned] at h
    cases h
    exact ⟨rfl, id⟩
  | some t' =>
    obtain rfl := hKnown.only t' (TxRegistry.owned_eq_some.mp hOwned).1
    simp only [hOwned, hLate, if_true] at h
    cases h
    exact ⟨rfl, TxWorld.status_rolledBack⟩

/-- A `Commit` is refused exactly if the transaction is not registered for the
plugin; the deadline plays no part. -/
theorem denied_commit_iff (hKnown : Known txID t w) (hCall : e.call = .commit p txID)
    (h : e.run w = some (r, w')) :
    Denied t.tx w r w' ↔ ¬ (p = t.pluginKey ∧ w.registry.txs.get txID = some t) := by
  rw [TxEntry.run_commit hCall, TxWorld.take] at h
  cases hOwned : w.registry.owned p txID with
  | none =>
    rw [hOwned] at h
    cases h
    refine ⟨fun _ => ?_, fun _ => ⟨rfl, id⟩⟩
    rintro ⟨rfl, hGet⟩
    simp [TxRegistry.owned_eq_some.mpr ⟨hGet, rfl⟩] at hOwned
  | some t' =>
    obtain ⟨hGet, hOwn⟩ := TxRegistry.owned_eq_some.mp hOwned
    obtain rfl := hKnown.only t' hGet
    rw [hOwned] at h
    have hReply : r ≠ .error .unknownTx := by
      dsimp only at h
      generalize TxWorld.commit _ t'.tx e.turn.outcome = out at h
      obtain ⟨ok, w₂⟩ := out
      cases h
      cases ok <;> simp
    exact ⟨fun hDenied => absurd hDenied.1 hReply, fun hNot => absurd ⟨hOwn.symm, hGet⟩ hNot⟩

end Late

/-- After its deadline a transaction is out of reach of every `Lookup`. It is out of
reach of its plugin's `Commit` exactly if a call since its `Begin` has ended it. -/
theorem late_call_denied_iff {maxOpen timeout : Int} {before after : List TxEntry}
    {start late : TxEntry} {w₀ w₁ w₂ w₃ : TxWorld} {p k txID : Str} {r : Except TxError TxReply}
    (hBefore : TxEntry.runAll before (newTxWorld maxOpen) = some w₀)
    (hStart : start.call = .begin p timeout)
    (hBegan : start.run w₀ = some (.ok (.began txID), w₁))
    (hAfter : TxEntry.runAll after w₁ = some w₂)
    (hCall : late.call = .lookup k txID ∨ late.call = .commit k txID)
    (hLate : (start.registers w₀ p timeout).expiresAt < late.turn.now)
    (hRun : late.run w₂ = some (r, w₃)) :
    Denied (start.registers w₀ p timeout).tx w₂ r w₃ ↔
      (late.call = .commit p txID → ∃ e ∈ after, e.Ends txID (start.registers w₀ p timeout)) := by
  have hEmpty : (GoMap.keys (newTxWorld maxOpen).registry.txs).Nodup := List.nodup_nil
  have hKeys := TxEntry.nodup_runAll hEmpty hBefore
  obtain ⟨hKnown₁, hLive⟩ := known_of_begin hKeys hStart hBegan
  obtain ⟨hKnown, hRegistered⟩ := hKnown₁.runAll hAfter
  rcases hCall with hCall | hCall
  · refine ⟨fun _ hCommit => ?_, fun _ => denied_lookup hKnown hCall hLate hRun⟩
    simp [hCall] at hCommit
  · rw [denied_commit_iff hKnown hCall hRun, hRegistered, hCall]
    simp only [hLive, true_and, TxCall.commit.injEq, and_true, not_and, not_forall, not_not]
    exact ⟨fun hDenied hk => (hDenied hk).imp fun _ h => ⟨h.1, h.2⟩,
      fun hEnded hk => (hEnded hk).imp fun _ h => ⟨h.1, h.2⟩⟩

def begunAt0 : TxEntry := ⟨.begin "shop".toList 10, { now := 0, txID := "a".toList }⟩

def commitAt (now : Int) : TxEntry := ⟨.commit "shop".toList "a".toList, { now }⟩

def reapAt (now : Int) : TxEntry := ⟨.reapExpired, { now }⟩

def begunWorld : TxWorld := ((begunAt0.run (newTxWorld 0)).get rfl).2

def reapedWorld : TxWorld := (TxEntry.runAll [reapAt 15] begunWorld).get rfl

theorem late_call_denied_reaped :
    Denied 0 reapedWorld (.error .unknownTx) reapedWorld := by
  have hDenied := @late_call_denied_iff 0 10 [] [reapAt 15] begunAt0 (commitAt 20) _ _ _ _
    "shop".toList "shop".toList "a".toList _ rfl rfl rfl rfl (.inr rfl) (by decide) rfl
  exact hDenied.mpr fun _ => ⟨reapAt 15, List.mem_singleton_self _, by decide⟩

/-- Between the deadline and the reaper's next round a `Commit` succeeds. -/
theorem late_commit_succeeds :
    (begunAt0.registers (newTxWorld 0) "shop".toList 10).expiresAt < (commitAt 20).turn.now ∧
    ∃ w, (commitAt 20).run begunWorld = some (.ok .done, w) ∧
      (begunWorld.sqls[0]?).map SqlTx.status = some .active ∧
      (w.sqls[0]?).map SqlTx.status = some .committed :=
  ⟨by decide, _, rfl, rfl, rfl⟩

end Moduless.DB
