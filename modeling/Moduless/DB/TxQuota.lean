import Moduless.DB.TxRegistry
import Moduless.Interaction.Accounts

/-!
The count of open transactions, and who can reach a transaction.

A call's account says whether it holds a reservation and which transaction of the
database it got. The registry's count of a plugin is the number of its registered
transactions and of the reservations in the accounts of all calls.
-/

namespace Moduless.DB
open Go Interaction

structure TxAccount where
  key : Option Str
  reserved : Bool
  holds : Option TxHandle

namespace TxAccount

def next (g : TxAccount) : Event TxHost → TxAccount
  | ⟨.reserve _, .ok _⟩ => { g with reserved := true }
  | ⟨.release _, _⟩ | ⟨.insert _ _ _, _⟩ => { g with reserved := false }
  | ⟨.beginTx _, tx⟩ => { g with holds := tx }
  | ⟨.take _ _, .ok t⟩ => { g with holds := some t.tx }
  | _ => g

end TxAccount

def txDiscipline : Discipline TxHost TxAccount where
  next := TxAccount.next
  permits g
    | .reserve p => g.key = some p ∧ g.reserved = false
    | .beginTx p | .lookup p _ | .take p _ => g.key = some p
    | .release p => g.key = some p ∧ g.reserved = true
    | .insert p tx _ => g.key = some p ∧ g.reserved = true ∧ g.holds = some tx
    | .commit tx | .rollback tx => g.key.isSome ∧ g.holds = some tx
    | .reapExpired | .close => g.key = none
  assumes _ _ := True

def TxCall.account (c : TxCall) : TxAccount := ⟨c.key, false, none⟩

/-- Every call keeps to its own key and gives back what it reserved. -/
theorem TxCall.obeys (c : TxCall) :
    txDiscipline.Obeys (fun _ g => g.reserved = false) c.body c.account := by
  cases c with
  | «begin» p timeout =>
    refine ⟨⟨rfl, rfl⟩, fun r _ => ?_⟩
    cases r with
    | error e => exact rfl
    | ok u =>
      refine ⟨rfl, fun tx _ => ?_⟩
      cases tx with
      | none => exact ⟨⟨rfl, rfl⟩, fun _ _ => rfl⟩
      | some tx => exact ⟨⟨rfl, rfl, rfl⟩, fun _ _ => rfl⟩
  | lookup p txID =>
    refine ⟨rfl, fun r _ => ?_⟩
    cases r <;> exact rfl
  | commit p txID | rollback p txID =>
    refine ⟨rfl, fun r _ => ?_⟩
    cases r with
    | error e => exact rfl
    | ok t => exact ⟨⟨rfl, rfl⟩, fun _ _ => rfl⟩
  | reapExpired | close => exact ⟨rfl, fun _ _ => rfl⟩

namespace TxRegistry

variable {r : TxRegistry} {p q : Str}

def registered (r : TxRegistry) (p : Str) : Nat := r.txs.countP (·.2.pluginKey = p)

theorem count_release (h : 0 < r.count p) :
    (r.release p).count q = if q = p then r.count p - 1 else r.count q := by
  simp only [release, if_pos h]
  by_cases hLast : r.count p - 1 = 0
  · rw [if_pos hLast]
    simp only [count, GoMap.get_delete]
    split
    next => exact hLast.symm
    next => rfl
  · rw [if_neg hLast]
    simp only [count, GoMap.get_set]
    split <;> rfl

@[simp] theorem txs_release : (r.release p).txs = r.txs := by
  simp only [release]
  split
  next => split <;> rfl
  next => rfl

@[simp] theorem maxOpen_release : (r.release p).maxOpen = r.maxOpen := by
  simp only [release]
  split
  next => split <;> rfl
  next => rfl

theorem registered_delete (hKeys : (GoMap.keys r.txs).Nodup) {txID : Str} {t : OpenTx}
    (h : (txID, t) ∈ r.txs) :
    r.registered p =
      registered { r with txs := r.txs.delete txID } p + if t.pluginKey = p then 1 else 0 := by
  rw [registered, (GoMap.perm_cons_delete hKeys h).countP_eq, List.countP_cons]
  simp [registered]

theorem registered_insert {txID : Str} {t : OpenTx} (h : r.txs.get txID = none) :
    (r.insert txID t).registered p = r.registered p + if t.pluginKey = p then 1 else 0 := by
  simp [registered, insert, GoMap.set, GoMap.delete_of_get_none h, List.countP_cons]

theorem owned_eq_some {txID : Str} {t : OpenTx} :
    r.owned p txID = some t ↔ r.txs.get txID = some t ∧ t.pluginKey = p := by
  simp [owned, Option.filter_eq_some_iff]

end TxRegistry

namespace TxWorld

variable {w : TxWorld} {tx : TxHandle} {status : TxStatus}

/-- The plugin a transaction of the database was begun for. -/
def owner (w : TxWorld) (tx : TxHandle) : Option Str := (w.sqls[tx]?).map SqlTx.owner

theorem sqls_finish (i : TxHandle) : (w.finish tx status).sqls[i]? =
    (w.sqls[i]?).map fun x =>
      if tx = i ∧ x.status = .active then { x with status := status } else x := by
  simp only [finish, List.getElem?_modify]
  by_cases hi : tx = i
  · simp [hi]
  · simp [hi]

@[simp] theorem owner_finish (i : TxHandle) : (w.finish tx status).owner i = w.owner i := by
  rw [owner, sqls_finish, Option.map_map]
  congr 1
  funext x
  simp only [Function.comp]
  split <;> rfl

end TxWorld

/-- The reservations of a plugin in the accounts of the calls. -/
def reservations (gs : List TxAccount) (p : Str) : Nat :=
  gs.countP fun g => g.reserved && decide (g.key = some p)

structure TxSound (m : Int) (w : TxWorld) (gs : List TxAccount) : Prop where
  maxOpen : w.registry.maxOpen = m
  keys : (GoMap.keys w.registry.txs).Nodup
  issued : ∀ txID t, w.registry.txs.get txID = some t → w.issued.get txID = some t
  counts : ∀ p, w.registry.count p = w.registry.registered p + reservations gs p
  bounded : ∀ p, w.registry.count p ≤ w.registry.limit
  owners : ∀ txID t, w.registry.txs.get txID = some t → w.owner t.tx = some t.pluginKey
  held : ∀ g ∈ gs, ∀ tx, g.holds = some tx → ∃ p, g.key = some p ∧ w.owner tx = some p

namespace TxSound

variable {m : Int} {w : TxWorld} {g : TxAccount} {gs gs' : List TxAccount} {txID p : Str}
  {t : OpenTx}

theorem perm (hPerm : gs.Perm gs') (h : TxSound m w gs) : TxSound m w gs' where
  maxOpen := h.maxOpen
  keys := h.keys
  issued := h.issued
  counts p := by
    rw [h.counts, reservations, reservations, hPerm.countP_eq]
  bounded := h.bounded
  owners := h.owners
  held g hg := h.held g (hPerm.mem_iff.mpr hg)

theorem fresh (c : TxCall) (h : TxSound m w gs) : TxSound m w (c.account :: gs) where
  maxOpen := h.maxOpen
  keys := h.keys
  issued := h.issued
  counts p := by simp [h.counts, reservations, TxCall.account]
  bounded := h.bounded
  owners := h.owners
  held := by
    intro g hg tx hTx
    rcases List.mem_cons.mp hg with rfl | hg
    · simp [TxCall.account] at hTx
    · exact h.held g hg tx hTx

theorem hold (h : TxSound m w (g :: gs)) {tx : Option TxHandle}
    (hOwner : ∀ x, tx = some x → ∃ p, g.key = some p ∧ w.owner x = some p) :
    TxSound m w ({ g with holds := tx } :: gs) where
  maxOpen := h.maxOpen
  keys := h.keys
  issued := h.issued
  counts p := by
    rw [h.counts]
    simp [reservations, List.countP_cons]
  bounded := h.bounded
  owners := h.owners
  held := by
    intro g' hg' x hx
    rcases List.mem_cons.mp hg' with rfl | hg'
    · exact hOwner x hx
    · exact h.held g' (List.mem_cons_of_mem _ hg') x hx

theorem finish (h : TxSound m w gs) (tx : TxHandle) (status : TxStatus) :
    TxSound m (w.finish tx status) gs where
  maxOpen := h.maxOpen
  keys := h.keys
  issued := h.issued
  counts := h.counts
  bounded := h.bounded
  owners id t hGet := (w.owner_finish t.tx).trans (h.owners id t hGet)
  held g hg x hx := by
    obtain ⟨p, hKey, hOwner⟩ := h.held g hg x hx
    exact ⟨p, hKey, (w.owner_finish x).trans hOwner⟩

theorem count_pos (h : TxSound m w gs) (hGet : w.registry.txs.get txID = some t) :
    0 < w.registry.count t.pluginKey := by
  have hPos : 0 < w.registry.registered t.pluginKey :=
    List.countP_pos_iff.mpr ⟨_, GoMap.mem_of_get hGet, by simp⟩
  have hCount := h.counts t.pluginKey
  omega

theorem drop (h : TxSound m w gs) (hGet : w.registry.txs.get txID = some t) :
    TxSound m { w with registry := w.registry.dropLocked txID t } gs := by
  have hPos := h.count_pos hGet
  have hCount (p : Str) : (w.registry.dropLocked txID t).count p =
      if p = t.pluginKey then w.registry.count t.pluginKey - 1 else w.registry.count p :=
    TxRegistry.count_release hPos
  have hSub (id : Str) (t' : OpenTx)
      (h' : (w.registry.dropLocked txID t).txs.get id = some t') :
      w.registry.txs.get id = some t' := by
    simp only [TxRegistry.dropLocked, TxRegistry.txs_release, GoMap.get_delete] at h'
    split at h'
    next => cases h'
    next => exact h'
  refine ⟨?_, ?_, fun id t' h' => h.issued id t' (hSub id t' h'), fun p => ?_, fun p => ?_,
    fun id t' h' => h.owners id t' (hSub id t' h'), h.held⟩
  · simp [TxRegistry.dropLocked, h.maxOpen]
  · simpa [TxRegistry.dropLocked] using GoMap.nodup_delete h.keys txID
  · have hRegistered := TxRegistry.registered_delete (p := p) h.keys (GoMap.mem_of_get hGet)
    have hSame : (w.registry.dropLocked txID t).registered p =
        TxRegistry.registered { w.registry with txs := w.registry.txs.delete txID } p := by
      simp [TxRegistry.registered, TxRegistry.dropLocked]
    have hBefore := h.counts p
    simp only [hCount, hSame]
    by_cases hp : t.pluginKey = p
    · subst hp
      simp only [if_true] at hRegistered ⊢
      omega
    · simp only [if_neg hp, if_neg (Ne.symm hp)] at hRegistered ⊢
      omega
  · have hLimit : (w.registry.dropLocked txID t).limit = w.registry.limit := by
      simp [TxRegistry.limit, TxRegistry.dropLocked]
    have hBefore := h.bounded p
    simp only [hCount, hLimit]
    split
    next hp =>
      subst hp
      omega
    next => exact hBefore

theorem discard (h : TxSound m w gs) (hGet : w.registry.txs.get txID = some t) :
    TxSound m (w.discard txID t) gs :=
  (h.finish t.tx .rolledBack).drop hGet

/-- The loops of `ReapExpired` and `Close`: dropping one entry leaves the others. -/
theorem discardAll {entries : List (Str × OpenTx)} (h : TxSound m w gs)
    (hKeys : (GoMap.keys entries).Nodup)
    (hGet : ∀ e ∈ entries, w.registry.txs.get e.1 = some e.2) :
    TxSound m (w.discardAll entries) gs := by
  induction entries generalizing w with
  | nil => exact h
  | cons e entries ih =>
    simp only [GoMap.keys, List.map_cons, List.nodup_cons] at hKeys
    refine ih (h.discard (hGet e (by simp))) hKeys.2 fun e' he' => ?_
    have hne : e'.1 ≠ e.1 := fun heq => hKeys.1 (heq ▸ List.mem_map_of_mem he')
    simpa [TxWorld.discard, TxWorld.finish, TxRegistry.dropLocked, GoMap.get_delete, hne]
      using hGet e' (List.mem_cons_of_mem _ he')

theorem discard_some (h : TxSound m w gs) (keep : Str × OpenTx → Bool) :
    TxSound m (w.discardAll (w.registry.txs.filter keep)) gs := by
  refine h.discardAll (h.keys.sublist (List.filter_sublist.map _)) fun e he => ?_
  exact (GoMap.get_eq_some_iff h.keys).mpr (List.mem_of_mem_filter he)

theorem held_reserved (h : TxSound m w (g :: gs)) (b : Bool) :
    ∀ g' ∈ { g with reserved := b } :: gs, ∀ tx, g'.holds = some tx →
      ∃ p, g'.key = some p ∧ w.owner tx = some p := by
  intro g' hg' x hx
  rcases List.mem_cons.mp hg' with rfl | hg'
  · exact h.held g (by simp) x hx
  · exact h.held g' (List.mem_cons_of_mem _ hg') x hx

theorem reservations_cons (g : TxAccount) (gs : List TxAccount) (p : Str) :
    reservations (g :: gs) p =
      reservations gs p + if g.reserved = true ∧ g.key = some p then 1 else 0 := by
  simp [reservations, List.countP_cons]

theorem reserve (h : TxSound m w (g :: gs)) (hKey : g.key = some p) (hIdle : g.reserved = false)
    (hRoom : w.registry.count p < w.registry.limit) :
    TxSound m { w with registry :=
        { w.registry with opened := w.registry.opened.set p (w.registry.count p + 1) } }
      ({ g with reserved := true } :: gs) := by
  have hCount (q : Str) : TxRegistry.count
      { w.registry with opened := w.registry.opened.set p (w.registry.count p + 1) } q =
      if q = p then w.registry.count p + 1 else w.registry.count q := by
    simp only [TxRegistry.count, GoMap.get_set]
    split <;> rfl
  refine ⟨h.maxOpen, h.keys, h.issued, fun q => ?_, fun q => ?_, h.owners, h.held_reserved true⟩
  · have hBefore := h.counts q
    simp only [reservations_cons, hIdle, hKey, Option.some.injEq, Bool.false_eq_true, false_and,
      if_false, true_and] at hBefore ⊢
    rw [hCount]
    by_cases hq : q = p
    · subst hq
      simp only [if_true]
      change _ = (w.registry.registered q : Int) + _
      omega
    · simp only [if_neg hq, if_neg (Ne.symm hq)]
      exact hBefore
  · have hBefore := h.bounded q
    rw [hCount]
    change _ ≤ w.registry.limit
    split
    next => omega
    next => exact hBefore

theorem release (h : TxSound m w (g :: gs)) (hKey : g.key = some p)
    (hReserved : g.reserved = true) :
    TxSound m { w with registry := w.registry.release p } ({ g with reserved := false } :: gs) := by
  have hOwn := h.counts p
  simp only [reservations_cons, hReserved, hKey, true_and, if_true] at hOwn
  have hCount (q : Str) := TxRegistry.count_release (q := q) (show 0 < w.registry.count p by omega)
  refine ⟨by simp [h.maxOpen], by simpa using h.keys, by simpa using h.issued, fun q => ?_,
    fun q => ?_, fun id t hGet => h.owners id t (by simpa using hGet), h.held_reserved false⟩
  · have hBefore := h.counts q
    have hSame : (w.registry.release p).registered q = w.registry.registered q := by
      simp [TxRegistry.registered]
    simp only [reservations_cons, hReserved, hKey, Option.some.injEq, Bool.false_eq_true, false_and,
      if_false, true_and] at hBefore ⊢
    rw [hCount, hSame]
    by_cases hq : q = p
    · subst hq
      simp only [if_true] at hBefore ⊢
      omega
    · simp only [if_neg hq, if_neg (Ne.symm hq)] at hBefore ⊢
      exact hBefore
  · have hLimit : (w.registry.release p).limit = w.registry.limit := by simp [TxRegistry.limit]
    have hBefore := h.bounded q
    rw [hCount, hLimit]
    split
    next hq =>
      subst hq
      omega
    next => exact hBefore

theorem begun (h : TxSound m w gs) (p : Str) :
    TxSound m { w with sqls := w.sqls ++ [⟨p, .active⟩] } gs := by
  have hKept (x : TxHandle) (q : Str) (hx : w.owner x = some q) :
      TxWorld.owner { w with sqls := w.sqls ++ [⟨p, .active⟩] } x = some q := by
    obtain ⟨y, hy, rfl⟩ := Option.map_eq_some_iff.mp hx
    obtain ⟨hLt, -⟩ := List.getElem?_eq_some_iff.mp hy
    simp [TxWorld.owner, List.getElem?_append_left hLt, hy]
  refine ⟨h.maxOpen, h.keys, h.issued, h.counts, h.bounded,
    fun id t hGet => hKept _ _ (h.owners id t hGet), fun g hg x hx => ?_⟩
  obtain ⟨q, hKey, hOwner⟩ := h.held g hg x hx
  exact ⟨q, hKey, hKept x q hOwner⟩

theorem insert (h : TxSound m w (g :: gs)) (hKey : g.key = some t.pluginKey)
    (hReserved : g.reserved = true) (hHolds : g.holds = some t.tx)
    (hNew : w.issued.get txID = none) :
    TxSound m (w.insert txID t) ({ g with reserved := false } :: gs) := by
  have hAbsent : w.registry.txs.get txID = none := by
    cases hGet : w.registry.txs.get txID with
    | none => rfl
    | some t' => simp [h.issued txID t' hGet] at hNew
  have hOwner : w.owner t.tx = some t.pluginKey := by
    obtain ⟨q, hq, hOwner⟩ := h.held g (by simp) t.tx hHolds
    rw [hOwner, ← hq, hKey]
  refine ⟨h.maxOpen, GoMap.nodup_set h.keys txID t, fun id t' hGet => ?_, fun q => ?_, h.bounded,
    fun id t' hGet => ?_, h.held_reserved false⟩
  · simp only [TxWorld.insert, TxRegistry.insert, GoMap.get_set] at hGet ⊢
    split at hGet
    next hid => simpa [hid] using hGet
    next hid => simpa [hid] using h.issued id t' hGet
  · have hBefore := h.counts q
    have hRegistered := TxRegistry.registered_insert (p := q) (t := t) hAbsent
    simp only [reservations_cons, hReserved, hKey, Option.some.injEq, Bool.false_eq_true, false_and,
      if_false, true_and] at hBefore ⊢
    change w.registry.count q = ((w.registry.insert txID t).registered q : Int) + _
    rw [hBefore, hRegistered]
    push_cast
    omega
  · simp only [TxWorld.insert, TxRegistry.insert, GoMap.get_set] at hGet
    split at hGet
    next =>
      cases hGet
      exact hOwner
    next => exact h.owners id t' hGet

end TxSound

theorem txSound_step {m : Int} {w w' : TxWorld} {g : TxAccount} {gs : List TxAccount}
    {e : Event TxHost} (h : TxSound m w (g :: gs)) (hPermit : txDiscipline.permits g e.op)
    (hExec : txMachine.Exec w e w') : TxSound m w' (txDiscipline.next g e :: gs) := by
  cases TxWorld.did_of_exec hExec with
  | refused | notFound | found | notTaken | notCommitted => exact h
  | reserved hRoom => exact h.reserve hPermit.1 hPermit.2 hRoom
  | begun =>
    refine (h.begun _).hold fun x hx => ⟨_, hPermit, ?_⟩
    cases hx
    simp [TxWorld.owner]
  | notBegun => exact h.hold fun x hx => nomatch hx
  | released => exact h.release hPermit.1 hPermit.2
  | inserted hNew => exact h.insert hPermit.1 hPermit.2.1 hPermit.2.2 hNew
  | expired hOwned => exact h.discard (TxRegistry.owned_eq_some.mp hOwned).1
  | taken hOwned =>
    obtain ⟨hGet, rfl⟩ := TxRegistry.owned_eq_some.mp hOwned
    refine (h.drop hGet).hold fun x hx => ⟨_, hPermit, ?_⟩
    cases hx
    exact h.owners _ _ hGet
  | committed | rolledBack => exact h.finish _ _
  | reaped => exact h.discard_some _
  | closed =>
    have hAll := h.discard_some fun _ => true
    rw [List.filter_true] at hAll
    exact hAll

theorem txSound_kept (m : Int) : txDiscipline.Kept txMachine TxCall.account (TxSound m) where
  perm := TxSound.perm
  fresh := TxSound.fresh
  step h hPermit _ hExec := txSound_step h hPermit hExec

theorem txSound_new (m : Int) : TxSound m (newTxWorld m) [] where
  maxOpen := rfl
  keys := List.nodup_nil
  issued _ _ h := nomatch h
  counts _ := rfl
  bounded p := by
    simp only [newTxWorld, newTxRegistry, TxRegistry.count, TxRegistry.limit, maxOpenTxPerPlugin,
      GoMap.get_nil, Option.getD_none]
    by_cases hm : 0 < m
    · simp [hm, Int.le_of_lt hm]
    · simp [hm]
  owners _ _ h := nomatch h
  held := by simp

/-- The counts in every state of every run. -/
theorem txSound_of_reach {m : Int} {q : TxPool} (h : TxReach ⟨newTxWorld m, []⟩ q) :
    TxSound m q.state (q.accounts txDiscipline TxCall.account) ∧
      ∀ th ∈ q.threads, txDiscipline.Obeys (fun _ g => g.reserved = false) th.prog
        (txDiscipline.account th.call.account th.hist) :=
  h.accounts (Q := fun _ _ g => g.reserved = false) (txSound_kept m) TxCall.obeys
    (fun _ _ _ _ _ _ _ _ => trivial) rfl (txSound_new m)

end Moduless.DB
