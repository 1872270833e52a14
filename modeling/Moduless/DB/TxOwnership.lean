import Moduless.DB.TxQuota

/-!
What a call made for a plugin can do to the transactions of the others, in every
run of the registry.
-/

namespace Moduless.DB
open Go Interaction

/-- The call has reserved a slot that it has neither filled nor given back. -/
def reservedAfter (hist : List (Event TxHost)) : Bool :=
  hist.foldl (fun held e =>
    match e with
    | ⟨.reserve _, .ok _⟩ => true
    | ⟨.release _, _⟩ | ⟨.insert _ _ _, _⟩ => false
    | _ => held) false

/-- A `Begin` of the plugin between its reservation and its end. -/
def TxThread.Begins (p : Str) (th : TxThread) : Bool :=
  match th.call with
  | .begin k _ => decide (k = p) && reservedAfter th.hist
  | _ => false

section Reservations

theorem account_next (g : TxAccount) (e : Event TxHost) :
    (txDiscipline.next g e).key = g.key ∧
      (txDiscipline.next g e).reserved =
        match e with
        | ⟨.reserve _, .ok _⟩ => true
        | ⟨.release _, _⟩ | ⟨.insert _ _ _, _⟩ => false
        | _ => g.reserved := by
  obtain ⟨o, r⟩ := e
  cases o with
  | reserve p | take p txID => cases r <;> exact ⟨rfl, rfl⟩
  | beginTx _ | release _ | insert _ _ _ | lookup _ _ | commit _ | rollback _ | reapExpired
  | close => exact ⟨rfl, rfl⟩

theorem account_reserved (c : TxCall) (hist : List (Event TxHost)) :
    (txDiscipline.account c.account hist).key = c.key ∧
      (txDiscipline.account c.account hist).reserved = reservedAfter hist := by
  induction hist using List.reverseRecOn with
  | nil => exact ⟨rfl, rfl⟩
  | append_singleton hist e ih =>
    rw [Discipline.account_snoc]
    obtain ⟨hKey, hReserved⟩ := account_next (txDiscipline.account c.account hist) e
    refine ⟨hKey.trans ih.1, hReserved.trans ?_⟩
    rw [ih.2]
    simp [reservedAfter, List.foldl_append]

theorem reservedAfter_of_leads {c : TxCall} {hist : List (Event TxHost)}
    {prog : TxM (Except TxError TxReply)} (h : c.body.Leads hist prog)
    (hCall : ∀ p timeout, c ≠ .begin p timeout) : reservedAfter hist = false := by
  have hUses : c.body.Uses fun o => ∀ p, o ≠ TxOp.reserve p := by
    cases c with
    | «begin» p timeout => exact absurd rfl (hCall p timeout)
    | lookup p txID =>
      refine ⟨fun _ h => (nomatch h), fun r => ?_⟩
      cases r <;> exact trivial
    | commit p txID | rollback p txID =>
      refine ⟨fun _ h => (nomatch h), fun r => ?_⟩
      cases r with
      | error e => exact trivial
      | ok t => exact ⟨fun _ h => (nomatch h), fun _ => trivial⟩
    | reapExpired | close => exact ⟨fun _ h => (nomatch h), fun _ => trivial⟩
  have hOps := hUses.hist h
  clear h hUses
  induction hist using List.reverseRecOn with
  | nil => rfl
  | append_singleton hist e ih =>
    have hBefore := ih fun e' he' => hOps e' (by simp [he'])
    have hLast := hOps e (by simp)
    obtain ⟨o, r⟩ := e
    simp only [reservedAfter, List.foldl_append, List.foldl_cons, List.foldl_nil] at hBefore ⊢
    cases o with
    | reserve p => exact absurd rfl (hLast p)
    | release _ | insert _ _ _ => rfl
    | beginTx _ | lookup _ _ | take _ _ | commit _ | rollback _ | reapExpired | close =>
      exact hBefore

theorem reservations_accounts {maxOpen : Int} {q : TxPool}
    (h : TxReach ⟨newTxWorld maxOpen, []⟩ q) (p : Str) :
    reservations (q.accounts txDiscipline TxCall.account) p =
      q.threads.countP (TxThread.Begins p) := by
  have hLeads := h.leads (by simp)
  rw [reservations, Pool.accounts, List.countP_map]
  refine List.countP_congr fun th hth => ?_
  obtain ⟨hKey, hReserved⟩ := account_reserved th.call th.hist
  have hThread := hLeads th hth
  simp only [Function.comp, hKey, hReserved, TxThread.Begins]
  cases hCall : th.call with
  | «begin» k timeout => simp [TxCall.key, and_comm]
  | lookup _ _ | commit _ _ | rollback _ _ | reapExpired | close =>
    rw [reservedAfter_of_leads hThread (by simp [hCall])]
    simp

end Reservations

/-- The transactions of other plugins are registered, and stand in the database, as
before. -/
structure Spares (p : Str) (w w' : TxWorld) : Prop where
  registered : ∀ txID t, t.pluginKey ≠ p →
    (w'.registry.txs.get txID = some t ↔ w.registry.txs.get txID = some t)
  stored : ∀ (tx : TxHandle) (x : SqlTx), x.owner ≠ p → w.sqls[tx]? = some x → w'.sqls[tx]? = some x

/-- A transaction an operation returns or names is the plugin's own. -/
def HandsOwn (p : Str) (w : TxWorld) : Event TxHost → Prop
  | ⟨.lookup _ _, .ok tx⟩ => w.owner tx = some p
  | ⟨.take _ _, .ok t⟩ => t.pluginKey = p ∧ w.owner t.tx = some p
  | ⟨.insert _ tx _, _⟩ | ⟨.commit tx, _⟩ | ⟨.rollback tx, _⟩ => w.owner tx = some p
  | _ => True

section Spares

variable {m : Int} {w w' w'' : TxWorld} {g : TxAccount} {gs : List TxAccount} {p txID : Str}
  {t : OpenTx}

theorem Spares.refl (p : Str) (w : TxWorld) : Spares p w w := ⟨fun _ _ _ => .rfl, fun _ _ _ => id⟩

theorem Spares.trans (h : Spares p w w') (h' : Spares p w' w'') : Spares p w w'' where
  registered id t ht := (h'.registered id t ht).trans (h.registered id t ht)
  stored tx x hx hGet := h'.stored tx x hx (h.stored tx x hx hGet)

theorem spares_finish {tx : TxHandle} (hOwner : w.owner tx = some p) (status : TxStatus) :
    Spares p w (w.finish tx status) where
  registered _ _ _ := .rfl
  stored i x hx hGet := by
    have hne : tx ≠ i := by
      rintro rfl
      have hOwn : x.owner = p := by simpa [TxWorld.owner, hGet] using hOwner
      exact hx hOwn
    simp [TxWorld.sqls_finish, hGet, hne]

theorem spares_drop (hGet : w.registry.txs.get txID = some t) (hOwn : t.pluginKey = p) :
    Spares p w { w with registry := w.registry.dropLocked txID t } where
  registered id t' ht' := by
    simp only [TxRegistry.dropLocked, TxRegistry.txs_release, GoMap.get_delete]
    by_cases hid : id = txID
    · subst hid
      have hne : t ≠ t' := fun heq => ht' (heq ▸ hOwn)
      simp [hGet, hne]
    · simp [hid]
  stored _ _ _ h := h

theorem TxSound.spares (h : TxSound m w (g :: gs)) (hKey : g.key = some p) {e : Event TxHost}
    (hPermit : txDiscipline.permits g e.op) (hExec : txMachine.Exec w e w') :
    Spares p w w' ∧ HandsOwn p w e := by
  have hSame {k : Str} (hk : g.key = some k) : k = p := Option.some.inj (hk.symm.trans hKey)
  have hHeld {tx : TxHandle} (hTx : g.holds = some tx) : w.owner tx = some p := by
    obtain ⟨k, hk, hOwner⟩ := h.held g (by simp) tx hTx
    rw [hOwner, hSame hk]
  have hNone (hk : g.key = none) : False := by simp [hk] at hKey
  cases TxWorld.did_of_exec hExec with
  | refused | notBegun | notFound | notTaken => exact ⟨.refl p w, trivial⟩
  | reserved hRoom => exact ⟨⟨fun _ _ _ => .rfl, fun _ _ _ => id⟩, trivial⟩
  | begun =>
    refine ⟨⟨fun _ _ _ => .rfl, fun tx x _ hGet => ?_⟩, trivial⟩
    obtain ⟨hLt, -⟩ := List.getElem?_eq_some_iff.mp hGet
    rw [List.getElem?_append_left hLt, hGet]
  | released => exact ⟨⟨fun _ _ _ => by simp, fun _ _ _ => id⟩, trivial⟩
  | inserted hNew =>
    rename_i k id tx timeout now
    obtain ⟨hk, -, hTx⟩ := hPermit
    obtain rfl := hSame hk
    refine ⟨⟨fun id' t' ht' => ?_, fun _ _ _ h => h⟩, hHeld hTx⟩
    simp only [TxWorld.insert, TxRegistry.insert, GoMap.get_set]
    by_cases hid : id' = id
    · subst hid
      have hOther : w.registry.txs.get id' ≠ some t' := fun hGet => by
        simp [h.issued id' t' hGet] at hNew
      have hne : (⟨tx, k, now + timeout⟩ : OpenTx) ≠ t' := fun heq => ht' (heq ▸ rfl)
      simp [hOther, hne]
    · simp [hid]
  | expired hOwned =>
    obtain ⟨hGet, rfl⟩ := TxRegistry.owned_eq_some.mp hOwned
    obtain rfl := hSame hPermit
    exact ⟨(spares_finish (h.owners _ _ hGet) _).trans (spares_drop hGet rfl), trivial⟩
  | found hOwned =>
    obtain ⟨hGet, rfl⟩ := TxRegistry.owned_eq_some.mp hOwned
    obtain rfl := hSame hPermit
    exact ⟨.refl _ w, h.owners _ _ hGet⟩
  | taken hOwned =>
    obtain ⟨hGet, rfl⟩ := TxRegistry.owned_eq_some.mp hOwned
    obtain rfl := hSame hPermit
    exact ⟨spares_drop hGet rfl, rfl, h.owners _ _ hGet⟩
  | committed | rolledBack => exact ⟨spares_finish (hHeld hPermit.2) _, hHeld hPermit.2⟩
  | notCommitted => exact ⟨.refl p w, hHeld hPermit.2⟩
  | reaped | closed => exact (hNone hPermit).elim

end Spares

/-- In every run, whatever the interleaving: the count of a plugin is the number of
its registered transactions and of its `Begin` calls that hold a reservation; it
stays within the ceiling; and an operation of a call made for a plugin hands out,
ends and removes transactions of that plugin only. -/
theorem tx_registry_sound {maxOpen : Int} {q : TxPool}
    (h : TxReach ⟨newTxWorld maxOpen, []⟩ q) :
    (∀ p, q.state.registry.count p =
      q.state.registry.registered p + q.threads.countP (TxThread.Begins p)) ∧
    (∀ p, q.state.registry.count p ≤ (newTxRegistry maxOpen).limit) ∧
    ∀ th ∈ q.threads, ∀ p, th.call.key = some p → ∀ o k, th.prog = .call o k →
      ∀ r w, txMachine.Exec q.state ⟨o, r⟩ w → Spares p q.state w ∧ HandsOwn p q.state ⟨o, r⟩ := by
  obtain ⟨hSound, hObeys⟩ := txSound_of_reach h
  refine ⟨fun p => ?_, fun p => ?_, fun th hth p hKey o k hProg r w hExec => ?_⟩
  · rw [← reservations_accounts h]
    exact hSound.counts p
  · have hLimit : q.state.registry.limit = (newTxRegistry maxOpen).limit := by
      rw [TxRegistry.limit, hSound.maxOpen]
      rfl
    exact hLimit ▸ hSound.bounded p
  · have hPermit := hObeys th hth
    rw [hProg] at hPermit
    obtain ⟨before, after, hSplit⟩ := List.append_of_mem hth
    have hFront : TxSound maxOpen q.state (txDiscipline.account th.call.account th.hist ::
        (before ++ after).map fun th => txDiscipline.account th.call.account th.hist) := by
      refine hSound.perm ?_
      rw [Pool.accounts, hSplit, List.map_append, List.map_cons, List.map_append]
      exact List.perm_middle
    exact hFront.spares ((account_reserved th.call th.hist).1.trans hKey) hPermit.1 hExec

/-- Choices for a step at a given time at which nothing fails. -/
def txAt (txID : Str) (now : Int) : (o : TxOp) → o.Choice
  | .reserve _ | .release _ | .take _ _ | .close => ()
  | .beginTx _ | .rollback _ => true
  | .insert _ _ _ => (txID, now)
  | .lookup _ _ | .reapExpired => now
  | .commit _ => .succeeded

/-- One transaction of a plugin is registered, and a second `Begin` has reserved. -/
def twoBegins : TxPool :=
  (txSystem.play (fun _ _ => true) (fun _ _ _ => true)
    [.begin (.begin "shop".toList 0), .begin (.begin "shop".toList 0),
      .run 0 3 (txAt "a".toList 0), .run 1 1 (txAt "b".toList 0)] ⟨newTxWorld 2, []⟩).get rfl

theorem tx_registry_sound_twoBegins :
    twoBegins.state.registry.registered "shop".toList = 1 ∧
    twoBegins.threads.countP (TxThread.Begins "shop".toList) = 1 ∧
    twoBegins.state.registry.count "shop".toList = 2 ∧
    twoBegins.state.registry.count "shop".toList ≤ (newTxRegistry 2).limit := by
  have hReach : TxReach ⟨newTxWorld 2, []⟩ twoBegins :=
    System.reach_get_play (fun _ _ _ => trivial) (fun _ _ _ _ => trivial) rfl
  obtain ⟨hCount, hBound, -⟩ := tx_registry_sound hReach
  exact ⟨rfl, rfl, hCount _, hBound _⟩

end Moduless.DB
