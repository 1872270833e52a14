import Moduless.Gateway.Admissions
import Moduless.PluginHost.Administration
import Moduless.PluginHost.Reservations
import Moduless.System

/-!
The reservation ledgers of all of Core's goroutines, in every run.
-/

namespace Moduless
open Go Gateway Pipeline PluginHost Interaction Discipline

/-- Requests and their log phases; everything else administers plugins. -/
def Call.isRequest : Call → Bool
  | .serve _ _ | .task (.log _ _) => true
  | _ => false

/-- What a goroutine's history says about its reservations. -/
def ledger (t : List (Event Host)) : Ledger := t.foldl Ledger.next {}

theorem administrative_body (cfg : ManagerConfig) {c : Call} (hc : c.isRequest = false) :
    (c.body cfg).Uses Op.Administrative := by
  cases c with
  | serve h r => cases hc
  | enable key => exact cfg.administrative_enable key
  | disable key => exact cfg.administrative_disable key
  | upgrade key => exact cfg.administrative_upgrade key
  | scan => exact Program.uses_bind cfg.administrative_scan fun _ => trivial
  | exit i => exact ⟨trivial, fun _ => trivial⟩
  | task t =>
    cases t with
    | drain i timeout => exact administrative_of_tending (tending_drain i timeout)
    | watch i => exact Program.uses_bind (cfg.administrative_watchLoop i) fun _ => trivial
    | log chain rc => cases hc

theorem obeys_body (cfg : ManagerConfig) (strict : Bool) (c : Call) :
    Obeys (reservations true strict) (fun _ g => g.standing = .idle ∧ g.held = [])
      (c.body cfg) {} := by
  by_cases hc : c.isRequest = false
  · exact obeys_administrative (g := {}) (administrative_body cfg hc) rfl
  · cases c with
    | serve h r => exact obeys_bind (h.obeys_serve r) fun _ _ hg => ⟨hg.idle, hg.held⟩
    | task t =>
      cases t with
      | log chain rc => exact obeys_bind (obeys_runLog chain rc) fun _ _ hg => ⟨hg.idle, hg.held⟩
      | drain i timeout => exact absurd rfl hc
      | watch i => exact absurd rfl hc
    | enable key => exact absurd rfl hc
    | disable key => exact absurd rfl hc
    | upgrade key => exact absurd rfl hc
    | scan => exact absurd rfl hc
    | exit i => exact absurd rfl hc

theorem core_sound {cfg : ManagerConfig} {start : CorePool → Call → Prop}
    {cond : CorePool → CoreThread → Event Host → Prop} {q : CorePool}
    (strict : Bool) (h : (core cfg).Reach start cond boot q)
    (hPick : strict = true → ∀ p th key i r, cond p th ⟨.picked key i, r⟩ →
      ∀ l, (key, l) ∈ (ledger th.hist).held → l.inst = i) :
    Sound true q.state (q.threads.map fun th => ledger th.hist) ∧
      ∀ th ∈ q.threads, Obeys (reservations true strict)
        (fun _ g => g.standing = .idle ∧ g.held = []) th.prog (ledger th.hist) := by
  refine h.accounts (D := reservations true strict) (a := fun _ => {}) (S := Sound true)
    (Q := fun _ _ g => g.standing = .idle ∧ g.held = []) (sound_kept true strict)
    (obeys_body cfg strict) ?_ rfl (sound_nil (by simp [boot]) rfl (by simp [boot]))
  rintro p th ⟨o, r⟩ s' hSound hth hExec hCond
  cases o with
  | newDone i => exact hSound.fresh_lease hExec (List.mem_map_of_mem hth)
  | picked key i => exact fun hStrict => hPick hStrict p th key i r hCond
  | _ => trivial

theorem ledger_administrative {cfg : ManagerConfig} {start : CorePool → Call → Prop}
    {cond : CorePool → CoreThread → Event Host → Prop} {q : CorePool}
    (h : (core cfg).Reach start cond boot q) {th : CoreThread}
    (hth : th ∈ q.threads) (hCall : th.call.isRequest = false) :
    (ledger th.hist).standing = .idle ∧ (ledger th.hist).held = [] :=
  Ledger.administrative_hist th.hist
    ((administrative_body cfg hCall).hist (h.leads (by simp [boot]) th hth)) rfl

end Moduless
