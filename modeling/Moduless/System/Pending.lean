import Moduless.Gateway.Body
import Moduless.PluginHost.Supervision
import Moduless.System

/-!
What a goroutine may still write for a plugin's key.

The enabled set and the registry are written in separate critical sections by
`Enable`, `Upgrade`, `Disable` and recoveries, and a recovery counts a crash in one and
quarantines in another. Which writes for a key are still to come follows from a
goroutine's call and its history.
-/

namespace Moduless
open Go Gateway Pipeline PluginHost Interaction Discipline

/-- What a goroutine may still do for a key: enter it into the enabled set,
install instances for it, quarantine it. -/
structure Pending where
  entering : Bool
  installing : Bool
  quarantining : Bool
  deriving DecidableEq

namespace Pending

def start (key : Str) : Call → Pending
  | .enable k | .upgrade k => ⟨k = key, k = key, false⟩
  | _ => ⟨false, false, false⟩

/-- A recovery installs after `relaunch` found the plugin enabled, and quarantines after
too many crashes; a new round of it starts with the crash history. -/
def next (key : Str) (g : Pending) : Event Host → Pending
  | ⟨.manager (.insertEnabled k), _⟩ | ⟨.manager (.commitUpgrade k _), _⟩ =>
    { g with entering := g.entering && k ≠ key }
  | ⟨.manager (.relaunchable k), found⟩ =>
    if k = key then { g with installing := found.1.isSome && found.2 } else g
  | ⟨.installPlugin reg, _⟩ => { g with installing := g.installing && reg.key ≠ key }
  | ⟨.crash (.tooManyCrashes _ k), tooMany⟩ =>
    { g with installing := false, quarantining := tooMany && k = key }
  | ⟨.crash (.quarantine k), _⟩ => { g with quarantining := g.quarantining && k ≠ key }
  | _ => g

end Pending

/-- Writes for the key are only made while they are pending. -/
def disabling (key : Str) : Discipline Host Pending where
  next := Pending.next key
  permits g
    | .manager (.insertEnabled k) | .manager (.commitUpgrade k _) => k = key → g.entering = true
    | .installPlugin reg => reg.key = key → reg.instances ≠ [] → g.installing = true
    | .crash (.quarantine k) => k = key → g.quarantining = true
    | _ => True
  assumes _ _ := True

section Obedience

variable {key : Str} {g : Pending}

/-- Operations that neither write for a key nor decide to. -/
def Op.Unmanaged : Op → Prop
  | .installPlugin _ | .crash _ => False
  | .manager o => ∃ key, o = .package key
  | _ => True

theorem obeys_unmanaged {α : Type} {p : HostM α} (hp : p.Uses Op.Unmanaged) :
    Obeys (disabling key) (fun _ g' => g' = g) p g := by
  refine obeys_of_uses hp (P := fun g' => g' = g) (fun g' o hg' ho => ?_) rfl
  subst hg'
  cases o with
  | manager o =>
    obtain ⟨k, rfl⟩ := ho
    exact ⟨trivial, fun _ => rfl⟩
  | installPlugin reg => exact ho.elim
  | crash o => exact ho.elim
  | _ => exact ⟨trivial, fun _ => rfl⟩

theorem obeys_local {α : Type} {p : HostM α} (hp : p.Uses Op.Local) :
    Obeys (disabling key) (fun _ g' => g' = g) p g := by
  refine obeys_unmanaged (hp.mono fun o ho => ?_)
  cases o <;> first | exact ho | trivial

theorem obeys_tending {α : Type} {p : HostM α} (hp : p.Uses Op.Tending) :
    Obeys (disabling key) (fun _ g' => g' = g) p g := obeys_local (local_of_tending hp)

theorem obeys_request {α : Type} {p : HostM α} {P : Request → Prop}
    (hp : p.Uses (PluginHandler.HandsOver P)) :
    Obeys (disabling key) (fun _ g' => g' = g) p g := by
  refine obeys_unmanaged (hp.mono fun o ho => ?_)
  cases o <;> first | exact ho | trivial

variable (cfg : ManagerConfig)

theorem disabling_enable (k : Str) (hEnter : k = key → g.entering = true)
    (hInstall : k = key → g.installing = true) :
    Obeys (disabling key) (fun _ _ => True) (cfg.enable k) g := by
  refine obeys_op trivial fun pkg _ => ?_
  cases pkg with
  | none => trivial
  | some pkg =>
    refine obeys_bind (obeys_local (cfg.local_launchAll pkg)) ?_
    rintro launched _ rfl
    cases launched with
    | error e => trivial
    | ok instances =>
      refine obeys_op (fun hk _ => hInstall hk) fun _ _ => ?_
      refine obeys_bind (obeys_local (local_of_looking (looking_watchAll instances))) ?_
      rintro _ _ rfl
      exact obeys_op hEnter fun _ _ => obeys_op trivial fun _ _ => trivial

theorem disabling_upgrade (k : Str) (hEnter : k = key → g.entering = true)
    (hInstall : k = key → g.installing = true) :
    Obeys (disabling key) (fun _ _ => True) (cfg.upgrade k) g := by
  refine obeys_ask trivial fun files _ => ?_
  split
  next => trivial
  next pkg _ =>
    refine obeys_bind (obeys_local (cfg.local_launchAll pkg)) ?_
    rintro launched _ rfl
    cases launched with
    | error e => trivial
    | ok instances =>
      refine obeys_op hEnter fun _ _ => ?_
      refine obeys_bind (Q := fun _ _ => True) ?_ fun _ _ _ => ?_
      · refine obeys_op (fun hk _ => hInstall hk) fun displaced _ => ?_
        exact obeys_mono (obeys_tending (tending_drainAllInBackground _ displaced))
          fun _ _ _ => trivial
      · refine obeys_bind (obeys_local (local_of_looking (looking_watchAll instances)))
          fun _ _ _ => ?_
        exact obeys_op trivial fun _ _ => trivial

theorem disabling_disable (k : Str) :
    Obeys (disabling key) (fun _ _ => True) (cfg.disable k) g := by
  refine obeys_op trivial fun _ _ => obeys_op (fun _ hNil => absurd rfl hNil) fun displaced _ => ?_
  cases displaced with
  | nil => trivial
  | cons i is =>
    refine obeys_bind (obeys_tending (tending_drainEach _ none (i :: is))) fun _ _ _ => ?_
    exact obeys_op trivial fun _ _ => trivial

theorem disabling_scan : Obeys (disabling key) (fun _ _ => True) cfg.scan g := by
  refine obeys_ask trivial fun entries _ => ?_
  cases entries with
  | none => exact ⟨trivial, fun _ _ => trivial⟩
  | some names =>
    exact obeys_bind (obeys_local (local_of_looking (cfg.looking_scanFrom [] names))) fun _ _ _ =>
      ⟨trivial, fun _ _ => trivial⟩

/-- A recovery that comes back with an instance has found the plugin enabled. -/
theorem disabling_relaunch (k : Str) :
    Obeys (disabling key) (fun r g' => ∀ i, r = .ok i → k = key → g'.installing = true)
      (cfg.relaunch k) g := by
  refine obeys_relaunch trivial (fun _ _ => nofun) fun pkg => ?_
  refine obeys_mono (obeys_local (cfg.local_launchOne pkg 0)) ?_
  rintro r _ rfl i - rfl
  simp [disabling, Pending.next]

theorem disabling_supervised (k : Str) : Supervised (disabling key) cfg k fun _ => True where
  looking hp _ := obeys_mono (obeys_local (local_of_looking hp)) fun _ _ _ => trivial
  counts _ := ⟨trivial, trivial⟩
  quarantines _ := by
    refine obeys_op (fun hk => by simp [disabling, Pending.next, hk]) fun _ _ =>
      obeys_op (fun _ hNil => absurd rfl hNil) fun displaced _ => ?_
    exact obeys_mono (obeys_tending (tending_quarantineAll displaced)) fun _ _ _ => trivial
  delays _ := ⟨trivial, fun _ _ => trivial⟩
  relaunches _ := by
    refine obeys_mono (disabling_relaunch cfg k) fun r _ hInst => ?_
    cases r with
    | error e => trivial
    | ok i => exact ⟨fun hk _ => hInst i rfl hk, fun _ _ => trivial⟩

theorem disabling_body (c : Call) :
    Obeys (disabling key) (fun _ _ => True) (c.body cfg) (Pending.start key c) := by
  cases c with
  | serve h r =>
    refine obeys_bind (Q := fun _ _ => True) ?_ fun _ _ _ => trivial
    exact obeys_op trivial fun snap _ =>
      obeys_mono (obeys_request (h.serveWith_handsOver snap r)) fun _ _ _ => trivial
  | enable k => exact disabling_enable cfg k (by simp [Pending.start]) (by simp [Pending.start])
  | disable k => exact disabling_disable cfg k
  | upgrade k => exact disabling_upgrade cfg k (by simp [Pending.start]) (by simp [Pending.start])
  | scan => exact obeys_bind (disabling_scan cfg) fun _ _ _ => trivial
  | exit i => exact ⟨trivial, fun _ _ => trivial⟩
  | task t =>
    cases t with
    | drain i timeout =>
      exact obeys_mono (obeys_tending (tending_drain i timeout)) fun _ _ _ => trivial
    | watch i =>
      exact obeys_bind ((disabling_supervised cfg i.key).watchLoop trivial) fun _ _ _ => trivial
    | log chain rc =>
      refine obeys_bind (obeys_request (P := fun _ => True) ((serving_runLog chain rc).mono
        fun _ => PluginHandler.handsOver_of_serving)) fun _ _ _ => trivial

end Obedience

def pending (key : Str) (th : CoreThread) : Pending :=
  (disabling key).account (Pending.start key th.call) th.hist

theorem pending_snoc {key : Str} {c : Call} {t : List (Event Host)} {o : Op}
    {k : o.Ans → HostM (Option HostError)} {r : o.Ans} :
    pending key ⟨c, t ++ [⟨o, r⟩], k r⟩ = (pending key ⟨c, t, .call o k⟩).next key ⟨o, r⟩ :=
  account_snoc _ _ _ _

end Moduless
