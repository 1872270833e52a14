import Moduless.PluginHost.Manager
import Moduless.PluginHost.ReservationSteps

/-!
The operations of the manager and the supervisor.

Their parts that launch, watch, drain and kill instances are `Local`: they touch
neither the registry nor the enabled set nor the crash history. Those that launch
nothing are `Tending`, those that only look, or start watchers, are `Looking`, and those
that change nothing are `Reading`. A watcher is `Restoring` its plugin. All of them are
`Administrative`.
-/

namespace Moduless.PluginHost
open Go Pipeline Interaction

def Op.Local : Op → Prop
  | .installPlugin _ | .crash _ => False
  | .manager o => ∃ key, o = .package key
  | o => o.Administrative

def Op.Tending : Op → Prop
  | .launch _ => False
  | o => o.Local

def Op.Looking : Op → Prop
  | .launch _ | .kill _ | .go (.drain _ _) => False
  | o => o.Local

def Op.Reading : Op → Prop
  | .ask q => (Op.ask q).Neutral
  | .manager o => ∃ key, o = .package key
  | _ => False

/-- What the watcher of an instance may do: it registers one instance of its plugin, or
takes the plugin out. -/
def Op.Restoring (key : Str) : Op → Prop
  | .installPlugin reg => ∃ is : List Instance, is.length ≤ 1 ∧ reg = bareRegistration key is
  | .manager o => o = .relaunchable key ∨ ∃ k, o = .package k
  | .crash _ => True
  | o => o.Local

theorem Op.Local.administrative {o : Op} (h : o.Local) : o.Administrative := by
  cases o <;> first | exact h | exact h.elim | trivial

theorem Op.Tending.local {o : Op} (h : o.Tending) : o.Local := by
  cases o with
  | launch spec => exact h.elim
  | _ => exact h

theorem Op.Looking.tending {o : Op} (h : o.Looking) : o.Tending := by
  cases o with
  | go t => cases t <;> trivial
  | _ => first | exact h | exact h.elim

theorem looking_of_reading {α : Type} {p : HostM α} (h : p.Uses Op.Reading) :
    p.Uses Op.Looking := by
  refine h.mono fun o ho => ?_
  cases o <;> first | exact ho | exact ho.elim

theorem local_of_tending {α : Type} {p : HostM α} (h : p.Uses Op.Tending) : p.Uses Op.Local :=
  h.mono fun _ => Op.Tending.local

theorem tending_of_looking {α : Type} {p : HostM α} (h : p.Uses Op.Looking) :
    p.Uses Op.Tending := h.mono fun _ => Op.Looking.tending

theorem local_of_looking {α : Type} {p : HostM α} (h : p.Uses Op.Looking) : p.Uses Op.Local :=
  local_of_tending (tending_of_looking h)

theorem administrative_of_local {α : Type} {p : HostM α} (h : p.Uses Op.Local) :
    p.Uses Op.Administrative := h.mono fun _ => Op.Local.administrative

theorem administrative_of_tending {α : Type} {p : HostM α} (h : p.Uses Op.Tending) :
    p.Uses Op.Administrative := administrative_of_local (local_of_tending h)

theorem restoring_of_local {α : Type} {key : Str} {p : HostM α} (h : p.Uses Op.Local) :
    p.Uses (Op.Restoring key) := by
  refine h.mono fun o ho => ?_
  cases o with
  | manager o => exact .inr ho
  | _ => first | exact ho | exact ho.elim

theorem Op.Restoring.administrative {key : Str} {o : Op} (h : o.Restoring key) :
    o.Administrative := by
  cases o <;> first | exact Op.Local.administrative h | trivial

theorem looking_diverge {α : Type} : (diverge : HostM α).Uses Op.Looking :=
  ⟨trivial, fun e => nomatch e⟩

theorem Op.Terminating.tending {marking : Bool} {o : Op} (h : o.Terminating marking) :
    o.Tending := by
  cases o with
  | ask q => cases q <;> trivial
  | _ => first | exact h | trivial

theorem looking_markStopped (i : Instance) (n : Nat) : (i.markStopped n).Uses Op.Looking := by
  refine (terminating_markStopped i n true).mono fun o ho => ?_
  cases o with
  | ask q => cases q <;> trivial
  | kill j => cases ho
  | _ => first | exact ho | trivial

theorem tending_terminate (i : Instance) : i.terminate.Uses Op.Tending :=
  (terminating_terminate i).mono fun _ => Op.Terminating.tending

theorem tending_drainLoop (i : Instance) (timeout : Duration) (deadline : Int) (n : Nat) :
    (i.drainLoop timeout deadline n).Uses Op.Tending := by
  have hTerminate := fun e : Option HostError =>
    Program.uses_bind (tending_terminate i) (f := fun _ => pure e) fun _ => trivial
  induction n with
  | zero => exact tending_of_looking looking_diverge
  | succ n ih =>
    refine uses_op trivial fun m => ?_
    rw [Program.uses_ite]
    refine ⟨fun _ => uses_ask trivial fun wake => ?_, fun _ => hTerminate none⟩
    cases wake with
    | timer =>
      refine uses_ask trivial fun now => ?_
      rw [Program.uses_ite]
      exact ⟨fun _ => uses_op trivial fun _ => hTerminate _, fun _ => ih⟩
    | stop => exact uses_op trivial fun _ => hTerminate _
    | done => exact uses_op trivial fun _ => hTerminate _

theorem tending_drain (i : Instance) (timeout : Duration) : (i.drain timeout).Uses Op.Tending :=
  uses_op nofun fun _ => uses_ask trivial fun _ => uses_ask trivial fun _ =>
    uses_ask trivial fun n => tending_drainLoop i timeout _ n

theorem looking_watchAll (is : List Instance) : (watchAll is).Uses Op.Looking := by
  induction is with
  | nil => trivial
  | cons i is ih => exact uses_op trivial fun _ => ih

theorem tending_drainAllInBackground (timeout : Duration) (is : List Instance) :
    (drainAllInBackground timeout is).Uses Op.Tending := by
  induction is with
  | nil => trivial
  | cons i is ih => exact uses_op trivial fun _ => ih

theorem tending_drainEach (timeout : Duration) (firstErr : Option HostError)
    (is : List Instance) : (drainEach timeout firstErr is).Uses Op.Tending := by
  induction is generalizing firstErr with
  | nil => trivial
  | cons i is ih => exact Program.uses_bind (tending_drain i timeout) fun _ => ih _

theorem tending_quarantineAll (is : List Instance) : (quarantineAll is).Uses Op.Tending := by
  induction is with
  | nil => trivial
  | cons i is ih =>
    exact uses_op nofun fun _ => Program.uses_bind (tending_terminate i) fun _ => ih

theorem looking_isUnexpected (i : Instance) : (isUnexpected i).Uses Op.Looking := by
  refine uses_op trivial fun st => ?_
  cases st <;> first | trivial | exact uses_op trivial fun _ => trivial

namespace ManagerConfig

variable (cfg : ManagerConfig)

theorem reading_dataDirFor (key : Str) : (cfg.dataDirFor key).Uses Op.Reading := by
  unfold dataDirFor
  rw [Program.uses_ite]
  refine ⟨fun _ => trivial, fun _ => uses_ask trivial fun made => ?_⟩
  rw [Program.uses_ite]
  exact ⟨fun _ => trivial, fun _ => trivial⟩

theorem reading_configFor (key : Str) : (cfg.configFor key).Uses Op.Reading := by
  have hMerged : ∀ set, (mergedConfig key set).Uses Op.Reading := by
    intro set
    refine uses_op ⟨key, rfl⟩ fun pkg => ?_
    cases pkg <;> trivial
  unfold configFor
  rw [Program.uses_ite]
  exact ⟨fun _ => uses_ask trivial fun _ => hMerged _, fun _ => hMerged _⟩

theorem looking_dataDirFor (key : Str) : (cfg.dataDirFor key).Uses Op.Looking :=
  looking_of_reading (cfg.reading_dataDirFor key)

theorem looking_configFor (key : Str) : (cfg.configFor key).Uses Op.Looking :=
  looking_of_reading (cfg.reading_configFor key)

theorem local_launchOne (pkg : Package) (index : Nat) :
    (cfg.launchOne pkg index).Uses Op.Local := by
  refine Program.uses_bind (local_of_looking (cfg.looking_dataDirFor _)) fun dataDir => ?_
  cases dataDir with
  | error e => trivial
  | ok dataDir =>
    refine Program.uses_bind (local_of_looking (cfg.looking_configFor _)) fun config => ?_
    refine uses_op trivial fun inst => ?_
    cases inst <;> trivial

theorem tending_killAll (is : List Instance) : (killAll is).Uses Op.Tending := by
  induction is with
  | nil => trivial
  | cons i is ih => exact Program.uses_bind (tending_terminate i) fun _ => ih

theorem local_launchFrom (pkg : Package) (n index : Nat) (started : List Instance) :
    (cfg.launchFrom pkg n index started).Uses Op.Local := by
  induction n generalizing index started with
  | zero => trivial
  | succ n ih =>
    refine Program.uses_bind (cfg.local_launchOne pkg index) fun inst => ?_
    cases inst with
    | error e =>
      exact Program.uses_bind (local_of_tending (tending_killAll started)) fun _ => trivial
    | ok inst => exact ih _ _

theorem local_launchAll (pkg : Package) : (cfg.launchAll pkg).Uses Op.Local :=
  cfg.local_launchFrom pkg _ 0 []

theorem reads_scanFrom (found : List Package) (names : List Str) :
    (cfg.scanFrom found names).Uses fun (o : Op) => ∃ dir, o = .ask (.readPackage dir) := by
  induction names generalizing found with
  | nil => trivial
  | cons name names ih =>
    refine uses_ask ⟨_, rfl⟩ fun files => ?_
    rw [Program.uses_ite]
    refine ⟨fun _ => ih _, fun _ => ?_⟩
    split
    next => exact ih _
    next => exact ih _

theorem reading_scanFrom (found : List Package) (names : List Str) :
    (cfg.scanFrom found names).Uses Op.Reading := by
  refine (cfg.reads_scanFrom found names).mono ?_
  rintro _ ⟨dir, rfl⟩
  trivial

theorem looking_scanFrom (found : List Package) (names : List Str) :
    (cfg.scanFrom found names).Uses Op.Looking := looking_of_reading (cfg.reading_scanFrom _ _)

theorem administrative_enable (key : Str) : (cfg.enable key).Uses Op.Administrative := by
  refine uses_op trivial fun pkg => ?_
  cases pkg with
  | none => trivial
  | some pkg =>
    refine Program.uses_bind (administrative_of_local (cfg.local_launchAll pkg)) fun launched => ?_
    cases launched with
    | error e => trivial
    | ok instances =>
      refine uses_op trivial fun _ => ?_
      refine Program.uses_bind
        (administrative_of_local (local_of_looking (looking_watchAll instances))) fun _ => ?_
      exact uses_op trivial fun _ => uses_op trivial fun _ => trivial

theorem administrative_disable (key : Str) : (cfg.disable key).Uses Op.Administrative := by
  refine uses_op trivial fun _ => uses_op trivial fun displaced => ?_
  cases displaced with
  | nil => trivial
  | cons i is =>
    refine Program.uses_bind (administrative_of_tending (tending_drainEach _ none (i :: is))) ?_
    exact fun _ => uses_op trivial fun _ => trivial

theorem administrative_upgrade (key : Str) : (cfg.upgrade key).Uses Op.Administrative := by
  refine uses_ask trivial fun files => ?_
  split
  next => trivial
  next pkg _ =>
    refine Program.uses_bind (administrative_of_local (cfg.local_launchAll pkg)) fun launched => ?_
    cases launched with
    | error e => trivial
    | ok instances =>
      refine uses_op trivial fun _ => ?_
      refine Program.uses_bind (uses_op trivial fun displaced =>
        administrative_of_tending (tending_drainAllInBackground _ displaced)) fun _ => ?_
      refine Program.uses_bind
        (administrative_of_local (local_of_looking (looking_watchAll instances))) fun _ => ?_
      exact uses_op trivial fun _ => trivial

theorem administrative_scan : cfg.scan.Uses Op.Administrative := by
  refine uses_ask trivial fun entries => ?_
  cases entries with
  | none => exact ⟨trivial, fun _ => trivial⟩
  | some names =>
    refine Program.uses_bind ?_ fun _ => ⟨trivial, fun _ => trivial⟩
    exact administrative_of_local (local_of_looking (cfg.looking_scanFrom [] names))

theorem restoring_relaunch (key : Str) : (cfg.relaunch key).Uses (Op.Restoring key) := by
  refine uses_op (.inl rfl) fun found => ?_
  obtain ⟨pkg, enabled⟩ := found
  cases pkg with
  | none => trivial
  | some pkg =>
    cases enabled with
    | false => trivial
    | true => exact restoring_of_local (cfg.local_launchOne pkg 0)

theorem restoring_recover (key : Str) (n : Nat) : (cfg.recover key n).Uses (Op.Restoring key) := by
  induction n with
  | zero => exact restoring_of_local (local_of_looking looking_diverge)
  | succ n ih =>
    refine uses_op trivial fun tooMany => ?_
    rw [Program.uses_ite]
    refine ⟨fun _ => uses_op trivial fun _ => ?_, fun _ => ?_⟩
    · refine uses_op ⟨[], Nat.zero_le 1, rfl⟩ fun displaced => ?_
      exact restoring_of_local (local_of_tending (tending_quarantineAll displaced))
    · refine uses_op trivial fun count => uses_ask trivial fun wake => ?_
      cases wake with
      | stop => trivial
      | done => trivial
      | timer =>
        refine uses_op trivial fun snap => ?_
        rw [Program.uses_ite]
        refine ⟨fun _ => trivial, fun _ => ?_⟩
        refine Program.uses_bind (cfg.restoring_relaunch key) fun inst => ?_
        split
        next => trivial
        next => exact ih
        next inst =>
          exact uses_op ⟨[inst], Nat.le_refl 1, rfl⟩ fun _ => ⟨trivial, fun _ => trivial⟩

theorem restoring_watchLoop (i : Instance) : (cfg.watchLoop i).Uses (Op.Restoring i.key) := by
  refine uses_ask trivial fun n => ?_
  induction n with
  | zero => exact restoring_of_local (local_of_looking looking_diverge)
  | succ n ih =>
    refine uses_ask trivial fun wake => ?_
    cases wake with
    | stop => trivial
    | done => trivial
    | timer =>
      refine uses_op trivial fun gone => ?_
      rw [Program.uses_ite]
      refine ⟨fun _ => ih, fun _ => ?_⟩
      refine Program.uses_bind (restoring_of_local (local_of_looking (looking_isUnexpected i)))
        fun crashed => ?_
      rw [Program.uses_ite]
      refine ⟨fun _ => trivial, fun _ => uses_op nofun fun _ => uses_ask trivial fun n => ?_⟩
      exact cfg.restoring_recover i.key n

theorem administrative_watchLoop (i : Instance) : (cfg.watchLoop i).Uses Op.Administrative :=
  (cfg.restoring_watchLoop i).mono fun _ => Op.Restoring.administrative

end ManagerConfig
end Moduless.PluginHost
