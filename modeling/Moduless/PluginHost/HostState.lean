import Moduless.PluginHost.Host

/-!
The state Core's goroutines share, and the effect of each operation on it.
-/

namespace Moduless.PluginHost
open Go Pipeline Interaction

inductive Proc where
  | running
  | exited
  | killed
  deriving DecidableEq

/-- `launched` holds every instance ever launched; an instance's identity is its
position. `cells` holds the `done` flags of release functions with the instance
each belongs to. -/
structure HostState where
  launched : List Instance := []
  fields : Nat → Fields := fun _ => launchedFields
  procs : Nat → Proc := fun _ => .running
  cells : List (Instance × Bool) := []
  registry : Registry := Registry.empty
  counters : Nat × Str → Nat → Int := fun _ _ => 0
  packages : GoMap Str Package := []
  enabled : List Str := []
  crashes : GoMap Str CrashRecord := []
  quarantined : GoMap Str Int := []

namespace HostState

variable (s : HostState)

def setFields (inst : Instance) (x : Fields) : HostState :=
  { s with fields := Function.update s.fields inst.id x }

def setState (inst : Instance) (st : State) : HostState :=
  s.setFields inst { s.fields inst.id with state := st }

def setInflight (inst : Instance) (n : Int) : HostState :=
  s.setFields inst { s.fields inst.id with inflight := n }

def setBreaker (inst : Instance) (b : Breaker) : HostState :=
  s.setFields inst { s.fields inst.id with breaker := b }

def setProc (inst : Instance) (p : Proc) : HostState :=
  { s with procs := Function.update s.procs inst.id p }

def state (inst : Instance) : State := (s.fields inst.id).state

def inflight (inst : Instance) : Int := (s.fields inst.id).inflight

def running (inst : Instance) : Prop := s.procs inst.id = .running

variable {s} {inst : Instance} (i : Instance)

@[simp] theorem state_setState (st : State) :
    (s.setState inst st).state i = if i.id = inst.id then st else s.state i := by
  by_cases h : i.id = inst.id <;> simp [state, setState, setFields, h]

@[simp] theorem inflight_setState (st : State) :
    (s.setState inst st).inflight i = s.inflight i := by
  by_cases h : i.id = inst.id <;> simp [inflight, setState, setFields, h]

@[simp] theorem state_setInflight (n : Int) : (s.setInflight inst n).state i = s.state i := by
  by_cases h : i.id = inst.id <;> simp [state, setInflight, setFields, h]

@[simp] theorem inflight_setInflight (n : Int) :
    (s.setInflight inst n).inflight i = if i.id = inst.id then n else s.inflight i := by
  by_cases h : i.id = inst.id <;> simp [inflight, setInflight, setFields, h]

@[simp] theorem cells_setInflight (n : Int) : (s.setInflight inst n).cells = s.cells := rfl

@[simp] theorem state_setBreaker (b : Breaker) : (s.setBreaker inst b).state i = s.state i := by
  by_cases h : i.id = inst.id <;> simp [state, setBreaker, setFields, h]

@[simp] theorem inflight_setBreaker (b : Breaker) :
    (s.setBreaker inst b).inflight i = s.inflight i := by
  by_cases h : i.id = inst.id <;> simp [inflight, setBreaker, setFields, h]

theorem running_setProc {p : Proc} :
    (s.setProc inst p).running i ↔ if i.id = inst.id then p = .running else s.running i := by
  by_cases h : i.id = inst.id <;> simp [running, setProc, h]

end HostState

def BreakerOp.apply : (o : BreakerOp) → Breaker → o.Ans × Breaker
  | .load c, b => (b.counters c, b)
  | .store c x, b => ((), { b with counters := Function.update b.counters c x })
  | .add c d, b =>
    let x := b.counters c + d
    (x, { b with counters := Function.update b.counters c x })
  | .storeProbing p, b => ((), { b with probing := p })
  | .casProbing old new, b =>
    if b.probing = old then (true, { b with probing := new }) else (false, b)

def ManagerOp.apply : (o : ManagerOp) → HostState → o.Ans × HostState
  | .package key, s => (s.packages.get key, s)
  | .insertEnabled key, s => ((), { s with enabled := key :: s.enabled.erase key })
  | .deleteEnabled key, s => ((), { s with enabled := s.enabled.filter (· ≠ key) })
  | .commitUpgrade key pkg, s =>
    ((), { s with packages := s.packages.set key pkg, enabled := key :: s.enabled.erase key })
  | .relaunchable key, s => ((s.packages.get key, s.enabled.contains key), s)
  | .setPackages pkgs, s =>
    ((), { s with packages := pkgs.foldl (fun m p => m.set p.key p) [] })

/-- `tooManyCrashes`: the verdict and the history with this crash recorded. -/
def recordCrash (cfg : SupervisorConfig) (crashes : GoMap Str CrashRecord) (key : Str)
    (now : Int) : Bool × GoMap Str CrashRecord :=
  match crashes.get key with
  | none => (false, crashes.set key ⟨1, now⟩)
  | some rec =>
    if now - rec.firstAt > cfg.crashWindow then (false, crashes.set key ⟨1, now⟩)
    else (rec.count + 1 ≥ cfg.crashThreshold, crashes.set key ⟨rec.count + 1, rec.firstAt⟩)

def CrashOp.apply (now : Int) : (o : CrashOp) → HostState → o.Ans × HostState
  | .tooManyCrashes cfg key, s =>
    let (verdict, crashes) := recordCrash cfg s.crashes key now
    (verdict, { s with crashes := crashes })
  | .crashCount key, s =>
    (match s.crashes.get key with
      | none => 1
      | some rec => rec.count, s)
  | .quarantine key, s => ((), { s with quarantined := s.quarantined.set key now })
  | .clearCrashes key, s =>
    ((), { s with crashes := s.crashes.delete key, quarantined := s.quarantined.delete key })

/-- What decides the outcome of an operation besides the state: the answer of a
query, the order of a map iteration, whether a launch succeeds, the time. -/
@[reducible] def Op.Choice : Op → Type
  | .ask q => q.Ans
  | .installPlugin _ => List Str
  | .launch _ => Bool
  | .crash _ => Int
  | _ => Unit

/-- The answer of an operation and the state after it; `none` when it cannot be
performed. -/
def HostState.exec (s : HostState) : (o : Op) → o.Choice → Option (o.Ans × HostState)
  | .ask _, r => some (r, s)
  | .loadState i, _ => if i ∈ s.launched then some (s.state i, s) else none
  | .storeState i st, _ => if i ∈ s.launched then some ((), s.setState i st) else none
  | .casState i old new, _ =>
    if i ∈ s.launched then
      if s.state i = old then some (true, s.setState i new) else some (false, s)
    else none
  | .loadInflight i, _ => if i ∈ s.launched then some (s.inflight i, s) else none
  | .addInflight i d, _ =>
    if i ∈ s.launched then some (s.inflight i + d, s.setInflight i (s.inflight i + d)) else none
  | .newDone i, _ =>
    if i ∈ s.launched then
      some (⟨i, s.cells.length⟩, { s with cells := s.cells ++ [(i, false)] })
    else none
  | .casDone l, _ =>
    if s.cells[l.cell]? = some (l.inst, false) then
      some (true, { s with cells := s.cells.set l.cell (l.inst, true) })
    else if s.cells[l.cell]? = some (l.inst, true) then some (false, s)
    else none
  | .breaker i o, _ =>
    if i ∈ s.launched then
      let (r, b) := o.apply (s.fields i.id).breaker
      some (r, s.setBreaker i b)
    else none
  | .go _, _ => some ((), s)
  | .current, _ => some (s.registry.current, s)
  | .choose rs states, _ =>
    match pickReady rs.instances states (s.counters (rs.builtAt, rs.key)) with
    | none => some (none, s)
    | some (inst, current) =>
      some (some inst,
        { s with counters := Function.update s.counters (rs.builtAt, rs.key) current })
  | .picked _ _, _ => some ((), s)
  | .installPlugin reg, order =>
    if h : order.Perm (register s.registry.regs reg).keys then
      let (displaced, registry) := s.registry.installPlugin reg order h
      some (displaced, { s with registry := registry })
    else none
  | .manager o, _ => some (o.apply s)
  | .crash o, now => some (o.apply now s)
  | .launch spec, ok =>
    if ok then
      let inst := newInstance s.launched.length spec.key spec.instanceID spec.version spec.weight
      some (some inst,
        ({ s with launched := s.launched ++ [inst] }.setFields inst launchedFields).setProc
          inst .running)
    else some (none, s)
  | .kill i, _ =>
    if i ∈ s.launched then
      if s.procs i.id = .running then some ((), s.setProc i .killed) else some ((), s)
    else none
  | .exited i, _ => if i ∈ s.launched then some (s.procs i.id ≠ .running, s) else none
  | .exit i, _ =>
    if i ∈ s.launched then
      if s.procs i.id = .running then some ((), s.setProc i .exited) else some ((), s)
    else none
  | .diverge, _ => none

def host : Machine Host HostState := ⟨Op.Choice, HostState.exec⟩

/-- Answers of a world in which nothing fails and every timer fires. -/
def Query.calm : (q : Query) → q.Ans
  | .now => (0 : Int)
  | .select | .sleep _ => Wake.timer
  | .bound => (1 : Nat)
  | .range keys => ⟨keys, .refl keys⟩
  | .readDir _ => none
  | .readPackage _ => ⟨false, none, none, none, false⟩
  | .mkdirAll _ => true
  | .configSource _ => []
  | .filterReturn _ => .ok ⟨.continue_, none, none⟩
  | .httpReturn _ => .ok ⟨200, [], []⟩
  | .newTraceID => []
  | .receive => true
  | .next _ => ⟨200, [], []⟩
  | .resolveUser _ => none
  | .shutdown _ _ | .filterCall _ _ _ | .httpCall _ _ _ | .report _ _ | .setHeader _ _
  | .respond _ _ _ => ()

/-- Choices in such a world; `order` is how maps of registrations are visited. -/
def Op.calm (order : List Str) : (o : Op) → o.Choice
  | .ask q => q.calm
  | .installPlugin _ => order
  | .launch _ => true
  | .crash _ => (0 : Int)
  | .loadState _ | .storeState _ _ | .casState _ _ _ | .loadInflight _ | .addInflight _ _
  | .newDone _ | .casDone _ | .breaker _ _ | .go _ | .current | .choose _ _ | .picked _ _
  | .manager _ | .kill _ | .exited _ | .exit _ | .diverge => ()

end Moduless.PluginHost
