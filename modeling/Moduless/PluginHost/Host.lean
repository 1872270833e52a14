import Moduless.Interaction.Discipline
import Moduless.Pipeline.Context
import Moduless.PluginHost.Package
import Moduless.PluginHost.Registry

/-!
The operations Core's goroutines perform on their shared state and on the
world around them, and what each one does.

Every operation is one atomic step: a `sync/atomic` access, one critical
section of a mutex, or one exchange with the world. A `Query` is an exchange
whose answer Core does not control, so it may be answered in any way. An
operation on an instance needs a pointer to it, so it can only be performed
once the instance has been launched.
-/

namespace Moduless.PluginHost
open Go Pipeline Interaction

/-- Which case of a `select` fired: the stop channel, the context, the timer. -/
inductive Wake where
  | stop
  | done
  | timer
  deriving DecidableEq

structure SupervisorConfig where
  pollInterval : Duration
  initialBackoff : Duration
  maxBackoff : Duration
  crashThreshold : Int
  crashWindow : Duration
  deriving DecidableEq

structure CrashRecord where
  count : Int
  firstAt : Int
  deriving DecidableEq

/-- The services a plugin calls back into; they act for the package they are built for. -/
structure HostServices where
  pkg : Package
  deriving DecidableEq

def HostServices.pluginKey (services : HostServices) : Str := services.pkg.key

structure LaunchSpec where
  key : Str
  instanceID : Str
  version : Str
  weight : Int
  binaryPath : Str
  checksum : Str
  hostImpl : HostServices
  grantedPermissions : List Str
  config : GoMap Str Str
  dataDir : Str
  env : List Str
  deriving DecidableEq

inductive FilterError where
  | bodyTooLarge (size : Nat) (limit : Int)
  | notRunning
  | draining
  | callFailed (e : Str)
  | shortCircuitWithoutResponse
  | identityNotAllowed
  deriving DecidableEq

structure User where
  id : Int
  username : Str
  role : Str
  deriving DecidableEq

/-- A goroutine Core starts in the background. -/
inductive Task where
  | drain (inst : Instance) (timeout : Duration)
  | watch (inst : Instance)
  | log (chain : Chain) (rc : AsyncContext)

/-- Exchanges whose answer Core does not control. `bound` is the number of
times an unbounded loop goes round. -/
inductive Query where
  | now
  | select
  | sleep (d : Duration)
  | bound
  | range (keys : List Str)
  | readDir (dir : Str)
  | readPackage (dir : Str)
  | mkdirAll (dir : Str)
  | configSource (key : Str)
  | shutdown (inst : Instance) (timeout : Duration)
  | filterCall (inst : Instance) (req : FilterRequest) (timeout : Duration)
  | filterReturn (inst : Instance)
  | httpCall (inst : Instance) (req : HttpRequest) (timeout : Duration)
  | httpReturn (inst : Instance)
  | report (f : Filter) (e : FilterError)
  | newTraceID
  | receive
  | next (r : Request)
  | setHeader (k v : Str)
  | respond (status : Int) (headers : Headers) (body : Str)
  | resolveUser (token : Str)

@[reducible] def Query.Ans : Query → Type
  | .now => Int
  | .select | .sleep _ => Wake
  | .bound => Nat
  | .range keys => { order : List Str // order.Perm keys }
  | .readDir _ => Option (List Str)
  | .readPackage _ => PackageFiles
  | .mkdirAll _ => Bool
  | .configSource _ => GoMap Str Str
  | .filterReturn _ => Except Str FilterResponse
  | .httpReturn _ => Except Str HttpResponse
  | .newTraceID => Str
  | .receive => Bool
  | .next _ => HttpResponse
  | .resolveUser _ => Option User
  | .shutdown _ _ | .filterCall _ _ _ | .httpCall _ _ _ | .report _ _ | .setHeader _ _
  | .respond _ _ _ => Unit

/-- Accesses to the fields of a breaker. -/
inductive BreakerOp where
  | load (c : Counter)
  | store (c : Counter) (x : Int)
  | add (c : Counter) (d : Int)
  | storeProbing (b : Bool)
  | casProbing (old new : Bool)

@[reducible] def BreakerOp.Ans : BreakerOp → Type
  | .load _ | .add _ _ => Int
  | .store _ _ | .storeProbing _ => Unit
  | .casProbing _ _ => Bool

/-- The critical sections of the manager's mutex. -/
inductive ManagerOp where
  | package (key : Str)
  | insertEnabled (key : Str)
  | deleteEnabled (key : Str)
  | commitUpgrade (key : Str) (pkg : Package)
  | relaunchable (key : Str)
  | setPackages (pkgs : List Package)

@[reducible] def ManagerOp.Ans : ManagerOp → Type
  | .package _ => Option Package
  | .relaunchable _ => Option Package × Bool
  | .insertEnabled _ | .deleteEnabled _ | .commitUpgrade _ _ | .setPackages _ => Unit

/-- The critical sections of the supervisor's mutex. -/
inductive CrashOp where
  | tooManyCrashes (cfg : SupervisorConfig) (key : Str)
  | crashCount (key : Str)
  | quarantine (key : Str)
  | clearCrashes (key : Str)

@[reducible] def CrashOp.Ans : CrashOp → Type
  | .tooManyCrashes _ _ => Bool
  | .crashCount _ => Int
  | .quarantine _ | .clearCrashes _ => Unit

/-- `picked` records the answer of `Pick` for a key and changes nothing.
`exit` is a process dying on its own. `diverge` never returns. -/
inductive Op where
  | ask (q : Query)
  | loadState (inst : Instance)
  | storeState (inst : Instance) (s : State)
  | casState (inst : Instance) (old new : State)
  | loadInflight (inst : Instance)
  | addInflight (inst : Instance) (d : Int)
  | newDone (inst : Instance)
  | casDone (l : Lease)
  | breaker (inst : Instance) (o : BreakerOp)
  | go (t : Task)
  | current
  | choose (rs : ReplicaSet) (states : List State)
  | picked (key : Str) (inst : Instance)
  | installPlugin (reg : Registration)
  | manager (o : ManagerOp)
  | crash (o : CrashOp)
  | launch (spec : LaunchSpec)
  | kill (inst : Instance)
  | exited (inst : Instance)
  | exit (inst : Instance)
  | diverge

@[reducible] def Op.Ans : Op → Type
  | .ask q => q.Ans
  | .loadState _ => State
  | .casState _ _ _ | .casDone _ | .exited _ => Bool
  | .loadInflight _ | .addInflight _ _ => Int
  | .newDone _ => Lease
  | .breaker _ o => o.Ans
  | .current => Snapshot
  | .choose _ _ => Option Instance
  | .installPlugin _ => List Instance
  | .manager o => o.Ans
  | .crash o => o.Ans
  | .launch _ => Option Instance
  | .storeState _ _ | .go _ | .picked _ _ | .kill _ | .exit _ => Unit
  | .diverge => Empty

/-- The interface all of Core's goroutines are written against. -/
abbrev Host : Interface := ⟨Op, Op.Ans⟩

abbrev HostM := Program Host

def ask (q : Query) : HostM q.Ans := Program.perform (I := Host) (.ask q)

def op (o : Op) : HostM o.Ans := Program.perform (I := Host) o

@[simp] theorem ask_eq (q : Query) : ask q = .call (I := Host) (.ask q) .ret := rfl

@[simp] theorem op_eq (o : Op) : op o = .call (I := Host) o .ret := rfl

theorem uses_op {β : Type} {N : Op → Prop} {o : Op} {f : o.Ans → HostM β} (ho : N o)
    (hf : ∀ r, (f r).Uses N) : (op o >>= f).Uses N := ⟨ho, hf⟩

theorem uses_ask {β : Type} {N : Op → Prop} {q : Query} {f : q.Ans → HostM β} (hq : N (.ask q))
    (hf : ∀ r, (f r).Uses N) : (ask q >>= f).Uses N := ⟨hq, hf⟩

theorem returns_ask {β : Type} {Q : β → Prop} {q : Query} {f : q.Ans → HostM β}
    (hf : ∀ r, (f r).Returns Q) : (ask q >>= f).Returns Q := hf

theorem returns_op {β : Type} {Q : β → Prop} {o : Op} {f : o.Ans → HostM β}
    (hf : ∀ r, (f r).Returns Q) : (op o >>= f).Returns Q := hf

theorem obeys_op {G β : Type} {D : Discipline Host G} {Q : β → G → Prop} {o : Op}
    {f : o.Ans → HostM β} {g : G} (hPermit : D.permits g o)
    (hf : ∀ r, D.assumes g ⟨o, r⟩ → D.Obeys Q (f r) (D.next g ⟨o, r⟩)) :
    D.Obeys Q (op o >>= f) g := ⟨hPermit, hf⟩

theorem obeys_ask {G β : Type} {D : Discipline Host G} {Q : β → G → Prop} {q : Query}
    {f : q.Ans → HostM β} {g : G} (hPermit : D.permits g (.ask q))
    (hf : ∀ r, D.assumes g ⟨.ask q, r⟩ → D.Obeys Q (f r) (D.next g ⟨.ask q, r⟩)) :
    D.Obeys Q (ask q >>= f) g := ⟨hPermit, hf⟩

theorem finishes_op {β : Type} {o : Op} {f : o.Ans → HostM β} {t : List (Event Host)} {b : β} :
    (op o >>= f).Finishes t b ↔ ∃ r u, t = ⟨o, r⟩ :: u ∧ (f r).Finishes u b :=
  Program.finishes_call

theorem finishes_ask {β : Type} {q : Query} {f : q.Ans → HostM β} {t : List (Event Host)}
    {b : β} : (ask q >>= f).Finishes t b ↔ ∃ r u, t = ⟨.ask q, r⟩ :: u ∧ (f r).Finishes u b :=
  Program.finishes_call

end Moduless.PluginHost
