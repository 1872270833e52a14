import Moduless.PluginHost.Supervision

/-!
Who has to end a plugin process that no snapshot shows.

A goroutine that launches an instance, or takes one out of the registry, has it
in its custody until it registers it, kills it or starts a goroutine that will
drain it. `InstallPlugin` hands the displaced instances to its caller; `Enable`
and a restart drop them.
-/

namespace Moduless.PluginHost
open Go Pipeline Interaction Discipline

/-- `forgets` says that the goroutine drops what its instances displace. -/
structure Custody where
  owns : List Instance
  forgets : Bool

namespace Custody

variable (g : Custody)

/-- The given instances are accounted for. -/
def settle (is : List Instance) : Custody := { g with owns := g.owns.filter (· ∉ is) }

def next : Event Host → Custody
  | ⟨.launch _, launched⟩ => { g with owns := launched.toList ++ g.owns }
  | ⟨.kill i, _⟩ | ⟨.go (.drain i _), _⟩ => g.settle [i]
  | ⟨.installPlugin reg, displaced⟩ =>
    { g with owns := (g.settle reg.instances).owns ++
        if g.forgets && reg.instances ≠ [] then [] else displaced }
  | _ => g

theorem settle_nil : g.settle [] = g := by simp [settle]

theorem settle_settle (is js : List Instance) : (g.settle is).settle js = g.settle (is ++ js) := by
  simp [settle, List.filter_filter, Bool.and_comm]

theorem forgets_next (e : Event Host) : (g.next e).forgets = g.forgets := by
  obtain ⟨o, r⟩ := e
  cases o with
  | go t => cases t <;> rfl
  | _ => rfl

variable {g}

theorem owns_settle {is : List Instance} (h : g.owns ⊆ is) : (g.settle is).owns = [] := by
  simp only [settle, List.filter_eq_nil_iff, decide_eq_true_eq, not_not]
  exact fun i hi => h hi

end Custody

def custody : Discipline Host Custody := ⟨Custody.next, fun _ _ => True, fun _ _ => True⟩

section Obedience

variable {g : Custody} {α β : Type}

/-- Operations that put nothing into a goroutine's custody and take nothing out. -/
def Op.Unowned (o : Op) : Prop := ∀ (g : Custody) (r : o.Ans), g.next ⟨o, r⟩ = g

theorem custody_unowned {p : HostM α} (hp : p.Uses Op.Unowned) :
    Obeys custody (fun _ g' => g' = g) p g :=
  obeys_of_uses hp (P := fun g' => g' = g)
    (fun g' _ hg' ho => ⟨trivial, fun r => hg' ▸ ho g' r⟩) rfl

theorem custody_looking {p : HostM α} (hp : p.Uses Op.Looking) :
    Obeys custody (fun _ g' => g' = g) p g := by
  refine custody_unowned (hp.mono fun o ho => ?_)
  cases o with
  | go t => cases t <;> first | exact ho.elim | exact fun _ _ => rfl
  | _ => first | exact ho.elim | exact fun _ _ => rfl

theorem custody_looking_bind {p : HostM α} {f : α → HostM β} {Q : β → Custody → Prop}
    (hp : p.Uses Op.Looking) (hf : ∀ a, Obeys custody Q (f a) g) : Obeys custody Q (p >>= f) g :=
  obeys_bind (custody_looking hp) fun a _ hg => hg ▸ hf a

def Settles (g : Custody) (is : List Instance) : α → Custody → Prop := fun _ g' => g' = g.settle is

theorem custody_terminate (i : Instance) : Obeys custody (Settles g [i]) i.terminate g :=
  obeys_op trivial fun _ _ => obeys_ask trivial fun n _ => custody_looking (looking_markStopped i n)

theorem settles_cons {i : Instance} {is : List Instance} {p : HostM α} {f : α → HostM β}
    (hp : Obeys custody (Settles g [i]) p g)
    (hf : ∀ a g, Obeys custody (Settles g is) (f a) g) :
    Obeys custody (Settles g (i :: is)) (p >>= f) g := by
  refine obeys_bind hp fun a g' hg' => obeys_mono (hf a g') fun _ g'' hg'' => ?_
  rw [hg'', hg', Custody.settle_settle]
  rfl

theorem custody_drainLoop (i : Instance) (timeout : Duration) (deadline : Int) (n : Nat) :
    Obeys custody (Settles g [i]) (i.drainLoop timeout deadline n) g := by
  have hTerminate : ∀ e : Option HostError,
      Obeys custody (Settles g [i]) (do i.terminate; pure e) g :=
    fun e => obeys_bind (custody_terminate i) fun _ _ hg => hg
  induction n with
  | zero => exact ⟨trivial, fun e => nomatch e⟩
  | succ n ih =>
    refine obeys_op trivial fun inflight _ =>
      obeys_ite.mpr ⟨fun _ => ?_, fun _ => hTerminate none⟩
    refine obeys_ask trivial fun wake _ => ?_
    cases wake with
    | timer =>
      refine obeys_ask trivial fun now _ => obeys_ite.mpr ⟨fun _ => ?_, fun _ => ih⟩
      exact obeys_op trivial fun _ _ => hTerminate _
    | stop => exact obeys_op trivial fun _ _ => hTerminate _
    | done => exact obeys_op trivial fun _ _ => hTerminate _

theorem custody_drain (i : Instance) (timeout : Duration) :
    Obeys custody (Settles g [i]) (i.drain timeout) g :=
  obeys_op trivial fun _ _ => obeys_ask trivial fun _ _ => obeys_ask trivial fun _ _ =>
    obeys_ask trivial fun n _ => custody_drainLoop i timeout _ n

theorem custody_drainAllInBackground (timeout : Duration) (is : List Instance) :
    Obeys custody (Settles g is) (drainAllInBackground timeout is) g := by
  induction is generalizing g with
  | nil => exact g.settle_nil.symm
  | cons i is ih => exact settles_cons (obeys_op trivial fun _ _ => rfl) fun _ _ => ih

theorem custody_drainEach (timeout : Duration) (firstErr : Option HostError) (is : List Instance) :
    Obeys custody (Settles g is) (drainEach timeout firstErr is) g := by
  induction is generalizing g firstErr with
  | nil => exact g.settle_nil.symm
  | cons i is ih => exact settles_cons (custody_drain i timeout) fun _ _ => ih _

theorem custody_quarantineAll (is : List Instance) :
    Obeys custody (Settles g is) (quarantineAll is) g := by
  induction is generalizing g with
  | nil => exact g.settle_nil.symm
  | cons i is ih =>
    exact obeys_op trivial fun _ _ => settles_cons (custody_terminate i) fun _ _ => ih

theorem custody_killAll (is : List Instance) :
    Obeys custody (Settles g is) (ManagerConfig.killAll is) g := by
  induction is generalizing g with
  | nil => exact g.settle_nil.symm
  | cons i is ih => exact settles_cons (custody_terminate i) fun _ _ => ih

variable (cfg : ManagerConfig)

theorem custody_launchOne (pkg : Package) (index : Nat) :
    Obeys custody (fun r g' => g' = { g with owns := r.toOption.toList ++ g.owns })
      (cfg.launchOne pkg index) g := by
  refine custody_looking_bind (cfg.looking_dataDirFor _) fun dataDir => ?_
  cases dataDir with
  | error e => rfl
  | ok dataDir =>
    refine custody_looking_bind (cfg.looking_configFor _) fun config => ?_
    refine obeys_op trivial fun inst _ => ?_
    cases inst <;> rfl

/-- A launch that fails leaves nothing running, one that succeeds returns all
that was started. -/
def Launches (g : Custody) (n : Nat) (r : Except HostError (List Instance)) (g' : Custody) : Prop :=
  g'.forgets = g.forgets ∧ match r with
    | .error _ => g'.owns = []
    | .ok is => g'.owns ⊆ is ∧ is.length = n

theorem custody_launchFrom (pkg : Package) (n index : Nat) (started : List Instance)
    (hOwns : g.owns ⊆ started) :
    Obeys custody (Launches g (started.length + n)) (cfg.launchFrom pkg n index started) g := by
  induction n generalizing g index started with
  | zero => exact ⟨rfl, hOwns, rfl⟩
  | succ n ih =>
    refine obeys_bind (custody_launchOne cfg pkg index) fun inst g' hg' => ?_
    cases inst with
    | error e =>
      refine obeys_bind (custody_killAll started) fun _ g'' hg'' => ?_
      obtain rfl := hg'
      obtain rfl := hg''
      exact ⟨rfl, Custody.owns_settle hOwns⟩
    | ok inst =>
      have hNext : g'.owns ⊆ started ++ [inst] := by
        rw [hg']
        intro i hi
        rcases List.mem_cons.mp hi with rfl | hi
        · simp
        · exact List.mem_append_left _ (hOwns hi)
      refine obeys_mono (ih (index + 1) (started ++ [inst]) hNext) ?_
      rintro r g'' ⟨hForgets, hr⟩
      rw [List.length_append, List.length_singleton, Nat.add_right_comm] at hr
      exact ⟨hForgets.trans (by rw [hg']), hr⟩

theorem custody_launchAll (pkg : Package) (hOwns : g.owns = []) :
    Obeys custody (Launches g pkg.manifest.replicaCount) (cfg.launchAll pkg) g := by
  have hFrom := custody_launchFrom cfg pkg pkg.manifest.replicaCount 0 [] (g := g) (by simp [hOwns])
  rwa [List.length_nil, Nat.zero_add] at hFrom

/-- The goroutine leaves nothing behind. -/
def Leaves : α → Custody → Prop := fun _ g' => g'.owns = []

theorem custody_enable (key : Str) (hForgets : g.forgets = true) (hOwns : g.owns = []) :
    Obeys custody Leaves (cfg.enable key) g := by
  refine obeys_op trivial fun pkg _ => ?_
  cases pkg with
  | none => exact hOwns
  | some pkg =>
    refine obeys_bind (custody_launchAll cfg pkg hOwns) ?_
    rintro (e | instances) g' ⟨hKept, hLaunched⟩
    · exact hLaunched
    · refine obeys_op trivial fun displaced _ => ?_
      refine custody_looking_bind (looking_watchAll instances) fun _ => ?_
      refine obeys_op trivial fun _ _ => obeys_op trivial fun _ _ => ?_
      obtain ⟨hOwned, hLength⟩ := hLaunched
      have hSome : instances ≠ [] := by
        rintro rfl
        exact pkg.manifest.replicaCount_pos.ne hLength
      simpa [Leaves, custody, Custody.next, Package.registration, hKept, hForgets, hSome]
        using Custody.owns_settle hOwned

/-- The drains of a caller that keeps what it displaced settle all of it. -/
theorem custody_displaced {reg : Registration} {displaced : List Instance}
    (hOwns : g.owns ⊆ reg.instances) :
    ((g.next ⟨.installPlugin reg, displaced⟩).settle displaced).owns = [] := by
  refine Custody.owns_settle fun i hi => ?_
  rcases List.mem_append.mp hi with hi | hi
  · rw [Custody.owns_settle hOwns] at hi
    cases hi
  · split at hi
    next => cases hi
    next => exact hi

theorem custody_disable (key : Str) (hOwns : g.owns = []) :
    Obeys custody Leaves (cfg.disable key) g := by
  refine obeys_op trivial fun _ _ => obeys_op trivial fun displaced _ => ?_
  have hSettled : ((g.next ⟨.installPlugin (bareRegistration key []), displaced⟩).settle
      displaced).owns = [] := custody_displaced (by simp [hOwns])
  cases displaced with
  | nil => exact (congrArg Custody.owns (Custody.settle_nil _)).symm.trans hSettled
  | cons i is =>
    refine obeys_bind (custody_drainEach _ none (i :: is)) fun _ g' hg' => ?_
    refine obeys_op trivial fun _ _ => ?_
    rw [hg']
    exact hSettled

theorem custody_upgrade (key : Str) (hOwns : g.owns = []) :
    Obeys custody Leaves (cfg.upgrade key) g := by
  refine obeys_ask trivial fun files _ => ?_
  split
  next => exact hOwns
  next pkg _ =>
    refine obeys_bind (custody_launchAll cfg pkg hOwns) ?_
    rintro (e | instances) g' ⟨-, hLaunched⟩
    · exact hLaunched
    · refine obeys_op trivial fun _ _ => obeys_bind (Q := Leaves) ?_ fun _ g'' hg'' => ?_
      · refine obeys_op trivial fun displaced _ => ?_
        refine obeys_mono (custody_drainAllInBackground _ displaced) fun _ _ hg'' => ?_
        rw [Leaves, hg'']
        exact custody_displaced hLaunched.1
      · exact custody_looking_bind (looking_watchAll instances) fun _ =>
          obeys_op trivial fun _ _ => hg''

theorem custody_scan : Obeys custody (fun _ g' => g' = g) cfg.scan g := by
  refine obeys_ask trivial fun entries _ => ?_
  cases entries with
  | none => exact ⟨trivial, fun _ _ => rfl⟩
  | some names =>
    exact custody_looking_bind (cfg.looking_scanFrom [] names) fun _ => ⟨trivial, fun _ _ => rfl⟩

theorem custody_relaunch (key : Str) :
    Obeys custody (fun r g' => g' = { g with owns := r.toOption.toList ++ g.owns })
      (cfg.relaunch key) g :=
  obeys_relaunch trivial (fun _ => rfl) fun pkg => custody_launchOne cfg pkg 0

theorem custody_supervised (key : Str) :
    Supervised custody cfg key fun g => g.forgets = true ∧ g.owns = [] where
  looking hp hg := by
    refine obeys_mono (custody_looking hp) fun _ g' hg' => ?_
    exact hg' ▸ hg
  counts hg := ⟨trivial, hg⟩
  quarantines {g} hg := by
    refine obeys_op trivial fun _ _ => obeys_op trivial fun displaced _ => ?_
    refine obeys_mono (custody_quarantineAll displaced) fun _ g' hg' => ?_
    rw [hg']
    exact ⟨hg.1, custody_displaced (g := g) (by simp [hg.2])⟩
  delays hg := ⟨trivial, fun _ _ => hg⟩
  relaunches hg := by
    refine obeys_mono (custody_relaunch cfg key) fun r g' hg' => ?_
    rw [hg']
    cases r with
    | error e => exact hg
    | ok i =>
      refine ⟨trivial, fun displaced _ => ⟨hg.1, ?_⟩⟩
      simp [custody, Custody.next, Custody.settle, bareRegistration, Except.toOption, hg]

end Obedience
end Moduless.PluginHost
