import Moduless.Interaction.Accounts
import Moduless.PluginHost.Breaker

/-!
Callers that share a breaker, step by step. The probe flag is set by a caller that
found the window over, and cleared by whoever records and still finds the breaker open.
A caller's account says whether it took the flag and has not looked at the breaker
again, and whether it still has to clear the flag.
-/

namespace Moduless.PluginHost
open Go Interaction Discipline

/-- `Runner.runOne` and `PluginHandler.dispatch`, as far as they use the breaker of an
instance that admits every call; `ok` says how the call of the plugin goes. -/
def BreakerCall.body (cfg : BreakerConfig) : BreakerCall → BreakerM Bool
  | .filter ok => do
      let admitted ← Breaker.allow
      if admitted then
        Breaker.record cfg ok
        pure true
      else pure false
  | .backend ok => do
      Breaker.record cfg ok
      pure true

def breakerSystem (cfg : BreakerConfig) : System BreakerHost ClockedBreaker BreakerCall Bool :=
  ⟨breakerMachine, BreakerCall.body cfg.normalized, fun _ => []⟩

abbrev BreakerPool := Pool BreakerHost ClockedBreaker BreakerCall Bool

abbrev BreakerThread := Thread BreakerHost BreakerCall Bool

/-- A new breaker; times are after the epoch of the clock. -/
def freshBreaker (clock : Nat) : BreakerPool := ⟨⟨newBreaker, clock⟩, []⟩

structure ProbeAccount where
  /-- Has begun to record. -/
  recording : Bool
  /-- Took the probe and has not looked at the breaker since. -/
  holds : Bool
  /-- Found the breaker open and has to clear the flag. -/
  clears : Bool
  deriving DecidableEq

def isOpen (until_ : Int) : Bool := until_ ≠ 0

def AfterEpoch (now : Int) : Prop := 0 ≤ now

namespace ProbeAccount

def idle : ProbeAccount := ⟨false, false, false⟩

def next (g : ProbeAccount) : Event BreakerHost → ProbeAccount
  | ⟨.field (.store .consecutiveFailures _), _⟩ | ⟨.field (.store .halfOpenSuccesses _), _⟩ =>
    { g with recording := true }
  | ⟨.field (.load .openUntilNanos), x⟩ =>
    if g.recording then { g with holds := false, clears := isOpen x } else g
  | ⟨.field (.casProbing _ _), true⟩ => { g with holds := true }
  | ⟨.field (.storeProbing _), _⟩ => { g with clears := false }
  | _ => g

end ProbeAccount

/-- Only a caller that will clear the flag closes the breaker. -/
def probeDiscipline : Discipline BreakerHost ProbeAccount where
  next := ProbeAccount.next
  permits g
    | .field (.load .openUntilNanos) => g.clears = false
    | .field (.store .openUntilNanos x) => x = 0 → g.clears = true
    | .field (.add c _) => c ≠ .openUntilNanos
    | .field (.storeProbing p) => p = false
    | .field (.casProbing old new) => old = false ∧ new = true
    | _ => True
  assumes _
    | ⟨.now, now⟩ => AfterEpoch now
    | _ => True

theorem field_obeys {G β : Type} {D : Discipline BreakerHost G} {Q : β → G → Prop} {o : BreakerOp}
    {f : o.Ans → BreakerM β} {g : G} (hPermit : D.permits g (.field o))
    (hf : ∀ r, D.assumes g ⟨.field o, r⟩ → D.Obeys Q (f r) (D.next g ⟨.field o, r⟩)) :
    D.Obeys Q (onField o >>= f) g := ⟨hPermit, hf⟩

theorem clock_obeys {G β : Type} {D : Discipline BreakerHost G} {Q : β → G → Prop}
    {f : Int → BreakerM β} {g : G} (hPermit : D.permits g .now)
    (hf : ∀ r : Int, D.assumes g ⟨.now, r⟩ → D.Obeys Q (f r) (D.next g ⟨.now, r⟩)) :
    D.Obeys Q (readClock >>= f) g := ⟨hPermit, hf⟩

/-- The caller neither holds the probe nor has to clear the flag. -/
def ProbeAccount.Free (g : ProbeAccount) : Prop := g.holds = false ∧ g.clears = false

theorem obeys_allow : probeDiscipline.Obeys
    (fun admitted g => g.recording = false ∧ g.clears = false ∧
      (admitted = false → g.holds = false)) Breaker.allow .idle := by
  refine field_obeys rfl fun (until_ : Int) _ => ?_
  refine obeys_ite.mpr ⟨fun _ => ⟨rfl, rfl, fun _ => rfl⟩, fun _ => ?_⟩
  refine clock_obeys trivial fun now _ => ?_
  refine obeys_ite.mpr ⟨fun _ => ⟨rfl, rfl, fun _ => rfl⟩, fun _ => ?_⟩
  refine ⟨⟨rfl, rfl⟩, fun (taken : Bool) _ => ?_⟩
  cases taken
  · exact ⟨rfl, rfl, fun _ => rfl⟩
  · exact ⟨rfl, rfl, fun h => nomatch h⟩

theorem obeys_recordSuccess (cfg : BreakerConfig) (holds : Bool) :
    probeDiscipline.Obeys (fun _ g => g.Free) (Breaker.recordSuccess cfg)
      ⟨false, holds, false⟩ := by
  refine field_obeys trivial fun _ _ => field_obeys rfl fun (until_ : Int) _ => ?_
  refine obeys_ite.mpr ⟨fun hClosed => ⟨rfl, ?_⟩, fun hOpen => ?_⟩
  · exact decide_eq_false (not_not_intro hClosed)
  · have hClears : isOpen until_ = true := decide_eq_true hOpen
    refine field_obeys (fun h => nomatch h) fun (n : Int) _ =>
      obeys_ite.mpr ⟨fun _ => ?_, fun _ => ?_⟩
    · refine field_obeys (fun _ => hClears) fun _ _ => field_obeys trivial fun _ _ => ?_
      exact ⟨rfl, fun _ _ => ⟨rfl, rfl⟩⟩
    · exact ⟨rfl, fun _ _ => ⟨rfl, rfl⟩⟩

theorem obeys_recordFailure (cfg : BreakerConfig) (holds : Bool) (hCfg : 0 < cfg.openDuration) :
    probeDiscipline.Obeys (fun _ g => g.Free) (Breaker.recordFailure cfg)
      ⟨false, holds, false⟩ := by
  refine field_obeys trivial fun _ _ => field_obeys rfl fun (until_ : Int) _ => ?_
  refine obeys_ite.mpr ⟨fun hOpen => ?_, fun hClosed => ?_⟩
  · have hClears : isOpen until_ = true := decide_eq_true hOpen
    refine clock_obeys trivial fun now _ => field_obeys (fun _ => hClears) fun _ _ => ?_
    exact ⟨rfl, fun _ _ => ⟨rfl, rfl⟩⟩
  · have hClears : isOpen until_ = false := decide_eq_false hClosed
    refine field_obeys (fun h => nomatch h) fun (n : Int) _ =>
      obeys_ite.mpr ⟨fun _ => ?_, fun _ => ?_⟩
    · refine clock_obeys trivial fun now hNow => field_obeys (fun hZero => ?_) fun _ _ => ?_
      · have hNow : 0 ≤ now := hNow
        have hSum : now + cfg.openDuration = 0 := hZero
        have hPos : (0 : Int) < cfg.openDuration := hCfg
        omega
      · exact ⟨trivial, fun _ _ => ⟨rfl, hClears⟩⟩
    · exact ⟨rfl, hClears⟩

theorem obeys_breakerCall (cfg : BreakerConfig) (c : BreakerCall) :
    probeDiscipline.Obeys (fun _ g => g.Free) (c.body cfg.normalized) .idle := by
  have hRecord : ∀ ok g, g.recording = false → g.clears = false →
      probeDiscipline.Obeys (fun _ g => g.Free) (Breaker.record cfg.normalized ok) g := by
    rintro ok ⟨_, holds, _⟩ rfl rfl
    refine obeys_ite.mpr ⟨fun _ => obeys_recordSuccess _ holds, fun _ => ?_⟩
    exact obeys_recordFailure _ holds (openDuration_pos cfg)
  cases c with
  | filter ok =>
    refine obeys_bind obeys_allow fun admitted g ⟨hRecording, hClears, hHolds⟩ => ?_
    cases admitted with
    | true => exact obeys_bind (hRecord ok g hRecording hClears) fun _ _ hg => hg
    | false => exact ⟨hHolds rfl, hClears⟩
  | backend ok => exact obeys_bind (hRecord ok .idle rfl rfl) fun _ _ hg => hg

/-- If the flag is set, somebody still has to clear it, or the breaker is open and its
holder will. -/
structure Watched (w : ClockedBreaker) (gs : List ProbeAccount) : Prop where
  clock : 0 ≤ w.clock
  flag : w.breaker.probing = true → (∃ g ∈ gs, g.clears = true) ∨
    w.breaker.openUntil ≠ 0 ∧ ∃ g ∈ gs, g.holds = true

/-- The probe of a breaker that has been closed is taken only while somebody still has
to clear the flag. -/
def FreshProbe (w : ClockedBreaker) (gs : List ProbeAccount) : Event BreakerHost → Prop
  | ⟨.field (.casProbing _ _), true⟩ => w.breaker.openUntil ≠ 0 ∨ ∃ g ∈ gs, g.clears = true
  | _ => True

section Step

variable {w w' : ClockedBreaker} {g g' : ProbeAccount} {gs : List ProbeAccount}

/-- A step that leaves the flag, the window and what the caller owes as they are. -/
theorem Watched.same (h : Watched w (g :: gs)) (hClock : w.clock ≤ w'.clock)
    (hFlag : w'.breaker.probing = w.breaker.probing)
    (hUntil : w'.breaker.openUntil = w.breaker.openUntil) (hHolds : g'.holds = g.holds)
    (hClears : g'.clears = g.clears) : Watched w' (g' :: gs) := by
  refine ⟨Int.le_trans h.clock hClock, fun hSet => ?_⟩
  have hOld := h.flag (hFlag ▸ hSet)
  simp only [List.exists_mem_cons_iff] at hOld ⊢
  rwa [hUntil, hHolds, hClears]

theorem watched_load (h : Watched w (g :: gs)) (c : Counter)
    (hPermit : probeDiscipline.permits g (.field (.load c))) :
    Watched w (probeDiscipline.next g ⟨.field (.load c), w.breaker.counters c⟩ :: gs) := by
  cases c with
  | consecutiveFailures | halfOpenSuccesses => exact h
  | openUntilNanos =>
    obtain ⟨recording, holds, clears⟩ := g
    obtain rfl : clears = false := hPermit
    cases recording with
    | false => exact h
    | true =>
      refine ⟨h.clock, fun hSet => ?_⟩
      have hOld := h.flag hSet
      simp only [List.exists_mem_cons_iff, Bool.false_eq_true, false_or] at hOld ⊢
      rcases hOld with hOther | ⟨hOpen, -⟩
      · exact .inl (.inr hOther)
      · exact .inl (.inl (decide_eq_true hOpen))

theorem watched_store (h : Watched w (g :: gs)) (c : Counter) (x : Int)
    (hPermit : probeDiscipline.permits g (.field (.store c x))) :
    Watched ⟨w.breaker.set c x, w.clock⟩
      (probeDiscipline.next g ⟨.field (.store c x), ()⟩ :: gs) := by
  cases c with
  | consecutiveFailures | halfOpenSuccesses =>
    exact h.same (Int.le_refl _) rfl ((openUntil_set _ _ _).trans (if_neg (by decide))) rfl rfl
  | openUntilNanos =>
    refine ⟨h.clock, fun hSet => ?_⟩
    simp only [openUntil_set, if_true]
    by_cases hx : x = 0
    · exact .inl ⟨g, List.mem_cons_self, hPermit hx⟩
    · exact (h.flag hSet).imp_right fun hOld => ⟨hx, hOld.2⟩

theorem watched_cas (h : Watched w (g :: gs)) {taken : Bool} {b : Breaker}
    (hApply : BreakerOp.apply (.casProbing false true) w.breaker = (taken, b))
    (hFresh : FreshProbe w (g :: gs) ⟨.field (.casProbing false true), taken⟩) :
    Watched ⟨b, w.clock⟩
      (probeDiscipline.next g ⟨.field (.casProbing false true), taken⟩ :: gs) := by
  rw [BreakerOp.apply] at hApply
  split at hApply
  next =>
    cases hApply
    refine ⟨h.clock, fun _ => ?_⟩
    rcases hFresh with hOpen | hOwed
    · exact .inr ⟨hOpen, _, List.mem_cons_self, rfl⟩
    · refine .inl ?_
      rw [List.exists_mem_cons_iff] at hOwed ⊢
      exact hOwed
  next =>
    cases hApply
    exact h

end Step

theorem watched_kept (cfg : BreakerConfig) : probeDiscipline.KeptIf (C := BreakerCall)
    (breakerSystem cfg).machine (fun _ => .idle) FreshProbe Watched where
  perm := by
    intro w gs gs' hPerm h
    refine ⟨h.clock, fun hSet => ?_⟩
    simpa only [hPerm.mem_iff] using h.flag hSet
  condPerm := by
    intro w gs gs' e hPerm h
    unfold FreshProbe at h ⊢
    split
    next => simpa only [hPerm.mem_iff] using h
    next => trivial
  fresh := by
    intro w gs c h
    refine ⟨h.clock, fun hSet => ?_⟩
    simpa [List.exists_mem_cons_iff, ProbeAccount.idle] using h.flag hSet
  step := by
    rintro w g gs ⟨o, r⟩ w' h hFresh hPermit hAssumed ⟨choice, hExec⟩
    cases o with
    | now =>
      have hNow : w.exec .now choice = some (r, w') := hExec
      simp only [ClockedBreaker.exec] at hNow
      split_ifs at hNow with hClock
      cases hNow
      exact h.same (not_lt.mp hClock) rfl rfl rfl rfl
    | field o =>
      cases hExec
      cases o with
      | load c => exact watched_load h c hPermit
      | store c x => exact watched_store h c x hPermit
      | add c d =>
        have hUntil : (w.breaker.set c (w.breaker.counters c + d)).openUntil =
            w.breaker.openUntil := (openUntil_set _ _ _).trans (if_neg (Ne.symm hPermit))
        exact h.same (Int.le_refl _) rfl hUntil rfl rfl
      | storeProbing p =>
        obtain rfl : p = false := hPermit
        exact ⟨h.clock, fun hSet => nomatch hSet⟩
      | casProbing old new =>
        obtain ⟨rfl, rfl⟩ := hPermit
        exact watched_cas h rfl hFresh

/-- Nobody takes the probe of a breaker that has been closed since they looked, unless
another caller still has to clear the flag. -/
def TakesFresh (p : BreakerPool) (_ : BreakerThread) (e : Event BreakerHost) : Prop :=
  FreshProbe p.state (p.accounts probeDiscipline fun _ => .idle) e

section Runs

variable {cfg : BreakerConfig} {start : BreakerPool → BreakerCall → Prop} {clock : Nat}
  {q : BreakerPool}

theorem watched_of_reach (h : (breakerSystem cfg).Reach start TakesFresh (freshBreaker clock) q) :
    Watched q.state (q.accounts probeDiscipline fun _ => .idle) ∧
      ∀ th ∈ q.threads, probeDiscipline.Obeys (fun _ g => g.Free) th.prog
        (probeDiscipline.account .idle th.hist) := by
  refine h.accountsIf (watched_kept cfg) (obeys_breakerCall cfg) ?_ (fun _ _ _ hc => hc) rfl
    ⟨Int.natCast_nonneg clock, fun hSet => nomatch hSet⟩
  rintro p th ⟨o, r⟩ w hWatched - ⟨choice, hExec⟩ -
  cases o with
  | field o => trivial
  | now =>
    have hNow : p.state.exec .now choice = some (r, w) := hExec
    simp only [ClockedBreaker.exec] at hNow
    split_ifs at hNow with hClock
    cases hNow
    exact Int.le_trans hWatched.clock (not_lt.mp hClock)

theorem allowAt_of_not_probing {b : Breaker} {now : Int} (hFlag : b.probing = false)
    (hNow : b.openUntil ≤ now) : (b.allowAt now).1 = true := by
  rw [Breaker.allowAt]
  split
  next => rfl
  next => rw [if_neg (not_lt.mpr hNow), hFlag]; rfl

/-- In every run in which no closed breaker's probe is taken so: when no caller is in the
middle of a call, the flag is clear, and `Allow` admits a call once the window is over. -/
theorem never_wedged (h : (breakerSystem cfg).Reach (fun _ _ => True) TakesFresh
      (freshBreaker clock) q) (hIdle : ∀ th ∈ q.threads, th.Done) :
    q.state.breaker.probing = false ∧
      ∀ now, q.state.breaker.openUntil ≤ now → (q.state.breaker.allowAt now).1 = true := by
  obtain ⟨hWatched, hObeys⟩ := watched_of_reach h
  have hFree : ∀ g ∈ q.accounts probeDiscipline fun _ => .idle, g.Free := by
    rintro g hg
    obtain ⟨th, hth, rfl⟩ := List.mem_map.mp hg
    obtain ⟨a, hDone⟩ := hIdle th hth
    have hEnd := hObeys th hth
    rw [hDone] at hEnd
    exact hEnd
  have hFlag : q.state.breaker.probing = false := by
    cases hSet : q.state.breaker.probing with
    | false => rfl
    | true =>
      rcases hWatched.flag hSet with ⟨g, hg, hClears⟩ | ⟨-, g, hg, hHolds⟩
      · exact absurd ((hFree g hg).2.symm.trans hClears) Bool.false_ne_true
      · exact absurd ((hFree g hg).1.symm.trans hHolds) Bool.false_ne_true
  exact ⟨hFlag, fun now hNow => allowAt_of_not_probing hFlag hNow⟩

end Runs

def takesFresh (p : BreakerPool) (_ : BreakerThread) : Event BreakerHost → Bool
  | ⟨.field (.casProbing _ _), true⟩ => isOpen p.state.breaker.openUntil ||
      (p.accounts probeDiscipline fun _ => .idle).any (·.clears)
  | _ => true

theorem takesFresh_sound {p : BreakerPool} {th : BreakerThread} {e : Event BreakerHost}
    (h : takesFresh p th e = true) : TakesFresh p th e := by
  unfold TakesFresh FreshProbe
  split
  next => simpa [takesFresh, isOpen] using h
  next => trivial

/-- A backend call fails, and later a filter call is let through and succeeds. -/
def probedPool : BreakerPool :=
  ((breakerSystem shortConfig).play (fun _ _ => true) takesFresh
    [.begin (.backend false), .run 0 6 (clockAt 0),
      .begin (.filter true), .run 1 9 (clockAt 5)] (freshBreaker 0)).get rfl

theorem never_wedged_probed : probedPool.state.breaker.probing = false := by
  have hReach : (breakerSystem shortConfig).Reach (fun _ _ => True) TakesFresh
      (freshBreaker 0) probedPool :=
    System.reach_get_play (fun _ _ _ => trivial) (fun _ _ _ h => takesFresh_sound h) rfl
  have hDone : probedPool.threads.all Thread.isDone = true := rfl
  exact (never_wedged hReach fun th hth =>
    Thread.isDone_iff.mp (List.all_eq_true.mp hDone th hth)).1

/-- A filter call finds the window over, another one closes the breaker, and then the
first takes the probe. It finds the breaker closed when it records, and a failure opens
the breaker again. -/
def wedgedPool : BreakerPool :=
  ((breakerSystem shortConfig).play (fun _ _ => true) (fun _ _ _ => true)
    [.begin (.backend false), .run 0 6 (clockAt 0),
      .begin (.filter true), .run 1 2 (clockAt 5),
      .begin (.filter true), .run 2 9 (clockAt 5), .run 1 3 (clockAt 5),
      .begin (.backend false), .run 3 6 (clockAt 10)] (freshBreaker 0)).get rfl

theorem breaker_wedges : (breakerSystem shortConfig).Reach (fun _ _ => True) (fun _ _ _ => True)
      (freshBreaker 0) wedgedPool ∧
    (∀ th ∈ wedgedPool.threads, th.Done) ∧ wedgedPool.state.breaker.openUntil = 11 ∧
    (wedgedPool.state.breaker.allowAt 20).1 = false := by
  have hDone : wedgedPool.threads.all Thread.isDone = true := rfl
  refine ⟨System.reach_get_play (fun _ _ _ => trivial) (fun _ _ _ _ => trivial) rfl, ?_, rfl, rfl⟩
  exact fun th hth => Thread.isDone_iff.mp (List.all_eq_true.mp hDone th hth)

end Moduless.PluginHost
