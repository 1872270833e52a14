import Moduless.PluginHost.Host

/-!
What a request and a drain do to one instance: reserving and releasing
capacity, the circuit breaker, draining, and the choice of a replica.
-/

namespace Moduless.PluginHost
open Go Pipeline Interaction

/-- A loop that has used up its bound goes on for ever. -/
def diverge {α : Type} : HostM α := .call (I := Host) .diverge fun e => nomatch e

inductive HostError where
  | notInstalled (key : Str)
  | pluginDisabled (key : Str)
  | dataDirFailed (key : Str)
  | launchFailed (key : Str)
  | reloadFailed (key : Str) (e : PackageError)
  | upgradeFailed (key : Str) (e : HostError)
  | drainCancelled (key : Str) (remaining : Int)
  | drainTimedOut (key : Str) (timeout : Duration) (remaining : Int)

namespace Instance

/-- `some` lease when the instance accepted the request. -/
def beginRequest (i : Instance) : HostM (Option Lease) := do
  let st ← op (.loadState i)
  if st ≠ .ready then pure none
  else
    let _ ← op (.addInflight i 1)
    let st ← op (.loadState i)
    if st ≠ .ready then
      let _ ← op (.addInflight i (-1))
      pure none
    else
      let lease ← op (.newDone i)
      pure (some lease)

end Instance

/-- The function `BeginRequest` returns. -/
def Lease.end_ (l : Lease) : HostM Unit := do
  let won ← op (.casDone l)
  if won then
    let _ ← op (.addInflight l.inst (-1))
    pure ()
  else pure ()

namespace Instance

/-- The loop at the end of `terminate`: quarantine outlives the process. -/
def markStopped (i : Instance) : Nat → HostM Unit
  | 0 => diverge
  | n + 1 => do
      let cur ← op (.loadState i)
      if cur = .quarantined then pure ()
      else
        let swapped ← op (.casState i cur .stopped)
        if swapped then pure () else markStopped i n

def terminate (i : Instance) : HostM Unit := do
  let _ ← op (.kill i)
  let n ← ask .bound
  i.markStopped n

def drainLoop (i : Instance) (timeout : Duration) (deadline : Int) : Nat → HostM (Option HostError)
  | 0 => diverge
  | n + 1 => do
      let inflight ← op (.loadInflight i)
      if inflight > 0 then
        let wake ← ask .select
        match wake with
        | .timer =>
          let now ← ask .now
          if now > deadline then
            let remaining ← op (.loadInflight i)
            i.terminate
            pure (some (.drainTimedOut i.key timeout remaining))
          else drainLoop i timeout deadline n
        | _ =>
          let remaining ← op (.loadInflight i)
          i.terminate
          pure (some (.drainCancelled i.key remaining))
      else
        i.terminate
        pure none

def drain (i : Instance) (timeout : Duration) : HostM (Option HostError) := do
  let _ ← op (.storeState i .draining)
  let _ ← ask (.shutdown i timeout)
  let start ← ask .now
  let n ← ask .bound
  i.drainLoop timeout (start + timeout) n

/-- `Breaker.Allow`. -/
def allow (i : Instance) : HostM Bool := do
  let until_ ← op (.breaker i (.load .openUntilNanos))
  if until_ = 0 then pure true
  else
    let now ← ask .now
    if now < until_ then pure false
    else op (.breaker i (.casProbing false true))

def recordSuccess (i : Instance) : HostM Unit := do
  let _ ← op (.breaker i (.store .consecutiveFailures 0))
  let until_ ← op (.breaker i (.load .openUntilNanos))
  if until_ = 0 then pure ()
  else
    let n ← op (.breaker i (.add .halfOpenSuccesses 1))
    if n ≥ defaultBreakerConfig.halfOpenSuccesses then
      let _ ← op (.breaker i (.store .openUntilNanos 0))
      let _ ← op (.breaker i (.store .halfOpenSuccesses 0))
      op (.breaker i (.storeProbing false))
    else op (.breaker i (.storeProbing false))

def recordFailure (i : Instance) : HostM Unit := do
  let _ ← op (.breaker i (.store .halfOpenSuccesses 0))
  let until_ ← op (.breaker i (.load .openUntilNanos))
  if until_ ≠ 0 then
    let now ← ask .now
    let _ ← op (.breaker i (.store .openUntilNanos (now + defaultBreakerConfig.openDuration)))
    op (.breaker i (.storeProbing false))
  else
    let n ← op (.breaker i (.add .consecutiveFailures 1))
    if n ≥ defaultBreakerConfig.failureThreshold then
      let now ← ask .now
      let _ ← op (.breaker i (.store .openUntilNanos (now + defaultBreakerConfig.openDuration)))
      op (.breaker i (.store .consecutiveFailures 0))
    else pure ()

end Instance

/-- The states of the replicas, read one after the other. -/
def loadStates : List Instance → HostM (List State)
  | [] => pure []
  | i :: rest => do
      let st ← op (.loadState i)
      let sts ← loadStates rest
      pure (st :: sts)

def firstServable : List Instance → HostM (Option Instance)
  | [] => pure none
  | i :: rest => do
      let st ← op (.loadState i)
      if st.servable then pure (some i) else firstServable rest

/-- `replicaSet.pick`. The states are read one by one; the counters change in
one step, as the mutex makes them. -/
def ReplicaSet.pick (rs : ReplicaSet) : HostM (Option Instance) :=
  match rs.instances with
  | [] => pure none
  | [i] => do
      let st ← op (.loadState i)
      if st.servable then pure (some i) else pure none
  | instances => do
      let states ← loadStates instances
      let best ← op (.choose rs states)
      match best with
      | some i => pure (some i)
      | none => firstServable instances

def Snapshot.pick (snap : Snapshot) (key : Str) : HostM (Option Instance) :=
  match snap.plugins.get key with
  | none => pure none
  | some rs => do
      let found ← rs.pick
      match found with
      | none => pure none
      | some i =>
        let _ ← op (.picked key i)
        pure (some i)

/-- `Registry.Target`: the pick is made in the live snapshot. -/
def registryTarget (key : Str) : HostM (Option Instance) := do
  let snap ← op .current
  snap.pick key

section Picking

variable {N : Op → Prop} (hLoad : ∀ i, N (.loadState i))
include hLoad

theorem uses_loadStates (is : List Instance) : (loadStates is).Uses N := by
  induction is with
  | nil => trivial
  | cons i is ih => exact uses_op (hLoad i) fun st => Program.uses_bind ih fun _ => trivial

theorem uses_firstServable (is : List Instance) : (firstServable is).Uses N := by
  induction is with
  | nil => trivial
  | cons i is ih =>
    exact uses_op (hLoad i) fun st => Program.uses_ite.mpr ⟨fun _ => trivial, fun _ => ih⟩

theorem uses_replicaPick (hChoose : ∀ rs states, N (.choose rs states)) (rs : ReplicaSet) :
    rs.pick.Uses N := by
  unfold ReplicaSet.pick
  split
  next => trivial
  next i _ =>
    exact uses_op (hLoad i) fun st => Program.uses_ite.mpr ⟨fun _ => trivial, fun _ => trivial⟩
  next =>
    refine Program.uses_bind (uses_loadStates hLoad _) fun states => ?_
    refine uses_op (hChoose rs states) fun best => ?_
    cases best with
    | some i => trivial
    | none => exact uses_firstServable hLoad _

theorem uses_pick (hChoose : ∀ rs states, N (.choose rs states))
    (hPicked : ∀ key i, N (.picked key i)) (snap : Snapshot) (key : Str) :
    (snap.pick key).Uses N := by
  unfold Snapshot.pick
  split
  next => trivial
  next rs _ =>
    refine Program.uses_bind (uses_replicaPick hLoad hChoose rs) fun found => ?_
    cases found with
    | none => trivial
    | some i => exact uses_op (hPicked key i) fun _ => trivial

theorem uses_beginRequest (hAdd : ∀ i d, N (.addInflight i d)) (hNew : ∀ i, N (.newDone i))
    (i : Instance) : i.beginRequest.Uses N := by
  simp [Instance.beginRequest, hLoad, hAdd, hNew]

end Picking

theorem picked_of_pick {snap : Snapshot} {key : Str} {t : List (Event Host)} {i : Instance}
    (h : (snap.pick key).Finishes t (some i)) : ⟨.picked key i, ()⟩ ∈ t := by
  unfold Snapshot.pick at h
  split at h
  next =>
    obtain ⟨_, heq⟩ := Program.finishes_ret.mp h
    cases heq
  next rs _ =>
    obtain ⟨found, u, v, rfl, _, hv⟩ := Program.finishes_bind.mp h
    cases found with
    | none =>
      obtain ⟨_, heq⟩ := Program.finishes_ret.mp hv
      cases heq
    | some j =>
      obtain ⟨_, w, rfl, hw⟩ := finishes_op.mp hv
      obtain ⟨_, heq⟩ := Program.finishes_ret.mp hw
      cases heq
      simp

theorem picked_of_registryTarget {key : Str} {t : List (Event Host)} {i : Instance}
    (h : (registryTarget key).Finishes t (some i)) : ⟨.picked key i, ()⟩ ∈ t := by
  obtain ⟨snap, u, rfl, hu⟩ := finishes_op.mp h
  exact List.mem_cons_of_mem _ (picked_of_pick hu)

end Moduless.PluginHost
