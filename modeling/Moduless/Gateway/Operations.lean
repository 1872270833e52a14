import Moduless.Gateway.PluginHandler

/-!
The operations a request performs. Everything the gateway and the runner do,
apart from the hand-over to Core's own handlers, stays within `Op.Serving`: a
request never changes the registry, the enabled set or an instance's state, and
never launches or kills a process. Most of its parts are `Op.Plain`: they do not
reserve anything and do not call a plugin either; all but the question about the
session are `Op.Routine`.
-/

namespace Moduless.PluginHost
open Go Pipeline Interaction

def Op.Serving : Op → Prop
  | .ask (.next _) => False
  | .ask _ | .loadState _ | .addInflight _ _ | .newDone _ | .casDone _ | .breaker _ _
  | .go (.log _ _) | .current | .choose _ _ | .picked _ _ => True
  | _ => False

def Op.Plain : Op → Prop
  | .ask (.next _) | .ask (.filterCall _ _ _) | .ask (.filterReturn _) | .ask (.httpCall _ _ _)
  | .ask (.httpReturn _) => False
  | .ask _ | .loadState _ | .breaker _ _ | .current | .choose _ _ => True
  | _ => False

/-- Plain, and not about the session. -/
def Op.Routine : Op → Prop
  | .ask (.resolveUser _) => False
  | o => o.Plain

theorem Op.Plain.serving {o : Op} (h : o.Plain) : o.Serving := by
  cases o with
  | ask q => cases q <;> trivial
  | _ => trivial

theorem Op.Routine.plain {o : Op} (h : o.Routine) : o.Plain := by
  cases o with
  | ask q => cases q <;> trivial
  | _ => exact h

theorem serving_of_routine {α : Type} {p : HostM α} (h : p.Uses Op.Routine) :
    p.Uses Op.Serving :=
  h.mono fun _ ho => ho.plain.serving

theorem serving_beginRequest (i : Instance) : i.beginRequest.Uses Op.Serving :=
  uses_beginRequest (fun _ => trivial) (fun _ _ => trivial) (fun _ => trivial) i

theorem serving_end (l : Lease) : l.end_.Uses Op.Serving := by
  simp [Lease.end_, Op.Serving]

theorem routine_allow (i : Instance) : i.allow.Uses Op.Routine := by
  simp [Instance.allow, Op.Routine, Op.Plain]

theorem routine_recordSuccess (i : Instance) : i.recordSuccess.Uses Op.Routine := by
  simp [Instance.recordSuccess, Op.Routine, Op.Plain]

theorem routine_recordFailure (i : Instance) : i.recordFailure.Uses Op.Routine := by
  simp [Instance.recordFailure, Op.Routine, Op.Plain]

theorem routine_replicaPick (rs : ReplicaSet) : rs.pick.Uses Op.Routine :=
  uses_replicaPick (fun _ => trivial) (fun _ _ => trivial) rs

theorem serving_pick (snap : Snapshot) (key : Str) : (snap.pick key).Uses Op.Serving :=
  uses_pick (fun _ => trivial) (fun _ _ => trivial) (fun _ _ => trivial) snap key

theorem serving_registryTarget (key : Str) : (registryTarget key).Uses Op.Serving :=
  uses_op trivial fun snap => serving_pick snap key

end Moduless.PluginHost

namespace Moduless.Pipeline
open Go PluginHost Interaction

theorem serving_admitKey (rc : RequestContext) (key : Str) (i : Instance) :
    (rc.admitKey key i).Uses Op.Serving := by
  unfold RequestContext.admitKey
  split
  next => trivial
  next =>
    refine Program.uses_bind (serving_beginRequest i) fun release => ?_
    cases release <;> trivial

theorem serving_releaseLoop (rc : RequestContext) (order : List Str) :
    (rc.releaseLoop order).Uses Op.Serving := by
  induction order generalizing rc with
  | nil => trivial
  | cons key order ih =>
    unfold RequestContext.releaseLoop
    split
    next => exact ih rc
    next lease _ => exact Program.uses_bind (serving_end lease) fun _ => ih _

theorem serving_releaseAdmissions (rc : RequestContext) :
    rc.releaseAdmissions.Uses Op.Serving :=
  uses_ask trivial fun _ => serving_releaseLoop rc _

theorem routine_applyDecision (phase : Phase) (f : Filter) (rc : RequestContext)
    (resp : FilterResponse) : (applyDecision phase f rc resp).Uses Op.Routine := by
  unfold applyDecision
  split
  next =>
    split
    next => simp [Op.Routine, Op.Plain]
    next => trivial
  next => simp [Op.Routine, Op.Plain]
  next => trivial

theorem serving_callFilter (phase : Phase) (f : Filter) (i : Instance) (rc : RequestContext) :
    (callFilter phase f i rc).Uses Op.Serving := by
  refine uses_ask trivial fun now => uses_ask trivial fun _ => uses_ask trivial fun answer => ?_
  cases answer with
  | error e =>
    exact Program.uses_bind (serving_of_routine (routine_recordFailure i)) fun _ =>
      uses_ask trivial fun _ => trivial
  | ok resp =>
    exact Program.uses_bind (serving_of_routine (routine_recordSuccess i)) fun _ =>
      serving_of_routine (routine_applyDecision _ _ _ _)

theorem serving_runOne (phase : Phase) (f : Filter) (rc : RequestContext) :
    (runOne phase f rc).Uses Op.Serving := by
  unfold runOne
  split
  next => simp [Op.Serving]
  next =>
    refine Program.uses_bind (serving_registryTarget _) fun target => ?_
    cases target with
    | none => simp [Op.Serving]
    | some target =>
      refine Program.uses_bind (serving_of_routine (routine_allow target)) fun allowed => ?_
      rw [Program.uses_ite]
      refine ⟨fun _ => trivial, fun _ => ?_⟩
      refine Program.uses_bind (serving_admitKey rc _ target) fun admitted => ?_
      rw [Program.uses_ite]
      exact ⟨fun _ => by simp [Op.Serving], fun _ => serving_callFilter _ _ _ _⟩

theorem serving_runFilters (phase : Phase) (fs : List Filter) (rc : RequestContext) :
    (runFilters phase fs rc).Uses Op.Serving := by
  induction fs generalizing rc with
  | nil => trivial
  | cons f fs ih =>
    unfold runFilters
    split
    next => exact ih rc
    next =>
      refine Program.uses_bind (serving_runOne phase f rc) fun out => ?_
      split
      next => trivial
      next => exact ih _

theorem serving_run (chain : Chain) (phase : Phase) (rc : RequestContext) :
    (run chain phase rc).Uses Op.Serving := by
  unfold run
  split
  next => trivial
  next => exact serving_runFilters _ _ _

theorem serving_runAsync (chain : Chain) (rc : AsyncContext) :
    (runAsync chain rc).Uses Op.Serving := by
  unfold runAsync
  split
  next => trivial
  next => exact ⟨trivial, fun _ => trivial⟩

theorem serving_runLog (chain : Chain) (rc : AsyncContext) : (runLog chain rc).Uses Op.Serving :=
  Program.uses_bind (serving_run _ _ _) fun _ =>
    Program.uses_bind (serving_releaseAdmissions _) fun _ => trivial

end Moduless.Pipeline

namespace Moduless.Gateway
open Go Pipeline PluginHost Interaction

theorem routine_httpError (message : Str) (code : Int) :
    (httpError message code).Uses Op.Routine := ⟨trivial, fun _ => trivial⟩

theorem routine_traceIDFor (r : Request) : (traceIDFor r).Uses Op.Routine := by
  unfold traceIDFor
  dsimp only
  split <;> simp [Op.Routine, Op.Plain]

theorem routine_writeResponse (rc : RequestContext) (resp : HttpResponse) :
    (writeResponse rc resp).Uses Op.Routine := ⟨trivial, fun _ => trivial⟩

theorem serving_runPhase (chain : Chain) (phase : Phase) (rc : RequestContext) :
    (runPhase chain phase rc).run.Uses Op.Serving := by
  refine Program.uses_lift (serving_run chain phase rc) fun out => ?_
  split
  next => exact Program.uses_lift (serving_of_routine (routine_writeResponse _ _)) fun _ => trivial
  next => trivial

namespace PluginHandler

variable (h : PluginHandler)

theorem routine_readBody (r : Request) : (h.readBody r).Uses Op.Routine := by
  unfold readBody
  split
  next => trivial
  next =>
    refine uses_ask trivial fun delivered => ?_
    rw [Program.uses_ite]
    exact ⟨fun _ => trivial, fun _ =>
      Program.uses_bind (routine_httpError _ _) fun _ => trivial⟩

theorem routine_bufferBody (needed : Bool) (r : Request) (rc : RequestContext) :
    (h.bufferBody needed r rc).run.Uses Op.Routine := by
  unfold bufferBody
  split
  next =>
    refine Program.uses_lift (h.routine_readBody r) fun read => ?_
    split <;> trivial
  next => trivial

theorem plain_resolveIdentity (r : Request) (rc : RequestContext) :
    (h.resolveIdentity r rc).Uses Op.Plain := by
  unfold resolveIdentity
  rw [Program.uses_ite]
  refine ⟨fun _ => uses_ask trivial fun user => ?_, fun _ => trivial⟩
  cases user <;> trivial

theorem serving_beforeRouting (chain : Chain) (r : Request) (rc : RequestContext) :
    (h.beforeRouting chain r rc).run.Uses Op.Serving := by
  refine Program.uses_early (serving_of_routine (h.routine_bufferBody _ r rc)) fun read => ?_
  refine Program.uses_early (serving_runPhase _ _ _) fun rc => ?_
  split
  next =>
    exact Program.uses_early (serving_of_routine (h.routine_bufferBody _ _ _)) fun _ => trivial
  next => trivial

theorem serving_beforeBackend (chain : Chain) (r : Request) (rc : RequestContext) :
    (h.beforeBackend chain r rc).run.Uses Op.Serving := by
  refine Program.uses_lift ((h.plain_resolveIdentity r rc).mono
    fun _ => Op.Plain.serving) fun rc => ?_
  refine Program.uses_early (serving_runPhase _ _ _) fun rc => ?_
  refine Program.uses_early (serving_runPhase _ _ _) fun rc => ?_
  split
  next => exact Program.uses_lift (serving_of_routine (routine_httpError _ _)) fun _ => trivial
  next =>
    refine Program.uses_early (serving_runPhase _ _ _) fun rc => ?_
    split
    next => exact Program.uses_lift (serving_of_routine (routine_httpError _ _)) fun _ => trivial
    next => trivial

theorem serving_route (chain : Chain) (r : Request) (rc : RequestContext) :
    (h.route chain r rc).run.Uses Op.Serving := by
  refine Program.uses_early (h.serving_beforeRouting _ r rc) fun routed => ?_
  split
  next => exact Program.uses_early (h.serving_beforeBackend _ _ _) fun _ => trivial
  next => trivial

theorem serving_dispatch (i : Instance) (sub : Str) (rc : RequestContext) :
    (h.dispatch i sub rc).Uses Op.Serving := by
  refine uses_ask trivial fun _ => uses_ask trivial fun answer => ?_
  cases answer with
  | error e =>
    exact Program.uses_bind (serving_of_routine (routine_recordFailure i)) fun _ => trivial
  | ok resp =>
    exact Program.uses_bind (serving_of_routine (routine_recordSuccess i)) fun _ => trivial

theorem serving_callLive (inst : Option Instance) (key sub : Str) (rc : RequestContext) :
    (h.callLive inst key sub rc).Uses Op.Serving := by
  refine uses_op trivial fun cur => Program.uses_bind (serving_pick cur key) fun next => ?_
  split
  next => trivial
  next =>
    rw [Program.uses_ite]
    refine ⟨fun _ => trivial, fun _ =>
      Program.uses_bind (serving_admitKey rc key _) fun admitted => ?_⟩
    rw [Program.uses_ite]
    exact ⟨fun _ => trivial, fun _ =>
      Program.uses_bind (h.serving_dispatch _ _ _) fun _ => trivial⟩

theorem serving_callBackend (snap : Snapshot) (key sub : Str) (rc : RequestContext) :
    (h.callBackend snap key sub rc).Uses Op.Serving := by
  refine Program.uses_bind (serving_pick snap key) fun inst => ?_
  split
  next => exact h.serving_callLive _ _ _ _
  next =>
    refine Program.uses_bind (serving_admitKey rc key _) fun admitted => ?_
    rw [Program.uses_ite]
    exact ⟨fun _ => h.serving_callLive _ _ _ _, fun _ =>
      Program.uses_bind (h.serving_dispatch _ _ _) fun _ => trivial⟩

theorem serving_finish (chain : Chain) (rc : RequestContext) :
    (finish chain rc).run.Uses Op.Serving := by
  refine Program.uses_early (serving_runPhase _ _ _) fun rc => ?_
  exact Program.uses_lift ⟨trivial, fun _ => trivial⟩ fun _ => trivial

theorem serving_afterBackend (chain : Chain) (result : Except BackendError HttpResponse)
    (rc : RequestContext) : (afterBackend chain result rc).run.Uses Op.Serving := by
  cases result with
  | error e =>
    refine Program.uses_early (serving_runPhase _ _ _) fun rc => ?_
    exact Program.uses_lift (serving_of_routine (routine_httpError _ _)) fun _ => trivial
  | ok resp =>
    simp only [afterBackend, afterResponse]
    split
    next => exact Program.uses_early (serving_runPhase _ _ _) fun _ => serving_finish _ _
    next => exact serving_finish _ _

end PluginHandler
end Moduless.Gateway
