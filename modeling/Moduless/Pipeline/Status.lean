import Moduless.Pipeline.Kept

/-!
The status of the response on its way through the filters: no filter can set it, and the
filters of the response phases are told what the context has recorded.
-/

namespace Moduless.PluginHost
open Go Pipeline Interaction

/-- Operations that neither write a response nor call a filter nor start a goroutine. -/
def Op.Quiet : Op → Prop
  | .ask (.respond _ _ _) | .ask (.filterCall _ _ _) | .go _ => False
  | _ => True

theorem quiet_allow (i : Instance) : i.allow.Uses Op.Quiet := by
  simp [Instance.allow, Op.Quiet]

theorem quiet_recordSuccess (i : Instance) : i.recordSuccess.Uses Op.Quiet := by
  simp [Instance.recordSuccess, Op.Quiet]

theorem quiet_recordFailure (i : Instance) : i.recordFailure.Uses Op.Quiet := by
  simp [Instance.recordFailure, Op.Quiet]

theorem quiet_pick (snap : Snapshot) (key : Str) : (snap.pick key).Uses Op.Quiet :=
  uses_pick (fun _ => trivial) (fun _ _ => trivial) (fun _ _ => trivial) snap key

theorem quiet_registryTarget (key : Str) : (registryTarget key).Uses Op.Quiet :=
  uses_op trivial fun snap => quiet_pick snap key

end Moduless.PluginHost

namespace Moduless.Pipeline
open Go PluginHost Interaction

theorem quiet_admitKey (rc : RequestContext) (key : Str) (i : Instance) :
    (rc.admitKey key i).Uses Op.Quiet := by
  unfold RequestContext.admitKey
  split
  next => trivial
  next =>
    refine Program.uses_bind (uses_beginRequest (fun _ => trivial) (fun _ _ => trivial)
      (fun _ => trivial) i) fun release => ?_
    cases release <;> trivial

theorem quiet_releaseLoop (rc : RequestContext) (order : List Str) :
    (rc.releaseLoop order).Uses Op.Quiet := by
  induction order generalizing rc with
  | nil => trivial
  | cons key order ih =>
    unfold RequestContext.releaseLoop
    split
    next => exact ih rc
    next lease _ =>
      refine Program.uses_bind ?_ fun _ => ih _
      simp [Lease.end_, Op.Quiet]

theorem quiet_releaseAdmissions (rc : RequestContext) : rc.releaseAdmissions.Uses Op.Quiet :=
  uses_ask trivial fun _ => quiet_releaseLoop rc _

theorem quiet_applyDecision (phase : Phase) (f : Filter) (rc : RequestContext)
    (resp : FilterResponse) : (applyDecision phase f rc resp).Uses Op.Quiet := by
  unfold applyDecision
  split
  next =>
    split
    next => simp [Op.Quiet]
    next => trivial
  next => simp [Op.Quiet]
  next => trivial

def SameStatus (rc rc' : RequestContext) : Prop := rc'.responseStatus = rc.responseStatus

theorem statusKept (phase : Phase) : Kept (fun _ => True) phase SameStatus where
  refl _ := rfl
  trans h h' := Eq.trans h' h
  admissions _ _ := rfl
  protoHeaders _ _ := rfl
  mutation rc resp allow _ _ := by cases resp.mutation <;> rfl

theorem upstreamStatus_built (rc : RequestContext) (phase : Phase) (f : Filter) (now : Int) :
    (rc.buildFilterRequest phase f now).1.upstreamStatus =
      if isResponsePhase phase then rc.responseStatus else 0 := by
  unfold RequestContext.buildFilterRequest RequestContext.wireHeaders
  cases rc.protoHeaders <;> rfl

section Filters

variable {N : Op → Prop} {phase : Phase} {rc : RequestContext}

theorem sameStatus_runOne (f : Filter) :
    (runOne phase f rc).Returns fun out => SameStatus rc out.2 :=
  returns_of_answering ((statusKept phase).runOne f)

theorem sameStatus_run (chain : Chain) :
    (run chain phase rc).Returns fun out => SameStatus rc out.2 :=
  returns_of_answering ((statusKept phase).run chain)

/-- What a filter of the phase is told about the response. -/
def Told (phase : Phase) (rc : RequestContext) (req : FilterRequest) : Prop :=
  isResponsePhase phase = true → req.upstreamStatus = rc.responseStatus

theorem uses_callFilter (hN : ∀ o : Op, o.Quiet → N o)
    (hCall : ∀ i req d, Told phase rc req → N (.ask (.filterCall i req d))) (f : Filter)
    (i : Instance) : (callFilter phase f i rc).Uses N := by
  refine uses_ask (hN _ trivial) fun now => uses_ask (hCall i _ _ fun hPhase => ?_) fun _ =>
    uses_ask (hN _ trivial) fun answer => ?_
  · rw [upstreamStatus_built, if_pos hPhase]
  · cases answer with
    | error e =>
      refine Program.uses_bind ((quiet_recordFailure i).mono hN) fun _ => ?_
      exact uses_ask (hN _ trivial) fun _ => trivial
    | ok resp =>
      refine Program.uses_bind ((quiet_recordSuccess i).mono hN) fun _ => ?_
      exact (quiet_applyDecision _ _ _ _).mono hN

theorem uses_runOne (hN : ∀ o : Op, o.Quiet → N o)
    (hCall : ∀ i req d, Told phase rc req → N (.ask (.filterCall i req d))) (f : Filter) :
    (runOne phase f rc).Uses N := by
  unfold runOne
  split
  next => exact uses_ask (hN _ trivial) fun _ => trivial
  next =>
    refine Program.uses_bind ((quiet_registryTarget _).mono hN) fun target => ?_
    cases target with
    | none => exact uses_ask (hN _ trivial) fun _ => trivial
    | some target =>
      refine Program.uses_bind ((quiet_allow target).mono hN) fun allowed => ?_
      refine Program.uses_ite.mpr ⟨fun _ => trivial, fun _ => ?_⟩
      refine Program.Uses.bind_returns ((quiet_admitKey rc _ target).mono hN)
        ((statusKept phase).admitKey _ target) fun admitted hSame => ?_
      refine Program.uses_ite.mpr ⟨fun _ => uses_ask (hN _ trivial) fun _ => trivial, fun _ => ?_⟩
      refine uses_callFilter hN (fun i req d hTold => hCall i req d fun hPhase => ?_) f target
      exact (hTold hPhase).trans hSame

theorem uses_runFilters (hN : ∀ o : Op, o.Quiet → N o)
    (hCall : ∀ i req d, Told phase rc req → N (.ask (.filterCall i req d))) (fs : List Filter) :
    (runFilters phase fs rc).Uses N := by
  induction fs generalizing rc with
  | nil => trivial
  | cons f fs ih =>
    unfold runFilters
    split
    next => exact ih hCall
    next =>
      refine Program.Uses.bind_returns (uses_runOne hN hCall f) (sameStatus_runOne f)
        fun out hSame => ?_
      split
      next => trivial
      next => exact ih fun i req d hTold => hCall i req d fun hPhase => (hTold hPhase).trans hSame

/-- The operations of a phase: quiet ones, and calls of filters that are told the status
recorded in the context. -/
theorem uses_run (hN : ∀ o : Op, o.Quiet → N o)
    (hCall : ∀ i req d, Told phase rc req → N (.ask (.filterCall i req d))) (chain : Chain) :
    (run chain phase rc).Uses N := by
  unfold run
  split
  next => trivial
  next => exact uses_runFilters hN hCall _

end Filters

def TellsStatus (status : Int) : Op → Prop
  | .ask (.filterCall _ req _) => req.upstreamStatus = status
  | _ => True

theorem tellsStatus_of_quiet {status : Int} (o : Op) (h : o.Quiet) : TellsStatus status o := by
  cases o with
  | ask q => cases q <;> first | exact h.elim | trivial
  | _ => trivial

theorem log_told {chain : Chain} {rc : AsyncContext} {u : List (Event Host)} {q : HostM Unit}
    {i : Instance} {req : FilterRequest} {d : Duration} (h : (runLog chain rc).Leads u q)
    (hCall : ⟨.ask (.filterCall i req d), ()⟩ ∈ u) :
    req.upstreamStatus = rc.val.responseStatus := by
  have hUses : (runLog chain rc).Uses (TellsStatus rc.val.responseStatus) := by
    refine Program.uses_bind (uses_run tellsStatus_of_quiet (fun _ _ _ hTold => hTold rfl) chain)
      fun out => ?_
    refine Program.uses_bind ((quiet_releaseAdmissions _).mono tellsStatus_of_quiet) fun _ => ?_
    trivial
  exact hUses.hist h _ hCall

end Moduless.Pipeline
