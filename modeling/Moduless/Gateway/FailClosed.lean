import Moduless.Gateway.PluginHandler
import Moduless.PluginHost.HostState

/-!
Fail-closed filters guard the backend.

`PhasePassed` describes a phase that let a request through, filter by filter
and with the request as it was at each filter's turn. A request reaches the
backend only after all four phases before it have been passed.
-/

namespace Moduless.Gateway
open Go Pathmatch Pipeline PluginHost Interaction

/-- In the events `u` the filter was called on an instance of its plugin, about
the request as it stands in `rc`, and gave an answer that does not stop it. -/
def Consulted (phase : Phase) (f : Filter) (rc : RequestContext) (u : List (Event Host)) : Prop :=
  ∃ target req resp u₁ u₂,
    u = u₁ ++ ⟨.ask (.filterCall target req f.timeout), ()⟩ ::
      ⟨.ask (.filterReturn target), .ok resp⟩ :: u₂ ∧
    ⟨.picked f.pluginKey target, ()⟩ ∈ u₁ ∧
    (req.phase = phase ∧ req.filterName = f.decl.name ∧ req.method = rc.method ∧
      req.path = rc.path) ∧
    ¬ (resp.action = .shortCircuit ∧ resp.shortCircuitResponse.isSome)

/-- The filters of a phase were gone through in order and let the request pass:
one whose patterns did not match the request at its turn was skipped, and a
fail-closed one that matched was consulted. -/
inductive PhasePassed (phase : Phase) :
    List Filter → RequestContext → List (Event Host) → RequestContext → Prop
  | done (rc : RequestContext) : PhasePassed phase [] rc [] rc
  | skip {f : Filter} {fs : List Filter} {rc rc' : RequestContext} {t : List (Event Host)} :
      f.matches rc.method rc.path = false → PhasePassed phase fs rc t rc' →
      PhasePassed phase (f :: fs) rc t rc'
  | turn {f : Filter} {fs : List Filter} {rc rc₁ rc' : RequestContext} {u v : List (Event Host)} :
      f.matches rc.method rc.path = true → (runOne phase f rc).Finishes u (none, rc₁) →
      (f.decl.failClosed = true → Consulted phase f rc u) → PhasePassed phase fs rc₁ v rc' →
      PhasePassed phase (f :: fs) rc (u ++ v) rc'

theorem failure_ne_none {f : Filter} (h : f.decl.failClosed = true) (status : Int)
    (message : Str) : Pipeline.failure f status message ≠ none := by
  simp [Pipeline.failure, h]

theorem admit_request {rc rc' : RequestContext} {key : Str} {i : Instance} {ok : Bool}
    {t : List (Event Host)} (h : (rc.admitKey key i).Finishes t (ok, rc')) :
    rc'.method = rc.method ∧ rc'.path = rc.path := by
  unfold RequestContext.admitKey at h
  split at h
  next =>
    obtain ⟨_, heq⟩ := Program.finishes_ret.mp h
    cases heq
    exact ⟨rfl, rfl⟩
  next =>
    obtain ⟨release, u, v, rfl, _, hv⟩ := Program.finishes_bind.mp h
    cases release with
    | none | some =>
      obtain ⟨_, heq⟩ := Program.finishes_ret.mp hv
      cases heq
      exact ⟨rfl, rfl⟩

theorem buildFilterRequest_request (rc : RequestContext) (phase : Phase) (f : Filter)
    (now : Int) :
    let req := (rc.buildFilterRequest phase f now).1
    req.phase = phase ∧ req.filterName = f.decl.name ∧ req.method = rc.method ∧
      req.path = rc.path := by
  simp only [RequestContext.buildFilterRequest, RequestContext.wireHeaders]
  split <;> simp

theorem applyDecision_passes {phase : Phase} {f : Filter} {rc rc' : RequestContext}
    {resp : FilterResponse} {t : List (Event Host)}
    (h : (applyDecision phase f rc resp).Finishes t (none, rc')) :
    ¬ (resp.action = .shortCircuit ∧ resp.shortCircuitResponse.isSome) := by
  rintro ⟨hAction, hSome⟩
  obtain ⟨sc, hsc⟩ := Option.isSome_iff_exists.mp hSome
  simp only [applyDecision, hAction, hsc] at h
  obtain ⟨_, heq⟩ := Program.finishes_ret.mp h
  cases heq

/-- A fail-closed filter whose call did not stop the request answered it, with
an answer that lets it pass. -/
theorem callFilter_passes {phase : Phase} {f : Filter} {i : Instance} {rc rc' : RequestContext}
    {t : List (Event Host)} (hClosed : f.decl.failClosed = true)
    (h : (callFilter phase f i rc).Finishes t (none, rc')) :
    ∃ now resp u, t = ⟨.ask .now, now⟩ ::
      ⟨.ask (.filterCall i (rc.buildFilterRequest phase f now).1 f.timeout), ()⟩ ::
      ⟨.ask (.filterReturn i), .ok resp⟩ :: u ∧
      ¬ (resp.action = .shortCircuit ∧ resp.shortCircuitResponse.isSome) := by
  obtain ⟨now, t₁, rfl, h₁⟩ := finishes_ask.mp h
  obtain ⟨_, t₂, rfl, h₂⟩ := finishes_ask.mp h₁
  obtain ⟨answer, t₃, rfl, h₃⟩ := finishes_ask.mp h₂
  cases answer with
  | error e =>
    obtain ⟨_, u₁, u₂, rfl, _, h₄⟩ := Program.finishes_bind.mp h₃
    obtain ⟨_, t₅, rfl, h₅⟩ := finishes_ask.mp h₄
    obtain ⟨_, heq⟩ := Program.finishes_ret.mp h₅
    exact absurd (congrArg Prod.fst heq) (failure_ne_none hClosed _ _)
  | ok resp =>
    obtain ⟨_, u₁, u₂, rfl, _, h₄⟩ := Program.finishes_bind.mp h₃
    exact ⟨now, resp, _, rfl, applyDecision_passes h₄⟩

/-- Every way in which a fail-closed filter can fail to decide stops the request. -/
theorem runOne_consulted {phase : Phase} {f : Filter} {rc rc' : RequestContext}
    {t : List (Event Host)} (hClosed : f.decl.failClosed = true)
    (h : (runOne phase f rc).Finishes t (none, rc')) : Consulted phase f rc t := by
  have hStop : ∀ {status message} {rc₁ rc₂ : RequestContext} {u : List (Event Host)},
      ¬ (Program.ret (Pipeline.failure f status message, rc₁) : HostM _).Finishes
        u (none, rc₂) := by
    intro status message rc₁ rc₂ u hu
    exact failure_ne_none hClosed _ _ (congrArg Prod.fst (Program.finishes_ret.mp hu).2)
  unfold runOne at h
  split at h
  next =>
    obtain ⟨_, t₁, rfl, h₁⟩ := finishes_ask.mp h
    exact (hStop h₁).elim
  next =>
    obtain ⟨target, u₁, t₁, rfl, hTarget, h₁⟩ := Program.finishes_bind.mp h
    cases target with
    | none =>
      obtain ⟨_, t₂, rfl, h₂⟩ := finishes_ask.mp h₁
      exact (hStop h₂).elim
    | some target =>
      obtain ⟨allowed, u₂, t₂, rfl, _, h₂⟩ := Program.finishes_bind.mp h₁
      split at h₂
      next => exact (hStop h₂).elim
      next =>
        obtain ⟨⟨ok, rc₁⟩, u₃, t₃, rfl, hAdmit, h₃⟩ := Program.finishes_bind.mp h₂
        split at h₃
        next =>
          obtain ⟨_, t₄, rfl, h₄⟩ := finishes_ask.mp h₃
          exact (hStop h₄).elim
        next =>
          obtain ⟨now, resp, u₄, rfl, hPass⟩ := callFilter_passes hClosed h₃
          obtain ⟨hMethod, hPath⟩ := admit_request hAdmit
          obtain ⟨hPhase, hName, hM, hP⟩ := buildFilterRequest_request rc₁ phase f now
          refine ⟨target, _, resp, u₁ ++ (u₂ ++ (u₃ ++ [⟨.ask .now, now⟩])), u₄, by simp, ?_,
            ⟨hPhase, hName, hM.trans hMethod, hP.trans hPath⟩, hPass⟩
          exact List.mem_append_left _ (picked_of_registryTarget hTarget)

theorem runFilters_passed {phase : Phase} {fs : List Filter} {rc rc' : RequestContext}
    {t : List (Event Host)} (h : (runFilters phase fs rc).Finishes t (none, rc')) :
    PhasePassed phase fs rc t rc' := by
  induction fs generalizing rc t with
  | nil =>
    obtain ⟨rfl, heq⟩ := Program.finishes_ret.mp h
    cases heq
    exact .done _
  | cons f fs ih =>
    unfold runFilters at h
    split at h
    next hSkip => exact .skip (by simpa using hSkip) (ih h)
    next hTurn =>
      obtain ⟨⟨out, rc₁⟩, u, v, rfl, hu, hv⟩ := Program.finishes_bind.mp h
      cases out with
      | some resp =>
        obtain ⟨_, heq⟩ := Program.finishes_ret.mp hv
        cases heq
      | none =>
        exact .turn (by simpa using hTurn) hu (fun hClosed => runOne_consulted hClosed hu)
          (ih hv)

theorem run_passed {chain : Chain} {phase : Phase} {rc rc' : RequestContext}
    {t : List (Event Host)} (h : (run chain phase rc).Finishes t (none, rc')) :
    PhasePassed phase (chain.filters phase) rc t rc' := by
  unfold run at h
  split at h
  next hNone =>
    obtain ⟨rfl, heq⟩ := Program.finishes_ret.mp h
    cases heq
    have hEmpty : chain.filters phase = [] := by
      simpa [Chain.hasPhase, Chain.filters] using hNone
    rw [hEmpty]
    exact .done _
  next => exact runFilters_passed h

theorem runPhase_passed {chain : Chain} {phase : Phase} {rc rc' : RequestContext}
    {t : List (Event Host)} (h : (runPhase chain phase rc).run.Finishes t (.ok rc')) :
    PhasePassed phase (chain.filters phase) rc t rc' := by
  obtain ⟨⟨out, rc₁⟩, u, v, rfl, hu, hv⟩ := Program.finishes_lift.mp h
  cases out with
  | some resp =>
    obtain ⟨_, _, _, rfl, _, hv⟩ := Program.finishes_lift.mp hv
    exact (Program.finishes_throw hv).elim
  | none =>
    obtain ⟨rfl, rfl⟩ := Program.finishes_pure.mp hv
    rw [List.append_nil]
    exact run_passed hu

/-- The steps between the phases do not change what filters are matched against. -/
def SameTarget (rc rc' : RequestContext) : Prop := rc'.method = rc.method ∧ rc'.path = rc.path

/-- The four phases before the backend were passed in order during the events
`t`; `u₀` and `u₁` are the events before the first and after it, when the body
is read and the session resolved. -/
def GuardsPassed (chain : Chain) (rc : RequestContext) (t : List (Event Host))
    (rc' : RequestContext) : Prop :=
  ∃ u₀ t₁ u₁ t₂ t₃ t₄ rc₁ rc₂ rc₃ rc₄ rc₅,
    t = u₀ ++ t₁ ++ u₁ ++ t₂ ++ t₃ ++ t₄ ∧
    SameTarget rc rc₁ ∧
    PhasePassed .preRoute (chain.filters .preRoute) rc₁ t₁ rc₂ ∧
    SameTarget rc₂ rc₃ ∧
    PhasePassed .authenticate (chain.filters .authenticate) rc₃ t₂ rc₄ ∧
    PhasePassed .authorize (chain.filters .authorize) rc₄ t₃ rc₅ ∧
    PhasePassed .preHandler (chain.filters .preHandler) rc₅ t₄ rc'

namespace PluginHandler

variable {h : PluginHandler}

theorem bufferBody_sameTarget {needed : Bool} {r : Request} {rc : RequestContext}
    {out : Request × RequestContext} {t : List (Event Host)}
    (hb : (h.bufferBody needed r rc).run.Finishes t (.ok out)) : SameTarget rc out.2 := by
  unfold bufferBody at hb
  split at hb
  next =>
    obtain ⟨⟨read, r₁⟩, u, v, rfl, _, hv⟩ := Program.finishes_lift.mp hb
    cases read with
    | none => exact (Program.finishes_throw hv).elim
    | some body =>
      obtain ⟨_, rfl⟩ := Program.finishes_pure.mp hv
      exact ⟨rfl, rfl⟩
  next =>
    obtain ⟨_, rfl⟩ := Program.finishes_pure.mp hb
    exact ⟨rfl, rfl⟩

theorem resolveIdentity_sameTarget {r : Request} {rc rc' : RequestContext}
    {t : List (Event Host)} (hi : (h.resolveIdentity r rc).Finishes t rc') :
    SameTarget rc rc' := by
  unfold resolveIdentity at hi
  split at hi
  next =>
    obtain ⟨user, u, rfl, hu⟩ := finishes_ask.mp hi
    cases user with
    | none | some =>
      obtain ⟨_, rfl⟩ := Program.finishes_ret.mp hu
      exact ⟨rfl, rfl⟩
  next =>
    obtain ⟨_, rfl⟩ := Program.finishes_ret.mp hi
    exact ⟨rfl, rfl⟩

theorem beforeRouting_passed {chain : Chain} {r : Request} {rc : RequestContext}
    {out : Bool × Request × RequestContext} {t : List (Event Host)}
    (hb : (h.beforeRouting chain r rc).run.Finishes t (.ok out)) :
    ∃ u₀ t₁ u₁ rc₁ rc₂, t = u₀ ++ t₁ ++ u₁ ∧ SameTarget rc rc₁ ∧
      PhasePassed .preRoute (chain.filters .preRoute) rc₁ t₁ rc₂ ∧ SameTarget rc₂ out.2.2 := by
  obtain ⟨read, u₀, v₁, rfl, hRead, h₁⟩ := Program.finishes_early.mp hb
  obtain ⟨rc₂, t₁, u₁, rfl, hPhase, h₂⟩ := Program.finishes_early.mp h₁
  refine ⟨u₀, t₁, u₁, read.2, rc₂, by simp, bufferBody_sameTarget hRead,
    runPhase_passed hPhase, ?_⟩
  split at h₂
  next =>
    obtain ⟨read, _, _, rfl, hRead, h₃⟩ := Program.finishes_early.mp h₂
    obtain ⟨_, rfl⟩ := Program.finishes_pure.mp h₃
    exact bufferBody_sameTarget hRead
  next =>
    obtain ⟨_, rfl⟩ := Program.finishes_pure.mp h₂
    exact ⟨rfl, rfl⟩

theorem beforeBackend_passed {chain : Chain} {r : Request} {rc : RequestContext}
    {out : Str × Str × RequestContext} {t : List (Event Host)}
    (hb : (h.beforeBackend chain r rc).run.Finishes t (.ok out)) :
    ∃ u₀ t₂ t₃ t₄ rc₃ rc₄ rc₅, t = u₀ ++ t₂ ++ t₃ ++ t₄ ∧ SameTarget rc rc₃ ∧
      PhasePassed .authenticate (chain.filters .authenticate) rc₃ t₂ rc₄ ∧
      PhasePassed .authorize (chain.filters .authorize) rc₄ t₃ rc₅ ∧
      PhasePassed .preHandler (chain.filters .preHandler) rc₅ t₄ out.2.2 := by
  obtain ⟨rc₃, u₀, v₁, rfl, hIdentity, h₁⟩ := Program.finishes_lift.mp hb
  obtain ⟨rc₄, t₂, v₂, rfl, hAuthn, h₂⟩ := Program.finishes_early.mp h₁
  obtain ⟨rc₅, t₃, v₃, rfl, hAuthz, h₃⟩ := Program.finishes_early.mp h₂
  split at h₃
  next =>
    obtain ⟨_, _, _, rfl, _, h₄⟩ := Program.finishes_lift.mp h₃
    exact (Program.finishes_throw h₄).elim
  next =>
    obtain ⟨rc₆, t₄, v₄, rfl, hHandler, h₄⟩ := Program.finishes_early.mp h₃
    split at h₄
    next =>
      obtain ⟨_, _, _, rfl, _, h₅⟩ := Program.finishes_lift.mp h₄
      exact (Program.finishes_throw h₅).elim
    next =>
      obtain ⟨rfl, rfl⟩ := Program.finishes_pure.mp h₄
      exact ⟨u₀, t₂, t₃, t₄, rc₃, rc₄, rc₅, by simp, resolveIdentity_sameTarget hIdentity,
        runPhase_passed hAuthn, runPhase_passed hAuthz, runPhase_passed hHandler⟩

theorem route_guarded {chain : Chain} {r : Request} {rc rc' : RequestContext} {key sub : Str}
    {t : List (Event Host)}
    (hr : (h.route chain r rc).run.Finishes t (.ok (.backend key sub rc'))) :
    GuardsPassed chain rc t rc' := by
  obtain ⟨routed, v₁, v₂, rfl, hRouting, h₁⟩ := Program.finishes_early.mp hr
  split at h₁
  next =>
    obtain ⟨out, v₃, v₄, rfl, hBackend, h₂⟩ := Program.finishes_early.mp h₁
    obtain ⟨rfl, heq⟩ := Program.finishes_pure.mp h₂
    cases heq
    obtain ⟨u₀, w₁, u₁, rc₁, rc₂, rfl, hs₁, hp₁, hs₂⟩ := beforeRouting_passed hRouting
    obtain ⟨u₂, w₂, w₃, w₄, rc₃, rc₄, rc₅, rfl, hs₃, hp₂, hp₃, hp₄⟩ :=
      beforeBackend_passed hBackend
    exact ⟨u₀, w₁, u₁ ++ u₂, w₂, w₃, w₄, rc₁, rc₂, rc₃, rc₄, rc₅, by simp, hs₁, hp₁,
      ⟨hs₃.1.trans hs₂.1, hs₃.2.trans hs₂.2⟩, hp₂, hp₃, hp₄⟩
  next =>
    obtain ⟨_, heq⟩ := Program.finishes_pure.mp h₁
    cases heq

variable (h)

/-- After the events `t` the request `r`, served under the snapshot `snap`, has
come to the call of `callBackend` for a plugin and a sub-path. -/
def ReachesBackend (r : Request) (t : List (Event Host)) (snap : Snapshot) (key sub : Str)
    (rc : RequestContext) : Prop :=
  ∃ traceID now u v,
    t = ⟨.current, snap⟩ :: u ++
      ⟨.ask (.setHeader requestIDHeader traceID), ()⟩ :: ⟨.ask .now, now⟩ :: v ∧
    (traceIDFor r).Finishes u traceID ∧
    (h.route snap.chain r (newRequestContext traceID r now)).run.Finishes v
      (.ok (.backend key sub rc))

variable {h}

/-- A request comes to the backend only with all four phases before it passed:
every fail-closed filter that matched at its turn was called, gave an answer,
and did not short-circuit. -/
theorem backend_guarded {r : Request} {t : List (Event Host)} {snap : Snapshot}
    {key sub : Str} {rc : RequestContext} (hr : h.ReachesBackend r t snap key sub rc) :
    ∃ traceID now, GuardsPassed snap.chain (newRequestContext traceID r now) t rc := by
  obtain ⟨traceID, now, u, v, rfl, _, hRoute⟩ := hr
  obtain ⟨u₀, t₁, u₁, t₂, t₃, t₄, rc₁, rc₂, rc₃, rc₄, rc₅, rfl, hPassed⟩ := route_guarded hRoute
  refine ⟨traceID, now, ⟨.current, snap⟩ :: u ++
    ⟨.ask (.setHeader requestIDHeader traceID), ()⟩ :: ⟨.ask .now, now⟩ :: u₀,
    t₁, u₁, t₂, t₃, t₄, rc₁, rc₂, rc₃, rc₄, rc₅, by simp, hPassed⟩

end PluginHandler

/-- A plugin whose fail-closed filter guards every plugin route. -/
def guardManifest : Manifest :=
  { key := "waf".toList
    version := "1".toList
    weight := 0
    entrypoint := "waf".toList
    replicas := 1
    permissions := []
    config := []
    filters := [
      { name := "guard".toList
        phase := phasePreRoute
        match_ := ⟨["/api/plugins/**".toList], []⟩
        order := 0
        failClosed := true
        timeoutMS := 0
        needsRequestBody := false
        needsResponseBody := false
        maxBodyBytes := 0 }] }

def guardInstance : Instance := newInstance 0 "waf".toList "waf-0".toList "1".toList 0

def guardRegistration : Registration :=
  { key := guardManifest.key
    instances := [guardInstance]
    filters :=
      match guardManifest.compileFilters with
      | .ok fs => fs
      | .error _ => []
    allowIdentityMutation := false
    known := by decide }

def guardHost : HostState :=
  { launched := [guardInstance]
    registry := (Registry.empty.installPlugin guardRegistration [guardManifest.key] (by decide)).2 }

def itemRequest : Request :=
  { method := "GET".toList
    urlPath := "/api/plugins/shop/items".toList
    rawQuery := []
    clientIP := "10.0.0.1".toList
    header := []
    sessionToken := []
    body := none }

/-- A request that the guard lets pass. -/
theorem backend_guarded_item : ∃ t key sub rc traceID now,
    PluginHandler.ReachesBackend ⟨false, 0, 0⟩ itemRequest t guardHost.registry.current key sub rc ∧
    GuardsPassed guardHost.registry.current.chain
      (newRequestContext traceID itemRequest now) t rc := by
  have hReach : ∃ t key sub rc, PluginHandler.ReachesBackend ⟨false, 0, 0⟩ itemRequest t
      guardHost.registry.current key sub rc :=
    ⟨_, _, _, _, [], (0 : Int), [⟨.ask .newTraceID, []⟩], _, rfl, .step (.stay _),
      (Machine.runs_of_replay (M := host) (w := Op.calm []) (s := guardHost) rfl).finishes⟩
  obtain ⟨t, key, sub, rc, hr⟩ := hReach
  obtain ⟨traceID, now, hPassed⟩ := PluginHandler.backend_guarded hr
  exact ⟨t, key, sub, rc, traceID, now, hr, hPassed⟩

end Moduless.Gateway
