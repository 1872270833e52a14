import Moduless.PluginHost.Lifecycle

/-!
The runner: it calls the filters of a phase in order, and the request context's
admissions that keep a called plugin from being drained under the request.
-/

namespace Moduless.Pipeline
open Go PluginHost Interaction

namespace RequestContext

/-- Reserves capacity on a plugin, once for each key. -/
def admitKey (rc : RequestContext) (pluginKey : Str) (i : Instance) :
    HostM (Bool × RequestContext) :=
  if rc.admissions.has pluginKey then pure (true, rc)
  else do
    let release ← i.beginRequest
    match release with
    | none => pure (false, rc)
    | some lease => pure (true, { rc with admissions := rc.admissions.set pluginKey lease })

def releaseLoop (rc : RequestContext) : List Str → HostM RequestContext
  | [] => pure rc
  | key :: rest =>
    match rc.admissions.get key with
    | none => rc.releaseLoop rest
    | some lease => do
        lease.end_
        releaseLoop { rc with admissions := rc.admissions.delete key } rest

def releaseAdmissions (rc : RequestContext) : HostM RequestContext := do
  let order ← ask (.range rc.admissions.keys)
  rc.releaseLoop order.val

end RequestContext

def statusRequestEntityTooLarge : Int := 413
def statusServiceUnavailable : Int := 503

def plainText : Headers := [("Content-Type".toList, ["text/plain; charset=utf-8".toList])]

/-- A response for a fail-closed filter, nothing for a fail-open one. -/
def failure (f : Filter) (status : Int) (message : Str) : Option HttpResponse :=
  if f.decl.failClosed then some ⟨status, plainText, message⟩ else none

/-- What a filter's answer means for the request. -/
def applyDecision (phase : Phase) (f : Filter) (rc : RequestContext) (resp : FilterResponse) :
    HostM (Option HttpResponse × RequestContext) :=
  match resp.action with
  | .shortCircuit =>
    match resp.shortCircuitResponse with
    | none => do
        let _ ← ask (.report f .shortCircuitWithoutResponse)
        pure (none, rc)
    | some sc => pure (some sc, rc)
  | .mutate =>
    let allowIdentity := f.allowIdentityMutation && identityMutationAllowed phase
    let rc' := rc.applyMutation resp.mutation phase allowIdentity
    if (resp.mutation.bind RequestMutation.setIdentity).isSome && !allowIdentity then do
      let _ ← ask (.report f .identityNotAllowed)
      pure (none, rc')
    else pure (none, rc')
  | _ => pure (none, rc)

/-- The call itself, once the request is admitted to the target. -/
def callFilter (phase : Phase) (f : Filter) (target : Instance) (rc : RequestContext) :
    HostM (Option HttpResponse × RequestContext) := do
  let now ← ask .now
  let built := rc.buildFilterRequest phase f now
  let _ ← ask (.filterCall target built.1 f.timeout)
  let answer ← ask (.filterReturn target)
  match answer with
  | .error e =>
    target.recordFailure
    let _ ← ask (.report f (.callFailed e))
    pure (failure f statusServiceUnavailable
      ("filter ".toList ++ f.label ++ " failed".toList), built.2)
  | .ok resp =>
    target.recordSuccess
    applyDecision phase f built.2 resp

/-- `Runner.runOne`: the response that stops the request, if any. -/
def runOne (phase : Phase) (f : Filter) (rc : RequestContext) :
    HostM (Option HttpResponse × RequestContext) :=
  if f.decl.needsRequestBody && (rc.requestBody.length : Int) > f.maxBody then do
    let _ ← ask (.report f (.bodyTooLarge rc.requestBody.length f.maxBody))
    pure (failure f statusRequestEntityTooLarge
      ("request body too large for filter ".toList ++ f.label), rc)
  else do
    let target ← registryTarget f.pluginKey
    match target with
    | none =>
      let _ ← ask (.report f .notRunning)
      pure (failure f statusServiceUnavailable
        ("plugin ".toList ++ f.pluginKey ++ " is unavailable".toList), rc)
    | some target =>
      let allowed ← target.allow
      if !allowed then
        pure (failure f statusServiceUnavailable
          ("plugin ".toList ++ f.pluginKey ++ " is unhealthy".toList), rc)
      else
        let admitted ← rc.admitKey f.pluginKey target
        if !admitted.1 then
          let _ ← ask (.report f .draining)
          pure (failure f statusServiceUnavailable
            ("plugin ".toList ++ f.pluginKey ++ " is draining".toList), admitted.2)
        else callFilter phase f target admitted.2

/-- The loop of `Runner.Run`. -/
def runFilters (phase : Phase) :
    List Filter → RequestContext → HostM (Option HttpResponse × RequestContext)
  | [], rc => pure (none, rc)
  | f :: rest, rc =>
    if !f.matches rc.method rc.path then runFilters phase rest rc
    else do
      let out ← runOne phase f rc
      match out.1 with
      | some resp => pure (some resp, out.2)
      | none => runFilters phase rest out.2

/-- `Runner.Run`. -/
def run (chain : Chain) (phase : Phase) (rc : RequestContext) :
    HostM (Option HttpResponse × RequestContext) :=
  if !chain.hasPhase phase then pure (none, rc)
  else runFilters phase (chain.filters phase) rc

/-- `Runner.RunAsync` for the log phase. -/
def runAsync (chain : Chain) (rc : AsyncContext) : HostM Unit :=
  if !chain.hasPhase .log then pure () else op (.go (.log chain rc))

/-- The goroutine `RunAsync` starts. -/
def runLog (chain : Chain) (rc : AsyncContext) : HostM Unit := do
  let out ← run chain .log rc.val
  let _ ← out.2.releaseAdmissions
  pure ()

end Moduless.Pipeline
