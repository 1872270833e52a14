import Moduless.Pipeline.Observer

/-!
What each filter is shown: the request as the filters called before it left it.

`View` is the part of a request that filters can change, `View.mutate` what one
permitted mutation does to it. The runner works on a context that also caches the
wire form of the headers; every call it makes carries the view that the answers
to the earlier calls have produced, across the phases run on one context.
-/

namespace Moduless.Pipeline
open Go PluginHost Interaction

/-- What later filters can see of the work of earlier ones. -/
structure View where
  headers : Headers
  path : Str
  identity : Option Identity
  values : GoMap Str Str
  deriving DecidableEq

def RequestContext.view (rc : RequestContext) : View :=
  ⟨rc.header, rc.path, rc.identity, rc.values⟩

def FilterRequest.view (req : FilterRequest) : View :=
  ⟨req.headers, req.path, req.identity, req.context⟩

namespace View

/-- One mutation: header removals before additions, the path only before the
response phases, the identity only when permitted. -/
def mutate (v : View) (phase : Phase) (permitted : Bool) (m : RequestMutation) : View where
  headers :=
    m.setRequestHeaders.foldl setCanonical (m.removeRequestHeaders.foldl Headers.del v.headers)
  path := if isResponsePhase phase = false ∧ m.rewritePath ≠ [] then m.rewritePath else v.path
  identity := if permitted then m.setIdentity.or v.identity else v.identity
  values := m.setContext.foldl (fun values e => values.set e.1 e.2) v.values

/-- The view after a filter's answer; only a MUTATE answer changes it. -/
def after (v : View) (f : Filter) (phase : Phase) : Except Str FilterResponse → View
  | .ok ⟨.mutate, _, some m⟩ =>
    v.mutate phase (f.allowIdentityMutation && identityMutationAllowed phase) m
  | _ => v

end View

/-- A call of `Filter`; `answer` is `none` while it has not returned. -/
structure Call where
  filter : Filter
  phase : Phase
  target : Instance
  request : FilterRequest
  answer : Option (Except Str FilterResponse)

namespace Call

def sent (c : Call) : Instance × FilterRequest × Duration × Option (Except Str FilterResponse) :=
  (c.target, c.request, c.filter.timeout, c.answer)

def apply (v : View) (c : Call) : View :=
  match c.answer with
  | some answer => v.after c.filter c.phase answer
  | none => v

/-- The request names the filter and the phase, and in the history the target was picked
for the filter's plugin. -/
structure MadeIn (hist : List (Event Host)) (c : Call) : Prop where
  phase : c.request.phase = c.phase
  name : c.request.filterName = c.filter.decl.name
  picked : ⟨.picked c.filter.pluginKey c.target, ()⟩ ∈ hist

end Call

/-- The calls of a history, each with its answer. -/
def callsOf : List (Event Host) →
    List (Instance × FilterRequest × Duration × Option (Except Str FilterResponse))
  | ⟨.ask (.filterCall i req d), _⟩ :: ⟨.ask (.filterReturn _), answer⟩ :: t =>
    (i, req, d, some answer) :: callsOf t
  | ⟨.ask (.filterCall i req d), _⟩ :: t => (i, req, d, none) :: callsOf t
  | _ :: t => callsOf t
  | [] => []

theorem callsOf_quiet {o : Op} (h : o.Quiet) (r : o.Ans) (t : List (Event Host)) :
    callsOf (⟨o, r⟩ :: t) = callsOf t := by
  cases o with
  | ask q =>
    cases q with
    | filterCall i req d => exact h.elim
    | _ => rfl
  | _ => rfl

/-- Each call carries the view the calls before it leave. -/
def Carried : View → List Call → Prop
  | _, [] => True
  | v, c :: cs => c.request.view = v ∧ Carried (c.apply v) cs

theorem Carried.view {v : View} {cs : List Call} (h : Carried v cs) {n : Nat} {c : Call}
    (hc : cs[n]? = some c) : c.request.view = (cs.take n).foldl (fun v c => c.apply v) v := by
  induction cs generalizing v n with
  | nil => cases hc
  | cons d cs ih =>
    cases n with
    | zero =>
      cases hc
      exact h.1
    | succ n => exact ih h.2 hc

/-- After the history `hist`, the program makes its calls with the view as the answers
change it, only for the filters `declared` allows, and ends with a value and a view related
by `Q`. -/
inductive Tracks {α : Type} (declared : Filter → Phase → Prop) (Q : View → α → Prop) :
    List (Event Host) → View → HostM α → Prop
  | ret {hist : List (Event Host)} {v : View} {a : α} (h : Q v a) :
      Tracks declared Q hist v (.ret a)
  | call {hist : List (Event Host)} {v : View} {o : Op} {k : o.Ans → HostM α} (hOp : o.Quiet)
      (h : ∀ r, Tracks declared Q (hist ++ [⟨o, r⟩]) v (k r)) :
      Tracks declared Q hist v (.call (I := Host) o k)
  | filter {hist : List (Event Host)} {v : View} {i : Instance} {req : FilterRequest} {f : Filter}
      {phase : Phase} {k : Except Str FilterResponse → HostM α} (hDeclared : declared f phase)
      (hMade : Call.MadeIn hist ⟨f, phase, i, req, none⟩) (hView : req.view = v)
      (h : ∀ answer, Tracks declared Q (hist ++ [⟨.ask (.filterCall i req f.timeout), ()⟩] ++
        [⟨.ask (.filterReturn i), answer⟩]) (v.after f phase answer) (k answer)) :
      Tracks declared Q hist v (.call (I := Host) (.ask (.filterCall i req f.timeout)) fun _ =>
        .call (I := Host) (.ask (.filterReturn i)) k)

namespace Tracks

variable {α β : Type} {declared declared' : Filter → Phase → Prop} {Q : View → α → Prop}
  {S : View → β → Prop} {v : View} {hist : List (Event Host)}

theorem quiet {p : HostM α} (hUses : p.Uses Op.Quiet) (hQ : p.Returns (Q v)) :
    Tracks declared Q hist v p := by
  induction p generalizing hist with
  | ret a => exact .ret hQ
  | call o k ih => exact .call hUses.1 fun r => ih r (hUses.2 r) (hQ r)

theorem quiet_bind {R : α → Prop} {p : HostM α} {f : α → HostM β} (hUses : p.Uses Op.Quiet)
    (hR : p.Returns R)
    (hf : ∀ a t, p.Finishes t a → R a → Tracks declared S (hist ++ t) v (f a)) :
    Tracks declared S hist v (p >>= f) := by
  induction p generalizing hist with
  | ret a =>
    have hEnd := hf a [] (.stay _) hR
    rw [List.append_nil] at hEnd
    exact hEnd
  | call o k ih =>
    refine .call hUses.1 fun r => ih r (hUses.2 r) (hR r) fun a t hFinishes ha => ?_
    rw [← List.append_cons]
    exact hf a _ (.step hFinishes) ha

theorem bind {p : HostM α} {f : α → HostM β} (h : Tracks declared Q hist v p)
    (hf : ∀ hist v a, Q v a → Tracks declared S hist v (f a)) :
    Tracks declared S hist v (p >>= f) := by
  induction h with
  | ret h => exact hf _ _ _ h
  | call hOp _ ih => exact .call hOp ih
  | filter hDeclared hMade hView _ ih => exact .filter hDeclared hMade hView ih

theorem mono {p : HostM α} (h : Tracks declared Q hist v p)
    (hDeclared : ∀ f phase, declared f phase → declared' f phase) :
    Tracks declared' Q hist v p := by
  induction h with
  | ret h => exact .ret h
  | call hOp _ ih => exact .call hOp ih
  | filter h hMade hView _ ih => exact .filter (hDeclared _ _ h) hMade hView ih

theorem leads {p q : HostM α} (h : Tracks declared Q hist v p) {t : List (Event Host)}
    (hRun : p.Leads t q) :
    ∃ cs : List Call, callsOf t = cs.map Call.sent ∧
      (∀ c ∈ cs, c.MadeIn (hist ++ t) ∧ declared c.filter c.phase) ∧ Carried v cs ∧
      ∀ a, q = .ret a → Q (cs.foldl (fun v c => c.apply v) v) a := by
  induction h generalizing t with
  | ret h =>
    cases hRun
    refine ⟨[], rfl, List.forall_mem_nil _, trivial, fun b hb => ?_⟩
    cases hb
    exact h
  | call hOp _ ih =>
    rcases Program.leads_call.mp hRun with ⟨rfl, rfl⟩ | ⟨r, u, rfl, hRest⟩
    · exact ⟨[], rfl, List.forall_mem_nil _, trivial, fun _ h => by cases h⟩
    · rw [callsOf_quiet hOp, List.append_cons]
      exact ih r hRest
  | @filter hist v i req f phase k hDeclared hMade hView _ ih =>
    have hHere : ∀ u answer, Call.MadeIn (hist ++ u) ⟨f, phase, i, req, answer⟩ := fun u _ =>
      ⟨hMade.phase, hMade.name, List.mem_append_left u hMade.picked⟩
    rcases Program.leads_call.mp hRun with ⟨rfl, rfl⟩ | ⟨_, u, rfl, hReturn⟩
    · exact ⟨[], rfl, List.forall_mem_nil _, trivial, fun _ h => by cases h⟩
    · rcases Program.leads_call.mp hReturn with ⟨rfl, rfl⟩ | ⟨answer, w, rfl, hRest⟩
      · refine ⟨[⟨f, phase, i, req, none⟩], rfl, ?_, ⟨hView, trivial⟩, ?_⟩
        · exact List.forall_mem_singleton.mpr ⟨hHere _ _, hDeclared⟩
        · exact fun _ h => by cases h
      · obtain ⟨cs, hCalls, hAll, hCarried, hEnd⟩ := ih answer hRest
        rw [← List.append_cons, ← List.append_cons] at hAll
        refine ⟨⟨f, phase, i, req, some answer⟩ :: cs, ?_, ?_, ⟨hView, hCarried⟩, hEnd⟩
        · exact congrArg (_ :: ·) hCalls
        · exact List.forall_mem_cons.mpr ⟨⟨hHere _ _, hDeclared⟩, hAll⟩

end Tracks

/-- The context shows the view `v`, and a cached wire form is that of its headers. -/
structure Current (v : View) (rc : RequestContext) : Prop where
  view : rc.view = v
  wire : rc.wireHeaders.1 = rc.header

section Current

variable {v : View} {rc : RequestContext} {phase : Phase} {f : Filter}

theorem view_applyMutation (rc : RequestContext) (m : RequestMutation) (phase : Phase)
    (allow : Bool) :
    (rc.applyMutation (some m) phase allow).view = rc.view.mutate phase allow m := by
  have hPath : (if m.rewritePath ≠ [] && !isResponsePhase phase then m.rewritePath else rc.path) =
      if isResponsePhase phase = false ∧ m.rewritePath ≠ [] then m.rewritePath else rc.path := by
    cases isResponsePhase phase <;> simp
  simp only [RequestContext.view, RequestContext.applyMutation, View.mutate, View.mk.injEq]
  refine ⟨rfl, hPath, ?_, trivial⟩
  cases m.setIdentity <;> cases allow <;> rfl

theorem Current.applyMutation (h : Current v rc) (m : RequestMutation) (allow : Bool) :
    Current (v.mutate phase allow m) (rc.applyMutation (some m) phase allow) := by
  refine ⟨?_, rfl⟩
  rw [view_applyMutation, h.view]

theorem Current.cached (h : Current v rc) : Current v rc.wireHeaders.2 := by
  have hWire := h.wire
  rw [rc.wireHeaders_eq] at hWire ⊢
  refine ⟨h.view, ?_⟩
  rw [RequestContext.wireHeaders_eq]
  exact hWire

theorem Current.request (h : Current v rc) (startedAt now : Int) :
    ((rc.buildFilterRequest phase f 0).1.after startedAt now).view = v := by
  rw [← h.view]
  simp only [FilterRequest.view, FilterRequest.after, RequestContext.buildFilterRequest,
    RequestContext.view, h.wire]
  rw [rc.wireHeaders_eq]

theorem current_applyDecision (h : Current v rc) (resp : FilterResponse) :
    (applyDecision phase f rc resp).Returns fun out =>
      Current (v.after f phase (.ok resp)) out.2 := by
  obtain ⟨action, response, mutation⟩ := resp
  unfold applyDecision
  cases action with
  | shortCircuit =>
    cases response with
    | none => exact fun _ => h
    | some sc => exact h
  | mutate =>
    have hMutated : Current (v.after f phase (.ok ⟨.mutate, response, mutation⟩))
        (rc.applyMutation mutation phase
          (f.allowIdentityMutation && identityMutationAllowed phase)) := by
      cases mutation with
      | none => exact h
      | some m => exact h.applyMutation m _
    dsimp only
    split
    next => exact fun _ => hMutated
    next => exact hMutated
  | continue_ | other => exact h

theorem current_admitKey (h : Current v rc) (key : Str) (i : Instance) :
    (rc.admitKey key i).Returns fun out => Current v out.2 := by
  unfold RequestContext.admitKey
  split
  next => exact h
  next =>
    refine Program.returns_bind (Program.returns_true _) fun release _ => ?_
    cases release with
    | none => exact h
    | some lease =>
      refine ⟨h.view, ?_⟩
      simpa only [RequestContext.wireHeaders_eq] using h.wire

end Current

section Runner

variable {declared : Filter → Phase → Prop} {v : View} {rc : RequestContext} {phase : Phase}
  {f : Filter} {hist : List (Event Host)}

/-- The context a run returns shows the view the answers have produced. -/
def ShownBy (v : View) (out : Option HttpResponse × RequestContext) : Prop := Current v out.2

theorem tracks_settle (h : Current v rc) (target : Instance) (answer : Except Str FilterResponse) :
    Tracks declared ShownBy hist (v.after f phase answer) (settle phase f target rc answer) := by
  cases answer with
  | error e =>
    refine .quiet (Program.uses_bind (quiet_recordFailure target) fun _ =>
      ⟨trivial, fun _ => trivial⟩) ?_
    exact Program.returns_bind (Program.returns_true _) fun _ _ _ => h
  | ok resp =>
    refine .quiet (Program.uses_bind (quiet_recordSuccess target) fun _ =>
      quiet_applyDecision phase f rc resp) ?_
    exact Program.returns_bind (Program.returns_true _) fun _ _ => current_applyDecision h resp

theorem tracks_callFilter (h : Current v rc) (hDeclared : declared f phase) {target : Instance}
    (hPicked : ⟨.picked f.pluginKey target, ()⟩ ∈ hist) :
    Tracks declared ShownBy hist v (callFilter phase f target rc) := by
  rw [callFilter_eq]
  refine .call ?_ fun now => ?_
  · trivial
  · refine .filter hDeclared ⟨rfl, rfl, ?_⟩ (h.request _ now) fun answer => ?_
    · exact List.mem_append_left _ hPicked
    · exact tracks_settle h.cached target answer

theorem tracks_runOne (h : Current v rc) (hDeclared : declared f phase) :
    Tracks declared ShownBy hist v (runOne phase f rc) := by
  unfold runOne
  split
  next => exact .call trivial fun _ => .ret h
  next =>
    refine .quiet_bind (quiet_registryTarget _) (Program.returns_true _) fun target t hPick _ => ?_
    cases target with
    | none => exact .call trivial fun _ => .ret h
    | some target =>
      refine .quiet_bind (quiet_allow target) (Program.returns_true _) fun allowed u _ _ => ?_
      split
      next => exact .ret h
      next =>
        refine .quiet_bind (quiet_admitKey rc _ target) (current_admitKey h _ target)
          fun admitted w _ hAdmitted => ?_
        split
        next => exact .call trivial fun _ => .ret hAdmitted
        next =>
          refine tracks_callFilter hAdmitted hDeclared ?_
          simp [picked_of_registryTarget hPick]

theorem tracks_runFilters {filters : List Filter} (h : Current v rc)
    (hDeclared : ∀ f ∈ filters, declared f phase) :
    Tracks declared ShownBy hist v (runFilters phase filters rc) := by
  induction filters generalizing v rc hist with
  | nil => exact .ret h
  | cons f rest ih =>
    rw [List.forall_mem_cons] at hDeclared
    unfold runFilters
    split
    next => exact ih h hDeclared.2
    next =>
      refine .bind (tracks_runOne h hDeclared.1) fun hist v' out hOut => ?_
      cases out.1 with
      | some resp => exact .ret hOut
      | none => exact ih hOut hDeclared.2

theorem tracks_run {chain : Chain} (h : Current v rc)
    (hDeclared : ∀ f ∈ chain.filters phase, declared f phase) :
    Tracks declared ShownBy hist v (run chain phase rc) := by
  rw [run_eq_runFilters]
  exact tracks_runFilters h hDeclared

end Runner

/-- A phase to run, and the response recorded in the context before it, if any. -/
structure Stage where
  chain : Chain
  phase : Phase
  recorded : Option HttpResponse

def Stage.record (s : Stage) (rc : RequestContext) : RequestContext :=
  match s.recorded with
  | none => rc
  | some resp =>
    { rc with
      responseStatus := resp.statusCode
      responseHeader := resp.headers
      responseBody := resp.body }

/-- Phases run one after the other on one context, whatever their outcomes. -/
def runStages : List Stage → RequestContext → HostM RequestContext
  | [], rc => pure rc
  | s :: rest, rc => do
      let out ← run s.chain s.phase (s.record rc)
      runStages rest out.2

theorem Current.record {v : View} {rc : RequestContext} (h : Current v rc) (s : Stage) :
    Current v (s.record rc) := by
  unfold Stage.record
  split
  next => exact h
  next =>
    refine ⟨h.view, ?_⟩
    simpa only [RequestContext.wireHeaders_eq] using h.wire

theorem tracks_runStages {v : View} {rc : RequestContext} {hist : List (Event Host)}
    (h : Current v rc) (stages : List Stage) :
    Tracks (fun f phase => ∃ s ∈ stages, s.phase = phase ∧ f ∈ s.chain.filters phase) Current
      hist v (runStages stages rc) := by
  induction stages generalizing v rc hist with
  | nil => exact .ret h
  | cons s rest ih =>
    refine .bind (Q := ShownBy) (tracks_run (h.record s) ?_) fun hist v' out hOut => ?_
    · exact fun f hf => ⟨s, List.mem_cons_self, rfl, hf⟩
    · refine (ih hOut).mono fun f phase hf => ?_
      obtain ⟨s', hs', hFilter⟩ := hf
      exact ⟨s', List.mem_cons_of_mem s hs', hFilter⟩

/-- Each filter sees the cumulative effect of the earlier ones: in every history of
phases run on one context, the n-th call carries the initial request with the
mutations of the calls before it applied in order. Each call is of a filter of the phase
it names, on a target picked for that filter's plugin. -/
theorem filters_see_earlier_mutations {stages : List Stage} {rc : RequestContext}
    {t : List (Event Host)} {q : HostM RequestContext} (hFresh : rc.protoHeaders = none)
    (hRun : (runStages stages rc).Leads t q) :
    ∃ cs : List Call, callsOf t = cs.map Call.sent ∧
      (∀ c ∈ cs, c.MadeIn t ∧ ∃ s ∈ stages, s.phase = c.phase ∧
        c.filter ∈ s.chain.filters c.phase) ∧
      (∀ n c, cs[n]? = some c →
        c.request.view = (cs.take n).foldl (fun v c => c.apply v) rc.view) ∧
      ∀ rc', q = .ret rc' →
        rc'.view = cs.foldl (fun v c => c.apply v) rc.view ∧ rc'.wireHeaders.1 = rc'.header := by
  have hCurrent : Current rc.view rc := ⟨rfl, by rw [rc.wireHeaders_eq, hFresh]; rfl⟩
  obtain ⟨cs, hCalls, hMade, hCarried, hEnd⟩ :=
    (tracks_runStages hCurrent stages : Tracks _ _ [] _ _).leads hRun
  refine ⟨cs, hCalls, hMade, fun n c hc => hCarried.view hc, fun rc' hq => ?_⟩
  exact ⟨(hEnd rc' hq).view, (hEnd rc' hq).wire⟩

def auditor : Instance := ⟨0, "audit".toList, "audit-0".toList, "1.0.0".toList, 1⟩

def counter : Instance := ⟨1, "stats".toList, "stats-0".toList, "1.0.0".toList, 1⟩

def bothRegistered : Snapshot :=
  ⟨[("audit".toList, ⟨0, "audit".toList, [auditor]⟩),
    ("stats".toList, ⟨1, "stats".toList, [counter]⟩)], emptyChain, 0⟩

/-- The operations of one call of a filter, up to its answer. -/
def callOn (i : Instance) (req : FilterRequest) (answer : Except Str FilterResponse) :
    List (Event Host) :=
  [⟨.current, bothRegistered⟩, ⟨.loadState i, .ready⟩, ⟨.picked i.key i, ()⟩,
    ⟨.breaker i (.load .openUntilNanos), 0⟩, ⟨.loadState i, .ready⟩, ⟨.addInflight i 1, 1⟩,
    ⟨.loadState i, .ready⟩, ⟨.newDone i, ⟨i, 0⟩⟩, ⟨.ask .now, 0⟩,
    ⟨.ask (.filterCall i req defaultDefaults.timeout), ()⟩, ⟨.ask (.filterReturn i), answer⟩]

/-- The filters of two plugins in one phase. -/
def bothStages : List Stage :=
  [⟨chainOf [(.preRoute, watching "audit".toList false),
    (.preRoute, watching "stats".toList false)], .preRoute, none⟩]

def moveHome : RequestMutation :=
  ⟨[("X-From".toList, ["/".toList])], [], [], [], "/home".toList, none, []⟩

def bothCalled : List (Event Host) :=
  callOn auditor (visit.buildFilterRequest .preRoute (watching "audit".toList false) 0).1
      (.ok ⟨.mutate, none, some moveHome⟩) ++
    [⟨.breaker auditor (.store .consecutiveFailures 0), ()⟩,
      ⟨.breaker auditor (.load .openUntilNanos), 0⟩] ++
    callOn counter ((visit.applyMutation (some moveHome) .preRoute false).buildFilterRequest
      .preRoute (watching "stats".toList false) 0).1 (.ok ⟨.continue_, none, none⟩)

/-- The first filter rewrites the path and adds a header, and the second one is shown both. -/
theorem filters_see_earlier_mutations_rewrite :
    ∃ cs : List Call, callsOf bothCalled = cs.map Call.sent ∧
      (∀ c ∈ cs, c.MadeIn bothCalled ∧ ∃ s ∈ bothStages, s.phase = c.phase ∧
        c.filter ∈ s.chain.filters c.phase) ∧
      (∀ n c, cs[n]? = some c →
        c.request.view = (cs.take n).foldl (fun v c => c.apply v) visit.view) ∧
      ∃ c, cs[1]? = some c ∧ c.request.view =
        ⟨[("X-From".toList, ["/".toList])], "/home".toList, none, []⟩ := by
  have hRun : (runStages bothStages visit).Leads bothCalled _ :=
    .step (.step (.step (.step (.step (.step (.step (.step (.step (.step (.step (.step (.step
      (.step (.step (.step (.step (.step (.step (.step (.step (.step (.step (.step
        (.stay _))))))))))))))))))))))))
  obtain ⟨cs, hCalls, hMade, hViews, -⟩ := filters_see_earlier_mutations rfl hRun
  refine ⟨cs, hCalls, hMade, hViews, ?_⟩
  have hSecond := congrArg (fun calls => calls[1]?.map fun call => call.2.1.view) hCalls
  simp only [List.getElem?_map] at hSecond
  cases hc : cs[1]? with
  | none =>
    rw [hc] at hSecond
    cases hSecond
  | some c =>
    rw [hc] at hSecond
    exact ⟨c, rfl, (Option.some.inj hSecond).symm⟩

end Moduless.Pipeline
