import Moduless.Pipeline.Status

/-!
A fail-open filter that reaches no decision leaves no mark on the request.

Two runs of the filters of a phase are compared: one with the filter, one
without it. They perform the same operations and get the same answers, apart
from the clock readings taken just before a call, which only reach the elapsed
time of the request a filter is sent. The two request contexts may differ in
the cached wire headers and in the admission to the filter's own plugin.
-/

namespace Moduless.Pipeline
open Go PluginHost Interaction

/-- The event is an answer of a filter: it decided on the request. -/
def Decides (e : Event Host) : Prop := ∃ i resp, e = ⟨.ask (.filterReturn i), .ok resp⟩

def FilterRequest.after (req : FilterRequest) (startedAt now : Int) : FilterRequest :=
  { req with elapsedMicros := (now - startedAt).tdiv 1000 }

/-- The same events, with other clock readings just before the calls. -/
inductive Retimed (startedAt : Int) : List (Event Host) → List (Event Host) → Prop
  | nil : Retimed startedAt [] []
  | same (e : Event Host) {t t' : List (Event Host)} (h : Retimed startedAt t t') :
      Retimed startedAt (e :: t) (e :: t')
  | call (now now' : Int) (i : Instance) (req : FilterRequest) (d : Duration)
      {t t' : List (Event Host)} (h : Retimed startedAt t t') :
      Retimed startedAt
        (⟨.ask .now, now⟩ :: ⟨.ask (.filterCall i req d), ()⟩ :: t)
        (⟨.ask .now, now'⟩ :: ⟨.ask (.filterCall i (req.after startedAt now') d), ()⟩ :: t')

theorem Retimed.refl (startedAt : Int) (t : List (Event Host)) : Retimed startedAt t t := by
  induction t with
  | nil => exact .nil
  | cons e t ih => exact .same e ih

/-- The calls of `Filter`, with the elapsed time left out. -/
def filterCalls : List (Event Host) → List (Instance × FilterRequest × Duration)
  | [] => []
  | ⟨.ask (.filterCall i req d), _⟩ :: t => (i, { req with elapsedMicros := 0 }, d) :: filterCalls t
  | _ :: t => filterCalls t

theorem filterCalls_append (t u : List (Event Host)) :
    filterCalls (t ++ u) = filterCalls t ++ filterCalls u := by
  fun_induction filterCalls t with
  | case1 => rfl
  | case2 i req d r t ih => rw [List.cons_append, filterCalls, ih, List.cons_append]
  | case3 e t hNot ih =>
    rw [List.cons_append, filterCalls, ih]
    exact hNot

theorem Retimed.filterCalls_eq {startedAt : Int} {t t' : List (Event Host)}
    (h : Retimed startedAt t t') : filterCalls t' = filterCalls t := by
  induction h with
  | nil => rfl
  | same e _ ih =>
    rw [← List.singleton_append, filterCalls_append, ih, ← filterCalls_append]
    rfl
  | call now now' i req d _ ih =>
    simp only [filterCalls, ih, FilterRequest.after]

/-- Two programs that go the same way, whatever the clock shows before a call. -/
inductive Mirrors {α : Type} (startedAt : Int) (R : α → α → Prop) : HostM α → HostM α → Prop
  | ret {a b : α} (h : R a b) : Mirrors startedAt R (.ret a) (.ret b)
  | call {o : Op} {k k' : o.Ans → HostM α} (hOp : o.Quiet)
      (h : ∀ r, Mirrors startedAt R (k r) (k' r)) :
      Mirrors startedAt R (.call (I := Host) o k) (.call (I := Host) o k')
  | timed {i : Instance} {req : FilterRequest} {d : Duration} {k k' : Unit → HostM α}
      (h : ∀ u, Mirrors startedAt R (k u) (k' u)) :
      Mirrors startedAt R
        (.call (I := Host) (.ask .now) fun now =>
          .call (I := Host) (.ask (.filterCall i (req.after startedAt now) d)) k)
        (.call (I := Host) (.ask .now) fun now =>
          .call (I := Host) (.ask (.filterCall i (req.after startedAt now) d)) k')

namespace Mirrors

variable {α β : Type} {startedAt : Int} {R : α → α → Prop} {S : β → β → Prop}

theorem refl {p : HostM α} (h : p.Uses Op.Quiet) :
    Mirrors startedAt Eq p p := by
  induction p with
  | ret a => exact .ret rfl
  | call o k ih => exact .call h.1 fun r => ih r (h.2 r)

theorem bind {p p' : HostM α} {f f' : α → HostM β} (h : Mirrors startedAt R p p')
    (hf : ∀ a b, R a b → Mirrors startedAt S (f a) (f' b)) :
    Mirrors startedAt S (p >>= f) (p' >>= f') := by
  induction h with
  | ret h => exact hf _ _ h
  | call hOp _ ih => exact .call hOp ih
  | timed _ ih => exact .timed ih

theorem not_finishes_call {p p' : HostM α} (h : Mirrors startedAt R p p') {i : Instance}
    {req : FilterRequest} {d : Duration} {r : Unit} {t : List (Event Host)} {a : α} :
    ¬ p.Finishes (⟨.ask (.filterCall i req d), r⟩ :: t) a := by
  intro hRun
  cases hRun with
  | step =>
    cases h with
    | call hOp => exact hOp

/-- A program that mirrors another follows it through every history. -/
theorem finishes {p p' : HostM α} (h : Mirrors startedAt R p p') {t t' : List (Event Host)}
    {a : α} (ht : Retimed startedAt t t') (hRun : p.Finishes t a) :
    ∃ b, p'.Finishes t' b ∧ R a b := by
  induction h generalizing t t' with
  | ret h =>
    obtain ⟨rfl, rfl⟩ := Program.finishes_ret.mp hRun
    cases ht
    exact ⟨_, .stay _, h⟩
  | call hOp hNext ih =>
    obtain ⟨r, u, rfl, hRest⟩ := Program.finishes_call.mp hRun
    cases ht with
    | same _ ht =>
      obtain ⟨b, hb, hR⟩ := ih r ht hRest
      exact ⟨b, .step hb, hR⟩
    | call now now' i req d ht => exact absurd hRest (hNext now).not_finishes_call
  | timed hNext ih =>
    obtain ⟨now, u, rfl, hCall⟩ := Program.finishes_call.mp hRun
    obtain ⟨r, u, rfl, hRest⟩ := Program.finishes_call.mp hCall
    cases ht with
    | same _ ht =>
      cases ht with
      | same _ ht =>
        obtain ⟨b, hb, hR⟩ := ih r ht hRest
        exact ⟨b, .step (.step hb), hR⟩
    | call now now' i req d ht =>
      obtain ⟨b, hb, hR⟩ := ih () ht hRest
      exact ⟨b, .step (.step hb), hR⟩

end Mirrors

/-- The request and the response as filters and the gateway read them. -/
def RequestContext.visible (rc : RequestContext) : RequestContext :=
  { rc with protoHeaders := none, admissions := [] }

/-- The contexts differ at most in the admission to the plugin `key` and in
whether the wire headers are cached. -/
structure Agree (key : Str) (rc rc' : RequestContext) : Prop where
  visible : rc.visible = rc'.visible
  wire : rc.wireHeaders.1 = rc'.wireHeaders.1
  admissions : ∀ k, k ≠ key → rc.admissions.get k = rc'.admissions.get k

namespace Agree

variable {key : Str} {rc rc' rc'' : RequestContext}

theorem refl (key : Str) (rc : RequestContext) : Agree key rc rc := ⟨rfl, rfl, fun _ _ => rfl⟩

theorem trans (h : Agree key rc rc') (h' : Agree key rc' rc'') : Agree key rc rc'' :=
  ⟨h.visible.trans h'.visible, h.wire.trans h'.wire, fun k hk =>
    (h.admissions k hk).trans (h'.admissions k hk)⟩

theorem symm (h : Agree key rc rc') : Agree key rc' rc :=
  ⟨h.visible.symm, h.wire.symm, fun k hk => (h.admissions k hk).symm⟩

theorem startedAt (h : Agree key rc rc') : rc.startedAt = rc'.startedAt :=
  congrArg (fun r => r.startedAt) h.visible

theorem cached (key : Str) (rc : RequestContext) : Agree key rc.wireHeaders.2 rc := by
  rw [rc.wireHeaders_eq]
  exact ⟨rfl, by simp [RequestContext.wireHeaders_eq], fun _ _ => rfl⟩

theorem admitted (key : Str) (rc : RequestContext) (lease : Lease) :
    Agree key { rc with admissions := rc.admissions.set key lease } rc :=
  ⟨rfl, by simp only [RequestContext.wireHeaders_eq], fun k hk => by
    rw [GoMap.get_set, if_neg hk]⟩

theorem admit_set (h : Agree key rc rc') (k : Str) (lease : Lease) :
    Agree key { rc with admissions := rc.admissions.set k lease }
      { rc' with admissions := rc'.admissions.set k lease } := by
  refine ⟨h.visible, ?_, fun j hj => ?_⟩
  · simpa only [RequestContext.wireHeaders_eq] using h.wire
  · rw [GoMap.get_set, GoMap.get_set, h.admissions j hj]

theorem request (h : Agree key rc rc') (phase : Phase) (f : Filter) (now : Int) :
    (rc.buildFilterRequest phase f now).1 = (rc'.buildFilterRequest phase f now).1 := by
  have hFields (r : RequestContext) : (r.buildFilterRequest phase f now).1 =
      { (r.visible.buildFilterRequest phase f now).1 with headers := r.wireHeaders.1 } := by
    simp only [RequestContext.buildFilterRequest, RequestContext.wireHeaders_eq]
    rfl
  rw [hFields rc, hFields rc', h.visible, h.wire]

theorem applyMutation (h : Agree key rc rc') (m : Option RequestMutation) (phase : Phase)
    (allow : Bool) :
    Agree key (rc.applyMutation m phase allow) (rc'.applyMutation m phase allow) := by
  cases m with
  | none => exact h
  | some m =>
    have hVisible (r : RequestContext) : (r.applyMutation (some m) phase allow).visible =
        r.visible.applyMutation (some m) phase allow := rfl
    refine ⟨?_, ?_, h.admissions⟩
    · rw [hVisible, hVisible, h.visible]
    · have hHeader : rc.header = rc'.header := congrArg (fun r => r.header) h.visible
      simp only [RequestContext.wireHeaders_eq, RequestContext.applyMutation, hHeader,
        Option.getD_none]

end Agree

/-- What follows the answer to a call of `Filter`. -/
def settle (phase : Phase) (f : Filter) (target : Instance) (rc : RequestContext) :
    Except Str FilterResponse → HostM (Option HttpResponse × RequestContext)
  | .error e => do
      target.recordFailure
      let _ ← ask (.report f (.callFailed e))
      pure (failure f statusServiceUnavailable
        ("filter ".toList ++ f.label ++ " failed".toList), rc)
  | .ok resp => do
      target.recordSuccess
      applyDecision phase f rc resp

theorem callFilter_eq (phase : Phase) (f : Filter) (target : Instance) (rc : RequestContext) :
    callFilter phase f target rc =
      .call (I := Host) (.ask .now) fun now =>
        .call (I := Host) (.ask (.filterCall target
          ((rc.buildFilterRequest phase f 0).1.after rc.startedAt now) f.timeout)) fun _ =>
          .call (I := Host) (.ask (.filterReturn target))
            (settle phase f target rc.wireHeaders.2) := by
  have hRequest (now : Int) : (rc.buildFilterRequest phase f 0).1.after rc.startedAt now =
      (rc.buildFilterRequest phase f now).1 := by
    simp only [RequestContext.buildFilterRequest, RequestContext.wireHeaders_eq,
      FilterRequest.after]
  have hSettle (now : Int) : settle phase f target rc.wireHeaders.2 =
      settle phase f target (rc.buildFilterRequest phase f now).2 := rfl
  unfold callFilter
  refine congrArg (Program.call (I := Host) (.ask .now)) ?_
  funext now
  rw [hRequest now, hSettle now]
  refine congrArg (Program.call (I := Host) (.ask (.filterCall target _ f.timeout))) ?_
  funext _
  refine congrArg (Program.call (I := Host) (.ask (.filterReturn target))) ?_
  funext answer
  cases answer <;> rfl

section Following

variable {key : Str} {phase : Phase} {g : Filter} {rc rc' : RequestContext} {startedAt : Int}

/-- The outcomes are the same and the contexts of one request agree. -/
def SameOutcome (key : Str) (startedAt : Int) (out out' : Option HttpResponse × RequestContext) :
    Prop :=
  out.1 = out'.1 ∧ Agree key out.2 out'.2 ∧ out.2.startedAt = startedAt

theorem applyMutation_startedAt (rc : RequestContext) (m : Option RequestMutation) (phase : Phase)
    (allow : Bool) : (rc.applyMutation m phase allow).startedAt = rc.startedAt := by
  cases m <;> rfl

theorem mirrors_applyDecision (h : Agree key rc rc') (hStarted : rc.startedAt = startedAt)
    (resp : FilterResponse) :
    Mirrors startedAt (SameOutcome key startedAt) (applyDecision phase g rc resp)
      (applyDecision phase g rc' resp) := by
  unfold applyDecision
  cases hAction : resp.action with
  | shortCircuit =>
    cases hResponse : resp.shortCircuitResponse with
    | none => exact .call trivial fun _ => .ret ⟨rfl, h, hStarted⟩
    | some sc => exact .ret ⟨rfl, h, hStarted⟩
  | mutate =>
    have hMutated (allow : Bool) : SameOutcome key startedAt
        (none, rc.applyMutation resp.mutation phase allow)
        (none, rc'.applyMutation resp.mutation phase allow) :=
      ⟨rfl, h.applyMutation _ _ _, (applyMutation_startedAt _ _ _ _).trans hStarted⟩
    dsimp only
    split
    next => exact .call trivial fun _ => .ret (hMutated _)
    next => exact .ret (hMutated _)
  | continue_ | other => exact .ret ⟨rfl, h, hStarted⟩

theorem mirrors_settle (h : Agree key rc rc') (hStarted : rc.startedAt = startedAt)
    (target : Instance) (answer : Except Str FilterResponse) :
    Mirrors startedAt (SameOutcome key startedAt) (settle phase g target rc answer)
      (settle phase g target rc' answer) := by
  cases answer with
  | error e =>
    exact .bind (.refl (quiet_recordFailure target)) fun _ _ _ =>
      .call trivial fun _ => .ret ⟨rfl, h, hStarted⟩
  | ok resp =>
    exact .bind (.refl (quiet_recordSuccess target)) fun _ _ _ =>
      mirrors_applyDecision h hStarted resp

theorem mirrors_callFilter (h : Agree key rc rc') (hStarted : rc.startedAt = startedAt)
    (target : Instance) :
    Mirrors startedAt (SameOutcome key startedAt) (callFilter phase g target rc)
      (callFilter phase g target rc') := by
  have hCached : Agree key rc.wireHeaders.2 rc'.wireHeaders.2 :=
    ((Agree.cached key rc).trans h).trans (Agree.cached key rc').symm
  have hStartedCached : rc.wireHeaders.2.startedAt = startedAt :=
    (Agree.cached key rc).startedAt.trans hStarted
  rw [callFilter_eq, callFilter_eq, h.request, ← h.startedAt, hStarted]
  refine .timed fun _ => .call ?_ (mirrors_settle hCached hStartedCached target)
  trivial

theorem mirrors_admitKey (h : Agree key rc rc') (hStarted : rc.startedAt = startedAt)
    (hKey : g.pluginKey ≠ key) (i : Instance) :
    Mirrors startedAt (fun a b => a.1 = b.1 ∧ Agree key a.2 b.2 ∧ a.2.startedAt = startedAt)
      (rc.admitKey g.pluginKey i) (rc'.admitKey g.pluginKey i) := by
  have hHas : rc.admissions.has g.pluginKey = rc'.admissions.has g.pluginKey :=
    congrArg Option.isSome (h.admissions g.pluginKey hKey)
  unfold RequestContext.admitKey
  rw [hHas]
  split
  next => exact .ret ⟨rfl, h, hStarted⟩
  next =>
    refine .bind (.refl ?_) fun release release' hRelease => ?_
    · exact uses_beginRequest (fun _ => trivial) (fun _ _ => trivial) (fun _ => trivial) i
    subst hRelease
    cases release with
    | none => exact .ret ⟨rfl, h, hStarted⟩
    | some lease => exact .ret ⟨rfl, h.admit_set g.pluginKey lease, hStarted⟩

theorem mirrors_runOne (h : Agree key rc rc') (hStarted : rc.startedAt = startedAt)
    (hKey : g.pluginKey ≠ key) :
    Mirrors startedAt (SameOutcome key startedAt) (runOne phase g rc) (runOne phase g rc') := by
  have hBody : rc.requestBody = rc'.requestBody := congrArg (fun r => r.requestBody) h.visible
  unfold runOne
  rw [hBody]
  split
  next => exact .call trivial fun _ => .ret ⟨rfl, h, hStarted⟩
  next =>
    refine .bind (.refl (quiet_registryTarget g.pluginKey)) fun target target' hTarget => ?_
    subst hTarget
    cases target with
    | none => exact .call trivial fun _ => .ret ⟨rfl, h, hStarted⟩
    | some target =>
      refine .bind (.refl (quiet_allow target)) fun allowed allowed' hAllowed => ?_
      subst hAllowed
      split
      next => exact .ret ⟨rfl, h, hStarted⟩
      next =>
        refine .bind (mirrors_admitKey h hStarted hKey target) fun a b hAdmitted => ?_
        rw [hAdmitted.1]
        split
        next => exact .call trivial fun _ => .ret ⟨rfl, hAdmitted.2⟩
        next => exact mirrors_callFilter hAdmitted.2.1 hAdmitted.2.2 target

theorem mirrors_runFilters {filters : List Filter} (h : Agree key rc rc')
    (hStarted : rc.startedAt = startedAt) (hKeys : ∀ g ∈ filters, g.pluginKey ≠ key) :
    Mirrors startedAt (SameOutcome key startedAt) (runFilters phase filters rc)
      (runFilters phase filters rc') := by
  induction filters generalizing rc rc' with
  | nil => exact .ret ⟨rfl, h, hStarted⟩
  | cons g rest ih =>
    rw [List.forall_mem_cons] at hKeys
    have hMatches : g.matches rc.method rc.path = g.matches rc'.method rc'.path :=
      congrArg (fun r => g.matches r.method r.path) h.visible
    unfold runFilters
    rw [hMatches]
    split
    next => exact ih h hStarted hKeys.2
    next =>
      refine .bind (mirrors_runOne h hStarted hKeys.1) fun out out' hOut => ?_
      rw [hOut.1]
      cases out'.1 with
      | some resp => exact .ret ⟨rfl, hOut.2⟩
      | none => exact ih hOut.2.1 hOut.2.2 hKeys.2

end Following

section Skipped

/-- A run in which no filter decides returns a value that satisfies `Q`. -/
def Passes {α : Type} (Q : α → Prop) (p : HostM α) : Prop :=
  ∀ t a, p.Finishes t a → (∀ e ∈ t, ¬ Decides e) → Q a

theorem passes_ret {α : Type} {Q : α → Prop} {a : α} (h : Q a) : Passes Q (.ret a) := by
  intro t b hRun _
  obtain ⟨-, rfl⟩ := Program.finishes_ret.mp hRun
  exact h

theorem passes_call {α : Type} {Q : α → Prop} {o : Op} {k : o.Ans → HostM α}
    (h : ∀ r, ¬ Decides ⟨o, r⟩ → Passes Q (k r)) : Passes Q (.call (I := Host) o k) := by
  intro t b hRun hFails
  obtain ⟨r, u, rfl, hRest⟩ := Program.finishes_call.mp hRun
  rw [List.forall_mem_cons] at hFails
  exact h r hFails.1 u b hRest hFails.2

theorem passes_bind {α β : Type} {P : α → Prop} {Q : β → Prop} {p : HostM α} {k : α → HostM β}
    (hp : Passes P p) (hk : ∀ a, P a → Passes Q (k a)) : Passes Q (p >>= k) := by
  intro t b hRun hFails
  obtain ⟨a, u, v, rfl, hu, hv⟩ := Program.finishes_bind.mp hRun
  have hFirst : P a := hp u a hu fun e he => hFails e (List.mem_append_left v he)
  exact hk a hFirst v b hv fun e he => hFails e (List.mem_append_right u he)

theorem passes_true {α : Type} (p : HostM α) : Passes (fun _ => True) p := fun _ _ _ _ => trivial

variable {phase : Phase} {f : Filter} {rc : RequestContext}

theorem failure_failOpen (hOpen : f.decl.failClosed = false) (status : Int) (message : Str) :
    failure f status message = none := by
  simp [failure, hOpen]

theorem passes_callFilter (hOpen : f.decl.failClosed = false) (target : Instance) :
    Passes (fun out => out.1 = none ∧ Agree f.pluginKey out.2 rc)
      (callFilter phase f target rc) := by
  rw [callFilter_eq]
  refine passes_call fun now _ => passes_call fun _ _ => passes_call fun answer hAnswer => ?_
  cases answer with
  | ok resp => exact absurd ⟨target, resp, rfl⟩ hAnswer
  | error e =>
    refine passes_bind (passes_true _) fun _ _ => passes_call fun _ _ => passes_ret ⟨?_, ?_⟩
    · exact failure_failOpen hOpen _ _
    · exact Agree.cached f.pluginKey rc

theorem passes_admitKey (i : Instance) :
    Passes (fun out => Agree f.pluginKey out.2 rc) (rc.admitKey f.pluginKey i) := by
  unfold RequestContext.admitKey
  split
  next => exact passes_ret (Agree.refl f.pluginKey rc)
  next =>
    refine passes_bind (passes_true _) fun release _ => ?_
    cases release with
    | none => exact passes_ret (Agree.refl f.pluginKey rc)
    | some lease => exact passes_ret (Agree.admitted f.pluginKey rc lease)

/-- A fail-open filter that does not decide lets the request pass as it was. -/
theorem passes_runOne (hOpen : f.decl.failClosed = false) :
    Passes (fun out => out.1 = none ∧ Agree f.pluginKey out.2 rc) (runOne phase f rc) := by
  have hFailed (status : Int) (message : Str) :
      failure f status message = none ∧ Agree f.pluginKey rc rc :=
    ⟨failure_failOpen hOpen status message, Agree.refl f.pluginKey rc⟩
  unfold runOne
  split
  next => exact passes_call fun _ _ => passes_ret (hFailed _ _)
  next =>
    refine passes_bind (passes_true _) fun target _ => ?_
    cases target with
    | none => exact passes_call fun _ _ => passes_ret (hFailed _ _)
    | some target =>
      refine passes_bind (passes_true _) fun allowed _ => ?_
      split
      next => exact passes_ret (hFailed _ _)
      next =>
        refine passes_bind (passes_admitKey target) fun admitted hAdmitted => ?_
        split
        next =>
          refine passes_call fun _ _ => passes_ret ⟨?_, hAdmitted⟩
          exact failure_failOpen hOpen _ _
        next =>
          intro t out hRun hFails
          obtain ⟨hNone, hAgree⟩ := passes_callFilter hOpen target t out hRun hFails
          exact ⟨hNone, hAgree.trans hAdmitted⟩

end Skipped

section Removed

variable {phase : Phase} {f : Filter} {pre post : List Filter} {rc : RequestContext}

theorem runFilters_append (pre post : List Filter) (rc : RequestContext) :
    runFilters phase (pre ++ post) rc = runFilters phase pre rc >>= fun out =>
      if out.1.isSome then pure out else runFilters phase post out.2 := by
  induction pre generalizing rc with
  | nil => rfl
  | cons g pre ih =>
    simp only [List.cons_append, runFilters]
    split
    next => exact ih rc
    next =>
      rw [Program.bind_assoc]
      congr 1
      funext out
      cases out.1 with
      | some resp => rfl
      | none => exact ih out.2

theorem run_eq_runFilters (chain : Chain) (phase : Phase) (rc : RequestContext) :
    run chain phase rc = runFilters phase (chain.filters phase) rc := by
  by_cases h : chain.phases phase = []
  · simp [run, Chain.hasPhase, Chain.filters, h, runFilters]
  · simp [run, Chain.hasPhase, h]

/-- The events `u` of the filters before `f`, and the events `v` of `f` itself:
there are none when an earlier filter stopped the request or `f` does not match. -/
inductive FilterPart (phase : Phase) (pre : List Filter) (f : Filter) (rc : RequestContext) :
    List (Event Host) → List (Event Host) → Prop
  | stopped {u : List (Event Host)} {resp : HttpResponse} {rc₁ : RequestContext}
      (h : (runFilters phase pre rc).Finishes u (some resp, rc₁)) : FilterPart phase pre f rc u []
  | unmatched {u : List (Event Host)} {rc₁ : RequestContext}
      (h : (runFilters phase pre rc).Finishes u (none, rc₁))
      (hMatch : f.matches rc₁.method rc₁.path = false) : FilterPart phase pre f rc u []
  | called {u v : List (Event Host)} {rc₁ : RequestContext}
      {out : Option HttpResponse × RequestContext}
      (h : (runFilters phase pre rc).Finishes u (none, rc₁))
      (hMatch : f.matches rc₁.method rc₁.path = true)
      (hCall : (runOne phase f rc₁).Finishes v out) : FilterPart phase pre f rc u v

/-- The filters after `f` go on as they would from a context that agrees. -/
theorem runFilters_follows {key : Str} {filters : List Filter} {rc' : RequestContext}
    {startedAt : Int} {w w' : List (Event Host)} {out : Option HttpResponse × RequestContext}
    (hKeys : ∀ g ∈ filters, g.pluginKey ≠ key) (hAgree : Agree key rc rc')
    (hStarted : rc.startedAt = startedAt) (hTimes : Retimed startedAt w w')
    (hRun : (runFilters phase filters rc).Finishes w out) :
    ∃ out', (runFilters phase filters rc').Finishes w' out' ∧ SameOutcome key startedAt out out' :=
  (mirrors_runFilters hAgree hStarted hKeys).finishes hTimes hRun

/-- A broken observer is invisible: the run without it gets the same answers,
with any clock readings before the later calls, and has the same outcome. -/
theorem run_without_undecided {chain chain' : Chain} {t : List (Event Host)}
    {out : Option HttpResponse × RequestContext}
    (hWith : chain.filters phase = pre ++ f :: post) (hWithout : chain'.filters phase = pre ++ post)
    (hOnly : ∀ g ∈ pre ++ post, g.pluginKey ≠ f.pluginKey) (hOpen : f.decl.failClosed = false)
    (hRun : (run chain phase rc).Finishes t out) :
    ∃ u v w, t = u ++ v ++ w ∧ FilterPart phase pre f rc u v ∧
      ((∀ e ∈ v, ¬ Decides e) → ∀ w', Retimed rc.startedAt w w' →
        ∃ rc', (run chain' phase rc).Finishes (u ++ w') (out.1, rc') ∧
          rc'.visible = out.2.visible ∧ filterCalls w' = filterCalls w) := by
  obtain ⟨hPre, hPost⟩ := List.forall_mem_append.mp hOnly
  rw [run_eq_runFilters, hWith, runFilters_append] at hRun
  rw [run_eq_runFilters, hWithout, runFilters_append]
  obtain ⟨⟨stop, rc₁⟩, u, s, rfl, hu, hs⟩ := Program.finishes_bind.mp hRun
  have hStarted : rc₁.startedAt = rc.startedAt := by
    obtain ⟨_, _, hSame⟩ :=
      runFilters_follows hPre (Agree.refl f.pluginKey rc) rfl (.refl rc.startedAt u) hu
    exact hSame.2.2
  cases stop with
  | some resp =>
    obtain ⟨rfl, rfl⟩ := Program.finishes_ret.mp hs
    refine ⟨u, [], [], by simp, .stopped hu, fun _ w' hw' => ?_⟩
    cases hw'
    exact ⟨rc₁, Program.finishes_bind.mpr ⟨_, u, [], rfl, hu, .stay _⟩, rfl, rfl⟩
  | none =>
    -- from any context that agrees with the one `f` found
    have hRest {rc₂ : RequestContext} (hAgree : Agree f.pluginKey rc₂ rc₁)
        {w w' : List (Event Host)} (hTimes : Retimed rc.startedAt w w')
        (hw : (runFilters phase post rc₂).Finishes w out) :
        ∃ rc', (runFilters phase pre rc >>= fun out =>
            if out.1.isSome then pure out else runFilters phase post out.2).Finishes
            (u ++ w') (out.1, rc') ∧
          rc'.visible = out.2.visible ∧ filterCalls w' = filterCalls w := by
      obtain ⟨⟨_, rc'⟩, hw', rfl, hSame, -⟩ :=
        runFilters_follows hPost hAgree (hAgree.startedAt.trans hStarted) hTimes hw
      exact ⟨rc', Program.finishes_bind.mpr ⟨_, u, w', rfl, hu, hw'⟩, hSame.visible.symm,
        hTimes.filterCalls_eq⟩
    simp only [Option.isSome_none, Bool.false_eq_true, if_false, runFilters] at hs
    by_cases hMatch : f.matches rc₁.method rc₁.path = true
    · rw [if_neg (by simp [hMatch])] at hs
      obtain ⟨⟨decision, rc₂⟩, v, w, rfl, hv, hw⟩ := Program.finishes_bind.mp hs
      refine ⟨u, v, w, by simp, .called hu hMatch hv, fun hFails w' hTimes => ?_⟩
      obtain ⟨hNone, hAgree⟩ := passes_runOne hOpen v _ hv hFails
      cases hNone
      exact hRest hAgree hTimes hw
    · rw [if_pos (by simp [hMatch])] at hs
      refine ⟨u, [], s, by simp, .unmatched hu (by simpa using hMatch), fun _ w' hTimes => ?_⟩
      exact hRest (Agree.refl f.pluginKey rc₁) hTimes hs

/-- A filter of the first phase that applies to every request. -/
def watching (key : Str) (failClosed : Bool) : Filter :=
  let decl : FilterDecl :=
    { name := "watch".toList, phase := phasePreRoute, match_ := ⟨[], []⟩, order := 0
      failClosed := failClosed, timeoutMS := 0, needsRequestBody := false
      needsResponseBody := false, maxBodyBytes := 0 }
  { pluginKey := key, name := decl.name, order := decl.order, decl := decl
    match_ := ⟨decl, ⟨[], true⟩, none⟩, timeout := defaultDefaults.timeout
    maxBody := defaultDefaults.maxBodyBytes, allowIdentityMutation := false }

def visit : RequestContext :=
  { traceID := [], method := "GET".toList, path := "/".toList, query := [], clientIP := []
    header := [], startedAt := 0 }

/-- Neither plugin is registered. -/
def offlineRun : List (Event Host) :=
  [⟨.current, ⟨[], emptyChain, 0⟩⟩,
    ⟨.ask (.report (watching "audit".toList false) .notRunning), ()⟩,
    ⟨.current, ⟨[], emptyChain, 0⟩⟩,
    ⟨.ask (.report (watching "guard".toList true) .notRunning), ()⟩]

/-- The observer is passed over and the guard stops the request, with or without the
observer. -/
theorem run_without_undecided_offline :
    ∃ u v w rc', offlineRun = u ++ v ++ w ∧
      FilterPart .preRoute [] (watching "audit".toList false) visit u v ∧
      (run (chainOf [(.preRoute, watching "guard".toList true)]) .preRoute visit).Finishes (u ++ w)
        (some ⟨503, plainText, "plugin guard is unavailable".toList⟩, rc') ∧
      rc'.visible = visit.visible := by
  have hRun : (run (chainOf [(.preRoute, watching "audit".toList false),
      (.preRoute, watching "guard".toList true)]) .preRoute visit).Finishes offlineRun
      (some ⟨503, plainText, "plugin guard is unavailable".toList⟩, visit) :=
    .step (.step (.step (.step (.stay _))))
  have hWith : (chainOf [(.preRoute, watching "audit".toList false),
      (.preRoute, watching "guard".toList true)]).filters .preRoute =
      [] ++ watching "audit".toList false :: [watching "guard".toList true] := by decide
  have hWithout : (chainOf [(.preRoute, watching "guard".toList true)]).filters .preRoute =
      [] ++ [watching "guard".toList true] := by decide
  have hNone : ∀ e ∈ offlineRun, ¬ Decides e := by
    simp [offlineRun, Decides]
  obtain ⟨u, v, w, hSplit, hPart, hSame⟩ :=
    run_without_undecided hWith hWithout (by decide) rfl hRun
  have hUndecided : ∀ e ∈ v, ¬ Decides e := fun e he => hNone e (by simp [hSplit, he])
  obtain ⟨rc', hFinishes, hVisible, -⟩ := hSame hUndecided w (.refl _ w)
  exact ⟨u, v, w, rc', hSplit, hPart, hFinishes, hVisible⟩

end Removed

end Moduless.Pipeline
