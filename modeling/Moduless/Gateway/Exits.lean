import Moduless.Gateway.PluginHandler
import Moduless.Pipeline.Status

/-!
The ways out of the plugin handler: what each of them writes to the client, and the
context it leaves to the log phase.

`Outcome` reads both off the history of a request. Every part of the handler either
returns with the status it has written in its context, or goes on without having written
anything. Two ways out are different: a path that names no plugin, and the answer of a
backend that no filter has stopped.
-/

namespace Moduless.Gateway
open Go Pipeline PluginHost Interaction Discipline Program

/-- The statuses that were written to the client, and the log phases that were started. -/
structure Outcome where
  codes : List Int := []
  logs : List (Chain × AsyncContext) := []

namespace Outcome

def wrote (g : Outcome) (code : Int) : Outcome := { g with codes := g.codes ++ [code] }

def next (g : Outcome) : Event Host → Outcome
  | ⟨.ask (.respond code _ _), _⟩ => g.wrote code
  | ⟨.go (.log chain rc), _⟩ => { g with logs := g.logs ++ [(chain, rc)] }
  | _ => g

end Outcome

def outcomes : Discipline Host Outcome where
  next := Outcome.next
  permits _ _ := True
  assumes _ _ := True

/-- Neither a response nor a goroutine. -/
def Mute : Op → Prop
  | .ask (.respond _ _ _) | .go _ => False
  | _ => True

theorem mute_of_quiet (o : Op) (h : o.Quiet) : Mute o := by
  cases o with
  | ask q => cases q <;> first | exact h.elim | trivial
  | go => exact h.elim
  | _ => trivial

theorem mute_run (chain : Chain) (phase : Phase) (rc : RequestContext) :
    (run chain phase rc).Uses Mute :=
  uses_run mute_of_quiet (fun _ _ _ _ => trivial) chain

section Outcomes

variable {g : Outcome} {rc : RequestContext}

theorem outcome_mute {α : Type} {p : HostM α} (hp : p.Uses Mute) :
    Obeys outcomes (fun _ g' => g' = g) p g := by
  refine obeys_of_uses hp (fun g' o hg' ho => ⟨trivial, fun r => ?_⟩) rfl
  cases o with
  | ask q => cases q <;> first | exact ho.elim | exact hg'
  | go => exact ho.elim
  | _ => exact hg'

theorem outcome_mute_returns {α : Type} {p : HostM α} {R : α → Prop} (hp : p.Uses Mute)
    (hR : p.Returns R) : Obeys outcomes (fun a g' => g' = g ∧ R a) p g :=
  obeys_returns (outcome_mute hp) hR

/-- The status in the context is the one that was written. -/
def Wrote (g : Outcome) (rc : RequestContext) (g' : Outcome) : Prop :=
  g' = g.wrote rc.responseStatus

/-- Nothing was written, and the context has the same status. -/
def Unwritten (g : Outcome) (rc rc' : RequestContext) (g' : Outcome) : Prop :=
  g' = g ∧ SameStatus rc rc'

theorem unwritten_of_early {α : Type} {f : α → RequestContext} {E : RequestContext → Outcome → Prop}
    (out : Except RequestContext α) (g' : Outcome)
    (h : either E (fun a => Unwritten g rc (f a)) out g') :
    either (fun _ _ => True) (fun _ g' => g' = g) out g' := by
  cases out with
  | error e => trivial
  | ok a => exact h.1

theorem outcome_runPhase (chain : Chain) (phase : Phase) :
    Obeys outcomes (either (Wrote g) (Unwritten g rc)) (runPhase chain phase rc).run g := by
  refine obeys_lift (outcome_mute_returns (mute_run chain phase rc) (sameStatus_run chain)) ?_
  rintro ⟨stop, rc'⟩ _ ⟨rfl, hSame⟩
  cases stop with
  | none => exact ⟨rfl, hSame⟩
  | some resp => exact ⟨trivial, fun _ _ => rfl⟩

namespace PluginHandler

variable (h : PluginHandler)

/-- `readBody` writes exactly if it gives no body. -/
theorem outcome_readBody (r : Request) :
    Obeys outcomes
      (fun read g' => g' = if read.1.isNone then g.wrote statusRequestEntityTooLarge else g)
      (h.readBody r) g := by
  unfold readBody
  split
  next => exact rfl
  next =>
    refine obeys_ask trivial fun delivered _ => obeys_ite.mpr ⟨fun _ => ?_, fun _ => ?_⟩
    · exact rfl
    · exact ⟨trivial, fun _ _ => rfl⟩

theorem outcome_bufferBody (needed : Bool) (r : Request) :
    Obeys outcomes (either (Wrote g) fun read => Unwritten g rc read.2)
      (h.bufferBody needed r rc).run g := by
  unfold bufferBody
  split
  next =>
    refine obeys_lift (h.outcome_readBody r) fun read g' hg' => ?_
    split
    next hNone =>
      rw [hNone] at hg'
      exact hg'
    next body hSome =>
      rw [hSome] at hg'
      exact ⟨hg', rfl⟩
  next => exact ⟨rfl, rfl⟩

theorem outcome_beforeRouting (chain : Chain) (r : Request) :
    Obeys outcomes (either (Wrote g) fun routed => Unwritten g rc routed.2.2)
      (h.beforeRouting chain r rc).run g := by
  refine obeys_early (h.outcome_bufferBody _ r) ?_
  rintro read _ ⟨rfl, hRead⟩
  refine obeys_early (outcome_runPhase chain .preRoute) ?_
  rintro rc' _ ⟨rfl, hPhase⟩
  split
  next =>
    refine obeys_early (h.outcome_bufferBody _ _) ?_
    rintro read' _ ⟨rfl, hRead'⟩
    exact ⟨rfl, hRead'.trans (hPhase.trans hRead)⟩
  next => exact ⟨rfl, hPhase.trans hRead⟩

theorem outcome_resolveIdentity (r : Request) :
    Obeys outcomes (Unwritten g rc) (h.resolveIdentity r rc) g := by
  unfold resolveIdentity
  refine obeys_ite.mpr ⟨fun _ => obeys_ask trivial fun user _ => ?_, fun _ => ⟨rfl, rfl⟩⟩
  cases user <;> exact ⟨rfl, rfl⟩

/-- `servePlugin` up to the split of the path. -/
def beforeSplit (chain : Chain) (r : Request) (rc : RequestContext) : Stage RequestContext := do
  let rc ← h.resolveIdentity r rc
  let rc ← runPhase chain .authenticate rc
  let rc ← runPhase chain .authorize rc
  if h.hasAuth && rc.identity.isNone then
    httpError "unauthenticated".toList statusUnauthorized
    throw { rc with responseStatus := statusUnauthorized }
  else runPhase chain .preHandler rc

/-- The split of the path; there is no plugin to call if it fails. -/
def splitStage (rc : RequestContext) : Stage (Str × Str × RequestContext) :=
  match splitPluginPath rc.path with
  | none => do
      httpError "404 page not found".toList statusNotFound
      throw rc
  | some (key, sub) => pure (key, sub, rc)

theorem beforeBackend_eq (chain : Chain) (r : Request) (rc : RequestContext) :
    h.beforeBackend chain r rc = h.beforeSplit chain r rc >>= splitStage := by
  unfold beforeBackend beforeSplit
  simp only [LawfulMonad.bind_assoc]
  refine bind_congr fun rc => bind_congr fun rc => bind_congr fun rc => ?_
  split
  next => rfl
  next => rfl

theorem outcome_beforeSplit (chain : Chain) (r : Request) :
    Obeys outcomes (either (Wrote g) (Unwritten g rc)) (h.beforeSplit chain r rc).run g := by
  refine obeys_lift (h.outcome_resolveIdentity r) ?_
  rintro rc₁ _ ⟨rfl, h₁⟩
  refine obeys_early (outcome_runPhase chain .authenticate) ?_
  rintro rc₂ _ ⟨rfl, h₂⟩
  refine obeys_early (outcome_runPhase chain .authorize) ?_
  rintro rc₃ _ ⟨rfl, h₃⟩
  split
  next => exact ⟨trivial, fun _ _ => rfl⟩
  next =>
    refine obeys_mono (outcome_runPhase chain .preHandler) fun out g' hOut => ?_
    cases out with
    | error rc' => exact hOut
    | ok rc' => exact ⟨hOut.1, hOut.2.trans (h₃.trans (h₂.trans h₁))⟩

theorem outcome_beforeBackend (chain : Chain) (r : Request) :
    Obeys outcomes (either (fun _ _ => True) fun _ g' => g' = g)
      (h.beforeBackend chain r rc).run g := by
  rw [beforeBackend_eq]
  refine obeys_early (obeys_mono (h.outcome_beforeSplit chain r) unwritten_of_early) ?_
  rintro rc' _ rfl
  unfold splitStage
  split
  next => exact ⟨trivial, fun _ _ => trivial⟩
  next => exact rfl

theorem outcome_route (chain : Chain) (r : Request) :
    Obeys outcomes (either (fun _ _ => True) fun _ g' => g' = g) (h.route chain r rc).run g := by
  refine obeys_early (obeys_mono (h.outcome_beforeRouting chain r) unwritten_of_early) ?_
  rintro routed _ rfl
  split
  next => exact obeys_early (h.outcome_beforeBackend chain _) fun _ _ hSame => hSame
  next => exact rfl

theorem mute_dispatch (i : Instance) (sub : Str) (rc : RequestContext) :
    (h.dispatch i sub rc).Uses Mute := by
  refine uses_ask trivial fun _ => uses_ask trivial fun answer => ?_
  cases answer with
  | error e => exact Program.uses_bind ((quiet_recordFailure i).mono mute_of_quiet) fun _ => trivial
  | ok resp => exact Program.uses_bind ((quiet_recordSuccess i).mono mute_of_quiet) fun _ => trivial

theorem mute_callLive (inst : Option Instance) (key sub : Str) (rc : RequestContext) :
    (h.callLive inst key sub rc).Uses Mute := by
  refine uses_op trivial fun cur => ?_
  refine Program.uses_bind ((quiet_pick cur key).mono mute_of_quiet) fun next => ?_
  cases next with
  | none => trivial
  | some next =>
    refine Program.uses_ite.mpr ⟨fun _ => trivial, fun _ => ?_⟩
    refine Program.uses_bind ((quiet_admitKey rc key next).mono mute_of_quiet) fun admitted => ?_
    refine Program.uses_ite.mpr ⟨fun _ => trivial, fun _ => ?_⟩
    exact Program.uses_bind (h.mute_dispatch next sub _) fun _ => trivial

theorem mute_callBackend (snap : Snapshot) (key sub : Str) (rc : RequestContext) :
    (h.callBackend snap key sub rc).Uses Mute := by
  refine Program.uses_bind ((quiet_pick snap key).mono mute_of_quiet) fun inst => ?_
  cases inst with
  | none => exact h.mute_callLive none key sub rc
  | some i =>
    refine Program.uses_bind ((quiet_admitKey rc key i).mono mute_of_quiet) fun admitted => ?_
    refine Program.uses_ite.mpr ⟨fun _ => h.mute_callLive _ key sub _, fun _ => ?_⟩
    exact Program.uses_bind (h.mute_dispatch i sub _) fun _ => trivial

theorem outcome_afterFailure (chain : Chain) (e : BackendError) :
    Obeys outcomes (either (Wrote g) (Wrote g)) (afterFailure chain e rc).run g := by
  refine obeys_early (outcome_runPhase chain .onError) ?_
  rintro rc' _ ⟨rfl, hSame⟩
  refine ⟨trivial, fun _ _ => ?_⟩
  have hStatus : rc'.responseStatus = e.status := hSame
  exact congrArg (Outcome.wrote _) hStatus.symm

/-- The answer of a backend, once the filters have let it pass. -/
def filterAnswer (chain : Chain) (resp : HttpResponse) (rc : RequestContext) :
    Stage RequestContext := do
  let rc := { rc with
    responseStatus := resp.statusCode
    responseHeader := fromProtoHeaders resp.headers
    responseBody := resp.body }
  if rc.responseStatus ≥ 500 then
    let rc ← runPhase chain .onError rc
    runPhase chain .postHandler rc
  else runPhase chain .postHandler rc

def writeStage (rc : RequestContext) : Stage RequestContext := do
  writeFinal rc
  pure rc

theorem afterResponse_eq (chain : Chain) (resp : HttpResponse) (rc : RequestContext) :
    afterResponse chain resp rc = filterAnswer chain resp rc >>= writeStage := by
  unfold afterResponse filterAnswer
  dsimp only
  split
  next => simp only [LawfulMonad.bind_assoc]; rfl
  next => rfl

theorem outcome_filterAnswer (chain : Chain) (resp : HttpResponse) :
    Obeys outcomes
      (either (Wrote g) fun rc' g' => g' = g ∧ rc'.responseStatus = resp.statusCode)
      (filterAnswer chain resp rc).run g := by
  unfold filterAnswer
  dsimp only
  split
  next =>
    refine obeys_early (outcome_runPhase chain .onError) ?_
    rintro rc' _ ⟨rfl, hSame⟩
    refine obeys_mono (outcome_runPhase chain .postHandler) fun out g' hOut => ?_
    cases out with
    | error rc' => exact hOut
    | ok rc' => exact ⟨hOut.1, hOut.2.trans hSame⟩
  next =>
    refine obeys_mono (outcome_runPhase chain .postHandler) fun out g' hOut => ?_
    cases out with
    | error rc' => exact hOut
    | ok rc' => exact hOut

theorem outcome_serveCore (chain : Chain) (r : Request) :
    Obeys outcomes (fun _ g' => g' = g) (serveCore chain r rc) g := by
  refine outcome_mute (Program.uses_bind ((quiet_releaseAdmissions rc).mono mute_of_quiet)
    fun rc => uses_ask trivial fun _ => ?_)
  exact Program.uses_ite.mpr ⟨fun _ => trivial, fun _ => trivial⟩

/-- The deferred calls of `serve`. -/
def closing (chain : Chain) (rc : RequestContext) : HostM Unit := do
  runAsync chain rc.forAsync
  let _ ← rc.releaseAdmissions
  pure ()

/-- The context that both ways out leave. -/
def leftBy : Except RequestContext RequestContext → RequestContext
  | .error rc => rc
  | .ok rc => rc

/-- What every request starts with. -/
def intake (snap : Snapshot) (u : List (Event Host)) (traceID : Str) (now : Int) :
    List (Event Host) :=
  ⟨.current, snap⟩ :: u ++ [⟨.ask (.setHeader requestIDHeader traceID), ()⟩, ⟨.ask .now, now⟩]

theorem serve_eq (r : Request) : h.serve r = op .current >>= fun snap =>
    traceIDFor r >>= fun traceID => ask (.setHeader requestIDHeader traceID) >>= fun _ =>
      ask .now >>= fun now =>
        (h.serveStages snap r (newRequestContext traceID r now)).run >>= fun out =>
          closing snap.chain (leftBy out) := by
  refine bind_congr fun snap => bind_congr fun traceID => bind_congr fun _ =>
    bind_congr fun now => ?_
  rw [serveRequest, Program.bind_assoc]
  refine bind_congr fun out => ?_
  cases out <;> rfl

section Requests

variable {h} {r : Request} {t u v : List (Event Host)} {snap : Snapshot} {traceID : Str}
  {now : Int}

theorem serve_leads {q : HostM (Except RequestContext RequestContext)}
    (hTrace : (traceIDFor r).Finishes u traceID)
    (hStages : (h.serveStages snap r (newRequestContext traceID r now)).run.Leads v q) :
    (h.serve r).Leads (intake snap u traceID now ++ v)
      (q >>= fun out => closing snap.chain (leftBy out)) := by
  rw [serve_eq, intake]
  simp only [List.cons_append, List.append_assoc, List.nil_append]
  exact .step ((hTrace.bind _).trans (.step (.step (hStages.bind _))))

theorem serve_finishes (hServe : (h.serve r).Finishes t ()) :
    ∃ snap traceID now u v w out, t = intake snap u traceID now ++ v ++ w ∧
      (traceIDFor r).Finishes u traceID ∧
      (h.serveStages snap r (newRequestContext traceID r now)).run.Finishes v out ∧
      (closing snap.chain (leftBy out)).Finishes w () := by
  rw [serve_eq] at hServe
  obtain ⟨snap, t₁, rfl, h₁⟩ := finishes_op.mp hServe
  obtain ⟨traceID, u, t₂, rfl, hTrace, h₂⟩ := finishes_bind.mp h₁
  obtain ⟨_, t₃, rfl, h₃⟩ := finishes_ask.mp h₂
  obtain ⟨now, t₄, rfl, h₄⟩ := finishes_ask.mp h₃
  obtain ⟨out, v, w, rfl, hStages, hClosing⟩ := finishes_bind.mp h₄
  exact ⟨snap, traceID, now, u, v, w, out, by simp [intake], hTrace, hStages, hClosing⟩

theorem account_intake (hTrace : (traceIDFor r).Finishes u traceID) :
    outcomes.account {} (intake snap u traceID now) = {} := by
  have hMute : (traceIDFor r).Uses Mute := by
    unfold traceIDFor
    dsimp only
    split <;> simp [Mute]
  have hu : outcomes.account {} u = {} :=
    (outcome_mute hMute).finishes hTrace fun _ _ => trivial
  rw [intake, List.cons_append, ← List.singleton_append, account_append, account_append]
  change outcomes.account (outcomes.account {} u) _ = {}
  rw [hu]
  rfl

theorem outcome_closing (chain : Chain) (rc : RequestContext) {g : Outcome} (hLogs : g.logs = []) :
    Obeys outcomes (fun _ g' => g'.codes = g.codes ∧ ∀ l ∈ g'.logs, l.2 = rc.forAsync)
      (closing chain rc) g := by
  have hRelease : ∀ g : Outcome, Obeys outcomes (fun _ g' => g' = g)
      (rc.releaseAdmissions >>= fun _ => pure ()) g := fun g =>
    outcome_mute (Program.uses_bind ((quiet_releaseAdmissions rc).mono mute_of_quiet)
      fun _ => trivial)
  unfold closing runAsync
  split
  next =>
    refine obeys_mono (hRelease g) ?_
    rintro _ _ rfl
    exact ⟨rfl, by simp [hLogs]⟩
  next =>
    refine obeys_op trivial fun _ _ => obeys_mono (hRelease _) ?_
    rintro _ _ rfl
    refine ⟨rfl, fun l hl => ?_⟩
    rw [show l = (chain, rc.forAsync) by simpa [outcomes, Outcome.next, hLogs] using hl]

theorem account_serve {q : HostM (Except RequestContext RequestContext)}
    {Q : RequestContext → Outcome → Prop} {w : List (Event Host)}
    (hTrace : (traceIDFor r).Finishes u traceID)
    (hStages : (h.serveStages snap r (newRequestContext traceID r now)).run.Leads v q)
    (hRest : Obeys outcomes (fun out g => g.logs = [] ∧ Q (leftBy out) g) q
      (outcomes.account {} v))
    (hServe : (h.serve r).Finishes (intake snap u traceID now ++ v ++ w) ()) :
    ∃ rc g, Q rc g ∧ (outcomes.account {} (intake snap u traceID now ++ v ++ w)).codes = g.codes ∧
      ∀ l ∈ (outcomes.account {} (intake snap u traceID now ++ v ++ w)).logs,
        l.2 = rc.forAsync := by
  have hLeads := (serve_leads hTrace hStages).rest hServe
  obtain ⟨out, w₁, w₂, rfl, hq, hClosing⟩ := finishes_bind.mp hLeads
  obtain ⟨hLogs, hQ⟩ := hRest.finishes hq fun _ _ => trivial
  have hEnd := (outcome_closing snap.chain (leftBy out) hLogs).finishes hClosing fun _ _ => trivial
  rw [account_append, account_append, account_append, account_intake hTrace]
  exact ⟨leftBy out, _, hQ, hEnd⟩

end Requests

end PluginHandler
end Outcomes
end Moduless.Gateway
