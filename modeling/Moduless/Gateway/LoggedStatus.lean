import Moduless.Gateway.Exits
import Moduless.PluginHost.HostState

/-!
Whether the log phase is told the status that the client got.

A request either is handed to Core's own handlers, or leaves with the status it has
recorded, or by one of the two ways on which the status that is written and the one that
is recorded are decided separately.
-/

namespace Moduless.Gateway
open Go Pipeline PluginHost Interaction Discipline Program

namespace PluginHandler

variable (h : PluginHandler)

/-- The request passed every filter in front of its backend, and the path they left names
no plugin. -/
def Unroutable (r : Request) (t : List (Event Host)) : Prop :=
  ∃ snap traceID now u v₁ v₂ w r' rc₁ rc,
    t = intake snap u traceID now ++ (v₁ ++ v₂) ++ w ∧ (traceIDFor r).Finishes u traceID ∧
    (h.beforeRouting snap.chain r (newRequestContext traceID r now)).run.Finishes v₁
      (.ok (true, r', rc₁)) ∧
    (h.beforeSplit snap.chain r' rc₁).run.Finishes v₂ (.ok rc) ∧
    splitPluginPath rc.path = none

/-- The backend answered, and no filter stopped its answer. -/
def Answers (r : Request) (t : List (Event Host)) (resp : HttpResponse) : Prop :=
  ∃ snap traceID now u v₁ v₂ v₃ w key sub rc₁ rc₂ rc,
    t = intake snap u traceID now ++ (v₁ ++ v₂ ++ v₃) ++ w ∧ (traceIDFor r).Finishes u traceID ∧
    (h.route snap.chain r (newRequestContext traceID r now)).run.Finishes v₁
      (.ok (.backend key sub rc₁)) ∧
    (h.callBackend snap key sub rc₁).Finishes v₂ (.ok resp, rc₂) ∧
    (filterAnswer snap.chain resp rc₂).run.Finishes v₃ (.ok rc)

section Exits

variable {h} {r : Request} {t v v₁ v₂ v₃ : List (Event Host)} {snap : Snapshot}
  {rc₀ rc₁ rc₂ rc : RequestContext}

theorem leads_split {r' : Request}
    (hRouting : (h.beforeRouting snap.chain r rc₀).run.Finishes v₁ (.ok (true, r', rc₁)))
    (hSplit : (h.beforeSplit snap.chain r' rc₁).run.Finishes v₂ (.ok rc))
    (hNone : splitPluginPath rc.path = none) :
    (h.serveStages snap r rc₀).run.Leads (v₁ ++ v₂)
      (httpError "404 page not found".toList statusNotFound >>= fun _ => pure (.error rc)) := by
  have hBackend := leads_early hSplit splitStage
  rw [← beforeBackend_eq] at hBackend
  have hStage : (splitStage rc).run =
      httpError "404 page not found".toList statusNotFound >>= fun _ => pure (.error rc) := by
    rw [splitStage, hNone]
    rfl
  rw [hStage] at hBackend
  have hRoute : (h.route snap.chain r rc₀).run.Leads (v₁ ++ v₂)
      (httpError "404 page not found".toList statusNotFound >>= fun _ => pure (.error rc)) :=
    (leads_early hRouting _).trans (Leads.bind hBackend _)
  exact Leads.bind hRoute _

theorem leads_answer {key sub : Str} {resp : HttpResponse}
    (hRoute : (h.route snap.chain r rc₀).run.Finishes v₁ (.ok (.backend key sub rc₁)))
    (hCall : (h.callBackend snap key sub rc₁).Finishes v₂ (.ok resp, rc₂))
    (hFilter : (filterAnswer snap.chain resp rc₂).run.Finishes v₃ (.ok rc)) :
    (h.serveStages snap r rc₀).run.Leads (v₁ ++ v₂ ++ v₃) (writeStage rc).run := by
  have hAfter := leads_early hFilter writeStage
  rw [← afterResponse_eq] at hAfter
  have hStages : (h.serveStages snap r rc₀).run.Leads v₁ (h.callBackend snap key sub rc₁ >>=
      fun result => (afterBackend snap.chain result.1 result.2).run) := by
    rw [← run_lift_bind]
    exact leads_early hRoute _
  exact (hStages.trans (Leads.bind hCall _)).trans hAfter

/-- The statuses written in a history, and those that its log phases were started with. -/
def Left (t : List (Event Host)) (written recorded : Int) : Prop :=
  (outcomes.account {} t).codes = [written] ∧
    ∀ l ∈ (outcomes.account {} t).logs, l.2.val.responseStatus = recorded

theorem Unroutable.left (hExit : h.Unroutable r t) (hServe : (h.serve r).Finishes t ()) :
    Left t statusNotFound 0 := by
  obtain ⟨snap, traceID, now, u, v₁, v₂, w, r', rc₁, rc, rfl, hTrace, hRouting, hSplit, hNone⟩ :=
    hExit
  obtain ⟨hv₁, hStatus₁⟩ := (h.outcome_beforeRouting snap.chain r).finishes hRouting
    fun _ _ => trivial
  obtain ⟨hv₂, hStatus₂⟩ := (h.outcome_beforeSplit snap.chain r').finishes hSplit
    fun _ _ => trivial
  have hv : outcomes.account {} (v₁ ++ v₂) = {} := by rw [account_append, hv₁, hv₂]
  obtain ⟨rc', g, ⟨rfl, hg⟩, hCodes, hLogs⟩ := account_serve (Q := fun rc' g => rc' = rc ∧
    g.codes = [statusNotFound]) hTrace (leads_split hRouting hSplit hNone)
    (by rw [hv]; exact ⟨trivial, fun _ _ => ⟨rfl, rfl, rfl⟩⟩) hServe
  refine ⟨hCodes.trans hg, fun l hl => ?_⟩
  rw [hLogs l hl]
  exact hStatus₂.trans hStatus₁

theorem Answers.left {resp : HttpResponse} (hExit : h.Answers r t resp)
    (hServe : (h.serve r).Finishes t ()) :
    Left t (normalizeStatus resp.statusCode) resp.statusCode := by
  obtain ⟨snap, traceID, now, u, v₁, v₂, v₃, w, key, sub, rc₁, rc₂, rc, rfl, hTrace, hRoute, hCall,
    hFilter⟩ := hExit
  have hv₁ : outcomes.account {} v₁ = {} :=
    (h.outcome_route snap.chain r).finishes hRoute fun _ _ => trivial
  have hv₂ : outcomes.account {} v₂ = {} :=
    (outcome_mute (h.mute_callBackend snap key sub rc₁)).finishes hCall fun _ _ => trivial
  obtain ⟨hv₃, hStatus⟩ := (outcome_filterAnswer snap.chain resp).finishes hFilter
    fun _ _ => trivial
  have hv : outcomes.account {} (v₁ ++ v₂ ++ v₃) = {} := by
    rw [account_append, account_append, hv₁, hv₂, hv₃]
  obtain ⟨rc', g, ⟨rfl, hg⟩, hCodes, hLogs⟩ := account_serve (Q := fun rc' g => rc' = rc ∧
    g.codes = [normalizeStatus rc.responseStatus]) hTrace (leads_answer hRoute hCall hFilter)
    (by rw [hv]; exact ⟨trivial, fun _ _ => ⟨rfl, rfl, rfl⟩⟩) hServe
  refine ⟨hCodes.trans (hStatus ▸ hg), fun l hl => ?_⟩
  rw [hLogs l hl]
  exact hStatus

/-- How a request can leave the stages of the handler. -/
inductive Exit (h : PluginHandler) (snap : Snapshot) (r : Request) (rc₀ : RequestContext)
    (v : List (Event Host)) (out : Except RequestContext RequestContext) : Prop
  | unwritten : outcomes.account {} v = {} → Exit h snap r rc₀ v out
  | recorded : outcomes.account {} v = Outcome.wrote {} (leftBy out).responseStatus →
      Exit h snap r rc₀ v out
  | unroutable {v₁ v₂ w : List (Event Host)} {r' : Request} {rc₁ rc : RequestContext} :
      v = v₁ ++ v₂ ++ w →
      (h.beforeRouting snap.chain r rc₀).run.Finishes v₁ (.ok (true, r', rc₁)) →
      (h.beforeSplit snap.chain r' rc₁).run.Finishes v₂ (.ok rc) →
      splitPluginPath rc.path = none → Exit h snap r rc₀ v out
  | answered {v₁ v₂ v₃ w : List (Event Host)} {key sub : Str} {rc₁ rc₂ rc : RequestContext}
      {resp : HttpResponse} : v = v₁ ++ v₂ ++ v₃ ++ w →
      (h.route snap.chain r rc₀).run.Finishes v₁ (.ok (.backend key sub rc₁)) →
      (h.callBackend snap key sub rc₁).Finishes v₂ (.ok resp, rc₂) →
      (filterAnswer snap.chain resp rc₂).run.Finishes v₃ (.ok rc) → Exit h snap r rc₀ v out

theorem exit_of_route {e : RequestContext}
    (hRoute : (h.route snap.chain r rc₀).run.Finishes v (.error e)) :
    Exit h snap r rc₀ v (.error e) := by
  rcases finishes_early_cases hRoute with ⟨_, ⟨⟩, hRouting⟩ | ⟨⟨isRoute, r', rc₁⟩, v₁, v', rfl,
    hRouting, hBackend⟩
  · exact .recorded ((h.outcome_beforeRouting snap.chain r).finishes hRouting fun _ _ => trivial)
  · have hv₁ := ((h.outcome_beforeRouting (g := {}) snap.chain r).finishes hRouting
      fun _ _ => trivial).1
    cases isRoute with
    | false =>
      obtain ⟨-, hSame⟩ := finishes_ret.mp hBackend
      cases hSame
    | true =>
      rcases finishes_early_cases hBackend with ⟨_, ⟨⟩, hSplits⟩ | ⟨_, _, _, _, _, hPure⟩
      · rw [beforeBackend_eq] at hSplits
        rcases finishes_early_cases hSplits with ⟨_, ⟨⟩, hSplit⟩ | ⟨rc, v₂, w, rfl, hSplit, hEnd⟩
        · refine .recorded ?_
          rw [account_append, hv₁]
          exact (h.outcome_beforeSplit snap.chain r').finishes hSplit fun _ _ => trivial
        · cases hNone : splitPluginPath rc.path with
          | none => exact .unroutable (List.append_assoc _ _ _).symm hRouting hSplit hNone
          | some out =>
            rw [splitStage, hNone] at hEnd
            obtain ⟨-, hSame⟩ := finishes_ret.mp hEnd
            cases hSame
      · obtain ⟨-, hSame⟩ := finishes_ret.mp hPure
        cases hSame

theorem exit_of_backend {key sub : Str} {out : Except RequestContext RequestContext}
    (hRoute : (h.route snap.chain r rc₀).run.Finishes v₁ (.ok (.backend key sub rc₁)))
    (hRest : (h.callBackend snap key sub rc₁ >>= fun result =>
      (afterBackend snap.chain result.1 result.2).run).Finishes v out) :
    Exit h snap r rc₀ (v₁ ++ v) out := by
  have hv₁ := (h.outcome_route (g := {}) snap.chain r).finishes hRoute fun _ _ => trivial
  obtain ⟨⟨result, rc₂⟩, v₂, v', rfl, hCall, hAfter⟩ := finishes_bind.mp hRest
  have hv₂ := (outcome_mute (g := {}) (h.mute_callBackend snap key sub rc₁)).finishes hCall
    fun _ _ => trivial
  have hBefore : outcomes.account {} (v₁ ++ (v₂ ++ v')) = outcomes.account {} v' := by
    rw [account_append, account_append, show outcomes.account {} v₁ = {} from hv₁, hv₂]
  cases result with
  | error e =>
    have hv' := (outcome_afterFailure (g := {}) snap.chain e).finishes hAfter fun _ _ => trivial
    refine .recorded (hBefore.trans ?_)
    cases out <;> exact hv'
  | ok resp =>
    change (afterResponse snap.chain resp rc₂).run.Finishes v' out at hAfter
    rw [afterResponse_eq] at hAfter
    rcases finishes_early_cases hAfter with ⟨_, rfl, hFilter⟩ | ⟨rc, v₃, w, rfl, hFilter, -⟩
    · refine .recorded (hBefore.trans ?_)
      exact (outcome_filterAnswer snap.chain resp).finishes hFilter fun _ _ => trivial
    · refine .answered ?_ hRoute hCall hFilter (w := w)
      simp

theorem exit_of_stages {out : Except RequestContext RequestContext}
    (hStages : (h.serveStages snap r rc₀).run.Finishes v out) : Exit h snap r rc₀ v out := by
  rcases finishes_early_cases hStages with ⟨e, rfl, hRoute⟩ | ⟨routed, v₁, v', rfl, hRoute, hRest⟩
  · exact exit_of_route hRoute
  · cases routed with
    | next r' rc' =>
      have hv₁ := (h.outcome_route (g := {}) snap.chain r).finishes hRoute fun _ _ => trivial
      have hCore := (obeys_lifted (E := fun _ g' => g' = {})
        (outcome_serveCore (g := {}) snap.chain r')).finishes hRest fun _ _ => trivial
      refine .unwritten ?_
      rw [account_append, show outcomes.account {} v₁ = {} from hv₁]
      cases out <;> exact hCore
    | backend key sub rc₁ =>
      refine exit_of_backend hRoute ?_
      rw [← run_lift_bind]
      exact hRest

theorem serve_exits (hServe : (h.serve r).Finishes t ()) :
    (outcomes.account {} t).codes = [] ∨ (∃ status, Left t status status) ∨ h.Unroutable r t ∨
      ∃ resp, h.Answers r t resp := by
  obtain ⟨snap, traceID, now, u, v, w, out, rfl, hTrace, hStages, hClosing⟩ := serve_finishes hServe
  have hEnd : ∀ {g : Outcome}, outcomes.account {} v = g → g.logs = [] →
      (outcomes.account {} (intake snap u traceID now ++ v ++ w)).codes = g.codes ∧
      ∀ l ∈ (outcomes.account {} (intake snap u traceID now ++ v ++ w)).logs,
        l.2 = (leftBy out).forAsync := by
    rintro g rfl hLogs
    obtain ⟨rc, g, ⟨rfl, rfl⟩, hCodes, hAll⟩ := account_serve (Q := fun rc g => rc = leftBy out ∧
      g = outcomes.account {} v) hTrace hStages ⟨hLogs, rfl, rfl⟩ hServe
    exact ⟨hCodes, hAll⟩
  cases exit_of_stages hStages with
  | unwritten hv => exact .inl (hEnd hv rfl).1
  | recorded hv =>
    obtain ⟨hCodes, hLogs⟩ := hEnd hv rfl
    refine .inr (.inl ⟨_, hCodes, fun l hl => ?_⟩)
    rw [hLogs l hl]
    rfl
  | @unroutable v₁ v₂ w' r' rc₁ rc hv hRouting hSplit hNone =>
    refine .inr (.inr (.inl ⟨snap, traceID, now, u, v₁, v₂, w' ++ w, r', rc₁, rc, ?_, hTrace,
      hRouting, hSplit, hNone⟩))
    simp [hv]
  | @answered v₁ v₂ v₃ w' key sub rc₁ rc₂ rc resp hv hRoute hCall hFilter =>
    refine .inr (.inr (.inr ⟨resp, snap, traceID, now, u, v₁, v₂, v₃, w' ++ w, key, sub, rc₁, rc₂,
      rc, ?_, hTrace, hRoute, hCall, hFilter⟩))
    simp [hv]

/-- What was written or started before is still in the account. -/
def Outcome.Extends (g g' : Outcome) : Prop := g.codes <+: g'.codes ∧ g.logs <+: g'.logs

theorem extends_account (g : Outcome) (t : List (Event Host)) :
    Outcome.Extends g (outcomes.account g t) := by
  induction t generalizing g with
  | nil => exact ⟨List.prefix_rfl, List.prefix_rfl⟩
  | cons e t ih =>
    have hStep : Outcome.Extends g (g.next e) := by
      unfold Outcome.next
      split
      next => exact ⟨List.prefix_append _ _, List.prefix_rfl⟩
      next => exact ⟨List.prefix_rfl, List.prefix_append _ _⟩
      next => exact ⟨List.prefix_rfl, List.prefix_rfl⟩
    have hRest := ih (g.next e)
    exact ⟨hStep.1.trans hRest.1, hStep.2.trans hRest.2⟩

theorem mem_codes {code : Int} {headers : Headers} {body : Str}
    (hWrite : ⟨.ask (.respond code headers body), ()⟩ ∈ t) :
    code ∈ (outcomes.account {} t).codes := by
  obtain ⟨u, v, rfl⟩ := List.append_of_mem hWrite
  rw [account_append]
  refine (extends_account ((outcomes.account {} u).wrote code) v).1.subset ?_
  exact List.mem_append_right _ (List.mem_singleton_self code)

theorem mem_logs {chain : Chain} {rc : AsyncContext} (hLog : ⟨.go (.log chain rc), ()⟩ ∈ t) :
    (chain, rc) ∈ (outcomes.account {} t).logs := by
  obtain ⟨u, v, rfl⟩ := List.append_of_mem hLog
  rw [account_append]
  refine (extends_account ((outcomes.account {} u).next ⟨.go (.log chain rc), ()⟩) v).2.subset ?_
  exact List.mem_append_right _ (List.mem_singleton_self _)

end Exits

theorem normalizeStatus_eq_self {code : Int} :
    normalizeStatus code = code ↔ 100 ≤ code ∧ code ≤ 599 := by
  simp only [normalizeStatus, statusOK, statusBadGateway]
  split
  next => omega
  next =>
    split <;> omega

/-- The status of the response as `net/http` completes it: a header with a status below
200 other than 101 is only an informational one, and the body is sent with 200. -/
def finalStatus (code : Int) : Int :=
  if 100 ≤ code ∧ code ≤ 199 ∧ code ≠ 101 then statusOK else code

theorem finalStatus_of_ne {code : Int} (hne : finalStatus code ≠ code) :
    finalStatus code = statusOK ∧ 100 ≤ code ∧ code ≤ 199 := by
  unfold finalStatus at hne ⊢
  split at hne
  next hInformational =>
    rw [if_pos hInformational]
    exact ⟨rfl, hInformational.1, hInformational.2.1⟩
  next => exact absurd rfl hne

/-- What was written, what was recorded, and by which way out. -/
theorem statuses_of_serve {h : PluginHandler} {r : Request} {t : List (Event Host)} {code : Int}
    {headers : Headers} {body : Str} {chain : Chain} {rc : AsyncContext}
    (hServe : (h.serve r).Finishes t ())
    (hWrite : ⟨.ask (.respond code headers body), ()⟩ ∈ t)
    (hLog : ⟨.go (.log chain rc), ()⟩ ∈ t) :
    (code = rc.val.responseStatus ∨ h.Unroutable r t ∨ ∃ resp, h.Answers r t resp) ∧
    (h.Unroutable r t → code = statusNotFound ∧ rc.val.responseStatus = 0) ∧
    ∀ resp, h.Answers r t resp →
      code = normalizeStatus resp.statusCode ∧ rc.val.responseStatus = resp.statusCode := by
  have hCode := mem_codes hWrite
  have hOf : ∀ {written recorded : Int}, Left t written recorded →
      code = written ∧ rc.val.responseStatus = recorded := by
    rintro written recorded ⟨hCodes, hLogs⟩
    rw [hCodes] at hCode
    exact ⟨List.mem_singleton.mp hCode, hLogs _ (mem_logs hLog)⟩
  refine ⟨?_, fun hExit => hOf (hExit.left hServe), fun resp hExit => hOf (hExit.left hServe)⟩
  rcases serve_exits hServe with hNone | ⟨status, hLeft⟩ | hExit
  · rw [hNone] at hCode
    exact absurd hCode List.not_mem_nil
  · obtain ⟨rfl, hRecorded⟩ := hOf hLeft
    exact .inl hRecorded.symm
  · exact .inr hExit

/-- A filter of the log phase is told the status that the handler wrote to the client if
and only if the path left by the filters named a plugin and, where the answer of a backend
was written, its status was in the range that `normalizeStatus` leaves alone. The same
holds of the status the response is completed with, unless the one written is an
informational one. -/
theorem logged_status_iff {h : PluginHandler} {r : Request} {t u : List (Event Host)} {code : Int}
    {headers : Headers} {body : Str} {chain : Chain} {rc : AsyncContext} {q : HostM Unit}
    {i : Instance} {req : FilterRequest} {d : Duration}
    (hServe : (h.serve r).Finishes t ())
    (hWrite : ⟨.ask (.respond code headers body), ()⟩ ∈ t)
    (hLog : ⟨.go (.log chain rc), ()⟩ ∈ t) (hRun : (runLog chain rc).Leads u q)
    (hCall : ⟨.ask (.filterCall i req d), ()⟩ ∈ u) :
    (req.upstreamStatus = code ↔ ¬ h.Unroutable r t ∧
      ∀ resp, h.Answers r t resp → 100 ≤ resp.statusCode ∧ resp.statusCode ≤ 599) ∧
    (req.upstreamStatus = finalStatus code ↔
      req.upstreamStatus = code ∧ finalStatus code = code) := by
  obtain ⟨hExits, hUnroutable, hAnswers⟩ := statuses_of_serve hServe hWrite hLog
  rw [log_told hRun hCall]
  refine ⟨⟨fun hSame => ⟨fun hExit => ?_, fun resp hExit => ?_⟩, fun hHolds => ?_⟩, ?_⟩
  · obtain ⟨rfl, hZero⟩ := hUnroutable hExit
    exact absurd (hZero.symm.trans hSame) (by decide)
  · obtain ⟨rfl, hStatus⟩ := hAnswers resp hExit
    exact normalizeStatus_eq_self.mp (hSame.symm.trans hStatus)
  · obtain ⟨hRoutable, hRange⟩ := hHolds
    rcases hExits with hSame | hExit | ⟨resp, hExit⟩
    · exact hSame.symm
    · exact absurd hExit hRoutable
    · obtain ⟨rfl, hStatus⟩ := hAnswers resp hExit
      rw [hStatus, normalizeStatus_eq_self.mpr (hRange resp hExit)]
  · by_cases hFinal : finalStatus code = code
    · simp [hFinal]
    · obtain ⟨hOK, hLow, hHigh⟩ := finalStatus_of_ne hFinal
      refine iff_of_false (fun hSame => ?_) fun hBoth => hFinal hBoth.2
      rw [hOK, statusOK] at hSame
      rcases hExits with rfl | hExit | ⟨resp, hExit⟩
      · omega
      · obtain ⟨rfl, -⟩ := hUnroutable hExit
        exact absurd hHigh (by decide)
      · obtain ⟨rfl, hStatus⟩ := hAnswers resp hExit
        rw [← hStatus, hSame] at hHigh
        exact absurd hHigh (by decide)

end PluginHandler

/-- A plugin with a filter of the log phase. -/
def journal : Manifest :=
  { key := "journal".toList
    version := "1".toList
    weight := 0
    entrypoint := "journal".toList
    replicas := 1
    permissions := []
    config := []
    filters := [
      { name := "record".toList
        phase := phaseLog
        match_ := ⟨["**".toList], []⟩
        order := 0
        failClosed := false
        timeoutMS := 0
        needsRequestBody := false
        needsResponseBody := false
        maxBodyBytes := 0 }] }

def journalInstance : Instance := newInstance 0 "journal".toList "journal-0".toList "1".toList 0

def journalRegistration : Registration :=
  { key := journal.key
    instances := [journalInstance]
    filters :=
      match journal.compileFilters with
      | .ok fs => fs
      | .error _ => []
    allowIdentityMutation := false
    known := by decide }

def journalHost : HostState :=
  { launched := [journalInstance]
    registry := (Registry.empty.installPlugin journalRegistration [journal.key] (by decide)).2 }

/-- A request by its path. -/
def pathRequest (path : Str) : Request :=
  { method := "POST".toList
    urlPath := path
    rawQuery := []
    clientIP := "10.0.0.1".toList
    header := []
    sessionToken := []
    body := none }

/-- A request with the path is answered with the written status, and a filter of the log
phase is told the recorded one. -/
def Journalled (path : Str) (written recorded : Int) : Prop :=
  ∃ t chain rc u i req d headers body,
    (PluginHandler.serve ⟨false, 0, 0⟩ (pathRequest path)).Finishes t () ∧
    ⟨.ask (.respond written headers body), ()⟩ ∈ t ∧ ⟨.go (.log chain rc), ()⟩ ∈ t ∧
    (runLog chain rc).Finishes u () ∧ ⟨.ask (.filterCall i req d), ()⟩ ∈ u ∧
    rc.val.responseStatus = recorded ∧ req.upstreamStatus = recorded

/-- A plugin that is not enabled: the client gets 404, and so does the log. -/
theorem logged_status_absent :
    Journalled "/api/plugins/shop/items".toList statusNotFound statusNotFound := by
  have hRun : ∃ t chain rc u i req d headers body,
      (PluginHandler.serve ⟨false, 0, 0⟩ (pathRequest "/api/plugins/shop/items".toList)).Finishes
        t () ∧
      ⟨.ask (.respond statusNotFound headers body), ()⟩ ∈ t ∧ ⟨.go (.log chain rc), ()⟩ ∈ t ∧
      (runLog chain rc).Finishes u () ∧ ⟨.ask (.filterCall i req d), ()⟩ ∈ u ∧
      rc.val.responseStatus = statusNotFound :=
    ⟨_, _, _, _, _, _, _, _, _,
      (Machine.runs_of_replay (M := host) (w := Op.calm []) (s := journalHost) rfl).finishes,
      List.mem_of_getElem? (i := 5) rfl, List.mem_of_getElem? (i := 6) rfl,
      (Machine.runs_of_replay (M := host) (w := Op.calm []) (s := journalHost) rfl).finishes,
      List.mem_of_getElem? (i := 9) rfl, rfl⟩
  obtain ⟨t, chain, rc, u, i, req, d, headers, body, hServe, hWrite, hLog, hLogged, hCall,
    hStatus⟩ := hRun
  obtain ⟨-, hUnroutable, hAnswers⟩ := PluginHandler.statuses_of_serve hServe hWrite hLog
  have hSame : req.upstreamStatus = statusNotFound := by
    refine (PluginHandler.logged_status_iff hServe hWrite hLog hLogged hCall).1.mpr
      ⟨fun hExit => ?_, fun resp hExit => ?_⟩
    · exact absurd (hStatus.symm.trans (hUnroutable hExit).2) (by decide)
    · rw [← (hAnswers resp hExit).2, hStatus]
      decide
  exact ⟨t, chain, rc, u, i, req, d, headers, body, hServe, hWrite, hLog, hLogged, hCall, hStatus,
    hSame⟩

/-- A path without a plugin: the client gets 404, and the log is told nothing. -/
theorem unroutable_logged_as_zero : Journalled "/api/plugins/".toList statusNotFound 0 :=
  ⟨_, _, _, _, _, _, _, _, _,
    (Machine.runs_of_replay (M := host) (w := Op.calm []) (s := journalHost) rfl).finishes,
    List.mem_of_getElem? (i := 4) rfl, List.mem_of_getElem? (i := 5) rfl,
    (Machine.runs_of_replay (M := host) (w := Op.calm []) (s := journalHost) rfl).finishes,
    List.mem_of_getElem? (i := 9) rfl, rfl, rfl⟩

end Moduless.Gateway
