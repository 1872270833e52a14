import Moduless.Gateway.Provenance

/-!
The identity of a request on its way through the plugin handler: nobody before
routing, then the session's, then what the authentication phases make of it. A
backend is called with the identity the history gives, and if Core resolves
sessions, only with some identity.
-/

namespace Moduless.Gateway
open Go Pipeline PluginHost Interaction Discipline

variable {holds : Str → Bool} {auth : Bool} {g : Provenance} {rc : RequestContext}

namespace PluginHandler

variable (h : PluginHandler)

theorem identity_bufferBody (needed : Bool) (r : Request) (rc : RequestContext) :
    Program.ReturnsOk (fun out => out.2.identity = rc.identity) (h.bufferBody needed r rc) := by
  unfold bufferBody
  split
  next =>
    refine Program.returnsOk_lift (Program.returns_true _) fun read _ => ?_
    split
    next => exact Program.returnsOk_throw
    next => exact Program.returnsOk_pure rfl
  next => exact Program.returnsOk_pure rfl

theorem tracks_bufferBody (needed : Bool) (r : Request) (rc : RequestContext) :
    Obeys (provenance holds auth)
      (either (fun _ _ => True) fun out g' => g' = g ∧ out.2.identity = rc.identity)
      (h.bufferBody needed r rc).run g := by
  refine obeys_mono (obeys_returns
    (tracks_silent (silent_of_routine (h.routine_bufferBody needed r rc)))
    (h.identity_bufferBody needed r rc)) fun out g' hg' => ?_
  cases out with
  | error e => trivial
  | ok out => exact hg'

/-- Nothing is known about the caller yet. -/
structure Anonymous (rc : RequestContext) (g : Provenance) : Prop where
  identity : rc.identity = none
  session : g.session = none
  granted : g.granted = none

theorem tracks_beforeRouting {chain : Chain} (hChain : Grants holds chain) (r : Request)
    (hg : Anonymous rc g) :
    Obeys (provenance holds auth) (either (fun _ _ => True) fun out => Anonymous out.2.2)
      (h.beforeRouting chain r rc).run g := by
  refine obeys_early (h.tracks_bufferBody _ r rc) ?_
  rintro read g ⟨rfl, hRead⟩
  have hTracks : Tracks read.2 g := by
    rw [Tracks, hRead, hg.identity, Provenance.identity, hg.session, hg.granted]
    rfl
  refine obeys_early (tracks_runPhase hChain .preRoute hTracks) fun rc' g' hg' => ?_
  have hAnonymous : Anonymous rc' g' := by
    have hGranted := (hg'.granted rfl).trans hg.granted
    have hSession := hg'.session.trans hg.session
    refine ⟨?_, hSession, hGranted⟩
    rw [hg'.tracks, Provenance.identity, hGranted, hSession]
    rfl
  split
  next =>
    refine obeys_early (h.tracks_bufferBody _ _ rc') ?_
    rintro read' _ ⟨rfl, hRead'⟩
    exact ⟨hRead'.trans hAnonymous.identity, hAnonymous.session, hAnonymous.granted⟩
  next => exact hAnonymous

theorem tracks_resolveIdentity (r : Request) (hg : Anonymous rc g) :
    Obeys (provenance holds auth) Tracks (h.resolveIdentity r rc) g := by
  unfold resolveIdentity
  refine obeys_ite.mpr ⟨fun _ => obeys_ask trivial fun user _ => ?_, fun _ => ?_⟩
  · cases user with
    | none => exact hg.identity.trans (congrArg (Option.or · none) hg.granted).symm
    | some user => exact (congrArg (Option.or · (some (sessionIdentity user))) hg.granted).symm
  · show rc.identity = g.granted.or g.session
    rw [hg.identity, hg.granted, hg.session]
    rfl

/-- The context may be dispatched: it tracks the history, and the caller is known
if Core asks for that. -/
structure Ready (sub : Str) (rc : RequestContext) (g : Provenance) : Prop where
  tracks : Tracks rc g
  known : h.hasAuth = true → rc.identity ≠ none
  routed : Routed sub

theorem tracks_beforeBackend {chain : Chain} (hChain : Grants holds chain) (r : Request)
    (hg : Anonymous rc g) :
    Obeys (provenance holds auth) (either (fun _ _ => True) fun out => h.Ready out.2.1 out.2.2)
      (h.beforeBackend chain r rc).run g := by
  refine obeys_lift (h.tracks_resolveIdentity r hg) fun rc g hg => ?_
  refine obeys_early (tracks_runPhase hChain .authenticate hg) fun rc g hg => ?_
  refine obeys_early (tracks_runPhase hChain .authorize hg.tracks) fun rc g hg => ?_
  split
  next => exact obeys_lift (Q := fun _ _ => True) ⟨trivial, fun _ _ => trivial⟩ fun _ _ _ => trivial
  next hKnown =>
    refine obeys_early (tracks_runPhase hChain .preHandler hg.tracks) fun rc' g' hg' => ?_
    split
    next =>
      exact obeys_lift (Q := fun _ _ => True) ⟨trivial, fun _ _ => trivial⟩ fun _ _ _ => trivial
    next key sub hSplit =>
      refine ⟨hg'.tracks, fun hAuth => ?_, _, _, hSplit⟩
      have hSame : rc'.identity = rc.identity := by
        rw [hg'.tracks, hg.tracks, Provenance.identity, hg'.granted rfl, hg'.session]
        rfl
      rw [hSame]
      simpa [hAuth] using hKnown

theorem tracks_dispatch (i : Instance) (sub : Str) (hg : h.Ready sub rc g) :
    Obeys (provenance holds h.hasAuth) (fun _ g' => g' = g) (h.dispatch i sub rc) g := by
  refine obeys_ask ⟨hg.tracks, hg.known, hg.routed⟩ fun _ _ => obeys_ask trivial fun answer _ => ?_
  cases answer with
  | error e =>
    exact obeys_bind (tracks_silent (silent_of_routine (routine_recordFailure i))) fun _ _ h => h
  | ok resp =>
    exact obeys_bind (tracks_silent (silent_of_routine (routine_recordSuccess i))) fun _ _ h => h

theorem tracks_admitted (i : Instance) (key sub : Str) {k : RequestContext →
      HostM (Except BackendError HttpResponse × RequestContext)} (hg : h.Ready sub rc g)
    (hk : ∀ rc', h.Ready sub rc' g →
      Obeys (provenance holds h.hasAuth) (fun out => Tracks out.2) (k rc') g) :
    Obeys (provenance holds h.hasAuth) (fun out => Tracks out.2)
      (rc.admitKey key i >>= fun admitted =>
        if !admitted.1 then k admitted.2
        else h.dispatch i sub admitted.2 >>= fun result => pure (result, admitted.2)) g := by
  refine obeys_bind (obeys_returns (tracks_silent (silent_admitKey rc key i))
    (identity_admitKey rc key i)) ?_
  rintro ⟨ok, rc'⟩ g ⟨rfl, hAdmit⟩
  have hReady : h.Ready sub rc' g :=
    ⟨hAdmit.trans hg.tracks, fun hAuth => hAdmit ▸ hg.known hAuth, hg.routed⟩
  refine obeys_ite.mpr ⟨fun _ => hk rc' hReady, fun _ => ?_⟩
  refine obeys_bind (h.tracks_dispatch i sub hReady) ?_
  rintro _ _ rfl
  exact hReady.tracks

theorem Ready.resolved {key sub : Str} {found : Option Instance} {h : PluginHandler}
    (hg : h.Ready sub rc g) : h.Ready sub rc (g.resolved key found) :=
  ⟨tracks_resolved hg.tracks, hg.known, hg.routed⟩

theorem tracks_callBackend (snap : Snapshot) (key sub : Str) (hg : h.Ready sub rc g) :
    Obeys (provenance holds h.hasAuth) (fun out => Tracks out.2)
      (h.callBackend snap key sub rc) g := by
  have hLive : ∀ (inst : Option Instance) {rc : RequestContext} {g : Provenance}, h.Ready sub rc g →
      Obeys (provenance holds h.hasAuth) (fun out => Tracks out.2)
        (h.callLive inst key sub rc) g := by
    intro inst rc g hg
    refine obeys_op trivial fun cur _ => obeys_bind (tracks_pick cur key) ?_
    rintro next _ rfl
    cases next with
    | none => exact hg.tracks
    | some next =>
      refine obeys_ite.mpr ⟨fun _ => hg.tracks, fun _ => ?_⟩
      have hPicked : h.Ready sub rc (g.resolved key (some next)) := hg.resolved
      exact h.tracks_admitted (k := fun rc => pure (.error (.unavailable key false), rc)) next
        key sub hPicked fun rc' hg' => hg'.tracks
  refine obeys_bind (tracks_pick snap key) ?_
  rintro inst _ rfl
  cases inst with
  | none => exact hLive none hg
  | some i =>
    have hPicked : h.Ready sub rc (g.resolved key (some i)) := hg.resolved
    exact h.tracks_admitted (k := h.callLive (some i) key sub) i key sub hPicked fun rc' hg' =>
      hLive (some i) hg'

theorem tracks_finish {chain : Chain} (hChain : Grants holds chain) (hg : Tracks rc g) :
    Obeys (provenance holds auth) (either (fun _ _ => True) fun _ _ => True)
      (finish chain rc).run g := by
  refine obeys_early (tracks_runPhase hChain .postHandler hg) fun _ _ _ => ?_
  exact obeys_lift (Q := fun _ _ => True) ⟨trivial, fun _ _ => trivial⟩ fun _ _ _ => trivial

theorem tracks_afterBackend {chain : Chain} (hChain : Grants holds chain)
    (result : Except BackendError HttpResponse) (hg : Tracks rc g) :
    Obeys (provenance holds auth) (either (fun _ _ => True) fun _ _ => True)
      (afterBackend chain result rc).run g := by
  have hOnError : ∀ {rc' : RequestContext}, rc'.identity = rc.identity →
      Obeys (provenance holds auth) (either (fun _ _ => True) (Follows .onError g))
        (runPhase chain .onError rc').run g :=
    fun hSame => tracks_runPhase hChain .onError (hSame.trans hg)
  cases result with
  | error e =>
    refine obeys_early (hOnError rfl) fun _ _ _ => ?_
    exact obeys_lift (Q := fun _ _ => True) ⟨trivial, fun _ _ => trivial⟩ fun _ _ _ => trivial
  | ok resp =>
    simp only [afterBackend, afterResponse]
    split
    next => exact obeys_early (hOnError rfl) fun _ _ hg' => tracks_finish hChain hg'.tracks
    next => exact tracks_finish hChain hg

theorem silent_serveCore (chain : Chain) (r : Request) (rc : RequestContext) :
    (serveCore chain r rc).Uses Op.Silent := by
  refine Program.uses_bind (silent_releaseAdmissions rc) fun rc' => uses_ask trivial fun _ => ?_
  rw [Program.uses_ite]
  exact ⟨fun _ => trivial, fun _ => trivial⟩

/-- What is known of the identity once a request is routed. -/
def RouteReady : Route → Provenance → Prop
  | .next _ _, _ => True
  | .backend _ sub rc, g => h.Ready sub rc g

theorem tracks_serveStages {snap : Snapshot} (hChain : Grants holds snap.chain) (r : Request)
    (hg : Anonymous rc g) :
    Obeys (provenance holds h.hasAuth) (either (fun _ _ => True) fun _ _ => True)
      (h.serveStages snap r rc).run g := by
  refine obeys_early (Q := h.RouteReady) ?_ fun routed g' hRouted => ?_
  · refine obeys_early (h.tracks_beforeRouting hChain r hg) fun out g' hg' => ?_
    split
    next => exact obeys_early (h.tracks_beforeBackend hChain _ hg') fun _ _ hReady => hReady
    next => trivial
  · cases routed with
    | next r rc =>
      refine obeys_lifted (obeys_mono (tracks_silent (silent_serveCore _ r rc)) fun _ _ _ => ?_)
      trivial
    | backend key sub rc =>
      exact obeys_lift (h.tracks_callBackend snap key sub hRouted) fun result _ hg' =>
        tracks_afterBackend hChain result.1 hg'

theorem tracks_serveWith {snap : Snapshot} (hChain : Grants holds snap.chain) (r : Request) :
    Obeys (provenance holds h.hasAuth) (fun _ _ => True) (h.serveWith snap r) {} := by
  refine obeys_bind (tracks_silent (silent_of_routine (routine_traceIDFor r))) ?_
  rintro traceID _ rfl
  refine obeys_ask trivial fun _ _ => obeys_ask trivial fun now _ => ?_
  refine obeys_bind (Q := fun _ _ => True) ?_ fun rc g' _ => ?_
  · refine obeys_bind (h.tracks_serveStages hChain r ⟨rfl, rfl, rfl⟩) fun out _ _ => ?_
    cases out <;> trivial
  · refine obeys_bind (Q := fun _ _ => True) ?_ fun _ _ _ => ?_
    · unfold runAsync
      exact obeys_ite.mpr ⟨fun _ => trivial, fun _ => ⟨trivial, fun _ _ => trivial⟩⟩
    · exact obeys_bind (tracks_silent (silent_releaseAdmissions rc)) fun _ _ _ => trivial

theorem httpCall_dispatchable {h : PluginHandler} {r : Request} {registry : Registry}
    {t : List (Event Host)} {i : Instance} {req : HttpRequest} {d : Duration}
    {k : Unit → HostM Unit} (hCall : (h.serve r).Leads (⟨.current, registry.current⟩ :: t)
      (.call (.ask (.httpCall i req d)) k)) :
    Dispatchable h.hasAuth (Provenance.after registry.authenticates t) req := by
  cases hCall with
  | step hRest =>
    have hChain : Grants registry.authenticates registry.current.chain := fun _ _ hf =>
      Registry.allowIdentityMutation_eq hf
    exact ((h.tracks_serveWith hChain r).leads hRest fun _ _ => trivial).1

end PluginHandler
end Moduless.Gateway
