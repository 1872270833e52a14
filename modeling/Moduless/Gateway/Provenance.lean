import Moduless.Gateway.Operations
import Moduless.PluginHost.RegisteredChain

/-!
Where the identity comes from that a backend is told.

`Provenance` reads it off the history of a request: the last identity set in an
authentication phase by a plugin that may set identities, or else the one Core
resolved from the session. The context of a request agrees with it at every
point, and a backend is called with what it says.
-/

namespace Moduless.Gateway
open Go Pipeline PluginHost Interaction Discipline

def sessionIdentity (user : User) : Identity := ⟨itoa user.id, user.username, [user.role]⟩

/-- `key` is the plugin an instance was last picked for, `phase` that of the last
call of a filter. -/
structure Provenance where
  key : Str := []
  phase : Phase := .preRoute
  session : Option Identity := none
  granted : Option Identity := none

namespace Provenance

def next (holds : Str → Bool) (g : Provenance) : Event Host → Provenance
  | ⟨.picked key _, _⟩ => { g with key := key }
  | ⟨.ask (.filterCall _ req _), _⟩ => { g with phase := req.phase }
  | ⟨.ask (.filterReturn _), .ok resp⟩ =>
    if resp.action = .mutate ∧ (g.phase = .authenticate ∨ g.phase = .authorize) ∧
        holds g.key = true then
      { g with granted := (resp.mutation.bind RequestMutation.setIdentity).or g.granted }
    else g
  | ⟨.ask (.resolveUser _), user⟩ => { g with session := user.map sessionIdentity }
  | _ => g

/-- The provenance after a history, for a registry that says which plugins hold
the permission. -/
def after (holds : Str → Bool) (t : List (Event Host)) : Provenance :=
  t.foldl (next holds) {}

def identity (g : Provenance) : Option Identity := g.granted.or g.session

/-- After a pick that found an instance or did not. -/
def resolved (g : Provenance) (key : Str) : Option Instance → Provenance
  | none => g
  | some _ => { g with key := key }

theorem identity_resolved (g : Provenance) (key : Str) (found : Option Instance) :
    (g.resolved key found).identity = g.identity := by
  cases found <;> rfl

end Provenance

/-- A sub-path the gateway routes some path to. -/
def Routed (sub : Str) : Prop := ∃ p key, splitPluginPath p = some (key, sub)

/-- What a backend may be told: the identity the history gives, some identity if
`auth` says that a session resolver is configured, and a routed sub-path. -/
structure Dispatchable (auth : Bool) (g : Provenance) (req : HttpRequest) : Prop where
  identity : req.identity = g.identity
  known : auth = true → req.identity ≠ none
  routed : Routed req.path

def provenance (holds : Str → Bool) (auth : Bool) : Discipline Host Provenance where
  next := Provenance.next holds
  permits g
    | .ask (.httpCall _ req _) => Dispatchable auth g req
    | _ => True
  assumes _ _ := True

/-- Operations that say nothing about the identity. -/
def Op.Silent : Op → Prop
  | .picked _ _ | .ask (.filterCall _ _ _) | .ask (.filterReturn _) | .ask (.httpCall _ _ _)
  | .ask (.resolveUser _) => False
  | _ => True

theorem silent_of_routine {α : Type} {p : HostM α} (h : p.Uses Op.Routine) : p.Uses Op.Silent := by
  refine h.mono fun o ho => ?_
  cases o with
  | ask q => cases q <;> first | exact ho | trivial
  | _ => first | exact ho | trivial

theorem silent_admitKey (rc : RequestContext) (key : Str) (i : Instance) :
    (rc.admitKey key i).Uses Op.Silent := by
  unfold RequestContext.admitKey
  split
  next => trivial
  next =>
    refine Program.uses_bind ?_ fun release => ?_
    · simp [Instance.beginRequest, Op.Silent]
    · cases release <;> trivial

theorem silent_releaseLoop (rc : RequestContext) (order : List Str) :
    (rc.releaseLoop order).Uses Op.Silent := by
  induction order generalizing rc with
  | nil => trivial
  | cons key order ih =>
    unfold RequestContext.releaseLoop
    split
    next => exact ih rc
    next lease _ =>
      refine Program.uses_bind ?_ fun _ => ih _
      simp [Lease.end_, Op.Silent]

theorem silent_releaseAdmissions (rc : RequestContext) : rc.releaseAdmissions.Uses Op.Silent :=
  uses_ask trivial fun _ => silent_releaseLoop rc _

variable {holds : Str → Bool} {auth : Bool} {g : Provenance} {rc : RequestContext}

theorem tracks_silent {α : Type} {p : HostM α} (hp : p.Uses Op.Silent) :
    Obeys (provenance holds auth) (fun _ g' => g' = g) p g := by
  refine obeys_of_uses hp (fun g' o hg' ho => ?_) rfl
  cases o with
  | ask q =>
    cases q <;> first | exact ho.elim | exact ⟨trivial, fun _ => hg'⟩
  | picked key i => exact ho.elim
  | _ => exact ⟨trivial, fun _ => hg'⟩

/-- The context carries the identity the history gives it. -/
def Tracks (rc : RequestContext) (g : Provenance) : Prop := rc.identity = g.identity

/-- What a phase may change: the identity only if it is an authentication phase. -/
structure Follows (phase : Phase) (g : Provenance) (rc' : RequestContext) (g' : Provenance) :
    Prop where
  tracks : Tracks rc' g'
  session : g'.session = g.session
  granted : identityMutationAllowed phase = false → g'.granted = g.granted

theorem Follows.of_tracks {phase : Phase} (h : Tracks rc g) : Follows phase g rc g :=
  ⟨h, rfl, fun _ => rfl⟩

theorem Follows.trans {phase : Phase} {g₁ g₂ : Provenance} {rc₁ rc₂ : RequestContext}
    (h : Follows phase g rc₁ g₁) (h' : Follows phase g₁ rc₂ g₂) : Follows phase g rc₂ g₂ :=
  ⟨h'.tracks, h'.session.trans h.session, fun hp => (h'.granted hp).trans (h.granted hp)⟩

theorem tracks_resolved {key : Str} {found : Option Instance} (h : Tracks rc g) :
    Tracks rc (g.resolved key found) := h.trans (g.identity_resolved key found).symm

theorem tracks_pick (snap : Snapshot) (key : Str) :
    Obeys (provenance holds auth) (fun found g' => g' = g.resolved key found)
      (snap.pick key) g := by
  unfold Snapshot.pick
  split
  next => exact rfl
  next rs _ =>
    refine obeys_bind (tracks_silent (silent_of_routine (routine_replicaPick rs))) ?_
    rintro found _ rfl
    cases found with
    | none => exact rfl
    | some i => exact obeys_op trivial fun _ _ => rfl

theorem identityMutationAllowed_iff {phase : Phase} :
    identityMutationAllowed phase = true ↔ phase = .authenticate ∨ phase = .authorize := by
  cases phase <;> simp [identityMutationAllowed]

theorem identity_applyMutation (rc : RequestContext) (m : Option RequestMutation) (phase : Phase)
    (allow : Bool) : (rc.applyMutation m phase allow).identity =
      if allow then (m.bind RequestMutation.setIdentity).or rc.identity else rc.identity := by
  cases m with
  | none => simp [RequestContext.applyMutation]
  | some m => cases hSet : m.setIdentity <;> simp [RequestContext.applyMutation, hSet]

theorem identity_applyDecision (phase : Phase) (f : Filter) (rc : RequestContext)
    (resp : FilterResponse) : (applyDecision phase f rc resp).Returns fun out =>
      out.2.identity =
        if resp.action = .mutate ∧ (f.allowIdentityMutation && identityMutationAllowed phase) = true
        then (resp.mutation.bind RequestMutation.setIdentity).or rc.identity else rc.identity := by
  cases hAction : resp.action with
  | mutate =>
    simp only [applyDecision, hAction, true_and, ← identity_applyMutation rc _ phase]
    cases (resp.mutation.bind RequestMutation.setIdentity).isSome &&
      !(f.allowIdentityMutation && identityMutationAllowed phase)
    · exact rfl
    · exact fun _ => rfl
  | shortCircuit =>
    simp only [applyDecision, hAction]
    cases resp.shortCircuitResponse
    · exact fun _ => rfl
    · exact rfl
  | continue_ | other =>
    simp only [applyDecision, hAction]
    exact rfl

theorem identity_buildFilterRequest (rc : RequestContext) (phase : Phase) (f : Filter)
    (now : Int) : (rc.buildFilterRequest phase f now).2.identity = rc.identity := by
  simp only [RequestContext.buildFilterRequest, RequestContext.wireHeaders]
  split <;> rfl

theorem identity_admitKey (rc : RequestContext) (key : Str) (i : Instance) :
    (rc.admitKey key i).Returns fun out => out.2.identity = rc.identity := by
  unfold RequestContext.admitKey
  split
  next => rfl
  next =>
    refine Program.returns_bind (Program.returns_true _) fun release _ => ?_
    cases release <;> rfl

theorem Provenance.next_answer (holds : Str → Bool) (g : Provenance) (i : Instance)
    (resp : FilterResponse) : g.next holds ⟨.ask (.filterReturn i), .ok resp⟩ =
      { g with granted :=
          if resp.action = .mutate ∧ (holds g.key && identityMutationAllowed g.phase) = true
          then (resp.mutation.bind RequestMutation.setIdentity).or g.granted else g.granted } := by
  simp only [next, ← identityMutationAllowed_iff, Bool.and_eq_true, and_comm]
  split <;> rfl

theorem Follows.answered {phase : Phase} {f : Filter} {resp : FilterResponse} {i : Instance}
    {rc' : RequestContext} (hAllow : f.allowIdentityMutation = holds f.pluginKey)
    (hKey : g.key = f.pluginKey) (hPhase : g.phase = phase) (hg : Tracks rc g)
    (hOut : rc'.identity =
      if resp.action = .mutate ∧ (f.allowIdentityMutation && identityMutationAllowed phase) = true
      then (resp.mutation.bind RequestMutation.setIdentity).or rc.identity else rc.identity) :
    Follows phase g rc' (g.next holds ⟨.ask (.filterReturn i), .ok resp⟩) := by
  rw [Provenance.next_answer, hKey, hPhase, ← hAllow]
  refine ⟨?_, rfl, fun hNot => by simp [hNot]⟩
  rw [Tracks, hOut, hg, Provenance.identity, Provenance.identity]
  split
  next => exact Option.or_assoc.symm
  next => rfl

theorem tracks_callFilter {phase : Phase} {f : Filter} (i : Instance)
    (hAllow : f.allowIdentityMutation = holds f.pluginKey) (hKey : g.key = f.pluginKey)
    (hg : Tracks rc g) :
    Obeys (provenance holds auth) (fun out g' => Follows phase g out.2 g')
      (callFilter phase f i rc) g := by
  refine obeys_ask trivial fun now _ => obeys_ask trivial fun _ _ => ?_
  have hBuilt : Tracks (rc.buildFilterRequest phase f now).2 { g with phase := phase } :=
    (identity_buildFilterRequest rc phase f now).trans hg
  refine obeys_ask trivial fun answer _ => ?_
  cases answer with
  | error e =>
    refine obeys_bind (tracks_silent (silent_of_routine (routine_recordFailure i))) ?_
    rintro _ _ rfl
    exact obeys_ask trivial fun _ _ => ⟨hBuilt, rfl, fun _ => rfl⟩
  | ok resp =>
    refine obeys_bind (tracks_silent (silent_of_routine (routine_recordSuccess i))) ?_
    rintro _ _ rfl
    refine obeys_mono (obeys_returns
      (tracks_silent (silent_of_routine (routine_applyDecision phase f _ resp)))
      (identity_applyDecision phase f _ resp)) ?_
    rintro ⟨out, rc'⟩ _ ⟨rfl, hOut⟩
    have hAnswered := Follows.answered (i := i) (g := { g with phase := phase }) hAllow hKey rfl
      hBuilt hOut
    exact ⟨hAnswered.tracks, hAnswered.session, hAnswered.granted⟩

theorem tracks_runOne {phase : Phase} {f : Filter}
    (hAllow : f.allowIdentityMutation = holds f.pluginKey) (hg : Tracks rc g) :
    Obeys (provenance holds auth) (fun out g' => Follows phase g out.2 g')
      (runOne phase f rc) g := by
  unfold runOne
  split
  next => exact obeys_ask trivial fun _ _ => .of_tracks hg
  next =>
    refine obeys_bind (obeys_op trivial fun snap _ => tracks_pick snap f.pluginKey) ?_
    rintro target _ rfl
    cases target with
    | none => exact obeys_ask trivial fun _ _ => .of_tracks hg
    | some target =>
      have hPicked : Tracks rc { g with key := f.pluginKey } := hg
      refine obeys_bind (tracks_silent (silent_of_routine (routine_allow target))) ?_
      rintro allowed _ rfl
      refine obeys_ite.mpr ⟨fun _ => ⟨hPicked, rfl, fun _ => rfl⟩, fun _ => ?_⟩
      refine obeys_bind (obeys_returns (tracks_silent (silent_admitKey rc f.pluginKey target))
        (identity_admitKey rc f.pluginKey target)) ?_
      rintro ⟨ok, rc'⟩ _ ⟨rfl, hAdmit⟩
      have hAdmitted : Tracks rc' { g with key := f.pluginKey } := hAdmit.trans hg
      refine obeys_ite.mpr ⟨fun _ => obeys_ask trivial fun _ _ => ⟨hAdmitted, rfl, fun _ => rfl⟩,
        fun _ => ?_⟩
      refine obeys_mono (tracks_callFilter target hAllow rfl hAdmitted) fun out g' hg' => ?_
      exact ⟨hg'.tracks, hg'.session, hg'.granted⟩

theorem tracks_runFilters {phase : Phase} {fs : List Filter}
    (hAllow : ∀ f ∈ fs, f.allowIdentityMutation = holds f.pluginKey) (hg : Tracks rc g) :
    Obeys (provenance holds auth) (fun out g' => Follows phase g out.2 g')
      (runFilters phase fs rc) g := by
  induction fs generalizing rc g with
  | nil => exact .of_tracks hg
  | cons f fs ih =>
    obtain ⟨hf, hfs⟩ := List.forall_mem_cons.mp hAllow
    unfold runFilters
    split
    next => exact ih hfs hg
    next =>
      refine obeys_bind (tracks_runOne hf hg) fun out g' hg' => ?_
      split
      next => exact hg'
      next => exact obeys_mono (ih hfs hg'.tracks) fun _ _ hg'' => hg'.trans hg''

/-- Every filter of the chain may set identities exactly if its plugin holds the
permission. -/
def Grants (holds : Str → Bool) (chain : Chain) : Prop :=
  ∀ ph, ∀ f ∈ chain.filters ph, f.allowIdentityMutation = holds f.pluginKey

theorem tracks_runPhase {chain : Chain} (hChain : Grants holds chain) (phase : Phase)
    (hg : Tracks rc g) :
    Obeys (provenance holds auth) (either (fun _ _ => True) (Follows phase g))
      (runPhase chain phase rc).run g := by
  refine obeys_lift (Q := fun out g' => Follows phase g out.2 g') ?_ fun out g' hg' => ?_
  · unfold run
    split
    next => exact .of_tracks hg
    next => exact tracks_runFilters (hChain phase) hg
  · split
    next =>
      exact obeys_lift (Q := fun _ _ => True) ⟨trivial, fun _ _ => trivial⟩ fun _ _ _ => trivial
    next => exact hg'

end Moduless.Gateway
