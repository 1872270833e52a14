import Moduless.Gateway.Operations
import Moduless.PluginHost.ReservationSteps

/-!
A request keeps the discipline of reservations: at every point the admissions of
its context are exactly what its ledger holds, and on every way out they are
released.
-/

namespace Moduless.PluginHost
open Go Pipeline Interaction Discipline

/-- The admissions of a context are what the goroutine holds. -/
structure Keeps (admissions : GoMap Str Lease) (g : Ledger) : Prop where
  idle : g.standing = .idle
  held : g.held = admissions
  keys : admissions.keys.Nodup
  leases : g.leases.Nodup
  taken : g.leases ⊆ g.taken

variable {owner strict : Bool} {g : Ledger} {admissions : GoMap Str Lease} {key : Str}
  {i : Instance}

theorem keeps_nil : Keeps [] {} where
  idle := rfl
  held := rfl
  keys := List.nodup_nil
  leases := List.nodup_nil
  taken := List.Subset.refl _

theorem Keeps.retarget (h : Keeps admissions g) (x : Option (Str × Instance)) :
    Keeps admissions { g with target := x } := ⟨h.idle, h.held, h.keys, h.leases, h.taken⟩

theorem Keeps.release (hg : Keeps admissions g) {l : Lease}
    (hl : admissions.get key = some l) {g' : Ledger} (hIdle : g'.standing = .idle)
    (hTaken : g'.taken = g.taken) (hHeld : g'.held = g.held.filter fun e => e.2 ≠ l) :
    Keeps (admissions.delete key) g' := by
  have hMem := GoMap.mem_of_get hl
  have hLeases : g'.leases.Sublist g.leases := by
    rw [Ledger.leases, hHeld]
    exact List.filter_sublist.map _
  refine ⟨hIdle, ?_, GoMap.nodup_delete hg.keys _, hg.leases.sublist hLeases, ?_⟩
  · rw [hHeld, hg.held, GoMap.delete]
    refine List.filter_congr fun e he => ?_
    have hKey : e.1 = key → e.2 = l := fun h =>
      congrArg Prod.snd (List.inj_on_of_nodup_map hg.keys he hMem h)
    have hLease : e.2 = l → e.1 = key := fun h => by
      have hNodup := hg.leases
      rw [Ledger.leases, hg.held] at hNodup
      exact congrArg Prod.fst (List.inj_on_of_nodup_map hNodup he hMem h)
    simp only [ne_eq, decide_eq_decide]
    exact not_congr ⟨hLease, hKey⟩
  · rw [hTaken]
    exact List.Subset.trans hLeases.subset hg.taken

theorem Op.Routine.neutral {o : Op} (h : o.Routine) : o.Neutral := by
  cases o with
  | ask q => cases q <;> trivial
  | _ => first | exact h | trivial

theorem obeys_routine {α : Type} {p : HostM α} (hp : p.Uses Op.Routine)
    (hIdle : g.standing = .idle) :
    Obeys (reservations owner strict) (fun _ g' => g' = g) p g :=
  obeys_neutral (hp.mono fun _ => Op.Routine.neutral) hIdle

theorem obeys_routine_returns {α : Type} {p : HostM α} {R : α → Prop} (hp : p.Uses Op.Routine)
    (hr : p.Returns R) (hIdle : g.standing = .idle) :
    Obeys (reservations owner strict) (fun a g' => g' = g ∧ R a) p g :=
  obeys_returns (obeys_routine hp hIdle) hr

/-- What a pick leaves in the ledger, and what may be assumed of its answer. -/
def Ledger.Resolved (strict : Bool) (g : Ledger) (key : Str) (found : Option Instance)
    (g' : Ledger) : Prop :=
  match found with
  | none => g' = g
  | some i => g' = { g with target := some (key, i) } ∧
      (strict = true → ∀ l, (key, l) ∈ g.held → l.inst = i)

theorem obeys_pick (snap : Snapshot) (key : Str) (hIdle : g.standing = .idle) :
    Obeys (reservations owner strict) (g.Resolved strict key) (snap.pick key) g := by
  unfold Snapshot.pick
  split
  next => exact rfl
  next rs _ =>
    refine obeys_bind (obeys_routine (routine_replicaPick rs) hIdle) ?_
    rintro found _ rfl
    cases found with
    | none => exact rfl
    | some i => exact obeys_op trivial fun _ hAssumed => ⟨rfl, hAssumed⟩

theorem obeys_registryTarget (key : Str) (hIdle : g.standing = .idle) :
    Obeys (reservations owner strict) (g.Resolved strict key) (registryTarget key) g :=
  obeys_op trivial fun snap _ => obeys_pick snap key hIdle

end Moduless.PluginHost

namespace Moduless.Pipeline
open Go PluginHost Interaction Discipline

variable {owner strict : Bool} {g : Ledger} {rc : RequestContext} {key : Str} {i : Instance}

/-- After an admission there is a reservation, and if the pick of the key agrees
with what is held for it, it is on the picked instance. -/
theorem obeys_admitKey (hg : Keeps rc.admissions g) (hTarget : g.target = some (key, i))
    (hAgrees : strict = true → ∀ l, (key, l) ∈ g.held → l.inst = i) :
    Obeys (reservations owner strict) (fun out g' => Keeps out.2.admissions g' ∧
      (out.1 = true → strict = true → ∃ l ∈ g'.leases, l.inst = i)) (rc.admitKey key i) g := by
  unfold RequestContext.admitKey
  split
  next hHas =>
    refine ⟨hg, fun _ hStrict => ?_⟩
    obtain ⟨l, hl⟩ := Option.isSome_iff_exists.mp hHas
    have hMem : (key, l) ∈ g.held := hg.held ▸ GoMap.mem_of_get hl
    exact ⟨l, List.mem_map.mpr ⟨_, hMem, rfl⟩, hAgrees hStrict l hMem⟩
  next hHas =>
    have hAbsent : key ∉ rc.admissions.keys := by
      rw [← GoMap.get_eq_none_iff]
      simpa [GoMap.has] using hHas
    refine obeys_bind (obeys_beginRequest hg.idle) ?_
    rintro release g' ⟨rfl, hNew⟩
    cases release with
    | none => exact ⟨hg, Bool.noConfusion⟩
    | some l =>
      obtain ⟨hInst, hFresh⟩ := hNew l rfl
      have hSet : rc.admissions.set key l = (key, l) :: rc.admissions := by
        rw [GoMap.set, GoMap.delete, List.filter_eq_self.mpr]
        intro e he
        simp only [decide_eq_true_iff]
        rintro rfl
        exact hAbsent (List.mem_map_of_mem he)
      refine ⟨⟨hg.idle, ?_, GoMap.nodup_set hg.keys _ _, ?_, ?_⟩, fun _ _ => ?_⟩
      · show _ = rc.admissions.set key l
        rw [hSet, ← hg.held, Ledger.began, hTarget]
        rfl
      · exact List.nodup_cons.mpr ⟨fun hIn => hFresh (hg.taken hIn), hg.leases⟩
      · exact List.cons_subset_cons _ hg.taken
      · exact ⟨l, List.mem_cons_self, hInst⟩

theorem obeys_releaseLoop (order : List Str) (hg : Keeps rc.admissions g)
    (hAll : rc.admissions.keys ⊆ order) :
    Obeys (reservations owner strict) (fun out g' => out.admissions = [] ∧ Keeps [] g')
      (rc.releaseLoop order) g := by
  induction order generalizing rc g with
  | nil =>
    have hNil : rc.admissions = [] := List.map_eq_nil_iff.mp (List.subset_nil.mp hAll)
    exact ⟨hNil, hNil ▸ hg⟩
  | cons key rest ih =>
    unfold RequestContext.releaseLoop
    split
    next hNone =>
      refine ih hg fun k hk => ?_
      rcases List.mem_cons.mp (hAll hk) with rfl | hk'
      · exact absurd hk (GoMap.get_eq_none_iff.mp hNone)
      · exact hk'
    next l hl =>
      have hOwn : l ∈ g.leases := by
        rw [Ledger.leases, hg.held]
        exact List.mem_map_of_mem (GoMap.mem_of_get hl)
      refine obeys_bind (obeys_end hg.idle fun _ => hOwn) ?_
      rintro _ g' ⟨hIdle, hTaken, hHeld⟩
      refine ih (hg.release hl hIdle hTaken hHeld) fun k hk => ?_
      rw [GoMap.keys_delete, List.mem_filter] at hk
      rcases List.mem_cons.mp (hAll hk.1) with rfl | hk'
      · simp at hk
      · exact hk'

theorem obeys_releaseAdmissions (hg : Keeps rc.admissions g) :
    Obeys (reservations owner strict) (fun out g' => out.admissions = [] ∧ Keeps [] g')
      rc.releaseAdmissions g :=
  obeys_ask trivial fun order _ => obeys_releaseLoop order.val hg order.property.symm.subset

theorem returns_applyDecision (phase : Phase) (f : Filter) (rc : RequestContext)
    (resp : FilterResponse) : (applyDecision phase f rc resp).Returns
      fun out => out.2.admissions = rc.admissions := by
  unfold applyDecision
  split
  next => split <;> simp
  next =>
    dsimp only
    split <;> simp
  next => rfl

theorem obeys_callFilter (phase : Phase) (f : Filter) (hg : Keeps rc.admissions g)
    (hCall : strict = true → ∃ l ∈ g.leases, l.inst = i) :
    Obeys (reservations owner strict) (fun out g' => Keeps out.2.admissions g')
      (callFilter phase f i rc) g := by
  refine obeys_ask trivial fun now _ =>
    obeys_ask hCall fun _ _ => obeys_ask hCall fun answer _ => ?_
  have hBuilt : Keeps (rc.buildFilterRequest phase f now).2.admissions g := by
    rwa [rc.buildFilterRequest_admissions phase f now]
  cases answer with
  | error e =>
    refine obeys_bind (obeys_routine (routine_recordFailure i) hg.idle) ?_
    rintro _ _ rfl
    exact obeys_ask trivial fun _ _ => hBuilt
  | ok resp =>
    refine obeys_bind (obeys_routine (routine_recordSuccess i) hg.idle) ?_
    rintro _ _ rfl
    refine obeys_mono (obeys_routine_returns (routine_applyDecision phase f _ resp)
      (returns_applyDecision phase f _ resp) hg.idle) ?_
    rintro out _ ⟨rfl, hOut⟩
    rwa [hOut]

theorem obeys_runOne (phase : Phase) (f : Filter) (hg : Keeps rc.admissions g) :
    Obeys (reservations owner strict) (fun out g' => Keeps out.2.admissions g')
      (runOne phase f rc) g := by
  unfold runOne
  split
  next => exact obeys_ask trivial fun _ _ => hg
  next =>
    refine obeys_bind (obeys_registryTarget f.pluginKey hg.idle) fun target g' hTarget => ?_
    cases target with
    | none =>
      obtain rfl := hTarget
      exact obeys_ask trivial fun _ _ => hg
    | some target =>
      obtain ⟨rfl, hAgrees⟩ := hTarget
      refine obeys_bind (obeys_routine (routine_allow target) hg.idle) ?_
      rintro allowed _ rfl
      refine obeys_ite.mpr ⟨fun _ => hg.retarget _, fun _ => ?_⟩
      refine obeys_bind (obeys_admitKey (hg.retarget _) rfl hAgrees) ?_
      rintro ⟨ok, rc'⟩ g' ⟨hg', hReserved⟩
      refine obeys_ite.mpr ⟨fun _ => obeys_ask trivial fun _ _ => hg', fun hOk => ?_⟩
      exact obeys_callFilter phase f hg' (hReserved (by simpa using hOk))

theorem obeys_runFilters (phase : Phase) (fs : List Filter) (hg : Keeps rc.admissions g) :
    Obeys (reservations owner strict) (fun out g' => Keeps out.2.admissions g')
      (runFilters phase fs rc) g := by
  induction fs generalizing rc g with
  | nil => exact hg
  | cons f fs ih =>
    unfold runFilters
    split
    next => exact ih hg
    next =>
      refine obeys_bind (obeys_runOne phase f hg) fun out g' hg' => ?_
      split
      next => exact hg'
      next => exact ih hg'

theorem obeys_run (chain : Chain) (phase : Phase) (hg : Keeps rc.admissions g) :
    Obeys (reservations owner strict) (fun out g' => Keeps out.2.admissions g')
      (run chain phase rc) g := by
  unfold run
  split
  next => exact hg
  next => exact obeys_runFilters phase _ hg

theorem obeys_runAsync (chain : Chain) (rc : AsyncContext) :
    Obeys (reservations owner strict) (fun _ g' => g' = g) (runAsync chain rc) g := by
  unfold runAsync
  split
  next => exact rfl
  next => exact ⟨trivial, fun _ _ => rfl⟩

theorem obeys_runLog (chain : Chain) (rc : AsyncContext) :
    Obeys (reservations owner strict) (fun _ g' => Keeps [] g') (runLog chain rc) {} := by
  refine obeys_bind (obeys_run chain .log ?_) fun out g' hg' => ?_
  · rw [rc.property]
    exact keeps_nil
  · exact obeys_bind (obeys_releaseAdmissions hg') fun _ _ hOut => hOut.2

end Moduless.Pipeline

namespace Moduless.Gateway
open Go Pipeline PluginHost Interaction Discipline

variable {owner strict : Bool} {g : Ledger} {rc : RequestContext} {key : Str} {i : Instance}

/-- The postcondition of every part of the handler: on both ways out the ledger
holds the admissions of the context. -/
def Carries (rc : RequestContext) (g : Ledger) : Prop := Keeps rc.admissions g

theorem obeys_runPhase (chain : Chain) (phase : Phase) (hg : Carries rc g) :
    Obeys (reservations owner strict) (either Carries Carries) (runPhase chain phase rc).run g := by
  refine obeys_lift (obeys_run chain phase hg) fun out g' hg' => ?_
  split
  next resp _ =>
    exact obeys_lift (Q := Carries) (obeys_ask trivial fun _ _ => hg') fun _ _ hg'' => hg''
  next => exact hg'

theorem obeys_httpError {message : Str} {code : Int} (hg : Carries rc g) :
    Obeys (reservations owner strict) (fun _ => Carries rc) (httpError message code) g :=
  ⟨trivial, fun _ _ => hg⟩

def Route.context : Route → RequestContext
  | .next _ rc | .backend _ _ rc => rc

namespace PluginHandler

variable (h : PluginHandler)

theorem obeys_bufferBody (needed : Bool) (r : Request) (hg : Carries rc g) :
    Obeys (reservations owner strict) (either Carries fun read => Carries read.2)
      (h.bufferBody needed r rc).run g := by
  unfold bufferBody
  split
  next =>
    refine obeys_lift (obeys_routine (h.routine_readBody r) hg.idle) ?_
    rintro read _ rfl
    split <;> exact hg
  next => exact hg

theorem obeys_beforeRouting (chain : Chain) (r : Request) (hg : Carries rc g) :
    Obeys (reservations owner strict) (either Carries fun routed => Carries routed.2.2)
      (h.beforeRouting chain r rc).run g := by
  refine obeys_early (h.obeys_bufferBody _ r hg) fun read g' hg' => ?_
  refine obeys_early (obeys_runPhase chain .preRoute hg') fun rc g' hg' => ?_
  split
  next => exact obeys_early (h.obeys_bufferBody _ _ hg') fun _ _ hg'' => hg''
  next => exact hg'

theorem obeys_resolveIdentity (r : Request) (hg : Carries rc g) :
    Obeys (reservations owner strict) Carries (h.resolveIdentity r rc) g := by
  unfold resolveIdentity
  refine obeys_ite.mpr ⟨fun _ => obeys_ask trivial fun user _ => ?_, fun _ => hg⟩
  cases user <;> exact hg

theorem obeys_beforeBackend (chain : Chain) (r : Request) (hg : Carries rc g) :
    Obeys (reservations owner strict) (either Carries fun target => Carries target.2.2)
      (h.beforeBackend chain r rc).run g := by
  refine obeys_lift (h.obeys_resolveIdentity r hg) fun rc g' hg' => ?_
  refine obeys_early (obeys_runPhase chain .authenticate hg') fun rc g' hg' => ?_
  refine obeys_early (obeys_runPhase chain .authorize hg') fun rc g' hg' => ?_
  split
  next => exact obeys_lift (obeys_httpError hg') fun _ _ hg'' => hg''
  next =>
    refine obeys_early (obeys_runPhase chain .preHandler hg') fun rc g' hg' => ?_
    split
    next => exact obeys_lift (obeys_httpError hg') fun _ _ hg'' => hg''
    next => exact hg'

theorem obeys_dispatch (sub : Str) (hg : Carries rc g)
    (hCall : strict = true → ∃ l ∈ g.leases, l.inst = i) :
    Obeys (reservations owner strict) (fun _ g' => g' = g) (h.dispatch i sub rc) g := by
  refine obeys_ask hCall fun _ _ => obeys_ask hCall fun answer _ => ?_
  cases answer with
  | error e => exact obeys_bind (obeys_routine (routine_recordFailure i) hg.idle) fun _ _ h => h
  | ok resp => exact obeys_bind (obeys_routine (routine_recordSuccess i) hg.idle) fun _ _ h => h

theorem obeys_callLive (inst : Option Instance) (key sub : Str) (hg : Carries rc g) :
    Obeys (reservations owner strict) (fun out => Carries out.2)
      (h.callLive inst key sub rc) g := by
  refine obeys_op trivial fun cur _ => ?_
  refine obeys_bind (obeys_pick cur key hg.idle) fun next g' hNext => ?_
  cases next with
  | none =>
    obtain rfl := hNext
    exact hg
  | some next =>
    obtain ⟨rfl, hAgrees⟩ := hNext
    refine obeys_ite.mpr ⟨fun _ => hg.retarget _, fun _ => ?_⟩
    refine obeys_bind (obeys_admitKey (hg.retarget _) rfl hAgrees) ?_
    rintro ⟨ok, rc'⟩ g' ⟨hg', hReserved⟩
    refine obeys_ite.mpr ⟨fun _ => hg', fun hOk => ?_⟩
    refine obeys_bind (h.obeys_dispatch sub hg' (hReserved (by simpa using hOk))) ?_
    rintro _ _ rfl
    exact hg'

theorem obeys_callBackend (snap : Snapshot) (key sub : Str) (hg : Carries rc g) :
    Obeys (reservations owner strict) (fun out => Carries out.2)
      (h.callBackend snap key sub rc) g := by
  refine obeys_bind (obeys_pick snap key hg.idle) fun inst g' hInst => ?_
  cases inst with
  | none =>
    obtain rfl := hInst
    exact h.obeys_callLive none key sub hg
  | some i =>
    obtain ⟨rfl, hAgrees⟩ := hInst
    refine obeys_bind (obeys_admitKey (hg.retarget _) rfl hAgrees) ?_
    rintro ⟨ok, rc'⟩ g' ⟨hg', hReserved⟩
    refine obeys_ite.mpr ⟨fun _ => h.obeys_callLive _ key sub hg', fun hOk => ?_⟩
    refine obeys_bind (h.obeys_dispatch sub hg' (hReserved (by simpa using hOk))) ?_
    rintro _ _ rfl
    exact hg'

theorem obeys_finish (chain : Chain) (hg : Carries rc g) :
    Obeys (reservations owner strict) (either Carries Carries) (finish chain rc).run g := by
  refine obeys_early (obeys_runPhase chain .postHandler hg) fun rc g' hg' => ?_
  exact obeys_lift (obeys_ask trivial fun _ _ => hg') fun _ _ hg'' => hg''

theorem obeys_afterBackend (chain : Chain) (result : Except BackendError HttpResponse)
    (hg : Carries rc g) : Obeys (reservations owner strict) (either Carries Carries)
      (afterBackend chain result rc).run g := by
  cases result with
  | error e =>
    refine obeys_early (obeys_runPhase chain .onError hg) fun rc g' hg' => ?_
    exact obeys_lift (obeys_httpError hg') fun _ _ hg'' => hg''
  | ok resp =>
    simp only [afterBackend, afterResponse]
    split
    next =>
      exact obeys_early (obeys_runPhase chain .onError hg) fun _ _ hg' => obeys_finish chain hg'
    next => exact obeys_finish chain hg

theorem obeys_route (chain : Chain) (r : Request) (hg : Carries rc g) :
    Obeys (reservations owner strict) (either Carries fun out => Carries out.context)
      (h.route chain r rc).run g := by
  refine obeys_early (h.obeys_beforeRouting chain r hg) fun routed g' hg' => ?_
  split
  next => exact obeys_early (h.obeys_beforeBackend chain _ hg') fun _ _ hg'' => hg''
  next => exact hg'

theorem obeys_serveCore (chain : Chain) (r : Request) (hg : Carries rc g) :
    Obeys (reservations owner strict) Carries (serveCore chain r rc) g := by
  refine obeys_bind (obeys_releaseAdmissions hg) fun rc' g' hg' => ?_
  have hKeeps : Carries rc' g' := by
    rw [Carries, hg'.1]
    exact hg'.2
  exact obeys_ask trivial fun _ _ => obeys_ite.mpr ⟨fun _ => hKeeps, fun _ => hKeeps⟩

theorem obeys_serveRequest (snap : Snapshot) (r : Request) (hg : Carries rc g) :
    Obeys (reservations owner strict) Carries (h.serveRequest snap r rc) g := by
  refine obeys_bind (Q := either Carries Carries) ?_ fun out g' hg' => ?_
  · refine obeys_early (h.obeys_route snap.chain r hg) fun routed g' hg' => ?_
    cases routed with
    | next r rc => exact obeys_lifted (obeys_serveCore snap.chain r hg')
    | backend key sub rc =>
      exact obeys_lift (h.obeys_callBackend snap key sub hg') fun result _ hg'' =>
        obeys_afterBackend snap.chain result.1 hg''
  · cases out <;> exact hg'

theorem obeys_serve (r : Request) :
    Obeys (reservations owner strict) (fun _ g' => Keeps [] g') (h.serve r) {} := by
  refine obeys_op trivial fun snap _ => ?_
  refine obeys_bind (obeys_routine (routine_traceIDFor r) rfl) ?_
  rintro traceID _ rfl
  refine obeys_ask trivial fun _ _ => obeys_ask trivial fun now _ => ?_
  refine obeys_bind (h.obeys_serveRequest snap r keeps_nil) fun rc g' hg' => ?_
  refine obeys_bind (obeys_runAsync snap.chain rc.forAsync) ?_
  rintro _ _ rfl
  exact obeys_bind (obeys_releaseAdmissions hg') fun _ _ hOut => hOut.2

end PluginHandler
end Moduless.Gateway
