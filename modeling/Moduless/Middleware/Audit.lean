import Moduless.Gateway.FailClosed
import Moduless.Gateway.LoggedStatus
import Moduless.Gateway.PathAgreement

/-!
The audit middleware around the plugin handler, and whether it names the plugin that a
write was dispatched to.

The middleware decides from the URL of the request what it was about, the handler from
the path the filters have left. The entry is written by a goroutine of its own, so its
start is the last thing the middleware does.
-/

namespace Moduless.Middleware
open Go Pipeline PluginHost Interaction Gateway Program

structure InsertAuditLogParams where
  userID : Str
  action : Str
  extensionKey : Str
  httpPath : Str
  clientIP : Str
  traceID : Str
  deriving DecidableEq

/-- `hasIdentify` says whether the caller's identity can be resolved. -/
structure AuditOptions where
  apiPrefix : Str
  hasIdentify : Bool

/-- The operations of the host, and those of the middleware: who the caller is, a header of
the response, and the goroutine that inserts an entry. -/
inductive AuditOp where
  | host (o : Op)
  | identify (r : Request)
  | responseHeader (name : Str)
  | goInsertAuditLog (params : InsertAuditLogParams)

@[reducible] def AuditOp.Ans : AuditOp → Type
  | .host o => o.Ans
  | .identify _ | .responseHeader _ => Str
  | .goInsertAuditLog _ => Unit

def AuditHost : Interface := ⟨AuditOp, AuditOp.Ans⟩

abbrev AuditM := Program AuditHost

def audit (o : AuditOp) : AuditM o.Ans := Program.perform (I := AuditHost) o

def wrapped {α : Type} (p : HostM α) : AuditM α :=
  p.handle fun o => Program.perform (I := AuditHost) (.host o)

def auditedMethods : List Str :=
  ["POST".toList, "PUT".toList, "DELETE".toList, "PATCH".toList]

def clientIP (r : Request) : Str :=
  let fwd := r.header.getFirst "X-Forwarded-For".toList
  if fwd ≠ [] then
    match cut fwd ',' with
    | some (first, _) => trimSpace first
    | none => trimSpace fwd
  else r.clientIP

/-- The key an entry is written under, if the URL is that of a plugin call. -/
def auditedKey (apiPrefix path : Str) : Option Str :=
  if !hasPrefix path apiPrefix then none
  else
    match splitTwo (trimPrefix path apiPrefix) '/' with
    | extKey :: _ :: _ => some extKey
    | _ => none

def identified (opts : AuditOptions) (r : Request) : AuditM Str :=
  if opts.hasIdentify then do
    let id ← audit (.identify r)
    pure (if id ≠ [] then id else "anonymous".toList)
  else pure "anonymous".toList

/-- The handler that `AuditLogger` makes of `next`. -/
def auditLogger (opts : AuditOptions) (next : Request → HostM Unit) (r : Request) :
    AuditM Unit := do
  wrapped (next r)
  match auditedKey opts.apiPrefix r.urlPath with
  | none => pure ()
  | some extKey =>
    if r.method ∈ auditedMethods then do
      let userID ← identified opts r
      let traceID ← audit (.responseHeader requestIDHeader)
      audit (.goInsertAuditLog
        { userID := userID
          action := r.method ++ " operation on ".toList ++ r.urlPath
          extensionKey := extKey
          httpPath := r.urlPath
          clientIP := clientIP r
          traceID := traceID })
    else pure ()

/-- An event of the wrapped handler. -/
def ofHost (e : Event Host) : Event AuditHost := ⟨.host e.op, e.ans⟩

section Histories

variable {α : Type} {p q : HostM α} {t : List (Event AuditHost)} {u : List (Event Host)} {a : α}

theorem leads_wrapped (h : p.Leads u q) : (wrapped p).Leads (u.map ofHost) (wrapped q) := by
  induction h with
  | stay p => exact .stay _
  | step _ ih => exact .step ih

end Histories

/-- The handler dispatched the request to a backend under the key. -/
def Dispatched (h : PluginHandler) (r : Request) (t : List (Event AuditHost)) (key : Str) : Prop :=
  ∃ u v w snap sub rc i req d, t = (u ++ v).map ofHost ++ w ∧
    h.ReachesBackend r u snap key sub rc ∧ ⟨.ask (.httpCall i req d), ()⟩ ∈ v

/-- An entry was written under the key. -/
def Audited (t : List (Event AuditHost)) (key : Str) : Prop :=
  ∃ params, ⟨.goInsertAuditLog params, ()⟩ ∈ t ∧ params.extensionKey = key

theorem auditedKey_eq_some {apiPrefix path key : Str} :
    auditedKey apiPrefix path = some key ↔ apiPrefix ++ key ++ ['/'] <+: path ∧ '/' ∉ key := by
  unfold auditedKey
  constructor
  · intro h
    split at h
    next => cases h
    next hPrefix =>
      obtain ⟨rest, rfl⟩ := hasPrefix_iff.mp (by simpa using hPrefix)
      rw [trimPrefix, if_pos (by simp), List.drop_left, splitTwo] at h
      cases hCut : cut rest '/' with
      | none =>
        rw [hCut] at h
        cases h
      | some parts =>
        obtain ⟨before, after⟩ := parts
        rw [hCut] at h
        cases h
        obtain ⟨rfl, hSlash⟩ := cut_eq_some.mp hCut
        exact ⟨⟨after, by simp⟩, hSlash⟩
  · rintro ⟨⟨rest, rfl⟩, hSlash⟩
    have hPath : apiPrefix ++ key ++ ['/'] ++ rest = apiPrefix ++ (key ++ '/' :: rest) := by simp
    rw [hPath, if_neg (by simp), trimPrefix, if_pos (by simp), List.drop_left, splitTwo,
      cut_append hSlash]

theorem splits_of_route {h : PluginHandler} {chain : Chain} {r : Request}
    {rc₀ rc : RequestContext} {v : List (Event Host)} {key sub : Str}
    (hRoute : (h.route chain r rc₀).run.Finishes v (.ok (.backend key sub rc))) :
    splitPluginPath rc.path = some (key, sub) := by
  obtain ⟨⟨isRoute, r', rc₁⟩, v₁, v₂, rfl, -, hBackend⟩ := finishes_early.mp hRoute
  cases isRoute with
  | false =>
    obtain ⟨-, hSame⟩ := finishes_pure.mp hBackend
    cases hSame
  | true =>
    obtain ⟨⟨key', sub', rc'⟩, v₃, v₄, rfl, hSplits, hPure⟩ := finishes_early.mp hBackend
    obtain ⟨-, hSame⟩ := finishes_pure.mp hPure
    cases hSame
    rw [PluginHandler.beforeBackend_eq] at hSplits
    obtain ⟨rc₂, v₅, v₆, rfl, -, hSplit⟩ := finishes_early.mp hSplits
    unfold PluginHandler.splitStage at hSplit
    split at hSplit
    next =>
      obtain ⟨_, _, _, _, _, hThrow⟩ := finishes_lift.mp hSplit
      exact absurd hThrow finishes_throw
    next hSome =>
      obtain ⟨-, hSame⟩ := finishes_pure.mp hSplit
      cases hSame
      exact hSome

theorem Dispatched.slash {h : PluginHandler} {r : Request} {t : List (Event AuditHost)}
    {key : Str} (hDispatch : Dispatched h r t key) : '/' ∉ key := by
  obtain ⟨u, v, w, snap, sub, rc, i, req, d, -, hReach, -⟩ := hDispatch
  obtain ⟨traceID, now, -, v', -, -, hRoute⟩ := hReach
  exact (splitPluginPath_shape (splits_of_route hRoute)).1

/-- The operations that do not write an entry. -/
def Silent : AuditOp → Prop
  | .goInsertAuditLog _ => False
  | _ => True

theorem silent_wrapped {α : Type} (p : HostM α) : (wrapped p).Uses Silent := by
  induction p with
  | ret a => exact uses_ret
  | call o k ih => exact uses_call.mpr ⟨trivial, ih⟩

theorem silent_identified (opts : AuditOptions) (r : Request) :
    (identified opts r).Uses Silent := by
  unfold identified
  exact uses_ite.mpr ⟨fun _ => ⟨trivial, fun _ => trivial⟩, fun _ => trivial⟩

theorem not_audited_of_silent {α : Type} {p q : AuditM α} {t : List (Event AuditHost)}
    (hp : p.Uses Silent) (h : p.Leads t q) (key : Str) : ¬ Audited t key := by
  rintro ⟨params, hMem, -⟩
  exact hp.hist h _ hMem

theorem audited_append {t u : List (Event AuditHost)} {key : Str} :
    Audited (t ++ u) key ↔ Audited t key ∨ Audited u key := by
  simp only [Audited, List.mem_append, or_and_right, exists_or]

theorem audited_entry {traceID : Str} {params : InsertAuditLogParams} {key : Str} :
    Audited [⟨.responseHeader requestIDHeader, traceID⟩, ⟨.goInsertAuditLog params, ()⟩] key ↔
      params.extensionKey = key := by
  constructor
  · rintro ⟨params', hMem, rfl⟩
    rcases List.mem_pair.mp hMem with hSame | hSame
    · cases hSame
    · cases hSame
      rfl
  · intro hKey
    exact ⟨params, List.mem_pair.mpr (.inr rfl), hKey⟩

/-- The entries of a finished call are those the URL asks for. -/
theorem audited_iff {opts : AuditOptions} {next : Request → HostM Unit} {r : Request}
    {t : List (Event AuditHost)} (hServe : (auditLogger opts next r).Finishes t ())
    (hMethod : r.method ∈ auditedMethods) (key : Str) :
    Audited t key ↔ auditedKey opts.apiPrefix r.urlPath = some key := by
  obtain ⟨_, u, v, rfl, hu, hv⟩ := finishes_bind.mp hServe
  rw [audited_append, or_iff_right (not_audited_of_silent (silent_wrapped (next r)) hu key)]
  cases hKey : auditedKey opts.apiPrefix r.urlPath with
  | none =>
    rw [hKey] at hv
    obtain ⟨rfl, -⟩ := finishes_ret.mp hv
    refine iff_of_false ?_ (Option.some_ne_none key).symm
    exact not_audited_of_silent (p := .ret ()) uses_ret hv key
  | some extKey =>
    rw [hKey] at hv
    dsimp only at hv
    rw [if_pos hMethod] at hv
    obtain ⟨userID, v₁, v₂, rfl, hUser, hv₂⟩ := finishes_bind.mp hv
    obtain ⟨traceID, v₃, rfl, hv₃⟩ := finishes_call.mp hv₂
    obtain ⟨_, v₄, rfl, hv₄⟩ := finishes_call.mp hv₃
    obtain ⟨rfl, -⟩ := finishes_ret.mp hv₄
    rw [audited_append, or_iff_right (not_audited_of_silent (silent_identified opts r) hUser key),
      Option.some_inj]
    exact audited_entry

/-- A write that was dispatched to the backend of a plugin is audited under its key if and
only if the URL of the request goes on after the key of that plugin with a slash. -/
theorem audited_under_key_iff {h : PluginHandler} {opts : AuditOptions} {r : Request}
    {t : List (Event AuditHost)} {key : Str} (hPrefix : opts.apiPrefix = pluginAPIPrefix)
    (hMethod : r.method ∈ auditedMethods) (hServe : (auditLogger opts h.serve r).Finishes t ())
    (hDispatch : Dispatched h r t key) :
    Audited t key ↔ pluginAPIPrefix ++ key ++ ['/'] <+: r.urlPath := by
  rw [audited_iff hServe hMethod, hPrefix, auditedKey_eq_some]
  exact and_iff_left hDispatch.slash

def pluginAudit : AuditOptions := ⟨pluginAPIPrefix, false⟩

/-- The call is answered, by the backend of the journal. -/
def SentToJournal (path : Str) (t : List (Event AuditHost)) : Prop :=
  (auditLogger pluginAudit (PluginHandler.serve ⟨false, 0, 0⟩) (pathRequest path)).Finishes t () ∧
    Dispatched ⟨false, 0, 0⟩ (pathRequest path) t "journal".toList

/-- The first four events of a call are those before the filters, and there are none of
filters before the backend. -/
def CallsJournal (path : Str) (u : List (Event Host)) : Prop :=
  (PluginHandler.serve ⟨false, 0, 0⟩ (pathRequest path)).Finishes u () ∧
    ∃ snap sub rc i req d,
      PluginHandler.ReachesBackend ⟨false, 0, 0⟩ (pathRequest path) (u.take 4) snap
        "journal".toList sub rc ∧ ⟨.ask (.httpCall i req d), ()⟩ ∈ u.drop 4

theorem CallsJournal.sent {path : Str} {u : List (Event Host)} {w : List (Event AuditHost)}
    (hCalls : CallsJournal path u)
    (hRest : (auditLogger pluginAudit (fun _ => .ret ()) (pathRequest path)).Finishes w ()) :
    SentToJournal path (u.map ofHost ++ w) := by
  obtain ⟨hServe, snap, sub, rc, i, req, d, hReach, hCall⟩ := hCalls
  refine ⟨finishes_bind.mpr ⟨(), _, _, rfl, leads_wrapped hServe, hRest⟩, ?_⟩
  exact ⟨u.take 4, u.drop 4, w, snap, sub, rc, i, req, d, by rw [List.take_append_drop], hReach,
    hCall⟩

theorem audited_under_key_entries : ∃ t, SentToJournal "/api/plugins/journal/entries".toList t ∧
    Audited t "journal".toList := by
  have hCalls : ∃ u, CallsJournal "/api/plugins/journal/entries".toList u :=
    ⟨_, (Machine.runs_of_replay (M := host) (w := Op.calm []) (s := journalHost) rfl).finishes,
      _, _, _, _, _, _, ⟨[], (0 : Int), [⟨.ask .newTraceID, []⟩], _, rfl, .step (.stay _),
        (Machine.runs_of_replay (M := host) (w := Op.calm []) (s := journalHost) rfl).finishes⟩,
      List.mem_of_getElem? (i := 6) rfl⟩
  obtain ⟨u, hCalls⟩ := hCalls
  obtain ⟨hServe, hDispatch⟩ := hCalls.sent (.step (r := ([] : Str)) (.step (.stay _)))
  exact ⟨_, ⟨hServe, hDispatch⟩,
    (audited_under_key_iff rfl (by decide) hServe hDispatch).mpr (by decide)⟩

/-- The root of a plugin without a slash at the end is dispatched, and no entry is written. -/
theorem root_not_audited : ∃ t, SentToJournal "/api/plugins/journal".toList t ∧
    ∀ key, ¬ Audited t key := by
  have hCalls : ∃ u, CallsJournal "/api/plugins/journal".toList u :=
    ⟨_, (Machine.runs_of_replay (M := host) (w := Op.calm []) (s := journalHost) rfl).finishes,
      _, _, _, _, _, _, ⟨[], (0 : Int), [⟨.ask .newTraceID, []⟩], _, rfl, .step (.stay _),
        (Machine.runs_of_replay (M := host) (w := Op.calm []) (s := journalHost) rfl).finishes⟩,
      List.mem_of_getElem? (i := 6) rfl⟩
  obtain ⟨u, hCalls⟩ := hCalls
  obtain ⟨hServe, hDispatch⟩ := hCalls.sent (.stay _)
  refine ⟨_, ⟨hServe, hDispatch⟩, fun key hAudited => ?_⟩
  exact absurd ((audited_iff hServe (by decide) key).mp hAudited) (Option.some_ne_none key).symm

end Moduless.Middleware
