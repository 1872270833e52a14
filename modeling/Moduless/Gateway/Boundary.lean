import Moduless.Gateway.FailClosed
import Moduless.Gateway.Identity
import Moduless.Gateway.PathAgreement
import Moduless.SDK.Bridge

/-!
The path of a request on its way into a plugin. Core hands over a decoded path;
the plugin parses it as an encoded one. What the author's handler sees is the
path Core cleaned only where decoding changes nothing.
-/

namespace Moduless.Gateway
open Go Pipeline PluginHost Interaction SDK

theorem slash_of_routed {sub : Str} (h : Routed sub) : ['/'] <+: sub := by
  obtain ⟨p, key, hSplit⟩ := h
  unfold splitPluginPath at hSplit
  dsimp only at hSplit
  split_ifs at hSplit with hPlugin hSlash
  · cases hSplit
    rcases dropWhile_ne_slash (trimPrefix p pluginAPIPrefix) with hNil | ⟨rest, hRest⟩
    · exact absurd (List.dropWhile_eq_nil_iff.mp hNil '/' hSlash) (by decide)
    · rw [hRest]
      exact slash_cleanSubPath rest
  · cases hSplit
    exact List.prefix_rfl

section Dispatched

variable {h : PluginHandler} {r : Request} {registry : Registry} {t : List (Event Host)}
  {i : Instance} {req : HttpRequest} {d : Duration} {k : Unit → HostM Unit}

/-- The handler of a plugin is given a rooted path without dot segments exactly
if the sub-path, up to a question mark, spells none. -/
theorem boundary_clean_iff (hCall : (h.serve r).Leads (⟨.current, registry.current⟩ :: t)
      (.call (.ask (.httpCall i req d)) k)) {a : AuthorRequest} (ha : authorRequest req = some a) :
    (['/'] <+: a.url.path ∧ ['.'] ∉ split a.url.path '/' ∧ ['.', '.'] ∉ split a.url.path '/') ↔
      ¬ HidesDots (beforeQuery req.path) := by
  have hSlash := slash_of_routed (PluginHandler.httpCall_dispatchable hCall).routed
  obtain ⟨-, hSpells, -⟩ := (authorRequest_iff hSlash).mp ⟨a, ha, rfl, rfl⟩
  rw [hSpells.hidesDots_iff, not_or, and_iff_right (hSpells.slash (slash_beforeQuery hSlash))]

/-- Path and query reach the handler unchanged exactly if the path holds no
percent sign and no question mark, and neither holds a control character. -/
theorem boundary_exact_iff (hCall : (h.serve r).Leads (⟨.current, registry.current⟩ :: t)
      (.call (.ask (.httpCall i req d)) k)) :
    (∃ a, authorRequest req = some a ∧ a.url.path = req.path ∧ a.url.rawQuery = req.query) ↔
      '%' ∉ req.path ∧ '?' ∉ req.path ∧ (req.path ++ req.query).any isCTL = false := by
  have hSlash := slash_of_routed (PluginHandler.httpCall_dispatchable hCall).routed
  rw [authorRequest_iff hSlash]
  constructor
  · rintro ⟨hCTL, hSpells, -⟩
    have hSame : beforeQuery req.path = req.path :=
      (List.takeWhile_prefix _).eq_of_length_le hSpells.length_le
    have hMark := beforeQuery_eq_self_iff.mp hSame
    rw [hSame] at hSpells
    exact ⟨hSpells.eq_self_iff.mp rfl, hMark, hCTL⟩
  · rintro ⟨hPercent, hMark, hCTL⟩
    rw [beforeQuery_eq_self_iff.mpr hMark]
    exact ⟨hCTL, .self hPercent, afterQuery_target hMark⟩

end Dispatched

/-- The message of a call to a backend. -/
def dispatched : Event Host → Option HttpRequest
  | ⟨.ask (.httpCall _ req _), _⟩ => some req
  | _ => none

/-- The messages sent to backends for a request, when nothing else goes on. -/
def dispatchedIn (s : HostState) (h : PluginHandler) (r : Request) : List HttpRequest :=
  match host.replay (Op.calm []) s (h.serve r) with
  | some (t, _) => t.filterMap dispatched
  | none => []

theorem dispatched_eq_some {e : Event Host} {req : HttpRequest} (h : dispatched e = some req) :
    ∃ i d, e.op = .ask (.httpCall i req d) := by
  unfold dispatched at h
  split at h
  next i _ d _ => exact ⟨i, d, by rw [Option.some.inj h]⟩
  next => cases h

theorem leads_of_dispatchedIn {s : HostState} {h : PluginHandler} {r : Request} {req : HttpRequest}
    (hReq : req ∈ dispatchedIn s h r) : ∃ t i d k,
      (h.serve r).Leads (⟨.current, s.registry.current⟩ :: t)
        (.call (.ask (.httpCall i req d)) k) := by
  rw [dispatchedIn] at hReq
  split at hReq
  next t a s' hRun =>
    obtain ⟨e, he, hDispatched⟩ := List.mem_filterMap.mp hReq
    obtain ⟨i, d, hOp⟩ := dispatched_eq_some hDispatched
    cases Machine.runs_of_replay hRun with
    | call hExec hRest =>
      obtain ⟨ch, hExec⟩ := hExec
      cases hExec
      rcases List.mem_cons.mp he with rfl | he
      · cases hOp
      · obtain ⟨u, k, hu⟩ := hRest.finishes.before he
        revert k
        rw [hOp]
        exact fun k hu => ⟨u, i, d, k, .step hu⟩
  next => cases hReq

/-- What the guard is sent for a path below its own. -/
def guardMessage (sub : Str) : HttpRequest :=
  { traceID := []
    method := "GET".toList
    path := sub
    query := []
    headers := []
    body := []
    identity := none
    clientIP := "10.0.0.1".toList }

def guardRequest (rest : Str) : Request :=
  { itemRequest with urlPath := "/api/plugins/waf".toList ++ rest }

/-- The guard is called with the message at the end of some history. -/
def GuardCalled (sub : Str) : Prop :=
  ∃ t i d k, (PluginHandler.serve ⟨false, 0, 0⟩ (guardRequest sub)).Leads
    (⟨.current, guardHost.registry.current⟩ :: t)
    (.call (.ask (.httpCall i (guardMessage sub) d)) k)

theorem guardCalled (sub : Str)
    (h : guardMessage sub ∈ dispatchedIn guardHost ⟨false, 0, 0⟩ (guardRequest sub)) :
    GuardCalled sub :=
  leads_of_dispatchedIn h

theorem boundary_clean_items : GuardCalled "/items".toList ∧
    ∃ a, authorRequest (guardMessage "/items".toList) = some a ∧ ['/'] <+: a.url.path ∧
      ['.'] ∉ split a.url.path '/' ∧ ['.', '.'] ∉ split a.url.path '/' := by
  obtain ⟨t, i, d, k, hk⟩ := guardCalled "/items".toList (by decide)
  obtain ⟨a, ha⟩ : ∃ a, authorRequest (guardMessage "/items".toList) = some a :=
    Option.isSome_iff_exists.mp (by decide +kernel)
  refine ⟨⟨t, i, d, k, hk⟩, a, ha, (boundary_clean_iff hk ha).mpr ?_⟩
  exact not_hidesDots (by decide) (by decide)

/-- Core takes the segment for a name, and the plugin decodes it to two dots. -/
theorem dots_handed_over : GuardCalled "/%2e%2e/secret".toList ∧
    ['.', '.'] ∈ split "/../secret".toList '/' ∧
    ∃ a, authorRequest (guardMessage "/%2e%2e/secret".toList) = some a ∧
      a.url.path = "/../secret".toList :=
  ⟨guardCalled "/%2e%2e/secret".toList (by decide), by decide,
    Option.map_eq_some_iff.mp (by decide +kernel)⟩

theorem boundary_exact_items : GuardCalled "/items".toList ∧
    ∃ a, authorRequest (guardMessage "/items".toList) = some a ∧
      a.url.path = "/items".toList ∧ a.url.rawQuery = [] := by
  obtain ⟨t, i, d, k, hk⟩ := guardCalled "/items".toList (by decide)
  exact ⟨⟨t, i, d, k, hk⟩, (boundary_exact_iff hk).mpr (by decide)⟩

/-- The plugin's side refuses a path that Core served: its percent sign starts no
escape. -/
theorem percent_refused : GuardCalled "/50%".toList ∧
    ∀ serveHTTP, handleHTTP (some serveHTTP) (guardMessage "/50%".toList) =
      ⟨statusBadRequest, [], "bad request path".toList⟩ := by
  have hNone : authorRequest (guardMessage "/50%".toList) = none := by decide +kernel
  refine ⟨guardCalled "/50%".toList (by decide), fun serveHTTP => ?_⟩
  rw [handleHTTP, hNone]

end Moduless.Gateway
