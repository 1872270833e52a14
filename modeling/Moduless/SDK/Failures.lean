import Moduless.SDK.Client

/-!
What becomes of the meaning of a failure between Core and the code of a plugin.

A call consists of a request, checks, one call of a backend and an answer. What its error
says about the answer of the backend depends on two things: whether the handler gives the
answers with a meaning statuses of their own, and whether the client attaches a sentinel
to the status it receives.
-/

namespace Moduless.SDK
open Go Interaction Program Rpc

def storeKind : StoreError → Option Kind
  | .versionConflict => some .versionConflict
  | .tooManyTx .. => some .rateLimited
  | .unknownTx => some .txExpired
  | .other _ => none

def enqueueKind : EnqueueError → Option Kind
  | .overDepth .. => some .rateLimited
  | .other _ => none

def egressKind : EgressError → Option Kind
  | .rateLimited _ => some .rateLimited
  | .notAllowed _ | .badRequest _ | .deadlineExceeded _ | .other _ => none

def backendKind : (o : BackendOp) → o.Error → Option Kind
  | .data _, e => storeKind e
  | .enqueue .., e => enqueueKind e
  | .ack .., _ | .nack .., _ => none
  | .fetch .., e => egressKind e

/-- The sentinel for what Core has answered: the transaction is not known, the version is
another one, or a ceiling is reached. -/
def meaning : Event Wire → Option Kind
  | ⟨.backend o, .error e⟩ => backendKind o e
  | _ => none

/-- The status that a lost request or response leaves. -/
def lost : Event Wire → Option Status
  | ⟨.send, r⟩ => r
  | ⟨.answer, r⟩ => r
  | _ => none

/-- An error of Core is lost on its way. -/
def interrupted : Event Wire → Bool
  | ⟨.refusal, r⟩ => r.isSome
  | _ => false

/-- The three sentinels with a meaning. -/
def judged : List Kind := [.versionConflict, .txExpired, .rateLimited]

/-- The error matches a sentinel exactly if Core has answered what it stands for. -/
def Kept (t : List (Event Wire)) (err : Option SdkError) : Prop :=
  ∀ k ∈ judged, (∃ e ∈ err, e.is k = true) ↔ ∃ y ∈ t, meaning y = some k

/-- Nothing comes in the way of the meaning. A call that attaches sentinels must not fail in
the transport with a code that has one; and if the call does not tell the answers of Core
apart, or their error is lost, then Core must not have given one that has a meaning. -/
def Clear (attaches distinguishes : Bool) (t : List (Event Wire)) : Prop :=
  (attaches = true → ∀ y ∈ t, ∀ st ∈ lost y,
    st.code ∉ [Code.aborted, .failedPrecondition, .resourceExhausted]) ∧
  ((distinguishes = false ∨ ∃ y ∈ t, interrupted y = true) → ∀ y ∈ t, meaning y = none)

def failure {α : Type} : Except SdkError α → Option SdkError
  | .error e => some e
  | .ok _ => none

section Exchange

variable {checks : List (Option Status)} {o : BackendOp} {classify : o.Error → Status}
  {t : List (Event Wire)} {r : Except Status o.Result}

/-- The runs of a call of Core. -/
inductive Exchanged (checks : List (Option Status)) (o : BackendOp)
    (classify : o.Error → Status) : List (Event Wire) → Except Status o.Result → Prop
  | unsent (st : Status) : Exchanged checks o classify [⟨.send, some st⟩] (.error st)
  | refused (st : Status) (i : Option (Interruption × Str)) : firstOf checks = some st →
      Exchanged checks o classify [⟨.send, none⟩, ⟨.refusal, i⟩]
        (.error ((i.map fun i => ⟨i.1.code, i.2⟩).getD st))
  | failed (e : o.Error) (i : Option (Interruption × Str)) : firstOf checks = none →
      Exchanged checks o classify [⟨.send, none⟩, ⟨.backend o, .error e⟩, ⟨.refusal, i⟩]
        (.error ((i.map fun i => ⟨i.1.code, i.2⟩).getD (classify e)))
  | unanswered (a : o.Result) (st : Status) : firstOf checks = none →
      Exchanged checks o classify [⟨.send, none⟩, ⟨.backend o, .ok a⟩, ⟨.answer, some st⟩]
        (.error st)
  | done (a : o.Result) : firstOf checks = none →
      Exchanged checks o classify [⟨.send, none⟩, ⟨.backend o, .ok a⟩, ⟨.answer, none⟩] (.ok a)

theorem exchanged_of_finishes (h : (exchange (respond checks o classify)).Finishes t r) :
    Exchanged checks o classify t r := by
  obtain ⟨sent, u, rfl, hu⟩ := finishes_call.mp h
  cases sent with
  | some st =>
    obtain ⟨rfl, rfl⟩ := finishes_ret.mp hu
    exact .unsent st
  | none =>
    have hu : (respond checks o classify >>= _).Finishes u r := hu
    obtain ⟨answer, v, v', rfl, hv, hv'⟩ := finishes_bind.mp hu
    unfold respond at hv
    cases hChecks : firstOf checks with
    | some st =>
      rw [hChecks] at hv
      obtain ⟨rfl, rfl⟩ := finishes_ret.mp hv
      obtain ⟨i, w, rfl, hw⟩ := finishes_call.mp hv'
      cases i with
      | none =>
        obtain ⟨rfl, rfl⟩ := finishes_ret.mp hw
        exact .refused st none hChecks
      | some i =>
        obtain ⟨rfl, rfl⟩ := finishes_ret.mp hw
        exact .refused st (some i) hChecks
    | none =>
      rw [hChecks] at hv
      obtain ⟨a, w, rfl, hw⟩ := finishes_call.mp hv
      obtain ⟨rfl, rfl⟩ := finishes_ret.mp hw
      cases a with
      | error e =>
        obtain ⟨i, w, rfl, hw⟩ := finishes_call.mp hv'
        cases i with
        | none =>
          obtain ⟨rfl, rfl⟩ := finishes_ret.mp hw
          exact .failed e none hChecks
        | some i =>
          obtain ⟨rfl, rfl⟩ := finishes_ret.mp hw
          exact .failed e (some i) hChecks
      | ok a =>
        obtain ⟨i, w, rfl, hw⟩ := finishes_call.mp hv'
        cases i with
        | none =>
          obtain ⟨rfl, rfl⟩ := finishes_ret.mp hw
          exact .done a hChecks
        | some st =>
          obtain ⟨rfl, rfl⟩ := finishes_ret.mp hw
          exact .unanswered a st hChecks

end Exchange

section Judging

variable {t : List (Event Wire)} {err : Option SdkError} {attaches distinguishes : Bool}

theorem backendKind_judged {o : BackendOp} {e : o.Error} {k : Kind}
    (h : backendKind o e = some k) : k ∈ judged := by
  cases o with
  | data o => cases e <;> cases h <;> decide
  | enqueue _ _ _ _ =>
    cases e with
    | overDepth _ _ _ => cases h; decide
    | other _ => cases h
  | ack _ _ => cases h
  | nack _ _ _ _ => cases h
  | fetch _ _ =>
    cases e with
    | rateLimited _ => cases h; decide
    | notAllowed _ | badRequest _ | deadlineExceeded _ | other _ => cases h

theorem meaning_judged {y : Event Wire} {k : Kind} (h : meaning y = some k) : k ∈ judged := by
  unfold meaning at h
  split at h
  next => exact backendKind_judged h
  next => cases h

theorem kept_of_silent (h : ∀ k ∈ judged, ∀ e ∈ err, e.is k = false) :
    Kept t err ↔ ∀ y ∈ t, meaning y = none := by
  constructor
  · intro hKept y hy
    cases hMeaning : meaning y with
    | none => rfl
    | some k =>
      have hk := meaning_judged hMeaning
      obtain ⟨e, he, hIs⟩ := (hKept k hk).mpr ⟨y, hy, hMeaning⟩
      cases (h k hk e he).symm.trans hIs
  · intro hQuiet k hk
    refine iff_of_false ?_ ?_
    · rintro ⟨e, he, hIs⟩
      cases (h k hk e he).symm.trans hIs
    · rintro ⟨y, hy, hMeaning⟩
      cases (hQuiet y hy).symm.trans hMeaning

theorem kept_of_quiet (hQuiet : ∀ y ∈ t, meaning y = none) :
    Kept t err ↔ ∀ k ∈ judged, ∀ e ∈ err, e.is k = false := by
  constructor
  · intro hKept k hk e he
    by_contra hIs
    obtain ⟨y, hy, hMeaning⟩ := (hKept k hk).mp ⟨e, he, Bool.of_not_eq_false hIs⟩
    cases (hQuiet y hy).symm.trans hMeaning
  · exact fun hSilent => (kept_of_silent hSilent).mpr hQuiet

theorem clear_of_quiet (hQuiet : ∀ y ∈ t, meaning y = none) :
    Clear attaches distinguishes t ↔ (attaches = true → ∀ y ∈ t, ∀ st ∈ lost y,
      st.code ∉ [Code.aborted, .failedPrecondition, .resourceExhausted]) :=
  and_iff_left fun _ => hQuiet

theorem quiet_of_filterMap (h : t.filterMap meaning = []) : ∀ y ∈ t, meaning y = none :=
  List.filterMap_eq_nil_iff.mp h

theorem clear_of_arrived (hLost : t.filterMap lost = []) :
    Clear attaches distinguishes t ↔
      ((distinguishes = false ∨ ∃ y ∈ t, interrupted y = true) → ∀ y ∈ t, meaning y = none) := by
  refine and_iff_right fun _ y hy st hst => ?_
  cases (List.filterMap_eq_nil_iff.mp hLost y hy).symm.trans hst

theorem code_judged (c : Code) :
    (∀ k ∈ judged, kindOf c ≠ some k) ↔
      c ∉ [Code.aborted, .failedPrecondition, .resourceExhausted] := by
  cases c <;> decide

theorem is_hostErr {st : Status} {k : Kind} :
    (hostErr st).is k = true ↔ kindOf st.code = some k := by
  unfold hostErr
  cases kindOf st.code with
  | none => simp [SdkError.is]
  | some kind => simp [SdkError.is]

/-- What the wrapper of a call does with a status. -/
def Wraps (wrap : Status → SdkError) (attaches : Bool) : Prop :=
  ∀ st k, (wrap st).is k = true ↔ attaches = true ∧ kindOf st.code = some k

theorem wraps_hostErr : Wraps hostErr true := fun _ _ => is_hostErr.trans (by simp)

theorem wraps_status : Wraps .status false := fun _ _ => by simp [SdkError.is]

theorem Wraps.silent {wrap : Status → SdkError} (h : Wraps wrap attaches) {st : Status}
    (hCode : ∀ k ∈ judged, kindOf st.code ≠ some k) :
    ∀ k ∈ judged, ∀ e ∈ some (wrap st), e.is k = false := by
  intro k hk e he
  cases he
  by_contra hIs
  exact hCode k hk ((h st k).mp (Bool.of_not_eq_false hIs)).2

theorem kindOf_interruption (i : Interruption) : ∀ k ∈ judged, kindOf i.code ≠ some k := by
  cases i <;> decide

/-- The call tells the answers of Core apart by the statuses it makes of them, or by none. -/
def Reports (o : BackendOp) (classify : o.Error → Status) (attaches distinguishes : Bool) : Prop :=
  ∀ e, ∀ k ∈ judged, (attaches = true ∧ kindOf (classify e).code = some k) ↔
    (distinguishes = true ∧ backendKind o e = some k)

end Judging

section Calls

variable {checks : List (Option Status)} {o : BackendOp} {classify : o.Error → Status}
  {t : List (Event Wire)} {r : Except Status o.Result} {wrap : Status → SdkError}
  {attaches distinguishes : Bool}

/-- A status of the transport is the only thing that can go wrong where Core has not told
anything. -/
theorem kept_iff_of_lost (hWrap : Wraps wrap attaches) (hQuiet : ∀ y ∈ t, meaning y = none)
    {st : Status} (hLost : t.filterMap lost = [st]) :
    Kept t (some (wrap st)) ↔ Clear attaches distinguishes t := by
  have hOnly : ∀ x, (∃ y ∈ t, lost y = some x) ↔ x = st := by
    intro x
    rw [← List.mem_filterMap, hLost, List.mem_singleton]
  rw [kept_of_quiet hQuiet, clear_of_quiet hQuiet]
  constructor
  · intro hSilent hAttaches y hy x hx
    obtain rfl : x = st := (hOnly x).mp ⟨y, hy, hx⟩
    rw [← code_judged]
    intro k hk hKind
    cases (hSilent k hk _ rfl).symm.trans ((hWrap x k).mpr ⟨hAttaches, hKind⟩)
  · intro hClear k hk e he
    cases he
    by_contra hIs
    obtain ⟨hAttaches, hKind⟩ := (hWrap st k).mp (Bool.of_not_eq_false hIs)
    obtain ⟨y, hy, hx⟩ := (hOnly st).mpr rfl
    exact (code_judged st.code).mpr (hClear hAttaches y hy st hx) k hk hKind

theorem exists_meaning_failed (e : o.Error) (i : Option (Interruption × Str)) (k : Kind) :
    (∃ y ∈ ([⟨.send, none⟩, ⟨.backend o, .error e⟩, ⟨.refusal, i⟩] : List (Event Wire)),
      meaning y = some k) ↔ backendKind o e = some k := by
  constructor
  · rintro ⟨y, hy, hMeaning⟩
    rcases List.mem_cons.mp hy with rfl | hy
    · cases hMeaning
    rcases List.mem_cons.mp hy with rfl | hy
    · exact hMeaning
    cases List.mem_singleton.mp hy
    cases hMeaning
  · intro hKind
    exact ⟨_, List.mem_cons_of_mem _ List.mem_cons_self, hKind⟩

/-- Core has answered with an error, and it arrives or not. -/
theorem failed_kept_iff (hWrap : Wraps wrap attaches)
    (hReports : Reports o classify attaches distinguishes) (e : o.Error)
    (i : Option (Interruption × Str)) :
    Kept [⟨.send, none⟩, ⟨.backend o, .error e⟩, ⟨.refusal, i⟩]
        (some (wrap ((i.map fun i => ⟨i.1.code, i.2⟩).getD (classify e)))) ↔
      Clear attaches distinguishes
        [⟨.send, none⟩, ⟨.backend o, .error e⟩, ⟨.refusal, i⟩] := by
  rw [clear_of_arrived rfl]
  cases i with
  | some i =>
    rw [kept_of_silent (hWrap.silent (kindOf_interruption i.1))]
    have hInterrupted : ∃ y ∈ ([⟨.send, none⟩, ⟨.backend o, .error e⟩, ⟨.refusal, some i⟩] :
        List (Event Wire)), interrupted y = true := ⟨⟨.refusal, some i⟩, by simp, rfl⟩
    exact ⟨fun hQuiet _ => hQuiet, fun h => h (.inr hInterrupted)⟩
  | none =>
    cases distinguishes with
    | true =>
      refine iff_of_true (fun k hk => ?_) ?_
      · rw [exists_meaning_failed]
        have hTold := hReports e k hk
        rw [← hWrap, and_iff_right rfl] at hTold
        refine ⟨?_, fun hKind => ⟨_, rfl, hTold.mpr hKind⟩⟩
        rintro ⟨e', he', hIs⟩
        cases he'
        exact hTold.mp hIs
      · rintro (hFalse | ⟨y, hy, hInterrupted⟩)
        · cases hFalse
        · simp only [List.mem_cons, List.not_mem_nil, or_false] at hy
          rcases hy with rfl | rfl | rfl <;> cases hInterrupted
    | false =>
      rw [kept_of_silent]
      · exact ⟨fun hQuiet _ => hQuiet, fun h => h (.inl rfl)⟩
      · intro k hk e' he'
        cases he'
        by_contra hIs
        have hTold := (hReports e k hk).mp ((hWrap _ k).mp (Bool.of_not_eq_false hIs))
        cases hTold.1

theorem Exchanged.kept_iff (h : Exchanged checks o classify t r) (hWrap : Wraps wrap attaches)
    (hReports : Reports o classify attaches distinguishes)
    (hChecks : ∀ st, firstOf checks = some st → ∀ k ∈ judged, kindOf st.code ≠ some k) :
    Kept t (failure (r.mapError wrap)) ↔ Clear attaches distinguishes t := by
  cases h with
  | unsent st => exact kept_iff_of_lost hWrap (quiet_of_filterMap rfl) rfl
  | refused st i hFirst =>
    refine iff_of_true ((kept_of_quiet (quiet_of_filterMap rfl)).mpr (hWrap.silent ?_)) ?_
    · cases i with
      | none => exact hChecks st hFirst
      | some i => exact kindOf_interruption i.1
    · exact (clear_of_arrived rfl).mpr fun _ => quiet_of_filterMap rfl
  | failed e i => exact failed_kept_iff hWrap hReports e i
  | unanswered a st => exact kept_iff_of_lost hWrap (quiet_of_filterMap rfl) rfl
  | done a =>
    refine iff_of_true ((kept_of_quiet (quiet_of_filterMap rfl)).mpr ?_) ?_
    · intro k hk e he
      cases he
    · exact (clear_of_arrived rfl).mpr fun _ => quiet_of_filterMap rfl

/-- Calls of Core that keep meanings under the given terms. -/
def Answers {α : Type} (attaches distinguishes : Bool) (rpc : WireM (Except Status α)) : Prop :=
  ∀ wrap, Wraps wrap attaches → ∀ t r, (exchange rpc).Finishes t r →
    (Kept t (failure (r.mapError wrap)) ↔ Clear attaches distinguishes t)

theorem answers_respond (hReports : Reports o classify attaches distinguishes)
    (hChecks : ∀ st, firstOf checks = some st → ∀ k ∈ judged, kindOf st.code ≠ some k) :
    Answers attaches distinguishes (respond checks o classify) :=
  fun _ hWrap _ _ h => (exchanged_of_finishes h).kept_iff hWrap hReports hChecks

theorem kept_nil_iff {e : SdkError} (h : ∀ k ∈ judged, e.is k = false) :
    Kept [] (some e) ↔ Clear attaches distinguishes [] := by
  refine iff_of_true ((kept_of_quiet fun y hy => ?_).mpr ?_) ⟨?_, ?_⟩
  · cases hy
  · intro k hk e' he'
    cases he'
    exact h k hk
  · intro _ y hy
    cases hy
  · intro _ y hy
    cases hy

theorem call_kept_iff {α : Type} {c : Client} {rpc : Server → WireM (Except Status α)}
    (hWrap : Wraps wrap attaches) (hRpc : ∀ s, Answers attaches distinguishes (rpc s))
    {r : Except SdkError α} (h : (call c rpc wrap).Finishes t r) :
    Kept t (failure r) ↔ Clear attaches distinguishes t := by
  cases c with
  | none =>
    obtain ⟨rfl, rfl⟩ := finishes_ret.mp h
    exact kept_nil_iff fun _ _ => rfl
  | some s =>
    obtain ⟨answer, u, v, rfl, hu, hv⟩ := finishes_bind.mp h
    obtain ⟨rfl, rfl⟩ := finishes_ret.mp hv
    rw [List.append_nil]
    exact hRpc s wrap hWrap u answer hu

theorem callEncoded_kept_iff {α : Type} {c : Client} {what : String} {value : Except Str Str}
    {rpc : Server → Str → WireM (Except Status α)} (hWrap : Wraps wrap attaches)
    (hRpc : ∀ s data, Answers attaches distinguishes (rpc s data)) {r : Except SdkError α}
    (h : (callEncoded c what value rpc wrap).Finishes t r) :
    Kept t (failure r) ↔ Clear attaches distinguishes t := by
  cases c with
  | none =>
    obtain ⟨rfl, rfl⟩ := finishes_ret.mp h
    exact kept_nil_iff fun _ _ => rfl
  | some s =>
    cases value with
    | error text =>
      obtain ⟨rfl, rfl⟩ := finishes_ret.mp h
      exact kept_nil_iff fun _ _ => rfl
    | ok data =>
      have h : (call (some s) (fun s => rpc s data) wrap).Finishes t r := h
      exact call_kept_iff hWrap (fun s => hRpc s data) h

theorem kept_failure_bind {α β : Type} {r : Except SdkError α} {f : α → Except SdkError β}
    (hf : ∀ a e, f a = .error e → ∀ k ∈ judged, e.is k = false) :
    Kept t (failure (r.bind f)) ↔ Kept t (failure r) := by
  cases r with
  | error e => rfl
  | ok a =>
    have hNone : Kept t (failure (.ok a : Except SdkError α)) ↔ ∀ y ∈ t, meaning y = none :=
      kept_of_silent fun k hk e he => by cases he
    rw [hNone]
    refine kept_of_silent fun k hk e he => ?_
    change e ∈ failure (f a) at he
    cases hfa : f a with
    | ok b =>
      rw [hfa] at he
      cases he
    | error e' =>
      rw [hfa] at he
      cases he
      exact hf a e hfa k hk

end Calls
end Moduless.SDK
