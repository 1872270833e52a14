import Mathlib.Data.List.Induction
import Moduless.PluginHost.Lifecycle
import Moduless.PluginHost.Ledger

/-!
`BeginRequest`, the functions it returns and `Drain` keep the discipline of
reservations; what each of them leaves in the ledger.
-/

namespace Moduless.PluginHost
open Go Pipeline Interaction Discipline

variable {owner strict : Bool} {g : Ledger} {i : Instance}

/-- What `BeginRequest` leaves in the ledger. -/
def Ledger.began (g : Ledger) : Option Lease → Ledger
  | none => g
  | some l =>
    { g with
      held := ((g.target.map Prod.fst).getD [], l) :: g.held
      taken := l :: g.taken }

theorem obeys_beginRequest (hIdle : g.standing = .idle) :
    Obeys (reservations owner strict)
      (fun r g' => g' = g.began r ∧ ∀ l, r = some l → l.inst = i ∧ l ∉ g.taken)
      i.beginRequest g := by
  obtain ⟨_, held, target, closed, drained, taken, won⟩ := g
  obtain rfl := hIdle
  refine obeys_op trivial fun st _ => obeys_ite.mpr ⟨fun _ => ⟨rfl, nofun⟩, fun _ => ?_⟩
  refine obeys_op (.inl ⟨rfl, rfl⟩) fun n _ => obeys_op trivial fun st' _ => ?_
  have hLook : (reservations owner strict).next ((reservations owner strict).next
      ((reservations owner strict).next ⟨.idle, held, target, closed, drained, taken, won⟩
        ⟨.loadState i, st⟩) ⟨.addInflight i 1, n⟩) ⟨.loadState i, st'⟩ =
      ⟨if st' = .ready then .confirmed i else .refused i,
        held, target, closed, drained, taken, won⟩ := by
    simp [reservations, Ledger.next]
  rw [hLook]
  refine obeys_ite.mpr ⟨fun hSt => ?_, fun hSt => ?_⟩
  · rw [if_neg hSt]
    exact obeys_op (.inr ⟨rfl, .inl rfl⟩) fun _ _ => ⟨rfl, nofun⟩
  · rw [if_pos (not_not.mp hSt)]
    exact obeys_op rfl fun l hl => ⟨rfl, fun l' hl' => Option.some.inj hl' ▸ hl⟩

theorem obeys_end {l : Lease} (hIdle : g.standing = .idle) (hOwn : owner = true → l ∈ g.leases) :
    Obeys (reservations owner strict) (fun _ g' => g'.standing = .idle ∧ g'.taken = g.taken ∧
      g'.held = g.held.filter fun e => e.2 ≠ l) l.end_ g := by
  refine obeys_op ⟨hIdle, hOwn⟩ fun won _ => obeys_ite.mpr ⟨fun hWon => ?_, fun hLost => ?_⟩
  · refine obeys_op (.inr ⟨rfl, .inr ?_⟩) fun n _ => ?_
    · simp [reservations, Ledger.next, hWon]
    · simp [reservations, Ledger.next, hWon]
  · simp [reservations, Ledger.next, hLost]

/-- Operations that leave the ledger of a goroutine that stands outside as it is. -/
def Op.Neutral : Op → Prop
  | .ask (.filterCall _ _ _) | .ask (.filterReturn _) | .ask (.httpCall _ _ _)
  | .ask (.httpReturn _) => False
  | .storeState _ _ | .loadInflight _ | .addInflight _ _ | .newDone _ | .casDone _
  | .picked _ _ => False
  | .casState _ _ new => new ≠ .ready
  | _ => True

theorem obeys_neutral {α : Type} {p : HostM α} (hp : p.Uses Op.Neutral)
    (hIdle : g.standing = .idle) :
    Obeys (reservations owner strict) (fun _ g' => g' = g) p g := by
  refine obeys_of_uses hp (fun g' o hg' ho => ?_) rfl
  subst hg'
  cases o with
  | ask q => cases q <;> first | exact ⟨trivial, fun _ => rfl⟩ | exact ho.elim
  | loadState i => exact ⟨trivial, fun st => by simp [reservations, Ledger.next, hIdle]⟩
  | casState i old new => exact ⟨ho, fun _ => rfl⟩
  | _ => first | exact ⟨trivial, fun _ => rfl⟩ | exact ho.elim

/-- What it takes to end a process: `marking` is the part after the kill. -/
def Op.Terminating (marking : Bool) : Op → Prop
  | .ask .bound | .loadState _ | .diverge => True
  | .kill _ => marking = false
  | .casState _ _ new => new ≠ .ready
  | _ => False

theorem Op.Terminating.neutral {marking : Bool} {o : Op} (h : o.Terminating marking) :
    o.Neutral := by
  cases o with
  | ask q => cases q <;> trivial
  | _ => first | exact h | trivial

theorem terminating_markStopped (i : Instance) (n : Nat) (marking : Bool) :
    (i.markStopped n).Uses (Op.Terminating marking) := by
  induction n with
  | zero => exact ⟨trivial, fun e => nomatch e⟩
  | succ n ih =>
    refine uses_op trivial fun cur => ?_
    rw [Program.uses_ite]
    refine ⟨fun _ => trivial, fun _ => uses_op nofun fun swapped => ?_⟩
    rw [Program.uses_ite]
    exact ⟨fun _ => trivial, fun _ => ih⟩

theorem terminating_terminate (i : Instance) : i.terminate.Uses (Op.Terminating false) :=
  uses_op rfl fun _ => uses_ask trivial fun n => terminating_markStopped i n false

/-- What the manager and the supervisor do to instances: they never reserve
anything and never make an instance ready. -/
def Op.Administrative : Op → Prop
  | .storeState _ st => st ≠ .ready
  | .loadInflight _ => True
  | o => o.Neutral

theorem Ledger.next_administrative {o : Op} (ho : o.Administrative) (r : o.Ans)
    (hIdle : g.standing = .idle) :
    (g.next ⟨o, r⟩).standing = .idle ∧ (g.next ⟨o, r⟩).held = g.held := by
  cases o with
  | ask q => exact ⟨hIdle, rfl⟩
  | loadState i => simp [Ledger.next, hIdle]
  | loadInflight i =>
    rw [Ledger.next]
    split <;> exact ⟨hIdle, rfl⟩
  | _ => first | exact ⟨hIdle, rfl⟩ | exact ho.elim

theorem obeys_administrative {α : Type} {p : HostM α} (hp : p.Uses Op.Administrative)
    (hIdle : g.standing = .idle) : Obeys (reservations owner strict)
      (fun _ g' => g'.standing = .idle ∧ g'.held = g.held) p g := by
  refine obeys_of_uses hp (P := fun g' : Ledger => g'.standing = .idle ∧ g'.held = g.held)
    (fun g' o hg' ho => ?_) ⟨hIdle, rfl⟩
  refine ⟨?_, fun r => ?_⟩
  · cases o with
    | ask q => cases q <;> first | exact trivial | exact ho.elim
    | _ => first | exact ho | exact trivial | exact ho.elim
  · obtain ⟨hStanding, hHeld⟩ := Ledger.next_administrative ho r hg'.1
    exact ⟨hStanding, hHeld.trans hg'.2⟩

theorem Ledger.administrative_hist (t : List (Event Host)) (ht : ∀ e ∈ t, e.op.Administrative)
    (hIdle : g.standing = .idle) :
    (t.foldl Ledger.next g).standing = .idle ∧ (t.foldl Ledger.next g).held = g.held := by
  induction t generalizing g with
  | nil => exact ⟨hIdle, rfl⟩
  | cons e t ih =>
    obtain ⟨he, ht⟩ := List.forall_mem_cons.mp ht
    obtain ⟨hStanding, hHeld⟩ := Ledger.next_administrative he e.ans hIdle
    obtain ⟨hStanding', hHeld'⟩ := ih ht hStanding
    exact ⟨hStanding', hHeld'.trans hHeld⟩

/-- What `Drain` leaves in the ledger: with no error, a count found at zero. -/
def Ledger.Drained (g : Ledger) (i : Instance) (e : Option HostError) (g' : Ledger) : Prop :=
  g'.standing = g.standing ∧ g'.held = g.held ∧ g'.target = g.target ∧
    (e = none → i ∈ g'.drained)

theorem Ledger.drained_next_loadInflight (m : Int) (e : Option HostError) {g' : Ledger}
    (h : (g.next ⟨.loadInflight i, m⟩).Drained i e g') : g.Drained i e g' := by
  rw [Ledger.next] at h
  split at h <;> exact h

theorem Ledger.closed_next_loadInflight (m : Int) :
    (g.next ⟨.loadInflight i, m⟩).closed = g.closed := by
  rw [Ledger.next]
  split <;> rfl

theorem Ledger.standing_next_loadInflight (m : Int) :
    (g.next ⟨.loadInflight i, m⟩).standing = g.standing := by
  rw [Ledger.next]
  split <;> rfl

theorem obeys_terminate {e : Option HostError} (hIdle : g.standing = .idle)
    (hDrained : e = none → i ∈ g.drained) :
    Obeys (reservations owner strict) (g.Drained i) (do i.terminate; pure e) g := by
  refine obeys_bind (obeys_neutral ((terminating_terminate i).mono fun _ => Op.Terminating.neutral)
    hIdle) ?_
  rintro _ _ rfl
  exact ⟨rfl, rfl, rfl, hDrained⟩

theorem obeys_drainFailed (hIdle : g.standing = .idle) (e : Int → HostError) :
    Obeys (reservations owner strict) (g.Drained i)
      (do let remaining ← op (.loadInflight i); i.terminate; pure (some (e remaining))) g :=
  obeys_op trivial fun m _ =>
    obeys_mono (obeys_terminate ((g.standing_next_loadInflight m).trans hIdle) nofun)
      fun e _ => g.drained_next_loadInflight m e

theorem obeys_drainLoop {timeout : Duration} {deadline : Int} (n : Nat)
    (hIdle : g.standing = .idle) (hClosed : i ∈ g.closed) :
    Obeys (reservations owner strict) (g.Drained i) (i.drainLoop timeout deadline n) g := by
  induction n generalizing g with
  | zero => exact ⟨trivial, fun e => nomatch e⟩
  | succ n ih =>
    refine obeys_op trivial fun m _ => obeys_mono ?_ fun e _ => g.drained_next_loadInflight m e
    have hIdle' := (g.standing_next_loadInflight (i := i) m).trans hIdle
    have hClosed' : i ∈ (g.next ⟨.loadInflight i, m⟩).closed := by
      rwa [g.closed_next_loadInflight m]
    refine obeys_ite.mpr ⟨fun hPos => obeys_ask trivial fun wake _ => ?_, fun hZero => ?_⟩
    · cases wake with
      | timer =>
        refine obeys_ask trivial fun now _ => obeys_ite.mpr ⟨fun _ => ?_, fun _ => ?_⟩
        · exact obeys_drainFailed hIdle' _
        · exact ih hIdle' hClosed'
      | stop => exact obeys_drainFailed hIdle' _
      | done => exact obeys_drainFailed hIdle' _
    · refine obeys_terminate hIdle' fun _ => ?_
      simp [Ledger.next, not_lt.mp hZero, hClosed]

theorem obeys_drain {timeout : Duration} (hIdle : g.standing = .idle) :
    Obeys (reservations owner strict) (g.Drained i) (i.drain timeout) g :=
  obeys_op (nofun) fun _ _ => obeys_ask trivial fun _ _ => obeys_ask trivial fun _ _ =>
    obeys_ask trivial fun n _ =>
      obeys_drainLoop (g := { g with closed := i :: g.closed }) n hIdle (List.mem_cons_self ..)

/-- The reservations `BeginRequest` handed out in a history. -/
def takenIn (t : List (Event Host)) : List Lease :=
  t.filterMap fun
    | ⟨.newDone _, l⟩ => some l
    | _ => none

/-- The reservations whose release decremented a count in a history. -/
def releasedIn (t : List (Event Host)) : List Lease :=
  t.filterMap fun
    | ⟨.casDone l, true⟩ => some l
    | _ => none

theorem mem_takenIn {t : List (Event Host)} {l : Lease} :
    l ∈ takenIn t ↔ ∃ i, ⟨.newDone i, l⟩ ∈ t := by
  simp only [takenIn, List.mem_filterMap]
  constructor
  · rintro ⟨e, he, hl⟩
    split at hl
    next i l' =>
      obtain rfl := Option.some.inj hl
      exact ⟨i, he⟩
    next => cases hl
  · rintro ⟨i, hi⟩
    exact ⟨_, hi, rfl⟩

theorem mem_releasedIn {t : List (Event Host)} {l : Lease} :
    l ∈ releasedIn t ↔ ⟨.casDone l, true⟩ ∈ t := by
  simp only [releasedIn, List.mem_filterMap]
  constructor
  · rintro ⟨e, he, hl⟩
    split at hl
    next l' =>
      obtain rfl := Option.some.inj hl
      exact he
    next => cases hl
  · exact fun hl => ⟨_, hl, rfl⟩

theorem Ledger.taken_perm (t : List (Event Host)) (g : Ledger) :
    (t.foldl Ledger.next g).taken.Perm (takenIn t ++ g.taken) := by
  induction t generalizing g with
  | nil => exact .refl _
  | cons e t ih =>
    refine (ih _).trans ?_
    obtain ⟨o, r⟩ := e
    cases o with
    | newDone i => exact List.perm_middle
    | loadState i =>
      rw [Ledger.next]
      split <;> exact .refl _
    | loadInflight i =>
      rw [Ledger.next]
      split <;> exact .refl _
    | _ => exact .refl _

theorem Ledger.won_perm (t : List (Event Host)) (g : Ledger) :
    (t.foldl Ledger.next g).won.Perm (releasedIn t ++ g.won) := by
  induction t generalizing g with
  | nil => exact .refl _
  | cons e t ih =>
    refine (ih _).trans ?_
    obtain ⟨o, r⟩ := e
    cases o with
    | casDone l =>
      cases r with
      | true => exact List.perm_middle
      | false => exact .refl _
    | loadState i =>
      rw [Ledger.next]
      split <;> exact .refl _
    | loadInflight i =>
      rw [Ledger.next]
      split <;> exact .refl _
    | _ => exact .refl _

theorem Ledger.closed_next (g : Ledger) (e : Event Host) : g.closed ⊆ (g.next e).closed := by
  obtain ⟨o, r⟩ := e
  cases o with
  | storeState j st => exact List.subset_cons_self ..
  | loadState j =>
    rw [Ledger.next]
    split <;> exact List.Subset.refl _
  | loadInflight j =>
    rw [Ledger.next]
    split <;> exact List.Subset.refl _
  | _ => exact List.Subset.refl _

theorem Ledger.drained_next (g : Ledger) (e : Event Host) : g.drained ⊆ (g.next e).drained := by
  obtain ⟨o, r⟩ := e
  cases o with
  | loadState j =>
    rw [Ledger.next]
    split <;> exact List.Subset.refl _
  | loadInflight j =>
    rw [Ledger.next]
    split
    · exact List.subset_cons_self ..
    · exact List.Subset.refl _
  | _ => exact List.Subset.refl _

theorem Ledger.closed_hist (t : List (Event Host)) {st : State} {r : Unit}
    (h : ⟨.storeState i st, r⟩ ∈ t) : i ∈ (t.foldl Ledger.next g).closed := by
  induction t using List.reverseRecOn with
  | nil => cases h
  | append_singleton t e ih =>
    rw [List.foldl_append]
    rcases List.mem_append.mp h with h | h
    · exact Ledger.closed_next _ e (ih h)
    · obtain rfl := List.mem_singleton.mp h
      exact List.mem_cons_self

/-- A count read as zero after the state was stored is an instance drained. -/
theorem Ledger.drained_hist (t u : List (Event Host)) {st : State} {r : Unit} {n : Int}
    (h : ⟨.storeState i st, r⟩ ∈ t) (hZero : n ≤ 0) :
    i ∈ ((t ++ ⟨.loadInflight i, n⟩ :: u).foldl Ledger.next g).drained := by
  rw [List.foldl_append, List.foldl_cons]
  have hRead : i ∈ ((t.foldl Ledger.next g).next ⟨.loadInflight i, n⟩).drained := by
    rw [Ledger.next, if_pos ⟨hZero, Ledger.closed_hist t h⟩]
    exact List.mem_cons_self
  generalize (t.foldl Ledger.next g).next ⟨.loadInflight i, n⟩ = g₁ at hRead
  induction u generalizing g₁ with
  | nil => exact hRead
  | cons e u ih => exact ih _ (g₁.drained_next e hRead)

end Moduless.PluginHost
