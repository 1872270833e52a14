import Moduless.Interaction.Accounts
import Moduless.PluginHost.DoneFlags
import Moduless.PluginHost.Effects
import Moduless.PluginHost.Standings

/-!
What the ledgers of all goroutines say about the host's state, in every run in
which the goroutines keep the discipline of reservations.
-/

namespace Moduless.PluginHost
open Go Pipeline Interaction

structure Sound (owner : Bool) (s : HostState) (gs : List Ledger) : Prop where
  placed : Placed s.launched s.cells
  standings : Standings s.launched s.cells s.state s.inflight gs
  flagged : Flagged owner s.cells (gs.map Ledger.flags)

variable {owner strict : Bool} {s s' : HostState} {g : Ledger} {gs : List Ledger}

theorem Sound.congr (h : Sound owner s gs) (hLaunched : s'.launched = s.launched)
    (hCells : s'.cells = s.cells) (hState : ∀ i, s'.state i = s.state i)
    (hInflight : ∀ i, s'.inflight i = s.inflight i) : Sound owner s' gs := by
  obtain ⟨hPlaced, hStandings, hFlagged⟩ := h
  rw [← funext hState, ← funext hInflight] at hStandings
  rw [← hCells] at hPlaced hStandings hFlagged
  rw [← hLaunched] at hPlaced hStandings
  exact ⟨hPlaced, hStandings, hFlagged⟩

theorem Sound.retarget (h : Sound owner s (g :: gs)) (x : Option (Str × Instance)) :
    Sound owner s ({ g with target := x } :: gs) where
  placed := h.placed
  standings := h.standings.move (h.standings.scope g (by simp))
    (fun _ => .inl) rfl rfl (fun _ => .inl) fun _ _ => rfl
  flagged := h.flagged

/-- The second look at the state, inside `BeginRequest`. -/
theorem Sound.look (h : Sound owner s (g :: gs)) {i : Instance} (hRaised : g.standing = .raised i) :
    Sound owner s ({ g with
      standing := if s.state i = .ready then .confirmed i else .refused i } :: gs) where
  placed := h.placed
  standings := by
    have hOn : Standing.on (if s.state i = .ready then .confirmed i else .refused i) =
        g.standing.on := by
      rw [hRaised]
      split <;> rfl
    refine h.standings.move (fun j hj => ?_) (fun j hj => .inr ?_) rfl rfl (fun _ => .inl)
      fun j _ => ?_
    · exact h.standings.scope g (by simp) j (hOn.symm.trans hj)
    · by_cases hs : s.state i = .ready
      · simp only [if_pos hs, Standing.confirmed.injEq] at hj
        rwa [← hj]
      · simp [if_neg hs] at hj
    · simp [Ledger.weight, hOn]
  flagged := h.flagged

/-- Any other change of the count goes with the goroutine's own standing. -/
theorem Sound.add (h : Sound owner s (g :: gs)) {i : Instance} (hi : i ∈ s.launched) {d : Int}
    (hPermit : (g.standing = .idle ∧ d = 1) ∨
      (d = -1 ∧ (g.standing = .refused i ∨ g.standing = .released i))) :
    Sound owner (s.setInflight i (s.inflight i + d))
      ({ g with standing := if g.standing = .idle then .raised i else .idle } :: gs) where
  placed := h.placed
  standings := by
    rw [show (s.setInflight i (s.inflight i + d)).state = s.state from funext fun j => by simp]
    refine h.standings.move (fun j hj => ?_) (fun j hj => ?_) rfl rfl (fun _ => .inl)
      fun j hj => ?_
    · rcases hPermit with ⟨hg, -⟩ | ⟨-, hg | hg⟩ <;> simp [hg, Standing.on] at hj
      rwa [← hj]
    · rcases hPermit with ⟨hg, -⟩ | ⟨-, hg | hg⟩ <;> simp [hg] at hj
    · have hId : j.id = i.id ↔ i = j :=
        ⟨fun hid => (h.placed.inj hj hi hid).symm, fun hij => by rw [hij]⟩
      simp only [HostState.inflight_setInflight, hId]
      by_cases hij : i = j
      · subst hij
        rcases hPermit with ⟨hg, rfl⟩ | ⟨rfl, hg | hg⟩ <;>
          simp [Ledger.weight, Standing.on, hg] <;> omega
      · rcases hPermit with ⟨hg, rfl⟩ | ⟨rfl, hg | hg⟩ <;>
          simp [Ledger.weight, Standing.on, hg, hij]
  flagged := h.flagged

theorem Sound.take (h : Sound owner s (g :: gs)) {i : Instance} (hi : i ∈ s.launched)
    (hConfirmed : g.standing = .confirmed i) (key : Str) :
    Sound owner { s with cells := s.cells ++ [(i, false)] }
      ({ g with
        standing := .idle
        held := (key, ⟨i, s.cells.length⟩) :: g.held
        taken := ⟨i, s.cells.length⟩ :: g.taken } :: gs) where
  placed := ⟨h.placed.ids, by
    intro c hc
    rcases List.mem_append.mp hc with hc | hc
    · exact h.placed.owners c hc
    · rw [List.mem_singleton.mp hc]
      exact hi⟩
  standings := by
    refine h.standings.move (fun j hj => nomatch hj) (fun j hj => nomatch hj) rfl rfl
      (fun j hj => ?_) fun j _ => ?_
    · rcases List.mem_append.mp hj with hj | hj
      · exact .inl hj
      · rw [hConfirmed, (Prod.mk.inj (List.mem_singleton.mp hj)).1]
        exact .inr rfl
    · show s.inflight j - _ - _ = s.inflight j - _ - _
      by_cases hij : i = j
      · subst hij
        simp [Ledger.weight, Standing.on, hConfirmed]
        omega
      · simp [Ledger.weight, Standing.on, hConfirmed, hij]
  flagged := h.flagged.take i

private theorem leases_filter (l : Lease) :
    (g.held.filter fun e => e.2 ≠ l).map Prod.snd = g.leases.filter (· ≠ l) := by
  rw [Ledger.leases, List.filter_map]
  rfl

theorem Sound.win (h : Sound owner s (g :: gs)) {l : Lease}
    (hCell : s.cells[l.cell]? = some (l.inst, false)) (hIdle : g.standing = .idle)
    (hHeld : owner = true → l ∈ g.leases) :
    Sound owner { s with cells := s.cells.set l.cell (l.inst, true) }
      ({ g with
        standing := .released l.inst
        held := g.held.filter fun e => e.2 ≠ l
        won := l :: g.won } :: gs) where
  placed := ⟨h.placed.ids, by
    intro c hc
    rcases List.mem_or_eq_of_mem_set hc with hc | rfl
    · exact h.placed.owners c hc
    · exact h.placed.owners (l.inst, false) (List.mem_of_getElem? hCell)⟩
  standings := by
    obtain ⟨hlt, hGet⟩ := List.getElem?_eq_some_iff.mp hCell
    refine h.standings.move (fun j hj => ?_) (fun j hj => nomatch hj) rfl rfl
      (fun j hj => ?_) fun j _ => ?_
    · rw [← Option.some.inj hj]
      exact h.placed.owners _ (List.mem_of_getElem? hCell)
    · rcases List.mem_or_eq_of_mem_set hj with hj | hj
      · exact .inl hj
      · simp at hj
    · show s.inflight j - _ - _ = s.inflight j - _ - _
      have hPos : l.inst = j → 0 < s.cells.count (j, false) := by
        rintro rfl
        exact List.count_pos_iff.mpr (List.mem_of_getElem? hCell)
      rw [List.count_set hlt, hGet]
      by_cases hij : l.inst = j
      · have := hPos hij
        simp [Ledger.weight, Standing.on, hIdle, hij]
        omega
      · simp [Ledger.weight, Standing.on, hIdle, hij]
  flagged := by
    have hWin := h.flagged.win hCell hHeld
    rwa [Ledger.flags, ← leases_filter] at hWin

theorem Sound.miss (h : Sound owner s (g :: gs)) {l : Lease}
    (hCell : s.cells[l.cell]? = some (l.inst, true)) (hIdle : g.standing = .idle)
    (hHeld : owner = true → l ∈ g.leases) :
    Sound owner s
      ({ g with standing := .idle, held := g.held.filter fun e => e.2 ≠ l } :: gs) where
  placed := h.placed
  standings := h.standings.move (fun j hj => nomatch hj) (fun j hj => nomatch hj) rfl rfl
    (fun _ => .inl) fun j _ => by simp [Ledger.weight, hIdle]
  flagged := by
    have hMiss := h.flagged.miss hCell hHeld
    rwa [Ledger.flags, ← leases_filter] at hMiss

theorem Sound.launch (h : Sound owner s gs) {i : Instance} (hId : i.id = s.launched.length) :
    Sound owner (({ s with launched := s.launched ++ [i] }.setFields i launchedFields).setProc
      i .running) gs := by
  have hNew : i ∉ s.launched := fun hi => (h.placed.id_lt hi).ne hId
  have hOther : ∀ j ∈ s.launched, Function.update s.fields i.id launchedFields j.id =
      s.fields j.id := by
    intro j hj
    exact Function.update_of_ne (by have := h.placed.id_lt hj; omega) _ _
  refine ⟨⟨?_, ?_⟩, ?_, h.flagged⟩
  · intro n j hj
    replace hj : (s.launched ++ [i])[n]? = some j := hj
    rcases lt_or_ge n s.launched.length with hlt | hge
    · rw [List.getElem?_append_left hlt] at hj
      exact h.placed.ids n j hj
    · rw [List.getElem?_append_right hge, List.getElem?_singleton] at hj
      obtain ⟨hn, rfl⟩ := by simpa using hj
      omega
  · intro c hc
    exact List.mem_append_left _ (h.placed.owners c hc)
  · refine h.standings.launch h.placed.owners hNew (fun j hj => ?_) (fun j hj => ?_) ?_
    · exact congrArg Fields.state (hOther j hj)
    · exact congrArg Fields.inflight (hOther j hj)
    · simp [HostState.inflight, HostState.setFields, HostState.setProc, launchedFields]

theorem Sound.restate (h : Sound owner s gs) {i : Instance} {st : State} (hSt : st ≠ .ready) :
    Sound owner (s.setState i st) gs where
  placed := h.placed
  standings := by
    rw [show (s.setState i st).inflight = s.inflight from funext fun j => by simp]
    refine h.standings.restate fun j _ hj => ?_
    rw [HostState.state_setState] at hj
    split at hj
    · exact absurd hj hSt
    · exact hj
  flagged := h.flagged

theorem sound_step {e : Event Host} (h : Sound owner s (g :: gs))
    (hPermit : (reservations owner strict).permits g e.op) (hExec : host.Exec s e s') :
    Sound owner s' (g.next e :: gs) := by
  obtain ⟨o, r⟩ := e
  cases o with
  | loadState i =>
    obtain ⟨-, rfl, rfl⟩ := exec_loadState hExec
    rw [Ledger.next]
    split
    · exact h.look ‹_›
    · exact h
  | storeState i st =>
    obtain ⟨hi, rfl⟩ := exec_storeState hExec
    have hSt : st ≠ .ready := hPermit
    have hAfter := h.restate (i := i) hSt
    exact ⟨hAfter.placed, hAfter.standings.close hi (by simpa using hSt), hAfter.flagged⟩
  | casState i old new =>
    obtain ⟨-, ⟨-, -, rfl⟩ | ⟨-, -, rfl⟩⟩ := exec_casState hExec
    · exact h.restate hPermit
    · exact h
  | loadInflight i =>
    obtain ⟨-, rfl, rfl⟩ := exec_loadInflight hExec
    rw [Ledger.next]
    split
    next hZero => exact ⟨h.placed, h.standings.drain hZero.2 hZero.1, h.flagged⟩
    next => exact h
  | addInflight i d =>
    obtain ⟨hi, rfl, rfl⟩ := exec_addInflight hExec
    exact h.add hi hPermit
  | newDone i =>
    obtain ⟨hi, rfl, rfl⟩ := exec_newDone hExec
    exact h.take hi hPermit _
  | casDone l =>
    obtain ⟨rfl, hCell, rfl⟩ | ⟨rfl, hCell, rfl⟩ := exec_casDone hExec
    · exact h.win hCell hPermit.1 hPermit.2
    · exact h.miss hCell hPermit.1 hPermit.2
  | picked key i =>
    obtain rfl := exec_picked hExec
    exact h.retarget _
  | launch spec =>
    obtain ⟨rfl, rfl⟩ | ⟨i, rfl, hNew, rfl⟩ := exec_launch hExec
    · exact h
    · exact h.launch (by rw [hNew]; rfl)
  | breaker i o =>
    obtain ⟨b, rfl⟩ := exec_breaker hExec
    exact h.congr rfl rfl (by simp) (by simp)
  | choose rs states =>
    obtain ⟨c, rfl⟩ := exec_choose hExec
    exact h.congr rfl rfl (fun _ => rfl) fun _ => rfl
  | installPlugin reg =>
    obtain ⟨order, hOrder, -, rfl⟩ := exec_installPlugin hExec
    exact h.congr rfl rfl (fun _ => rfl) fun _ => rfl
  | manager o =>
    obtain ⟨hLaunched, hCells, hFields, -, -⟩ := o.apply_frame s
    rw [exec_manager hExec] at hLaunched hCells hFields
    exact h.congr hLaunched hCells (fun i => congrArg (fun f => (f i.id).state) hFields)
      fun i => congrArg (fun f => (f i.id).inflight) hFields
  | crash o =>
    obtain ⟨c, q, rfl⟩ := exec_crash hExec
    exact h.congr rfl rfl (fun _ => rfl) fun _ => rfl
  | ask q =>
    obtain rfl := exec_ask hExec
    exact h
  | go t =>
    obtain rfl := exec_go hExec
    exact h
  | current =>
    obtain ⟨-, rfl⟩ := exec_current hExec
    exact h
  | kill i =>
    obtain ⟨-, rfl⟩ := exec_kill hExec
    split <;> exact h.congr rfl rfl (fun _ => rfl) fun _ => rfl
  | exited i =>
    obtain ⟨-, -, rfl⟩ := exec_exited hExec
    exact h
  | exit i =>
    obtain ⟨-, rfl⟩ := exec_exit hExec
    split <;> exact h.congr rfl rfl (fun _ => rfl) fun _ => rfl
  | diverge => exact absurd hExec exec_diverge

/-- The ledgers of goroutines that start with nothing stay true in every run. -/
theorem sound_kept (owner strict : Bool) {C : Type} :
    (reservations owner strict).Kept (C := C) host (fun _ => {}) (Sound owner) where
  perm hPerm h := ⟨h.placed, h.standings.perm hPerm, h.flagged.perm (hPerm.map _)⟩
  fresh _ h := ⟨h.placed, h.standings.fresh, h.flagged.fresh⟩
  step h hPermit _ hExec := sound_step h hPermit hExec

theorem Sound.fresh_lease (h : Sound owner s gs) {i : Instance} {l : Lease}
    (hExec : host.Exec s ⟨.newDone i, l⟩ s') {g : Ledger} (hg : g ∈ gs) :
    l.inst = i ∧ l ∉ g.taken := by
  obtain ⟨-, rfl, -⟩ := exec_newDone hExec
  refine ⟨rfl, fun hTaken => ?_⟩
  obtain ⟨b, hb⟩ := h.flagged.recorded _ (List.mem_map_of_mem hg) _ hTaken
  simp at hb

/-- When everybody is outside and holds nothing, nothing is reserved. -/
theorem Sound.inflight_eq_zero (h : Sound owner s gs)
    (hIdle : ∀ g ∈ gs, g.standing = .idle ∧ g.held = []) {i : Instance} (hi : i ∈ s.launched) :
    s.inflight i = 0 := by
  have hFlags : s.cells.count (i, false) = 0 := by
    refine List.count_eq_zero.mpr fun hOpen => ?_
    obtain ⟨d, hd⟩ := List.mem_iff_getElem?.mp hOpen
    obtain ⟨f, hf, hHeld⟩ := h.flagged.opened d i hd
    obtain ⟨g, hg, rfl⟩ := List.mem_map.mp hf
    simp [Ledger.flags, Ledger.leases, (hIdle g hg).2] at hHeld
  have hWeights : ∀ x ∈ gs.map (fun g => g.weight i), x = 0 := by
    intro x hx
    obtain ⟨g, hg, rfl⟩ := List.mem_map.mp hx
    simp [Ledger.weight, (hIdle g hg).1, Standing.on]
  rw [h.standings.count i hi, hFlags, List.sum_eq_zero hWeights]
  rfl

theorem sound_nil {s : HostState} (hIds : ∀ (n : Nat) (i : Instance),
    s.launched[n]? = some i → i.id = n) (hCells : s.cells = [])
    (hInflight : ∀ i ∈ s.launched, s.inflight i = 0) : Sound owner s [] := by
  refine ⟨⟨hIds, by simp [hCells]⟩, ⟨by simp, by simp, by simp, fun i hi => ?_⟩,
    ⟨by simp [hCells], by simp, by simp [hCells], by simp, fun _ => ⟨by simp, by simp, by simp⟩⟩⟩
  simp [hCells, hInflight i hi]

end Moduless.PluginHost
