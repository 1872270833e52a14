import Mathlib.Algebra.Order.BigOperators.Group.List
import Mathlib.Algebra.Order.Ring.Int
import Mathlib.Data.List.Count
import Moduless.PluginHost.Ledger

/-!
Where all goroutines stand, and the in-flight counts that explains.

An instance's count is the number of its open `done` flags plus the goroutines
that stand inside `BeginRequest` or a release function. Once a drain has found
the count at zero, no flag of the instance is open and nobody is about to open
one.
-/

namespace Moduless.PluginHost
open Go Pipeline Interaction

/-- An instance is at the position of its identity, and flags belong to launched
instances. -/
structure Placed (launched : List Instance) (cells : List (Instance × Bool)) : Prop where
  ids : ∀ (n : Nat) (i : Instance), launched[n]? = some i → i.id = n
  owners : ∀ c ∈ cells, c.1 ∈ launched

theorem Placed.inj {launched : List Instance} {cells : List (Instance × Bool)}
    (h : Placed launched cells) {i j : Instance} (hi : i ∈ launched) (hj : j ∈ launched)
    (hid : i.id = j.id) : i = j := by
  obtain ⟨n, hn⟩ := List.mem_iff_getElem?.mp hi
  obtain ⟨m, hm⟩ := List.mem_iff_getElem?.mp hj
  have hnm : n = m := by rw [← h.ids n i hn, ← h.ids m j hm, hid]
  subst hnm
  exact Option.some.inj (hn.symm.trans hm)

theorem Placed.id_lt {launched : List Instance} {cells : List (Instance × Bool)}
    (h : Placed launched cells) {i : Instance} (hi : i ∈ launched) : i.id < launched.length := by
  obtain ⟨n, hn⟩ := List.mem_iff_getElem?.mp hi
  rw [h.ids n i hn]
  exact (List.getElem?_eq_some_iff.mp hn).1

/-- Where the goroutines stand, and the count they explain. -/
structure Standings (launched : List Instance) (cells : List (Instance × Bool))
    (state : Instance → State) (inflight : Instance → Int) (gs : List Ledger) : Prop where
  scope : ∀ g ∈ gs, ∀ i, g.standing.on = some i → i ∈ launched
  closed : ∀ g ∈ gs, ∀ i ∈ g.closed, i ∈ launched ∧ state i ≠ .ready
  drained : ∀ g ∈ gs, ∀ i ∈ g.drained, i ∈ launched ∧ state i ≠ .ready ∧ (i, false) ∉ cells ∧
    ∀ g' ∈ gs, g'.standing ≠ .confirmed i
  count : ∀ i ∈ launched, inflight i =
    (cells.count (i, false) : Int) + (gs.map fun g => g.weight i).sum

section Ledgers

variable {launched : List Instance} {cells : List (Instance × Bool)}
  {state : Instance → State} {inflight : Instance → Int} {g g' : Ledger} {gs gs' : List Ledger}

theorem weight_nonneg (g : Ledger) (i : Instance) : 0 ≤ g.weight i := by
  unfold Ledger.weight
  split <;> simp

theorem sum_weight_nonneg (gs : List Ledger) (i : Instance) :
    0 ≤ (gs.map fun g => g.weight i).sum := by
  apply List.sum_nonneg
  intro x hx
  obtain ⟨g, _, rfl⟩ := List.mem_map.mp hx
  exact weight_nonneg g i

theorem Standings.zero (h : Standings launched cells state inflight gs) {i : Instance}
    (hi : i ∈ launched) (hZero : inflight i ≤ 0) :
    (i, false) ∉ cells ∧ ∀ g ∈ gs, g.standing.on ≠ some i := by
  have hCount := h.count i hi
  have hSum := sum_weight_nonneg gs i
  constructor
  · rw [← List.count_eq_zero]
    omega
  · intro g hg hOn
    have hLe : g.weight i ≤ (gs.map fun g => g.weight i).sum := by
      apply List.single_le_sum
      · intro x hx
        obtain ⟨g, _, rfl⟩ := List.mem_map.mp hx
        exact weight_nonneg g i
      · exact List.mem_map_of_mem hg
    have hOne : g.weight i = 1 := by simp [Ledger.weight, hOn]
    omega

theorem Standings.nonneg (h : Standings launched cells state inflight gs) {i : Instance}
    (hi : i ∈ launched) : 0 ≤ inflight i := by
  have := sum_weight_nonneg gs i
  have := h.count i hi
  omega

theorem Standings.perm (h : Standings launched cells state inflight gs) (hPerm : gs.Perm gs') :
    Standings launched cells state inflight gs' where
  scope g hg := h.scope g (hPerm.mem_iff.mpr hg)
  closed g hg := h.closed g (hPerm.mem_iff.mpr hg)
  drained g hg i hi :=
    have hd := h.drained g (hPerm.mem_iff.mpr hg) i hi
    ⟨hd.1, hd.2.1, hd.2.2.1, fun g' hg' => hd.2.2.2 g' (hPerm.mem_iff.mpr hg')⟩
  count i hi := by
    rw [h.count i hi, (hPerm.map fun g => g.weight i).sum_eq]

theorem Standings.fresh (h : Standings launched cells state inflight gs) :
    Standings launched cells state inflight ({} :: gs) where
  scope := by simpa [Standing.on] using h.scope
  closed := by simpa using h.closed
  drained := by simpa using h.drained
  count i hi := by simpa [Ledger.weight, Standing.on] using h.count i hi

/-- One goroutine moves: the count changes with its share and with the flags it
opens or closes, and only a confirmed one opens a flag. -/
theorem Standings.move (h : Standings launched cells state inflight (g :: gs))
    {cells' : List (Instance × Bool)} {inflight' : Instance → Int}
    (hScope : ∀ i, g'.standing.on = some i → i ∈ launched)
    (hReady : ∀ i, g'.standing = .confirmed i → g.standing = .confirmed i ∨ state i = .ready)
    (hClosed : g'.closed = g.closed) (hDrained : g'.drained = g.drained)
    (hCells : ∀ i, (i, false) ∈ cells' → (i, false) ∈ cells ∨ g.standing = .confirmed i)
    (hCount : ∀ i ∈ launched, inflight' i - cells'.count (i, false) - g'.weight i =
      inflight i - cells.count (i, false) - g.weight i) :
    Standings launched cells' state inflight' (g' :: gs) := by
  have hd := h.drained
  simp only [List.forall_mem_cons] at hd
  have hKeep : ∀ i, i ∈ launched ∧ state i ≠ .ready ∧ (i, false) ∉ cells ∧
      g.standing ≠ .confirmed i ∧ (∀ g' ∈ gs, g'.standing ≠ .confirmed i) →
      i ∈ launched ∧ state i ≠ .ready ∧ (i, false) ∉ cells' ∧
      g'.standing ≠ .confirmed i ∧ ∀ g' ∈ gs, g'.standing ≠ .confirmed i := by
    rintro i ⟨hl, hs, hc, hg, hRest⟩
    exact ⟨hl, hs, fun hIn => (hCells i hIn).elim hc hg,
      fun hg' => (hReady i hg').elim hg hs, hRest⟩
  constructor
  · simp only [List.forall_mem_cons]
    exact ⟨hScope, (List.forall_mem_cons.mp h.scope).2⟩
  · simp only [List.forall_mem_cons, hClosed]
    exact List.forall_mem_cons.mp h.closed
  · simp only [List.forall_mem_cons, hDrained]
    exact ⟨fun i hi => hKeep i (hd.1 i hi), fun g' hg' i hi => hKeep i (hd.2 g' hg' i hi)⟩
  · intro i hi
    have hOld := h.count i hi
    have hNew := hCount i hi
    simp only [List.map_cons, List.sum_cons] at hOld ⊢
    omega

theorem Standings.restate (h : Standings launched cells state inflight gs)
    {state' : Instance → State} (hNever : ∀ i ∈ launched, state' i = .ready → state i = .ready) :
    Standings launched cells state' inflight gs where
  scope := h.scope
  closed g hg i hi :=
    have hc := h.closed g hg i hi
    ⟨hc.1, fun hr => hc.2 (hNever i hc.1 hr)⟩
  drained g hg i hi :=
    have hd := h.drained g hg i hi
    ⟨hd.1, fun hr => hd.2.1 (hNever i hd.1 hr), hd.2.2⟩
  count := h.count

theorem Standings.close (h : Standings launched cells state inflight (g :: gs)) {i : Instance}
    (hi : i ∈ launched) (hState : state i ≠ .ready) :
    Standings launched cells state inflight ({ g with closed := i :: g.closed } :: gs) where
  scope := by simpa using h.scope
  closed := by
    simp only [List.forall_mem_cons]
    exact ⟨⟨⟨hi, hState⟩, (List.forall_mem_cons.mp h.closed).1⟩,
      (List.forall_mem_cons.mp h.closed).2⟩
  drained := by simpa using h.drained
  count := h.count

/-- A count read as zero on an instance taken out of `Ready`. -/
theorem Standings.drain (h : Standings launched cells state inflight (g :: gs)) {i : Instance}
    (hClosed : i ∈ g.closed) (hZero : inflight i ≤ 0) :
    Standings launched cells state inflight ({ g with drained := i :: g.drained } :: gs) := by
  obtain ⟨hi, hState⟩ := h.closed g (by simp) i hClosed
  obtain ⟨hFlags, hNobody⟩ := h.zero hi hZero
  have hNone : ∀ g' ∈ g :: gs, g'.standing ≠ .confirmed i := by
    intro g' hg' heq
    exact hNobody g' hg' (by rw [heq]; rfl)
  have hd := h.drained
  simp only [List.forall_mem_cons] at hd hNone
  constructor
  · simpa using h.scope
  · simpa using h.closed
  · simp only [List.forall_mem_cons]
    exact ⟨⟨⟨hi, hState, hFlags, hNone⟩, hd.1⟩, hd.2⟩
  · exact h.count

theorem Standings.launch (h : Standings launched cells state inflight gs)
    (hOwners : ∀ c ∈ cells, c.1 ∈ launched) {i : Instance} (hi : i ∉ launched)
    {state' : Instance → State} {inflight' : Instance → Int}
    (hState : ∀ j ∈ launched, state' j = state j)
    (hInflight : ∀ j ∈ launched, inflight' j = inflight j) (hZero : inflight' i = 0) :
    Standings (launched ++ [i]) cells state' inflight' gs where
  scope g hg j hj := List.mem_append_left _ (h.scope g hg j hj)
  closed g hg j hj := by
    obtain ⟨hl, hs⟩ := h.closed g hg j hj
    exact ⟨List.mem_append_left _ hl, by rwa [hState j hl]⟩
  drained g hg j hj := by
    obtain ⟨hl, hs, hRest⟩ := h.drained g hg j hj
    exact ⟨List.mem_append_left _ hl, by rwa [hState j hl], hRest⟩
  count j hj := by
    rw [List.mem_append, List.mem_singleton] at hj
    rcases hj with hj | rfl
    · rw [hInflight j hj, h.count j hj]
    · have hFlags : cells.count (j, false) = 0 :=
        List.count_eq_zero.mpr fun hc => hi (hOwners _ hc)
      have hWeights : ∀ x ∈ gs.map (fun g => g.weight j), x = 0 := by
        intro x hx
        obtain ⟨g, hg, rfl⟩ := List.mem_map.mp hx
        exact if_neg fun hOn => hi (h.scope g hg j hOn)
      rw [hZero, hFlags, List.sum_eq_zero hWeights]
      rfl

end Ledgers
end Moduless.PluginHost
