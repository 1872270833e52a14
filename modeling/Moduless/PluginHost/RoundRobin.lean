import Mathlib.Algebra.BigOperators.Fin
import Moduless.Balance.Smooth
import Moduless.PluginHost.Effects

/-!
The choice between the replicas of a plugin is smooth weighted round-robin: the
loop of `pick` plays one round, in which the ready replicas take part.
-/

namespace Moduless.PluginHost
open Go Pipeline Interaction Balance

/-- What the loop adds to the counter at an index. -/
def readyWeight (l : List (Instance × State)) (j : Nat) : Int :=
  match l[j]? with
  | some (inst, .ready) => inst.weight
  | _ => 0

def ReadyAt (l : List (Instance × State)) (j : Nat) : Prop :=
  ∃ inst, l[j]? = some (inst, .ready)

theorem getElem?_snoc {α : Type} (l : List α) (e : α) (j : Nat) :
    (l ++ [e])[j]? = if j = l.length then some e else l[j]? := by
  rcases Nat.lt_trichotomy j l.length with hj | rfl | hj
  · rw [List.getElem?_append_left hj, if_neg hj.ne]
  · rw [List.getElem?_concat_length, if_pos rfl]
  · rw [if_neg hj.ne', List.getElem?_eq_none hj.le, List.getElem?_eq_none (by simp; omega)]

theorem readyWeight_snoc (l : List (Instance × State)) (e : Instance × State) (j : Nat) :
    readyWeight (l ++ [e]) j =
      readyWeight l j + if j = l.length ∧ e.2 = .ready then e.1.weight else 0 := by
  rw [readyWeight, readyWeight, getElem?_snoc]
  by_cases hj : j = l.length
  · obtain ⟨inst, st⟩ := e
    rw [if_pos hj, hj, List.getElem?_eq_none (Nat.le_refl _)]
    cases st <;> simp
  · simp [hj]

theorem readyAt_snoc (l : List (Instance × State)) (e : Instance × State) (j : Nat) :
    ReadyAt (l ++ [e]) j ↔ ReadyAt l j ∨ (j = l.length ∧ e.2 = .ready) := by
  rw [ReadyAt, ReadyAt, getElem?_snoc]
  by_cases hj : j = l.length
  · simp [hj, Prod.ext_iff]
  · simp [hj]

/-- The accumulators after the loop has gone through `l`. -/
structure Scanned (l : List (Instance × State)) (current : Nat → Int) (acc : PickLoop) : Prop where
  current : ∀ j, acc.current j = current j + readyWeight l j
  total : acc.total = ∑ j ∈ Finset.range l.length, readyWeight l j
  unready : acc.best = none → ∀ j, ¬ ReadyAt l j
  best : ∀ b, acc.best = some b → ReadyAt l b ∧
    ∀ j, ReadyAt l j → acc.current j ≤ acc.current b

theorem readyWeight_of_length_le {l : List (Instance × State)} {j : Nat} (h : l.length ≤ j) :
    readyWeight l j = 0 := by
  simp [readyWeight, List.getElem?_eq_none h]

theorem sum_readyWeight_snoc (l : List (Instance × State)) (e : Instance × State) :
    ∑ j ∈ Finset.range (l ++ [e]).length, readyWeight (l ++ [e]) j =
      (∑ j ∈ Finset.range l.length, readyWeight l j) + if e.2 = .ready then e.1.weight else 0 := by
  have hOld : ∀ j ∈ Finset.range l.length, readyWeight (l ++ [e]) j = readyWeight l j := by
    intro j hj
    rw [readyWeight_snoc, if_neg fun h => (Finset.mem_range.mp hj).ne h.1, add_zero]
  rw [List.length_append, List.length_singleton, Finset.sum_range_succ, Finset.sum_congr rfl hOld,
    readyWeight_snoc, readyWeight_of_length_le (Nat.le_refl _)]
  simp

theorem Scanned.step_ready {l : List (Instance × State)} {current : Nat → Int} {acc : PickLoop}
    (h : Scanned l current acc) (inst : Instance) :
    Scanned (l ++ [(inst, .ready)]) current (pickStep acc ((inst, .ready), l.length)) := by
  have hBefore (j : Nat) (hj : ReadyAt l j) : j ≠ l.length := by
    rintro rfl
    obtain ⟨_, hj⟩ := hj
    simp at hj
  have hCurrent (j : Nat) : (pickStep acc ((inst, .ready), l.length)).current j =
      current j + readyWeight (l ++ [(inst, .ready)]) j := by
    rw [readyWeight_snoc]
    by_cases hj : j = l.length
    · simp [pickStep, hj, h.current, add_assoc]
    · simp [pickStep, hj, h.current]
  have hKept (j : Nat) (hj : ReadyAt l j) :
      (pickStep acc ((inst, .ready), l.length)).current j = acc.current j :=
    Function.update_of_ne (hBefore j hj) _ _
  have hSelf : ReadyAt (l ++ [(inst, .ready)]) l.length :=
    (readyAt_snoc l (inst, .ready) _).mpr (.inr ⟨rfl, rfl⟩)
  refine ⟨hCurrent, ?_, nofun, fun b hb => ?_⟩
  · rw [sum_readyWeight_snoc, ← h.total]
    rfl
  · cases hBest : acc.best with
    | none =>
      obtain rfl : l.length = b := by simpa [pickStep, hBest] using hb
      refine ⟨hSelf, fun j hj => ?_⟩
      rcases (readyAt_snoc _ _ _).mp hj with hj | ⟨rfl, -⟩
      · exact absurd hj (h.unready hBest j)
      · exact le_refl _
    | some b₀ =>
      obtain ⟨hReady, hMax⟩ := h.best b₀ hBest
      have hb : (if (pickStep acc ((inst, .ready), l.length)).current b₀ <
          (pickStep acc ((inst, .ready), l.length)).current l.length
          then l.length else b₀) = b := by
        simpa [pickStep, hBest] using hb
      split at hb
      next hLess =>
        subst hb
        refine ⟨hSelf, fun j hj => ?_⟩
        rcases (readyAt_snoc _ _ _).mp hj with hj | ⟨rfl, -⟩
        · rw [hKept b₀ hReady] at hLess
          rw [hKept j hj]
          exact ((hMax j hj).trans_lt hLess).le
        · exact le_refl _
      next hLess =>
        subst hb
        refine ⟨(readyAt_snoc _ _ _).mpr (.inl hReady), fun j hj => ?_⟩
        rcases (readyAt_snoc _ _ _).mp hj with hj | ⟨rfl, -⟩
        · rw [hKept j hj, hKept b₀ hReady]
          exact hMax j hj
        · exact not_lt.mp hLess

theorem Scanned.step {l : List (Instance × State)} {current : Nat → Int} {acc : PickLoop}
    (h : Scanned l current acc) (e : Instance × State) :
    Scanned (l ++ [e]) current (pickStep acc (e, l.length)) := by
  obtain ⟨inst, st⟩ := e
  by_cases hReady : st = .ready
  · rw [hReady]
    exact h.step_ready inst
  · have hStep : pickStep acc ((inst, st), l.length) = acc := by simp [pickStep, hReady]
    rw [hStep]
    refine ⟨fun j => ?_, ?_, fun hNone j => ?_, fun b hb => ?_⟩
    · simp [readyWeight_snoc, hReady, h.current j]
    · rw [sum_readyWeight_snoc, if_neg hReady, add_zero, h.total]
    · simp [readyAt_snoc, hReady, h.unready hNone j]
    · simpa [readyAt_snoc, hReady] using h.best b hb

theorem scanned_loop (l : List (Instance × State)) (current : Nat → Int) :
    Scanned l current (l.zipIdx.foldl pickStep ⟨current, 0, none⟩) := by
  induction l using List.reverseRecOn with
  | nil => exact ⟨by simp [readyWeight], by simp, by simp [ReadyAt], by simp⟩
  | append_singleton l e ih =>
    rw [List.zipIdx_append, List.foldl_append]
    simpa using ih.step e

section Round

variable {instances : List Instance} {states : List State} {current current' : Nat → Int}
  {inst : Instance}

def weights (instances : List Instance) (i : Fin instances.length) : ℤ := instances[i].weight

def readySet (instances : List Instance) (states : List State) : Finset (Fin instances.length) :=
  Finset.univ.filter fun i => states[i.val]? = some .ready

theorem getElem?_zip_states (i : Fin instances.length) :
    (instances.zip states)[i.val]? = states[i.val]?.map fun st => (instances[i], st) := by
  rw [List.zip_eq_zipWith, List.getElem?_zipWith, List.getElem?_eq_getElem i.isLt]
  cases states[i.val]? <;> rfl

theorem readyAt_zip (i : Fin instances.length) :
    ReadyAt (instances.zip states) i ↔ i ∈ readySet instances states := by
  rw [ReadyAt, getElem?_zip_states, readySet, Finset.mem_filter]
  cases states[i.val]? <;> simp

theorem readyWeight_zip (i : Fin instances.length) :
    readyWeight (instances.zip states) i =
      if i ∈ readySet instances states then weights instances i else 0 := by
  have hMem : i ∈ readySet instances states ↔ states[i.val]? = some .ready := by
    simp [readySet]
  simp only [hMem]
  rw [readyWeight, getElem?_zip_states]
  cases hState : states[i.val]? with
  | none => simp
  | some st => cases st <;> simp [weights]

theorem sum_readyWeight_zip (hLen : states.length = instances.length) :
    ∑ j ∈ Finset.range (instances.zip states).length, readyWeight (instances.zip states) j =
      ∑ i ∈ readySet instances states, weights instances i := by
  rw [List.length_zip, hLen, Nat.min_self, Finset.sum_range]
  simp only [readyWeight_zip]
  rw [Finset.sum_ite_mem, Finset.univ_inter]

/-- A pick is one round among the ready replicas. -/
theorem pickReady_round (hLen : states.length = instances.length)
    (h : pickReady instances states current = some (inst, current')) :
    ∃ b : Fin instances.length, instances[b] = inst ∧
      Round (weights instances) (readySet instances states) (fun i => current i) b
        fun i => current' i := by
  have hScan := scanned_loop (instances.zip states) current
  simp only [pickReady] at h
  generalize (instances.zip states).zipIdx.foldl pickStep ⟨current, 0, none⟩ = acc at h hScan
  split at h
  next => cases h
  next b hBest =>
    split at h
    next => cases h
    next inst' hInst =>
      cases h
      obtain ⟨hb, hInst⟩ := List.getElem?_eq_some_iff.mp hInst
      obtain ⟨hReady, hMax⟩ := hScan.best b hBest
      have hMem : (⟨b, hb⟩ : Fin instances.length) ∈ readySet instances states :=
        (readyAt_zip ⟨b, hb⟩).mp hReady
      have hGain (i : Fin instances.length) (hi : i ∈ readySet instances states) :
          acc.current i = current i + weights instances i := by
        rw [hScan.current, readyWeight_zip, if_pos hi]
      refine ⟨⟨b, hb⟩, hInst, hMem, fun i hi => ?_, fun i => ?_⟩
      · rw [← hGain i hi, ← hGain ⟨b, hb⟩ hMem]
        exact hMax i ((readyAt_zip i).mpr hi)
      · rw [← sum_readyWeight_zip hLen, ← hScan.total, ← readyWeight_zip, ← hScan.current]
        by_cases hi : i = ⟨b, hb⟩
        · simp [hi]
        · have hne : i.val ≠ b := fun hEq => hi (Fin.ext hEq)
          simp [hi, hne]

theorem pickReady_isSome (hReady : (readySet instances states).Nonempty) :
    ∃ inst current', pickReady instances states current = some (inst, current') := by
  have hScan := scanned_loop (instances.zip states) current
  obtain ⟨i, hi⟩ := hReady
  simp only [pickReady]
  generalize (instances.zip states).zipIdx.foldl pickStep ⟨current, 0, none⟩ = acc at hScan ⊢
  cases hBest : acc.best with
  | none => exact absurd ((readyAt_zip i).mpr hi) (hScan.unready hBest i)
  | some b =>
    obtain ⟨inst, hInst⟩ := (hScan.best b hBest).1
    have hAt : instances[b]? = some inst := (List.getElem?_zip_eq_some.mp hInst).1
    simp [hAt]

end Round

/-- Picks one after the other, each with the states it found: the ready replicas
chosen, in order, and the counters at the end. A pick that finds no ready replica
leaves the counters alone. -/
def picks (instances : List Instance) :
    List (List State) → (Nat → Int) → List Instance × (Nat → Int)
  | [], current => ([], current)
  | states :: rest, current =>
    match pickReady instances states current with
    | none => picks instances rest current
    | some (inst, current') =>
      let out := picks instances rest current'
      (inst :: out.1, out.2)

section Picks

variable {instances : List Instance} {current : Nat → Int}

theorem picks_append (h h' : List (List State)) (current : Nat → Int) :
    picks instances (h ++ h') current =
      ((picks instances h current).1 ++ (picks instances h' (picks instances h current).2).1,
        (picks instances h' (picks instances h current).2).2) := by
  induction h generalizing current with
  | nil => rfl
  | cons states h ih =>
    simp only [List.cons_append, picks]
    cases pickReady instances states current with
    | none => exact ih current
    | some out => simp only [ih, List.cons_append]

theorem sum_picks {history : List (List State)}
    (hLen : ∀ states ∈ history, states.length = instances.length) (current : Nat → Int) :
    ∑ j ∈ Finset.range instances.length, (picks instances history current).2 j =
      ∑ j ∈ Finset.range instances.length, current j := by
  induction history generalizing current with
  | nil => rfl
  | cons states history ih =>
    rw [List.forall_mem_cons] at hLen
    simp only [picks]
    cases hPick : pickReady instances states current with
    | none => exact ih hLen.2 current
    | some out =>
      obtain ⟨b, -, hRound⟩ := pickReady_round hLen.1 hPick
      rw [ih hLen.2, Finset.sum_range, Finset.sum_range]
      exact hRound.sum_eq

def allReady (instances : List Instance) : List State := List.replicate instances.length .ready

theorem readySet_allReady (instances : List Instance) :
    readySet instances (allReady instances) = Finset.univ := by
  simp [readySet, allReady]

theorem picks_rounds (hSome : instances ≠ []) (m : Nat) (current : Nat → Int) :
    ∃ bs : List (Fin instances.length), bs.length = m ∧
      (picks instances (List.replicate m (allReady instances)) current).1 =
        bs.map (fun i => instances[i]) ∧
      Rounds (weights instances) (fun i => current i) bs fun i =>
        (picks instances (List.replicate m (allReady instances)) current).2 i := by
  have hNonempty : (readySet instances (allReady instances)).Nonempty := by
    rw [readySet_allReady]
    exact ⟨⟨0, List.length_pos_iff.mpr hSome⟩, Finset.mem_univ _⟩
  induction m generalizing current with
  | zero => exact ⟨[], rfl, rfl, .nil _⟩
  | succ m ih =>
    obtain ⟨inst, current', hPick⟩ :
        ∃ inst current', pickReady instances (allReady instances) current =
          some (inst, current') := pickReady_isSome hNonempty
    obtain ⟨b, hInst, hRound⟩ := pickReady_round (by simp [allReady]) hPick
    obtain ⟨bs, hLength, hPicks, hRounds⟩ := ih current'
    rw [readySet_allReady] at hRound
    refine ⟨b :: bs, by rw [List.length_cons, hLength], ?_, ?_⟩
    · simp only [List.replicate_succ, picks, hPick, hPicks, List.map_cons, hInst]
    · simp only [List.replicate_succ, picks, hPick]
      exact .cons hRound hRounds

def totalWeight (instances : List Instance) : Nat := (instances.map Instance.weight).sum.toNat

theorem totalWeight_eq (hPos : ∀ inst ∈ instances, 0 < inst.weight) :
    (totalWeight instances : ℤ) = ∑ i, weights instances i := by
  have hSum : ∑ i, weights instances i = (instances.map Instance.weight).sum :=
    Fin.sum_univ_fun_getElem instances Instance.weight
  have hNonneg : 0 ≤ ∑ i, weights instances i :=
    Finset.sum_nonneg fun i _ => (hPos _ (List.getElem_mem i.isLt)).le
  rw [hSum] at hNonneg ⊢
  exact Int.toNat_of_nonneg hNonneg

/-- One cycle from zero counters: everyone as often as their weight, and zero again. -/
theorem picks_cycle (hSome : instances ≠ []) (hDistinct : instances.Nodup)
    (hPos : ∀ inst ∈ instances, 0 < inst.weight)
    (hZero : ∀ j < instances.length, current j = 0) :
    (picks instances (List.replicate (totalWeight instances) (allReady instances))
        current).1.length = totalWeight instances ∧
      (∀ inst ∈ instances, ((picks instances
        (List.replicate (totalWeight instances) (allReady instances)) current).1.count inst : ℤ) =
          inst.weight) ∧
      ∀ j < instances.length, (picks instances
        (List.replicate (totalWeight instances) (allReady instances)) current).2 j = 0 := by
  obtain ⟨bs, hLength, hPicks, hRounds⟩ :=
    picks_rounds hSome (totalWeight instances) current
  have hStart : (fun i : Fin instances.length => current i) = fun _ => 0 :=
    funext fun i => hZero i i.isLt
  rw [hStart] at hRounds
  have hWeights (i : Fin instances.length) : 0 < weights instances i :=
    hPos _ (List.getElem_mem i.isLt)
  have hCycle := hRounds.exact hWeights (by rw [hLength, totalWeight_eq hPos])
  refine ⟨by rw [hPicks, List.length_map, hLength], fun inst hInst => ?_, fun j hj => ?_⟩
  · obtain ⟨i, hi, rfl⟩ := List.getElem_of_mem hInst
    have hCount : (bs.map fun i => instances[i]).count instances[i] = bs.count ⟨i, hi⟩ :=
      List.count_map_of_injective bs _ (List.nodup_iff_injective_get.mp hDistinct) ⟨i, hi⟩
    rw [hPicks, hCount]
    exact hCycle.1 ⟨i, hi⟩
  · exact hCycle.2 ⟨j, hj⟩

/-- Whole cycles leave the counters at zero and choose at every pick. -/
theorem picks_cycles (hSome : instances ≠ []) (hDistinct : instances.Nodup)
    (hPos : ∀ inst ∈ instances, 0 < inst.weight) (k : Nat) :
    (picks instances (List.replicate (k * totalWeight instances) (allReady instances))
        fun _ => 0).1.length = k * totalWeight instances ∧
      ∀ j < instances.length, (picks instances
        (List.replicate (k * totalWeight instances) (allReady instances)) fun _ => 0).2 j = 0 := by
  induction k with
  | zero => simp [picks]
  | succ k ih =>
    obtain ⟨hLength, -, hZero⟩ := picks_cycle hSome hDistinct hPos ih.2
    rw [Nat.succ_mul, List.replicate_add, picks_append]
    exact ⟨by rw [List.length_append, ih.1, hLength], hZero⟩

/-- Weighted round-robin is exact: with two or more ready replicas, each cycle of
as many picks as the total weight chooses every replica as often as its weight says
and leaves all counters at zero; and whatever is ready, the counters sum to zero. -/
theorem picks_exact (hTwo : 2 ≤ instances.length) (hDistinct : instances.Nodup)
    (hPos : ∀ inst ∈ instances, 0 < inst.weight) :
    (∀ k,
      (∀ inst ∈ instances, (((picks instances
        (List.replicate ((k + 1) * totalWeight instances) (allReady instances))
          fun _ => 0).1.drop (k * totalWeight instances)).count inst : ℤ) = inst.weight) ∧
      ((picks instances (List.replicate ((k + 1) * totalWeight instances) (allReady instances))
        fun _ => 0).1.drop (k * totalWeight instances)).length = totalWeight instances ∧
      ∀ j < instances.length, (picks instances
        (List.replicate (k * totalWeight instances) (allReady instances)) fun _ => 0).2 j = 0) ∧
    ∀ (current : Nat → Int) (history : List (List State)),
      (∀ states ∈ history, states.length = instances.length) →
      ∑ j ∈ Finset.range instances.length, current j = 0 →
      ∑ j ∈ Finset.range instances.length, (picks instances history current).2 j = 0 := by
  have hSome : instances ≠ [] := List.ne_nil_of_length_pos (by omega)
  refine ⟨fun k => ?_, fun current history hLen hSum => (sum_picks hLen current).trans hSum⟩
  obtain ⟨hLength, hZero⟩ := picks_cycles hSome hDistinct hPos k
  obtain ⟨hCycle, hCount, -⟩ := picks_cycle hSome hDistinct hPos hZero
  rw [Nat.succ_mul, List.replicate_add, picks_append, List.drop_left' hLength]
  exact ⟨hCount, hCycle, hZero⟩

/-- Three replicas of weights five, one and one, in the second cycle. -/
theorem picks_exact_three :
    List.Forall (fun inst : Instance => (((picks [⟨0, "blog".toList, "blog-0".toList, [], 5⟩,
          ⟨1, "blog".toList, "blog-1".toList, [], 1⟩, ⟨2, "blog".toList, "blog-2".toList, [], 1⟩]
        (List.replicate (2 * 7) [.ready, .ready, .ready]) fun _ => 0).1.drop
          (1 * 7)).count inst : ℤ) = inst.weight)
      [⟨0, "blog".toList, "blog-0".toList, [], 5⟩,
        ⟨1, "blog".toList, "blog-1".toList, [], 1⟩, ⟨2, "blog".toList, "blog-2".toList, [], 1⟩] :=
  List.forall_iff_forall_mem.mpr ((picks_exact (by decide) (by decide) (by decide)).1 1).1

end Picks

/-- The picks a history makes among the replicas of a set: the states each found
and the ready replica it chose. -/
def choices (rs : ReplicaSet) : List (Event Host) → List (List State × Option Instance)
  | [] => []
  | ⟨.choose rs' states, r⟩ :: t =>
    if (rs'.builtAt, rs'.key) = (rs.builtAt, rs.key) then (states, r) :: choices rs t
    else choices rs t
  | _ :: t => choices rs t

theorem choices_other (rs : ReplicaSet) {e : Event Host}
    (hOp : ∀ rs' states, e.op ≠ .choose rs' states) (t : List (Event Host)) :
    choices rs (e :: t) = choices rs t := by
  obtain ⟨o, r⟩ := e
  cases o with
  | choose rs' states => exact absurd rfl (hOp rs' states)
  | _ => rfl

theorem exec_choose_picks {s s' : HostState} {rs : ReplicaSet} {states : List State}
    {r : Option Instance} (h : host.Exec s ⟨.choose rs states, r⟩ s') :
    (pickReady rs.instances states (s.counters (rs.builtAt, rs.key)) = none ∧ r = none ∧
      s'.counters = s.counters) ∨
    ∃ inst current,
      pickReady rs.instances states (s.counters (rs.builtAt, rs.key)) = some (inst, current) ∧
      r = some inst ∧ s'.counters = Function.update s.counters (rs.builtAt, rs.key) current := by
  obtain ⟨_, h⟩ := h
  change HostState.exec s (.choose rs states) () = _ at h
  rw [HostState.exec] at h
  split at h
  next hNone =>
    obtain ⟨rfl, rfl⟩ := Prod.mk.inj (Option.some.inj h)
    exact .inl ⟨hNone, rfl, rfl⟩
  next inst current hSome =>
    obtain ⟨rfl, rfl⟩ := Prod.mk.inj (Option.some.inj h)
    exact .inr ⟨inst, current, hSome, rfl, rfl⟩

/-- In every history of the host the counters of a replica set are those its picks
leave, and the replicas chosen are theirs. -/
theorem picks_of_trace {rs : ReplicaSet} {s s' : HostState} {t : List (Event Host)}
    (hTrace : host.Trace s t s')
    (hSame : ∀ rs' states, ∀ e ∈ t, e.op = .choose rs' states →
      (rs'.builtAt, rs'.key) = (rs.builtAt, rs.key) → rs' = rs) :
    picks rs.instances ((choices rs t).map Prod.fst) (s.counters (rs.builtAt, rs.key)) =
      ((choices rs t).filterMap Prod.snd, s'.counters (rs.builtAt, rs.key)) := by
  induction hTrace with
  | nil => rfl
  | @cons s s₁ s' e t hExec _ ih =>
    have ih := ih fun rs' states e' he' => hSame rs' states e' (List.mem_cons_of_mem e he')
    by_cases hChoose : ∃ rs' states, e.op = .choose rs' states
    · obtain ⟨o, r⟩ := e
      obtain ⟨rs', states, rfl⟩ := hChoose
      by_cases hPtr : (rs'.builtAt, rs'.key) = (rs.builtAt, rs.key)
      · obtain rfl := hSame rs' states _ List.mem_cons_self rfl hPtr
        simp only [choices, if_true, List.map_cons, picks]
        obtain ⟨hPick, rfl, hCounters⟩ | ⟨inst, current, hPick, rfl, hCounters⟩ :=
          exec_choose_picks hExec
        · rw [hCounters] at ih
          simp only [hPick, List.filterMap_cons]
          exact ih
        · rw [hCounters, Function.update_self] at ih
          simp only [hPick, List.filterMap_cons, ih]
      · have hKept : s₁.counters (rs.builtAt, rs.key) = s.counters (rs.builtAt, rs.key) := by
          obtain ⟨-, -, hCounters⟩ | ⟨inst, current, -, -, hCounters⟩ := exec_choose_picks hExec
          · rw [hCounters]
          · rw [hCounters, Function.update_of_ne (Ne.symm hPtr)]
        rw [hKept] at ih
        simp only [choices, if_neg hPtr]
        exact ih
    · have hOther : ∀ rs' states, e.op ≠ .choose rs' states :=
        fun rs' states hEq => hChoose ⟨rs', states, hEq⟩
      rw [(exec_untouched hExec).counters hOther] at ih
      rw [choices_other rs hOther]
      exact ih

/-- Whatever else the host does meanwhile, as many picks as the total weight choose every
replica as often as its weight says, if all are ready and the counters start at zero; and
then they are at zero again. -/
theorem cycle_of_trace {rs : ReplicaSet} {s s' : HostState} {t : List (Event Host)}
    (hTrace : host.Trace s t s')
    (hSame : ∀ rs' states, ∀ e ∈ t, e.op = .choose rs' states →
      (rs'.builtAt, rs'.key) = (rs.builtAt, rs.key) → rs' = rs)
    (hSome : rs.instances ≠ []) (hDistinct : rs.instances.Nodup)
    (hPos : ∀ inst ∈ rs.instances, 0 < inst.weight)
    (hZero : ∀ j < rs.instances.length, s.counters (rs.builtAt, rs.key) j = 0)
    (hReady : (choices rs t).map Prod.fst =
      List.replicate (totalWeight rs.instances) (allReady rs.instances)) :
    (∀ inst ∈ rs.instances,
      (((choices rs t).filterMap Prod.snd).count inst : ℤ) = inst.weight) ∧
      ∀ j < rs.instances.length, s'.counters (rs.builtAt, rs.key) j = 0 := by
  have hPicks := picks_of_trace hTrace hSame
  rw [hReady] at hPicks
  obtain ⟨-, hCount, hEnd⟩ := picks_cycle hSome hDistinct hPos hZero
  rw [hPicks] at hCount hEnd
  exact ⟨hCount, hEnd⟩

/-- Two replicas of equal weight. -/
def blogPair : ReplicaSet := ⟨1, "blog".toList,
  [⟨0, "blog".toList, "blog-0".toList, [], 1⟩, ⟨1, "blog".toList, "blog-1".toList, [], 1⟩]⟩

/-- Two picks, with the clock read in between. -/
def blogPicks : List (Event Host) :=
  [⟨.choose blogPair [.ready, .ready], blogPair.instances[0]?⟩, ⟨.ask .now, (0 : Int)⟩,
    ⟨.choose blogPair [.ready, .ready], blogPair.instances[1]?⟩]

theorem cycle_of_trace_blog : ∃ s', host.Trace {} blogPicks s' ∧
    List.Forall (fun inst : Instance => (((choices blogPair blogPicks).filterMap
      Prod.snd).count inst : ℤ) = inst.weight) blogPair.instances := by
  have hTrace : ∃ s', host.Trace {} blogPicks s' :=
    ⟨_, .cons ⟨(), rfl⟩ (.cons ⟨(0 : Int), rfl⟩ (.cons ⟨(), rfl⟩ (.nil _)))⟩
  obtain ⟨s', hTrace⟩ := hTrace
  refine ⟨s', hTrace, List.forall_iff_forall_mem.mpr (cycle_of_trace hTrace ?_ (by decide)
    (by decide) (by decide) (fun _ _ => rfl) rfl).1⟩
  intro rs' states e he hOp _
  simp only [blogPicks, List.mem_cons, List.not_mem_nil, or_false] at he
  rcases he with rfl | rfl | rfl <;> cases hOp <;> rfl

end Moduless.PluginHost
