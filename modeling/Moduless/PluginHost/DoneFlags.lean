import Moduless.PluginHost.Ledger

/-!
The `done` flags of release functions, against what the ledgers of all
goroutines say about them.
-/

namespace Moduless.PluginHost
open Go Pipeline Interaction

/-- What a ledger says about `done` flags. -/
structure Flags where
  held : List Lease
  won : List Lease
  taken : List Lease

def Ledger.flags (g : Ledger) : Flags := ⟨g.leases, g.won, g.taken⟩

/-- Flags that only their owner wins: each goroutine holds its own, all of them
open, and has won the rest of what it took. -/
structure Owned (cells : List (Instance × Bool)) (fs : List Flags) : Prop where
  nodup : (fs.flatMap Flags.held).Nodup
  isOpen : ∀ l ∈ fs.flatMap Flags.held, cells[l.cell]? = some (l.inst, false)
  balanced : ∀ f ∈ fs, f.taken.Perm (f.won ++ f.held)

/-- Every open flag is held by somebody; every closed one was won, once; every
reservation taken has its flag. -/
structure Flagged (owner : Bool) (cells : List (Instance × Bool)) (fs : List Flags) : Prop where
  opened : ∀ (d : Nat) (i : Instance), cells[d]? = some (i, false) → ∃ f ∈ fs, ⟨i, d⟩ ∈ f.held
  once : (fs.flatMap Flags.won).Nodup
  won_iff : ∀ l : Lease, l ∈ fs.flatMap Flags.won ↔ cells[l.cell]? = some (l.inst, true)
  recorded : ∀ f ∈ fs, ∀ l ∈ f.taken, ∃ b, cells[l.cell]? = some (l.inst, b)
  owned : owner = true → Owned cells fs

variable {owner : Bool} {cells : List (Instance × Bool)} {f : Flags} {fs fs' : List Flags}

theorem Owned.perm (h : Owned cells fs) (hPerm : fs.Perm fs') : Owned cells fs' where
  nodup := (hPerm.flatMap_right _).nodup_iff.mp h.nodup
  isOpen l hl := h.isOpen l ((hPerm.flatMap_right _).mem_iff.mpr hl)
  balanced f hf := h.balanced f (hPerm.mem_iff.mpr hf)

theorem Flagged.perm (h : Flagged owner cells fs) (hPerm : fs.Perm fs') :
    Flagged owner cells fs' where
  opened d i hd :=
    have ⟨f, hf, hHeld⟩ := h.opened d i hd
    ⟨f, hPerm.mem_iff.mp hf, hHeld⟩
  once := (hPerm.flatMap_right _).nodup_iff.mp h.once
  won_iff l := (hPerm.flatMap_right _).mem_iff.symm.trans (h.won_iff l)
  recorded f hf := h.recorded f (hPerm.mem_iff.mpr hf)
  owned ho := (h.owned ho).perm hPerm

theorem Flagged.fresh (h : Flagged owner cells fs) : Flagged owner cells (⟨[], [], []⟩ :: fs) where
  opened d i hd :=
    have ⟨f, hf, hHeld⟩ := h.opened d i hd
    ⟨f, List.mem_cons_of_mem _ hf, hHeld⟩
  once := by simpa using h.once
  won_iff := by simpa using h.won_iff
  recorded := by simpa using h.recorded
  owned ho :=
    have hOwned := h.owned ho
    ⟨by simpa using hOwned.nodup, by simpa using hOwned.isOpen, by simpa using hOwned.balanced⟩

private theorem getElem?_append_false {i j : Instance} {d : Nat} :
    (cells ++ [(i, false)])[d]? = some (j, true) ↔ cells[d]? = some (j, true) := by
  rcases lt_trichotomy d cells.length with hlt | rfl | hgt
  · rw [List.getElem?_append_left hlt]
  · simp
  · have hLength : (cells ++ [(i, false)]).length ≤ d := by
      rw [List.length_append, List.length_singleton]
      exact hgt
    rw [List.getElem?_eq_none hLength, List.getElem?_eq_none hgt.le]

/-- `BeginRequest` accepts: a new flag, held by the goroutine that made it. -/
theorem Flagged.take (h : Flagged owner cells (f :: fs)) (i : Instance) :
    Flagged owner (cells ++ [(i, false)])
      (⟨⟨i, cells.length⟩ :: f.held, f.won, ⟨i, cells.length⟩ :: f.taken⟩ :: fs) where
  opened d j hd := by
    rcases lt_or_ge d cells.length with hlt | hge
    · rw [List.getElem?_append_left hlt] at hd
      obtain ⟨f', hf', hHeld⟩ := h.opened d j hd
      rcases List.mem_cons.mp hf' with rfl | hf'
      · exact ⟨_, List.mem_cons_self, List.mem_cons_of_mem _ hHeld⟩
      · exact ⟨f', List.mem_cons_of_mem _ hf', hHeld⟩
    · have hLast : d = cells.length := by
        have := (List.getElem?_eq_some_iff.mp hd).1
        simp only [List.length_append, List.length_singleton] at this
        omega
      subst hLast
      have hji : i = j := by simpa using hd
      exact ⟨_, List.mem_cons_self, by simp [hji]⟩
  once := h.once
  won_iff l := (h.won_iff l).trans getElem?_append_false.symm
  recorded := by
    have hOld : ∀ l : Lease, (∃ b, cells[l.cell]? = some (l.inst, b)) →
        ∃ b, (cells ++ [(i, false)])[l.cell]? = some (l.inst, b) := by
      rintro l ⟨b, hb⟩
      exact ⟨b, by rw [List.getElem?_append_left (List.getElem?_eq_some_iff.mp hb).1, hb]⟩
    have hRecorded := h.recorded
    simp only [List.forall_mem_cons] at hRecorded ⊢
    exact ⟨⟨⟨false, by simp⟩, fun l hl => hOld l (hRecorded.1 l hl)⟩,
      fun f' hf' l hl => hOld l (hRecorded.2 f' hf' l hl)⟩
  owned ho := by
    have hOwned := h.owned ho
    have hOld : ∀ l ∈ (f :: fs).flatMap Flags.held, l.cell < cells.length := fun l hl =>
      (List.getElem?_eq_some_iff.mp (hOwned.isOpen l hl)).1
    refine ⟨?_, ?_, ?_⟩
    · show (⟨i, cells.length⟩ :: (f :: fs).flatMap Flags.held).Nodup
      exact List.nodup_cons.mpr ⟨fun hIn => (hOld _ hIn).ne rfl, hOwned.nodup⟩
    · show ∀ l ∈ (⟨i, cells.length⟩ : Lease) :: (f :: fs).flatMap Flags.held, _
      rw [List.forall_mem_cons]
      refine ⟨by simp, fun l hl => ?_⟩
      rw [List.getElem?_append_left (hOld l hl)]
      exact hOwned.isOpen l hl
    · have hBalanced := hOwned.balanced
      rw [List.forall_mem_cons] at hBalanced ⊢
      exact ⟨(hBalanced.1.cons _).trans List.perm_middle.symm, hBalanced.2⟩

/-- A release function finds its flag open and closes it. -/
theorem Flagged.win (h : Flagged owner cells (f :: fs)) {l : Lease}
    (hCell : cells[l.cell]? = some (l.inst, false)) (hHeld : owner = true → l ∈ f.held) :
    Flagged owner (cells.set l.cell (l.inst, true))
      (⟨f.held.filter (· ≠ l), l :: f.won, f.taken⟩ :: fs) where
  opened d j hd := by
    have hne : l.cell ≠ d := by
      rintro rfl
      simp [(List.getElem?_eq_some_iff.mp hCell).1] at hd
    rw [List.getElem?_set_ne hne] at hd
    obtain ⟨f', hf', hIn⟩ := h.opened d j hd
    rcases List.mem_cons.mp hf' with rfl | hf'
    · refine ⟨_, List.mem_cons_self, List.mem_filter.mpr ⟨hIn, ?_⟩⟩
      rw [decide_eq_true_iff]
      rintro rfl
      exact hne rfl
    · exact ⟨f', List.mem_cons_of_mem _ hf', hIn⟩
  once := by
    show (l :: (f :: fs).flatMap Flags.won).Nodup
    refine List.nodup_cons.mpr ⟨fun hIn => ?_, h.once⟩
    have := (h.won_iff l).mp hIn
    simp [hCell] at this
  won_iff l' := by
    show l' ∈ l :: (f :: fs).flatMap Flags.won ↔ _
    rw [List.mem_cons, h.won_iff l']
    by_cases hcell : l.cell = l'.cell
    · rw [← hcell, hCell, List.getElem?_set_self (List.getElem?_eq_some_iff.mp hCell).1]
      simp [Lease.ext_iff, hcell, eq_comm]
    · rw [List.getElem?_set_ne hcell]
      have : l' ≠ l := fun heq => hcell (by rw [heq])
      simp [this]
  recorded f' hf' l' hl' := by
    have hOld : ∃ b, cells[l'.cell]? = some (l'.inst, b) := by
      rcases List.mem_cons.mp hf' with rfl | hf'
      · exact h.recorded f (by simp) l' hl'
      · exact h.recorded f' (List.mem_cons_of_mem _ hf') l' hl'
    obtain ⟨b, hb⟩ := hOld
    by_cases hcell : l.cell = l'.cell
    · rw [← hcell, hCell] at hb
      rw [← hcell, List.getElem?_set_self (List.getElem?_eq_some_iff.mp hCell).1]
      exact ⟨true, by rw [(Prod.mk.inj (Option.some.inj hb)).1]⟩
    · exact ⟨b, by rw [List.getElem?_set_ne hcell, hb]⟩
  owned ho := by
    have hOwned := h.owned ho
    have hMine := hHeld ho
    have hNodup := hOwned.nodup
    rw [List.flatMap_cons, List.nodup_append'] at hNodup
    have hOthers : ∀ l' ∈ f.held.filter (· ≠ l) ++ fs.flatMap Flags.held,
        l' ≠ l ∧ l' ∈ (f :: fs).flatMap Flags.held := by
      intro l' hl'
      rw [List.flatMap_cons]
      rcases List.mem_append.mp hl' with hl' | hl'
      · obtain ⟨hIn, hne⟩ := List.mem_filter.mp hl'
        exact ⟨by simpa using hne, List.mem_append_left _ hIn⟩
      · exact ⟨fun heq => hNodup.2.2 hMine (heq ▸ hl'), List.mem_append_right _ hl'⟩
    refine ⟨?_, ?_, ?_⟩
    · rw [List.flatMap_cons, List.nodup_append']
      exact ⟨hNodup.1.filter _, hNodup.2.1, fun _ hl' => hNodup.2.2 (List.mem_of_mem_filter hl')⟩
    · intro l' hl'
      obtain ⟨hne, hIn⟩ := hOthers l' hl'
      have hOpen := hOwned.isOpen l' hIn
      have hcell : l.cell ≠ l'.cell := by
        intro heq
        rw [← heq, hCell] at hOpen
        exact hne (Lease.ext (by simpa [eq_comm] using hOpen) heq.symm)
      rwa [List.getElem?_set_ne hcell]
    · have hBalanced := hOwned.balanced
      rw [List.forall_mem_cons] at hBalanced ⊢
      refine ⟨hBalanced.1.trans ?_, hBalanced.2⟩
      have hOut : f.held.Perm (l :: f.held.filter (· ≠ l)) := by
        have hErase : f.held.erase l = f.held.filter (· ≠ l) := by
          rw [hNodup.1.erase_eq_filter]
          exact List.filter_congr fun l' _ => by rw [bne_eq, decide_not, beq_eq_decide]
        rw [← hErase]
        exact List.perm_cons_erase hMine
      exact (hOut.append_left _).trans List.perm_middle

/-- A release function finds its flag closed already. -/
theorem Flagged.miss (h : Flagged owner cells (f :: fs)) {l : Lease}
    (hCell : cells[l.cell]? = some (l.inst, true)) (hHeld : owner = true → l ∈ f.held) :
    Flagged owner cells (⟨f.held.filter (· ≠ l), f.won, f.taken⟩ :: fs) where
  opened d j hd := by
    obtain ⟨f', hf', hIn⟩ := h.opened d j hd
    rcases List.mem_cons.mp hf' with rfl | hf'
    · refine ⟨_, List.mem_cons_self, List.mem_filter.mpr ⟨hIn, ?_⟩⟩
      rw [decide_eq_true_iff]
      rintro rfl
      simp [hCell] at hd
    · exact ⟨f', List.mem_cons_of_mem _ hf', hIn⟩
  once := h.once
  won_iff := h.won_iff
  recorded := by
    have hRecorded := h.recorded
    simp only [List.forall_mem_cons] at hRecorded ⊢
    exact hRecorded
  owned ho := by
    have hOpen := (h.owned ho).isOpen l (List.mem_append_left _ (hHeld ho))
    simp [hCell] at hOpen

end Moduless.PluginHost
