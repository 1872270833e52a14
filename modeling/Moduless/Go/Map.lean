import Mathlib.Data.List.Nodup
import Mathlib.Data.List.Perm.Basic

/-!
Go maps as association lists.

The order of the list is the order in which one `range` over the map visits
it. A map that is ranged over again may be visited in another order, so
results about such loops are stated for every permutation.
-/

namespace Moduless.Go

abbrev GoMap (K V : Type) := List (K × V)

namespace GoMap

variable {K V : Type} [DecidableEq K]

def get (m : GoMap K V) (k : K) : Option V :=
  match m with
  | [] => none
  | (k', v) :: m => if k' = k then some v else get m k

def delete (m : GoMap K V) (k : K) : GoMap K V := m.filter fun e => e.1 ≠ k

def set (m : GoMap K V) (k : K) (v : V) : GoMap K V := (k, v) :: delete m k

def keys (m : GoMap K V) : List K := m.map Prod.fst

def has (m : GoMap K V) (k : K) : Bool := (get m k).isSome

/-- The entries of `m` in the order of the given keys. -/
def visit (m : GoMap K V) (order : List K) : GoMap K V :=
  order.filterMap fun k => (get m k).map fun v => (k, v)

@[simp] theorem get_nil (k : K) : get ([] : GoMap K V) k = none := rfl

@[simp] theorem get_cons (e : K × V) (m : GoMap K V) (k : K) :
    get (e :: m) k = if e.1 = k then some e.2 else get m k := rfl

theorem get_delete (m : GoMap K V) (k j : K) :
    get (delete m k) j = if j = k then none else get m j := by
  induction m with
  | nil => simp [delete]
  | cons e m ih =>
    unfold delete at ih ⊢
    by_cases he : e.1 = k
    · simp only [List.filter_cons, he, ne_eq, not_true_eq_false, decide_false,
        Bool.false_eq_true, if_false, ih, get_cons]
      by_cases hj : j = k
      · simp [hj]
      · simp [hj, Ne.symm hj]
    · simp only [List.filter_cons, ne_eq, he, not_false_eq_true, decide_true, if_true,
        get_cons, ih]
      split <;> simp_all

theorem get_set (m : GoMap K V) (k : K) (v : V) (j : K) :
    get (set m k v) j = if j = k then some v else get m j := by
  simp only [set, get_cons, get_delete, eq_comm (a := k)]
  split <;> simp_all

theorem get_append (m n : GoMap K V) (k : K) : get (m ++ n) k = (get m k).or (get n k) := by
  induction m with
  | nil => rfl
  | cons e m ih =>
    rw [List.cons_append, get_cons, get_cons]
    split
    next => rfl
    next => exact ih

@[simp] theorem get_set_self (m : GoMap K V) (k : K) (v : V) : get (set m k v) k = some v := by
  simp [get_set]

theorem get_filter {m : GoMap K V} {k : K} {v : V} {keep : K × V → Bool}
    (h : get m k = some v) (hKeep : keep (k, v) = true) :
    get (m.filter keep) k = some v := by
  induction m with
  | nil => cases h
  | cons e m ih =>
    rw [get_cons] at h
    rw [List.filter_cons]
    split at h
    next hk =>
      cases h
      subst hk
      rw [if_pos hKeep, get_cons, if_pos rfl]
    next hk =>
      split
      next => rw [get_cons, if_neg hk, ih h]
      next => exact ih h

theorem mem_of_get {m : GoMap K V} {k : K} {v : V} (h : get m k = some v) : (k, v) ∈ m := by
  induction m with
  | nil => simp at h
  | cons e m ih =>
    rw [get_cons] at h
    split at h
    next he =>
      cases h
      subst he
      exact List.mem_cons_self
    next => exact List.mem_cons_of_mem _ (ih h)

theorem get_eq_some_iff {m : GoMap K V} (hm : (keys m).Nodup) {k : K} {v : V} :
    get m k = some v ↔ (k, v) ∈ m := by
  refine ⟨mem_of_get, ?_⟩
  induction m with
  | nil => simp
  | cons e m ih =>
    simp only [keys, List.map_cons, List.nodup_cons] at hm
    intro h
    rcases List.mem_cons.mp h with h | h
    · simp [← h]
    · have hk : e.1 ≠ k := by
        rintro rfl
        exact hm.1 (List.mem_map.mpr ⟨_, h, rfl⟩)
      simpa [hk] using ih hm.2 h

theorem get_eq_none_iff {m : GoMap K V} {k : K} : get m k = none ↔ k ∉ keys m := by
  induction m with
  | nil => simp [keys]
  | cons e m ih =>
    simp only [get_cons, keys, List.map_cons, List.mem_cons, not_or]
    split
    next he => simp [he]
    next he =>
      rw [ih]
      simp [keys, Ne.symm he]

theorem get_perm {m n : GoMap K V} (hm : (keys m).Nodup) (h : m.Perm n) (k : K) :
    get m k = get n k := by
  have hn : (keys n).Nodup := (h.map Prod.fst).nodup_iff.mp hm
  cases hk : get n k with
  | none =>
    rw [get_eq_none_iff] at hk ⊢
    exact fun hmem => hk ((h.map Prod.fst).mem_iff.mp hmem)
  | some v =>
    rw [get_eq_some_iff hn] at hk
    rw [get_eq_some_iff hm]
    exact h.mem_iff.mpr hk

theorem keys_delete (m : GoMap K V) (k : K) : keys (delete m k) = (keys m).filter (· ≠ k) := by
  simp only [keys, delete, List.filter_map]
  rfl

theorem nodup_delete {m : GoMap K V} (hm : (keys m).Nodup) (k : K) : (keys (delete m k)).Nodup := by
  rw [keys_delete]
  exact hm.filter _

omit [DecidableEq K] in
theorem nodup_filter {m : GoMap K V} (hm : (keys m).Nodup) (keep : K × V → Bool) :
    (keys (m.filter keep)).Nodup := (List.filter_sublist.map Prod.fst).nodup hm

theorem get_of_filter {m : GoMap K V} (hm : (keys m).Nodup) {k : K} {v : V} {keep : K × V → Bool}
    (h : get (m.filter keep) k = some v) : get m k = some v ∧ keep (k, v) = true := by
  rw [get_eq_some_iff (nodup_filter hm keep), List.mem_filter] at h
  exact ⟨(get_eq_some_iff hm).mpr h.1, h.2⟩

theorem nodup_set {m : GoMap K V} (hm : (keys m).Nodup) (k : K) (v : V) :
    (keys (set m k v)).Nodup := by
  simp only [set, keys, List.map_cons, List.nodup_cons]
  refine ⟨?_, nodup_delete hm k⟩
  change k ∉ keys (delete m k)
  rw [keys_delete]
  simp

/-- `maps.Copy`: the entries of `n` replace those of `m`. -/
theorem get_foldl_set {n : GoMap K V} (hn : (keys n).Nodup) (m : GoMap K V) (k : K) :
    get (n.foldl (fun out e => set out e.1 e.2) m) k = (get n k).or (get m k) := by
  induction n generalizing m with
  | nil => rfl
  | cons e n ih =>
    simp only [keys, List.map_cons, List.nodup_cons] at hn
    rw [List.foldl_cons, ih hn.2, get_set, get_cons]
    by_cases hk : e.1 = k
    · have hAbsent : get n k = none := get_eq_none_iff.mpr (hk ▸ hn.1)
      simp [hk, hAbsent]
    · rw [if_neg hk, if_neg (Ne.symm hk)]

theorem delete_of_get_none {m : GoMap K V} {k : K} (h : get m k = none) : delete m k = m := by
  rw [get_eq_none_iff] at h
  refine List.filter_eq_self.mpr fun e he => decide_eq_true fun hk => h ?_
  exact hk ▸ List.mem_map_of_mem he

theorem perm_cons_delete {m : GoMap K V} (hm : (keys m).Nodup) {k : K} {v : V}
    (h : (k, v) ∈ m) : m.Perm ((k, v) :: delete m k) := by
  induction m with
  | nil => simp at h
  | cons e m ih =>
    simp only [keys, List.map_cons, List.nodup_cons] at hm
    rcases List.mem_cons.mp h with rfl | h
    · have hGone : delete m k = m := delete_of_get_none (get_eq_none_iff.mpr hm.1)
      simp only [delete, ne_eq, List.filter_cons, not_true_eq_false, decide_false,
        Bool.false_eq_true, if_false]
      exact .of_eq (congrArg _ hGone.symm)
    · have hk : e.1 ≠ k := by
        rintro rfl
        exact hm.1 (List.mem_map.mpr ⟨_, h, rfl⟩)
      simp only [delete, ne_eq, List.filter_cons, hk, not_false_eq_true, decide_true, if_true]
      exact ((ih hm.2 h).cons e).trans (.swap _ _ _)

theorem visit_keys {m : GoMap K V} (hm : (keys m).Nodup) : visit m (keys m) = m := by
  induction m with
  | nil => rfl
  | cons e m ih =>
    simp only [keys, List.map_cons, List.nodup_cons] at hm
    have hRest : visit (e :: m) (keys m) = visit m (keys m) := by
      apply List.filterMap_congr
      intro k hk
      have hne : e.1 ≠ k := fun h => hm.1 (h ▸ hk)
      simp [hne]
    calc visit (e :: m) (keys (e :: m))
        = e :: visit (e :: m) (keys m) := by simp [visit, keys]
      _ = e :: m := by rw [hRest, ih hm.2]

theorem visit_perm {m : GoMap K V} (hm : (keys m).Nodup) {order : List K}
    (h : order.Perm (keys m)) : (visit m order).Perm m := by
  have hPerm := h.filterMap fun k => (get m k).map fun v => (k, v)
  rw [← visit, ← visit, visit_keys hm] at hPerm
  exact hPerm

end GoMap
end Moduless.Go
