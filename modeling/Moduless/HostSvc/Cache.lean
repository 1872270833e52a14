import Moduless.HostSvc.Memory
import Moduless.Interaction.Machine

/-!
The in-process cache: it never holds more entries than it may, and what it answers is what
was put in last.

A call holds the mutex of the cache from its first access to its last, so that it is one
step with the times it reads and the order in which it visits the entries. The clock does
not go back. Nothing is said about which entries an eviction takes.
-/

namespace Moduless.Memory
open Go Interaction Machine

structure CacheEntry where
  value : Str
  expiresAt : Int
  deriving DecidableEq

structure MemoryCache where
  entries : GoMap Str CacheEntry
  distinct : entries.keys.Nodup
  maxEntries : Int

def defaultCacheEntries : Int := 10000

def cacheKey (pluginKey key : Str) : Str := namespaced pluginKey key

/-- The deadline of an entry; without a positive duration there is none. -/
def cacheDeadline (now : Nat) (ttl : Int) : Int := if ttl > 0 then now + ttl else 0

namespace MemoryCache

def keep (c : MemoryCache) (p : Str × CacheEntry → Bool) : MemoryCache :=
  { c with entries := c.entries.filter p, distinct := GoMap.nodup_filter c.distinct p }

/-- `delete(c.entries, k)`. -/
def drop (c : MemoryCache) (k : Str) : MemoryCache :=
  { c with entries := c.entries.delete k, distinct := GoMap.nodup_delete c.distinct k }

/-- `c.entries[k] = e`. -/
def put (c : MemoryCache) (k : Str) (e : CacheEntry) : MemoryCache :=
  { c with entries := c.entries.set k e, distinct := GoMap.nodup_set c.distinct k e }

/-- The second loop of `evictLocked`, in the order the entries are visited. -/
def evictLoop (c : MemoryCache) : List Str → Int → MemoryCache
  | [], _ => c
  | k :: rest, target =>
    let c := c.drop k
    if target - 1 ≤ 0 then c else c.evictLoop rest (target - 1)

def evictLocked (c : MemoryCache) (now : Nat) (order : List Str) : MemoryCache :=
  let freed := (c.entries.filter fun e => expired now e.2.expiresAt).length
  if freed > 0 then c.keep fun e => !expired now e.2.expiresAt
  else
    let target : Int := c.entries.length / 10
    c.evictLoop order (if target = 0 then 1 else target)

def get (c : MemoryCache) (pluginKey key : Str) (now : Nat) : Option Str × MemoryCache :=
  match c.entries.get (cacheKey pluginKey key) with
  | none => (none, c)
  | some e =>
    if expired now e.expiresAt then (none, c.drop (cacheKey pluginKey key))
    else (some e.value, c)

/-- The clock is read for the eviction and once more for the deadline. -/
def set (c : MemoryCache) (pluginKey key value : Str) (ttl : Int) (before : Nat)
    (order : List Str) (now : Nat) : MemoryCache :=
  let c := if (c.entries.length : Int) ≥ c.maxEntries then c.evictLocked before order else c
  c.put (cacheKey pluginKey key) ⟨value, cacheDeadline now ttl⟩

def delete (c : MemoryCache) (pluginKey key : Str) : MemoryCache := c.drop (cacheKey pluginKey key)

end MemoryCache

inductive CacheOp where
  | get (pluginKey key : Str)
  | set (pluginKey key value : Str) (ttl : Int)
  | delete (pluginKey key : Str)
  deriving DecidableEq

def CacheOp.pluginKey : CacheOp → Str
  | .get p _ | .set p _ _ _ | .delete p _ => p

structure CacheReply where
  now : Nat
  value : Option Str
  deriving DecidableEq

/-- `set` answers with the time it counted from. -/
@[reducible] def CacheOp.Ans : CacheOp → Type
  | .get _ _ => CacheReply
  | .set _ _ _ _ => Nat
  | .delete _ _ => Unit

def CacheHost : Interface := ⟨CacheOp, CacheOp.Ans⟩

structure CacheWorld where
  cache : MemoryCache
  clock : Nat

/-- The readings of a call, and the order of a loop over the entries. -/
@[reducible] def CacheOp.Choice : CacheOp → Type
  | .get _ _ => Nat
  | .set _ _ _ _ => Nat × List Str × Nat
  | .delete _ _ => Unit

def CacheOp.exec (w : CacheWorld) : (o : CacheOp) → o.Choice → Option (o.Ans × CacheWorld)
  | .get p k, now =>
    if w.clock ≤ now then
      some (⟨now, (w.cache.get p k now).1⟩, ⟨(w.cache.get p k now).2, now⟩)
    else none
  | .set p k v ttl, (before, order, now) =>
    if w.clock ≤ before ∧ before ≤ now ∧ order.Perm w.cache.entries.keys then
      some (now, ⟨w.cache.set p k v ttl before order now, now⟩)
    else none
  | .delete p k, () => some ((), { w with cache := w.cache.delete p k })

def cacheMachine : Machine CacheHost CacheWorld := ⟨CacheOp.Choice, CacheOp.exec⟩

def newMemoryCache (maxEntries : Int) (now : Nat) : CacheWorld :=
  ⟨⟨[], List.nodup_nil, if maxEntries ≤ 0 then defaultCacheEntries else maxEntries⟩, now⟩

/-- The value was set last for `ttl`, counted from `at_`, and nothing has deleted it since. -/
def SetLast (es : List (Event CacheHost)) (p k v : Str) (ttl : Int) (at_ : Nat) : Prop :=
  ∃ u w, es = u ++ ⟨.set p k v ttl, at_⟩ :: w ∧
    ∀ y ∈ w, (∀ v' ttl', y.op ≠ .set p k v' ttl') ∧ y.op ≠ .delete p k

section Size

variable {c : MemoryCache}

theorem length_drop_le (c : MemoryCache) (k : Str) :
    (c.drop k).entries.length ≤ c.entries.length := List.length_filter_le _ _

theorem length_drop_lt {k : Str} (h : k ∈ c.entries.keys) :
    (c.drop k).entries.length < c.entries.length := by
  obtain ⟨e, he, rfl⟩ := List.mem_map.mp h
  exact List.length_filter_lt_length_iff_exists.mpr ⟨e, he, by simp⟩

theorem length_put_le (c : MemoryCache) (k : Str) (e : CacheEntry) :
    (c.put k e).entries.length ≤ c.entries.length + 1 :=
  Nat.succ_le_succ (length_drop_le c k)

theorem length_evictLoop_le (c : MemoryCache) (order : List Str) (target : Int) :
    (c.evictLoop order target).entries.length ≤ c.entries.length := by
  induction order generalizing c target with
  | nil => exact le_rfl
  | cons k rest ih =>
    rw [MemoryCache.evictLoop]
    split
    next => exact length_drop_le c k
    next => exact (ih _ _).trans (length_drop_le c k)

theorem length_evictLoop_lt {k : Str} (h : k ∈ c.entries.keys) (rest : List Str) (target : Int) :
    (c.evictLoop (k :: rest) target).entries.length < c.entries.length := by
  rw [MemoryCache.evictLoop]
  split
  next => exact length_drop_lt h
  next => exact (length_evictLoop_le _ _ _).trans_lt (length_drop_lt h)

theorem length_evictLocked_lt (hFull : c.entries ≠ []) (now : Nat) {order : List Str}
    (hOrder : order.Perm c.entries.keys) :
    (c.evictLocked now order).entries.length < c.entries.length := by
  rw [MemoryCache.evictLocked]
  dsimp only
  split
  next hFreed =>
    obtain ⟨e, he⟩ := List.exists_mem_of_length_pos hFreed
    obtain ⟨hMem, hExpired⟩ := List.mem_filter.mp he
    exact List.length_filter_lt_length_iff_exists.mpr ⟨e, hMem, by simpa using hExpired⟩
  next =>
    cases order with
    | nil =>
      have hNone : c.entries.keys = [] := List.nil_perm.mp hOrder
      exact absurd (List.map_eq_nil_iff.mp hNone) hFull
    | cons k rest => exact length_evictLoop_lt (hOrder.mem_iff.mp List.mem_cons_self) rest _

end Size

section Contents

variable {c : MemoryCache} {k j : Str} {e : CacheEntry}

theorem get_of_drop (h : (c.drop j).entries.get k = some e) : c.entries.get k = some e ∧ k ≠ j := by
  rw [MemoryCache.drop, GoMap.get_delete] at h
  split at h
  next => cases h
  next hk => exact ⟨h, hk⟩

theorem get_of_evictLoop {order : List Str} {target : Int}
    (h : (c.evictLoop order target).entries.get k = some e) : c.entries.get k = some e := by
  induction order generalizing c target with
  | nil => exact h
  | cons j rest ih =>
    rw [MemoryCache.evictLoop] at h
    split at h
    next => exact (get_of_drop h).1
    next => exact (get_of_drop (ih h)).1

theorem get_of_evictLocked {now : Nat} {order : List Str}
    (h : (c.evictLocked now order).entries.get k = some e) : c.entries.get k = some e := by
  rw [MemoryCache.evictLocked] at h
  dsimp only at h
  split at h
  next => exact (GoMap.get_of_filter c.distinct h).1
  next => exact get_of_evictLoop h

theorem maxEntries_evictLoop (c : MemoryCache) (order : List Str) (target : Int) :
    (c.evictLoop order target).maxEntries = c.maxEntries := by
  induction order generalizing c target with
  | nil => rfl
  | cons k rest ih =>
    rw [MemoryCache.evictLoop]
    split
    next => rfl
    next => exact ih _ _

theorem maxEntries_evictLocked (c : MemoryCache) (now : Nat) (order : List Str) :
    (c.evictLocked now order).maxEntries = c.maxEntries := by
  rw [MemoryCache.evictLocked]
  dsimp only
  split
  next => rfl
  next => exact maxEntries_evictLoop c order _

end Contents

section Effects

variable {w w' : CacheWorld} {p k v : Str} {ttl : Int}

theorem exec_get {r : CacheReply} (h : cacheMachine.Exec w ⟨.get p k, r⟩ w') :
    w.clock ≤ r.now ∧ w'.clock = r.now ∧
      (w'.cache = w.cache ∨ w'.cache = w.cache.drop (cacheKey p k)) ∧
      ∀ v, r.value = some v → ∃ e, w.cache.entries.get (cacheKey p k) = some e ∧ e.value = v ∧
        expired r.now e.expiresAt = false := by
  obtain ⟨now, hExec⟩ := h
  obtain ⟨hClock, hOut⟩ := Option.ite_none_right_eq_some.mp hExec
  obtain ⟨hReply, hWorld⟩ := Prod.mk.inj (Option.some.inj hOut)
  have hReply : r = ⟨now, (w.cache.get p k now).1⟩ := hReply.symm
  rw [hReply, ← hWorld]
  refine ⟨hClock, rfl, ?_⟩
  simp only [MemoryCache.get]
  cases hEntry : w.cache.entries.get (cacheKey p k) with
  | none => exact ⟨.inl rfl, fun v hv => (by cases hv)⟩
  | some e =>
    dsimp only
    by_cases hExpired : expired now e.expiresAt
    · rw [if_pos hExpired]
      exact ⟨.inr rfl, fun v hv => (by cases hv)⟩
    · rw [if_neg hExpired]
      refine ⟨.inl rfl, fun v hv => ⟨e, rfl, Option.some.inj hv, ?_⟩⟩
      exact Bool.eq_false_iff.mpr hExpired

/-- A new entry comes into what an eviction has left, if there was one. -/
theorem exec_set {now : Nat} (h : cacheMachine.Exec w ⟨.set p k v ttl, now⟩ w') :
    w.clock ≤ now ∧ w'.clock = now ∧ ∃ c : MemoryCache, c.maxEntries = w.cache.maxEntries ∧
      (∀ j e, c.entries.get j = some e → w.cache.entries.get j = some e) ∧
      (1 ≤ c.maxEntries → (w.cache.entries.length : Int) ≤ c.maxEntries →
        (c.entries.length : Int) < c.maxEntries) ∧
      w'.cache = c.put (cacheKey p k) ⟨v, cacheDeadline now ttl⟩ := by
  obtain ⟨⟨before, order, now'⟩, hExec⟩ := h
  obtain ⟨⟨hClock, hLater, hOrder⟩, hOut⟩ := Option.ite_none_right_eq_some.mp hExec
  obtain ⟨rfl, rfl⟩ := Prod.mk.inj (Option.some.inj hOut)
  refine ⟨hClock.trans hLater, rfl, _, ?_, ?_, ?_, rfl⟩
  · split
    next => exact maxEntries_evictLocked _ _ _
    next => rfl
  · intro j e hGet
    split at hGet
    next => exact get_of_evictLocked hGet
    next => exact hGet
  · split
    next hFull =>
      rw [maxEntries_evictLocked]
      intro hPos hBound
      have hSome : w.cache.entries ≠ [] := by
        intro hNil
        rw [hNil, List.length_nil] at hFull
        omega
      have := length_evictLocked_lt hSome before hOrder
      omega
    next hRoom =>
      intro _ _
      omega

theorem exec_delete (h : cacheMachine.Exec w ⟨.delete p k, ()⟩ w') :
    w' = { w with cache := w.cache.drop (cacheKey p k) } := by
  obtain ⟨⟨⟩, hExec⟩ := h
  exact (Prod.mk.inj (Option.some.inj hExec)).2.symm

end Effects

/-- The entries are within the bound, and each was set last under its key. -/
structure Faithful (m : Int) (es : List (Event CacheHost)) (w : CacheWorld) : Prop where
  capacity : w.cache.maxEntries = m
  bound : (w.cache.entries.length : Int) ≤ m
  recent : ∀ p k e, NulFree p → w.cache.entries.get (cacheKey p k) = some e →
    ∃ ttl at_, SetLast es p k e.value ttl at_ ∧ e.expiresAt = cacheDeadline at_ ttl

section Steps

variable {m : Int} {es : List (Event CacheHost)} {w w' : CacheWorld} {p k v : Str} {ttl : Int}
  {now : Nat} {y : Event CacheHost}

theorem setLast_snoc (es : List (Event CacheHost)) (p k v : Str) (ttl : Int) (now : Nat) :
    SetLast (es ++ [⟨.set p k v ttl, now⟩]) p k v ttl now := ⟨es, [], rfl, by simp⟩

/-- What was set last still is after a call about another key. -/
theorem SetLast.snoc (h : SetLast es p k v ttl now) (hSet : ∀ v' ttl', y.op ≠ .set p k v' ttl')
    (hDelete : y.op ≠ .delete p k) : SetLast (es ++ [y]) p k v ttl now := by
  obtain ⟨u, rest, rfl, hRest⟩ := h
  refine ⟨u, rest ++ [y], by simp, ?_⟩
  intro z hz
  rcases List.mem_append.mp hz with hz | hz
  · exact hRest z hz
  · obtain rfl := List.mem_singleton.mp hz
    exact ⟨hSet, hDelete⟩

theorem Faithful.step (hw : Faithful m es w) (hm : 1 ≤ m) (h : cacheMachine.Exec w y w')
    (hy : NulFree y.op.pluginKey) : Faithful m (es ++ [y]) w' := by
  obtain ⟨o, r⟩ := y
  cases o with
  | get p k =>
    obtain ⟨-, -, hCache, -⟩ := exec_get h
    have hOld : ∀ p' k' e, NulFree p' → w.cache.entries.get (cacheKey p' k') = some e →
        ∃ ttl at_, SetLast (es ++ [⟨.get p k, r⟩]) p' k' e.value ttl at_ ∧
          e.expiresAt = cacheDeadline at_ ttl := by
      intro p' k' e hp' hGet
      obtain ⟨ttl, at_, hLast, hExpiry⟩ := hw.recent p' k' e hp' hGet
      refine ⟨ttl, at_, hLast.snoc ?_ ?_, hExpiry⟩
      · intro v' ttl' hOp
        cases hOp
      · intro hOp
        cases hOp
    obtain hCache | hCache := hCache
    · exact ⟨hCache ▸ hw.capacity, hCache ▸ hw.bound, hCache ▸ hOld⟩
    · have hLength := length_drop_le w.cache (cacheKey p k)
      have hBound := hw.bound
      refine ⟨hCache ▸ hw.capacity, by rw [hCache]; omega, fun p' k' e hp' hGet => ?_⟩
      rw [hCache] at hGet
      exact hOld p' k' e hp' (get_of_drop hGet).1
  | set p k v ttl =>
    obtain ⟨-, -, c, hMax, hOld, hRoom, hCache⟩ := exec_set h
    have hLength := length_put_le c (cacheKey p k) ⟨v, cacheDeadline r ttl⟩
    have hCapacity := hMax.trans hw.capacity
    have hLt := hRoom (hCapacity ▸ hm) (hCapacity ▸ hw.bound)
    refine ⟨hCache ▸ hCapacity, by rw [hCache]; omega, fun p' k' e hp' hGet => ?_⟩
    rw [hCache, MemoryCache.put, GoMap.get_set] at hGet
    split at hGet
    next hKey =>
      obtain ⟨rfl, rfl⟩ := (namespaced_inj hp' hy).mp hKey
      cases hGet
      exact ⟨ttl, r, setLast_snoc es _ _ v ttl r, rfl⟩
    next hKey =>
      obtain ⟨ttl', at_, hLast, hExpiry⟩ := hw.recent p' k' e hp' (hOld _ e hGet)
      refine ⟨ttl', at_, hLast.snoc ?_ ?_, hExpiry⟩
      · intro v' ttl' hOp
        cases hOp
        exact hKey rfl
      · intro hOp
        cases hOp
  | delete p k =>
    obtain rfl := exec_delete h
    have hLength := length_drop_le w.cache (cacheKey p k)
    have hBound := hw.bound
    refine ⟨hw.capacity, Int.le_trans (Int.ofNat_le.mpr hLength) hBound, ?_⟩
    intro p' k' e hp' hGet
    obtain ⟨hGet, hKey⟩ := get_of_drop hGet
    obtain ⟨ttl, at_, hLast, hExpiry⟩ := hw.recent p' k' e hp' hGet
    refine ⟨ttl, at_, hLast.snoc ?_ ?_, hExpiry⟩
    · intro v' ttl' hOp
      cases hOp
    · intro hOp
      cases hOp
      exact hKey rfl

theorem faithful_of_trace {start : Nat} (h : cacheMachine.Trace (newMemoryCache m start) es w)
    (hm : 1 ≤ m) (hKeys : ∀ y ∈ es, NulFree y.op.pluginKey) : Faithful m es w := by
  refine h.history (J := Faithful m) ⟨?_, ?_, ?_⟩ fun u s y s' hy hs hExec =>
    hs.step hm hExec (hKeys y hy)
  · exact if_neg (by omega)
  · change (0 : Int) ≤ m
    omega
  · intro p k e _ hGet
    cases hGet

end Steps

/-- There are never more entries than the cache may hold, and a value that a `Get` returns
was set last, has not been deleted since and has not outlived its duration. -/
theorem cache_bounded_fresh {m : Int} {start : Nat} {es : List (Event CacheHost)} {w : CacheWorld}
    (h : cacheMachine.Trace (newMemoryCache m start) es w) (hm : 1 ≤ m)
    (hKeys : ∀ y ∈ es, NulFree y.op.pluginKey) :
    (w.cache.entries.length : Int) ≤ m ∧
      ∀ u p k (now : Nat) v rest, es = u ++ ⟨.get p k, ⟨now, some v⟩⟩ :: rest →
        ∃ ttl at_, SetLast u p k v ttl at_ ∧ (0 < ttl → (now : Int) < at_ + ttl) := by
  refine ⟨(faithful_of_trace h hm hKeys).bound, ?_⟩
  rintro u p k now v rest rfl
  obtain ⟨w₁, hBefore, hRest⟩ := trace_append.mp h
  have hp : NulFree p := hKeys ⟨.get p k, ⟨now, some v⟩⟩ (by simp)
  have hw := faithful_of_trace hBefore hm fun y hy => hKeys y (by simp [hy])
  cases hRest with
  | cons hExec _ =>
    obtain ⟨-, -, -, hValue⟩ := exec_get hExec
    obtain ⟨e, hGet, rfl, hLive⟩ := hValue v rfl
    obtain ⟨ttl, at_, hLast, hExpiry⟩ := hw.recent p k e hp hGet
    refine ⟨ttl, at_, hLast, fun hTTL => ?_⟩
    rw [hExpiry, cacheDeadline, if_pos hTTL] at hLive
    by_contra hOver
    rw [(expired_iff (by omega)).mpr (Int.not_lt.mp hOver)] at hLive
    cases hLive

/-- Two values in a cache for one, and the second one read back. -/
def crowdedTrace : List (Event CacheHost) :=
  [⟨.set "notes".toList "a".toList "old".toList 0, (0 : Nat)⟩,
    ⟨.set "notes".toList "b".toList "new".toList 5, (1 : Nat)⟩,
    ⟨.get "notes".toList "b".toList, ⟨3, some "new".toList⟩⟩]

def crowdedWorld : CacheWorld :=
  ⟨⟨[(cacheKey "notes".toList "b".toList, ⟨"new".toList, 6⟩)], by decide, 1⟩, 3⟩

theorem crowded_trace : cacheMachine.Trace (newMemoryCache 1 0) crowdedTrace crowdedWorld :=
  .cons ⟨(0, [], 0), rfl⟩ (.cons ⟨(1, [cacheKey "notes".toList "a".toList], 1), rfl⟩
    (.cons ⟨(3 : Nat), rfl⟩ (.nil _)))

theorem cache_bounded_fresh_crowded :
    (crowdedWorld.cache.entries.length : Int) ≤ 1 ∧
      ∃ ttl at_, SetLast (crowdedTrace.take 2) "notes".toList "b".toList "new".toList ttl at_ ∧
        (0 < ttl → (3 : Int) < at_ + ttl) := by
  have hKeys : ∀ y ∈ crowdedTrace, NulFree y.op.pluginKey := by
    have hNotes : NulFree "notes".toList := by simp [NulFree]
    simp only [crowdedTrace, List.forall_mem_cons]
    exact ⟨hNotes, hNotes, hNotes, by simp⟩
  obtain ⟨hBound, hFresh⟩ := cache_bounded_fresh crowded_trace (by decide) hKeys
  exact ⟨hBound, hFresh _ _ _ 3 _ [] rfl⟩

end Moduless.Memory
