import Mathlib.Data.List.GetD
import Moduless.Pipeline.Cumulative

/-!
The headers of a context as they lie in memory.

A header map holds slices, and `ToProtoHeaders` puts those same slices into the
wire form that is cached and handed to the filters. Memory is modelled as the
list of slices allocated so far, a map from names to places in it, and a cache of
the same kind. A mutation allocates a slice for every header it sets and writes
into none, so a wire form handed out keeps its contents, and the context of the
value-level model describes the memory at every moment.
-/

namespace Moduless.Pipeline
open Go

/-- Header names with the slices that hold their values. -/
abbrev SliceMap := GoMap Str Nat

def SliceMap.Within (m : SliceMap) (n : Nat) : Prop := ∀ e ∈ m, e.2 < n

/-- `cached` is `rc.protoHeaders`; both maps point at allocated slices. -/
structure HeaderMemory where
  slices : List (List Str)
  header : SliceMap
  cached : Option SliceMap
  header_within : header.Within slices.length
  cached_within : ∀ m ∈ cached, SliceMap.Within m slices.length

namespace HeaderMemory

/-- The headers a map of slices stands for. -/
def read (slices : List (List Str)) (m : SliceMap) : Headers :=
  m.map fun e => (e.1, slices.getD e.2 [])

theorem read_delete (slices : List (List Str)) (m : SliceMap) (k : Str) :
    read slices (m.delete k) = (read slices m).delete k := by
  unfold read GoMap.delete
  rw [List.filter_map]
  rfl

theorem read_append {slices : List (List Str)} {m : SliceMap} (h : m.Within slices.length)
    (more : List (List Str)) : read (slices ++ more) m = read slices m := by
  refine List.map_congr_left fun e he => ?_
  rw [List.getD_append _ _ _ _ (h e he)]

theorem within_delete {m : SliceMap} {n : Nat} (h : m.Within n) (k : Str) :
    SliceMap.Within (m.delete k) n := fun e he => h e (List.mem_of_mem_filter he)

theorem within_mono {m : SliceMap} {n n' : Nat} (h : m.Within n) (hn : n ≤ n') : m.Within n' :=
  fun e he => Nat.lt_of_lt_of_le (h e he) hn

/-- `h.Del`. -/
def del (mem : HeaderMemory) (k : Str) : HeaderMemory :=
  { mem with
    header := mem.header.delete (canonicalHeaderKey k)
    header_within := within_delete mem.header_within _ }

/-- `h[canonical] = append([]string(nil), values...)`. -/
def put (mem : HeaderMemory) (e : Str × List Str) : HeaderMemory where
  slices := mem.slices ++ [e.2]
  header := mem.header.set (canonicalHeaderKey e.1) mem.slices.length
  cached := mem.cached
  header_within := by
    rw [List.length_append, List.length_singleton]
    refine List.forall_mem_cons.mpr ⟨Nat.lt_succ_self _, ?_⟩
    exact within_mono (within_delete mem.header_within _) (Nat.le_succ _)
  cached_within := fun m hm => by
    rw [List.length_append]
    exact within_mono (mem.cached_within m hm) (Nat.le_add_right _ _)

/-- The header part of `applyMutation`: the edits, then the cache is dropped. -/
def mutate (mem : HeaderMemory) (set : Headers) (remove : List Str) : HeaderMemory :=
  { set.foldl put (remove.foldl del mem) with
    cached := none
    cached_within := by simp }

/-- `wireHeaders`: the wire form takes over the slices of the header map. -/
def wireHeaders (mem : HeaderMemory) : SliceMap × HeaderMemory :=
  match mem.cached with
  | some wire => (wire, mem)
  | none =>
    (mem.header, { mem with
      cached := some mem.header
      cached_within := fun m hm => by cases hm; exact mem.header_within })

def headers (mem : HeaderMemory) : Headers := read mem.slices mem.header

/-- The later memory still holds every slice of the earlier one, unchanged. -/
def Extends (mem mem' : HeaderMemory) : Prop := ∃ more, mem'.slices = mem.slices ++ more

theorem Extends.refl (mem : HeaderMemory) : mem.Extends mem := ⟨[], by simp⟩

theorem Extends.trans {mem mem' mem'' : HeaderMemory} (h : mem.Extends mem')
    (h' : mem'.Extends mem'') : mem.Extends mem'' := by
  obtain ⟨more, hMore⟩ := h
  obtain ⟨more', hMore'⟩ := h'
  exact ⟨more ++ more', by rw [hMore', hMore, List.append_assoc]⟩

theorem Extends.read {mem mem' : HeaderMemory} (h : mem.Extends mem') {m : SliceMap}
    (hm : m.Within mem.slices.length) :
    HeaderMemory.read mem'.slices m = HeaderMemory.read mem.slices m := by
  obtain ⟨more, hMore⟩ := h
  rw [hMore, read_append hm]

theorem headers_del (mem : HeaderMemory) (k : Str) : (mem.del k).headers = mem.headers.del k :=
  read_delete _ _ _

theorem headers_put (mem : HeaderMemory) (e : Str × List Str) :
    (mem.put e).headers = setCanonical mem.headers e := by
  have hNew : (mem.slices ++ [e.2]).getD mem.slices.length [] = e.2 := by
    rw [List.getD_append_right _ _ _ _ (Nat.le_refl _), Nat.sub_self]
    rfl
  have hOld := read_append (within_delete mem.header_within (canonicalHeaderKey e.1)) [e.2]
  calc (mem.put e).headers
      = (canonicalHeaderKey e.1, (mem.slices ++ [e.2]).getD mem.slices.length []) ::
          read (mem.slices ++ [e.2]) (mem.header.delete (canonicalHeaderKey e.1)) := rfl
    _ = setCanonical mem.headers e := by
        rw [hNew, hOld, read_delete]
        rfl

theorem foldl_del (mem : HeaderMemory) (remove : List Str) :
    (remove.foldl del mem).headers = remove.foldl Headers.del mem.headers ∧
      mem.Extends (remove.foldl del mem) := by
  induction remove generalizing mem with
  | nil => exact ⟨rfl, .refl mem⟩
  | cons k remove ih =>
    obtain ⟨hHeaders, hExtends⟩ := ih (mem.del k)
    rw [headers_del] at hHeaders
    exact ⟨hHeaders, hExtends⟩

theorem foldl_put (mem : HeaderMemory) (set : Headers) :
    (set.foldl put mem).headers = set.foldl setCanonical mem.headers ∧
      mem.Extends (set.foldl put mem) := by
  induction set generalizing mem with
  | nil => exact ⟨rfl, .refl mem⟩
  | cons e set ih =>
    obtain ⟨hHeaders, hExtends⟩ := ih (mem.put e)
    rw [headers_put] at hHeaders
    exact ⟨hHeaders, Extends.trans ⟨[e.2], rfl⟩ hExtends⟩

theorem headers_mutate (mem : HeaderMemory) (set : Headers) (remove : List Str) :
    (mem.mutate set remove).headers = applyHeaderMutation mem.headers set remove := by
  rw [applyHeaderMutation, ← (foldl_del mem remove).1]
  exact (foldl_put (remove.foldl del mem) set).1

theorem extends_mutate (mem : HeaderMemory) (set : Headers) (remove : List Str) :
    mem.Extends (mem.mutate set remove) :=
  (foldl_del mem remove).2.trans (foldl_put (remove.foldl del mem) set).2

/-- The context describes the memory. -/
structure Shows (mem : HeaderMemory) (rc : RequestContext) : Prop where
  header : mem.headers = rc.header
  cached : mem.cached.map (read mem.slices) = rc.protoHeaders

theorem Shows.mutate {mem : HeaderMemory} {rc : RequestContext} (h : mem.Shows rc)
    (m : RequestMutation) (phase : Phase) (allow : Bool) :
    (mem.mutate m.setRequestHeaders m.removeRequestHeaders).Shows
      (rc.applyMutation (some m) phase allow) := by
  refine ⟨?_, rfl⟩
  rw [headers_mutate, h.header]
  rfl

theorem extends_wireHeaders (mem : HeaderMemory) : mem.Extends mem.wireHeaders.2 := by
  unfold wireHeaders
  split <;> exact .refl mem

theorem wireHeaders_within (mem : HeaderMemory) :
    mem.wireHeaders.1.Within mem.wireHeaders.2.slices.length := by
  unfold wireHeaders
  split
  next wire hCached => exact mem.cached_within wire hCached
  next => exact mem.header_within

theorem Shows.wireHeaders {mem : HeaderMemory} {rc : RequestContext} (h : mem.Shows rc) :
    read mem.wireHeaders.2.slices mem.wireHeaders.1 = rc.wireHeaders.1 ∧
      mem.wireHeaders.2.Shows rc.wireHeaders.2 := by
  have hCached := h.cached
  unfold HeaderMemory.wireHeaders
  split
  next wire hSome =>
    rw [hSome] at hCached
    rw [rc.wireHeaders_eq, ← hCached]
    refine ⟨rfl, h.header, ?_⟩
    rw [hSome]
    rfl
  next hNone =>
    rw [hNone] at hCached
    rw [rc.wireHeaders_eq, ← hCached]
    exact ⟨h.header, h.header, congrArg some h.header⟩

/-- What happens to the headers between two calls: a filter is shown them, or its
mutation is applied. -/
inductive Use where
  | show_
  | mutate (m : RequestMutation) (phase : Phase) (allow : Bool)

def use (mem : HeaderMemory) : Use → HeaderMemory
  | .show_ => mem.wireHeaders.2
  | .mutate m _ _ => mem.mutate m.setRequestHeaders m.removeRequestHeaders

def useContext (rc : RequestContext) : Use → RequestContext
  | .show_ => rc.wireHeaders.2
  | .mutate m phase allow => rc.applyMutation (some m) phase allow

/-- The context goes on describing the memory, and no slice is overwritten. -/
theorem Shows.uses {mem : HeaderMemory} {rc : RequestContext} (h : mem.Shows rc) (us : List Use) :
    (us.foldl use mem).Shows (us.foldl useContext rc) ∧ mem.Extends (us.foldl use mem) := by
  induction us generalizing mem rc with
  | nil => exact ⟨h, .refl mem⟩
  | cons u us ih =>
    have hStep : (mem.use u).Shows (useContext rc u) ∧ mem.Extends (mem.use u) := by
      cases u with
      | show_ => exact ⟨h.wireHeaders.2, extends_wireHeaders mem⟩
      | mutate m phase allow => exact ⟨h.mutate m phase allow, extends_mutate mem _ _⟩
    obtain ⟨hShows, hExtends⟩ := ih hStep.1
    exact ⟨hShows, hStep.2.trans hExtends⟩

/-- A wire form handed to a filter reads the same after whatever follows. -/
theorem Shows.wire_kept {mem : HeaderMemory} {rc : RequestContext} (h : mem.Shows rc)
    (us : List Use) :
    read (us.foldl use mem.wireHeaders.2).slices mem.wireHeaders.1 = rc.wireHeaders.1 := by
  have hExtends := (h.wireHeaders.2.uses us).2
  rw [hExtends.read mem.wireHeaders_within]
  exact h.wireHeaders.1

/-- One header with one value. -/
def oneHeader : HeaderMemory :=
  ⟨[[['a']]], [("Accept".toList, 0)], none, List.forall_mem_singleton.mpr Nat.one_pos, by simp⟩

/-- It is shown, and then another value is set. -/
theorem wire_kept_accept :
    read ([Use.mutate ⟨[("Accept".toList, [['b']])], [], [], [], [], none, []⟩ .authenticate
      false].foldl use oneHeader.wireHeaders.2).slices oneHeader.wireHeaders.1 =
        [("Accept".toList, [['a']])] := by
  have h : oneHeader.Shows ⟨[], [], [], [], [], [("Accept".toList, [['a']])], none, [], [], 0, [],
    [], 0, none, []⟩ := ⟨rfl, rfl⟩
  exact h.wire_kept _

end HeaderMemory
end Moduless.Pipeline
