import Mathlib.Data.List.Induction
import Moduless.PluginHost.HostState

/-!
When a crash is one too many.

`tooManyCrashes` keeps a count and the time of the first crash counted. That is a window
which is opened by a crash and closed by the first crash after its end, and not the time
before the present crash: crashes counted in the last window are not counted in the next.
-/

namespace Moduless.PluginHost
open Go Pipeline

inductive CrashEvent where
  | crash (key : Str) (now : Int)
  | clear (key : Str)

/-- The record after a sequence of crashes and of `ClearCrashes`. -/
def crashesAfter (cfg : SupervisorConfig) : List CrashEvent → GoMap Str CrashRecord
  | [] => []
  | e :: earlier =>
    match e with
    | .crash key now => (recordCrash cfg (crashesAfter cfg earlier) key now).2
    | .clear key => (crashesAfter cfg earlier).delete key

/-- The times of a plugin's crashes since they were last cleared. Here and above the last
event comes first. -/
def crashTimes (key : Str) : List CrashEvent → List Int
  | [] => []
  | .crash k now :: earlier => if k = key then now :: crashTimes key earlier
      else crashTimes key earlier
  | .clear k :: earlier => if k = key then [] else crashTimes key earlier

/-- The times at which anything crashed. -/
def CrashEvent.time? : CrashEvent → Option Int
  | .crash _ now => some now
  | .clear _ => none

/-- The time of no crash is before that of an earlier one. -/
def InTime (events : List CrashEvent) : Prop := (events.filterMap CrashEvent.time?).Pairwise (· ≥ ·)

/-- The crashes counted together with the last one. A crash more than a window after the
first one counted is counted anew. -/
def counted (window : Duration) : List Int → List Int
  | [] => []
  | now :: earlier =>
    match (counted window earlier).getLast? with
    | none => [now]
    | some first =>
      if now - first > window then [now] else now :: counted window earlier

/-- The crashes within the window that ends with the last one. -/
def recent (window : Duration) : List Int → List Int
  | [] => []
  | now :: earlier => now :: earlier.filter fun t => now - t ≤ window

section Counting

variable {window : Duration} {now : Int} {times : List Int}

theorem counted_cons (window : Duration) (now : Int) (times : List Int) :
    counted window (now :: times) = [now] ∨
      (∃ first ∈ (counted window times).getLast?, now - first ≤ window) ∧
        counted window (now :: times) = now :: counted window times := by
  rw [counted]
  split
  · exact .inl rfl
  next first hFirst =>
    split
    · exact .inl rfl
    next hIn => exact .inr ⟨⟨first, hFirst, not_lt.mp hIn⟩, rfl⟩

theorem counted_sublist (window : Duration) (times : List Int) :
    (counted window times).Sublist times := by
  induction times with
  | nil => exact .slnil
  | cons now times ih =>
    rcases counted_cons window now times with h | ⟨-, h⟩
    · rw [h]
      exact (List.nil_sublist _).cons_cons _
    · rw [h]
      exact ih.cons_cons _

theorem counted_within (hTimes : (now :: times).Pairwise (· ≥ ·)) (hWindow : 0 ≤ window) :
    ∀ t ∈ counted window (now :: times), now - t ≤ window := by
  rcases counted_cons window now times with h | ⟨⟨first, hFirst, hIn⟩, h⟩
  · rw [h]
    simpa using hWindow
  · rw [h]
    refine List.forall_mem_cons.mpr ⟨by simpa using hWindow, fun t ht => ?_⟩
    have hSorted := (List.pairwise_cons.mp hTimes).2.sublist (counted_sublist window times)
    have hLast : first ≤ t := by
      obtain ⟨init, hInit⟩ := List.getLast?_eq_some_iff.mp hFirst
      rw [hInit] at hSorted ht
      rcases List.mem_append.mp ht with ht | ht
      · exact (List.pairwise_append.mp hSorted).2.2 t ht first (List.mem_singleton_self _)
      · exact (List.mem_singleton.mp ht).ge
    omega

theorem length_counted_le (hTimes : (now :: times).Pairwise (· ≥ ·)) (hWindow : 0 ≤ window) :
    (counted window (now :: times)).length ≤ (recent window (now :: times)).length := by
  have hWithin := counted_within hTimes hWindow
  have hSublist := (counted_sublist window (now :: times)).filter fun t => decide (now - t ≤ window)
  rw [List.filter_eq_self.mpr fun t ht => decide_eq_true (hWithin t ht)] at hSublist
  refine hSublist.length_le.trans (le_of_eq ?_)
  rw [recent, List.filter_cons, if_pos (by simpa using hWindow)]

end Counting

section Records

variable {cfg : SupervisorConfig} {key : Str}

/-- The record a plugin has after its crashes at the given times. -/
def recordOf (window : Duration) (times : List Int) : Option CrashRecord :=
  (counted window times).getLast?.map fun first => ⟨(counted window times).length, first⟩

def addCrash (window : Duration) (now : Int) : Option CrashRecord → CrashRecord
  | none => ⟨1, now⟩
  | some rec =>
    if now - rec.firstAt > window then ⟨1, now⟩ else ⟨rec.count + 1, rec.firstAt⟩

theorem recordOf_cons (window : Duration) (now : Int) (times : List Int) :
    recordOf window (now :: times) = some (addCrash window now (recordOf window times)) := by
  unfold recordOf
  rw [counted]
  cases hLast : (counted window times).getLast? with
  | none => rfl
  | some first =>
    by_cases hNew : now - first > window
    · simp [addCrash, hNew]
    · simp [addCrash, hNew, List.getLast?_cons, hLast]

theorem get_recordCrash (crashes : GoMap Str CrashRecord) (now : Int) (k : Str) :
    (recordCrash cfg crashes k now).2.get key =
      if key = k then some (addCrash cfg.crashWindow now (crashes.get k)) else crashes.get key := by
  unfold recordCrash
  split
  next hGet => rw [GoMap.get_set, hGet]; rfl
  next rec hGet =>
    rw [hGet, addCrash]
    split <;> rw [GoMap.get_set]

theorem get_crashesAfter (cfg : SupervisorConfig) (key : Str) (events : List CrashEvent) :
    (crashesAfter cfg events).get key = recordOf cfg.crashWindow (crashTimes key events) := by
  induction events with
  | nil => rfl
  | cons e events ih =>
    cases e with
    | crash k now =>
      rw [crashesAfter, get_recordCrash, crashTimes]
      by_cases hk : k = key
      · subst hk
        rw [if_pos rfl, if_pos rfl, recordOf_cons, ih]
      · rw [if_neg (Ne.symm hk), if_neg hk, ih]
    | clear k =>
      rw [crashesAfter, GoMap.get_delete, crashTimes]
      by_cases hk : k = key
      · rw [if_pos hk.symm, if_pos hk]
        rfl
      · rw [if_neg (Ne.symm hk), if_neg hk, ih]

theorem crashTimes_sublist (key : Str) (events : List CrashEvent) :
    (crashTimes key events).Sublist (events.filterMap CrashEvent.time?) := by
  induction events with
  | nil => exact .slnil
  | cons e events ih =>
    cases e with
    | crash k now =>
      rw [crashTimes]
      split
      · exact ih.cons_cons _
      · exact ih.cons _
    | clear k =>
      rw [crashTimes]
      split
      · exact List.nil_sublist _
      · exact ih

/-- The verdict is that more than one crash, and as many as the threshold, are counted
together. -/
theorem verdict_iff (cfg : SupervisorConfig) (key : Str) (events : List CrashEvent) (now : Int) :
    (recordCrash cfg (crashesAfter cfg events) key now).1 = true ↔
      2 ≤ (counted cfg.crashWindow (now :: crashTimes key events)).length ∧
      cfg.crashThreshold ≤ (counted cfg.crashWindow (now :: crashTimes key events)).length := by
  unfold recordCrash
  rw [get_crashesAfter, counted]
  generalize crashTimes key events = times
  unfold recordOf
  cases hLast : (counted cfg.crashWindow times).getLast? with
  | none => simp
  | some first =>
    have hPos : 0 < (counted cfg.crashWindow times).length :=
      List.length_pos_iff.mpr fun hNil => by simp [hNil] at hLast
    by_cases hNew : now - first > cfg.crashWindow
    · simp [hNew]
    · simp only [Option.map_some, hNew, if_false, decide_eq_true_eq, List.length_cons]
      omega

end Records

/-- A crash is one too many exactly if enough crashes lie in the window before it, unless
some of those were counted in an earlier window. -/
theorem tooManyCrashes_iff {cfg : SupervisorConfig} {key : Str} {events : List CrashEvent}
    {now : Int} (hWindow : 0 < cfg.crashWindow) (hTime : InTime (.crash key now :: events)) :
    ((recordCrash cfg (crashesAfter cfg events) key now).1 = true ↔
      cfg.crashThreshold ≤ (recent cfg.crashWindow (now :: crashTimes key events)).length) ↔
    (cfg.crashThreshold ≤ (recent cfg.crashWindow (now :: crashTimes key events)).length →
      max 2 cfg.crashThreshold ≤
        (counted cfg.crashWindow (now :: crashTimes key events)).length) := by
  have hTimes : (now :: crashTimes key events).Pairwise (· ≥ ·) := by
    exact hTime.sublist ((crashTimes_sublist key events).cons_cons _)
  have hLe := length_counted_le hTimes hWindow.le
  rw [verdict_iff]
  omega

def thirdIsTooMany : SupervisorConfig := ⟨1, 1, 1, 3, 60⟩

/-- The third crash within a window. -/
theorem tooManyCrashes_third :
    (recordCrash thirdIsTooMany (crashesAfter thirdIsTooMany [.crash [] 20, .crash [] 0])
      [] 40).1 = true := by
  have hTime : InTime [.crash [] 40, .crash [] 20, .crash [] 0] := by
    unfold InTime
    decide
  have hWindow : 0 < thirdIsTooMany.crashWindow := by decide
  exact ((tooManyCrashes_iff hWindow hTime).mpr fun _ => by decide).mpr (by decide)

/-- Three crashes within four seconds, of which the first was counted in the window that an
earlier crash had opened. -/
theorem tooManyCrashes_missed :
    (recordCrash thirdIsTooMany (crashesAfter thirdIsTooMany
      [.crash [] 61, .crash [] 59, .crash [] 0]) [] 62).1 = false ∧
    recent thirdIsTooMany.crashWindow (62 :: crashTimes [] [.crash [] 61, .crash [] 59,
      .crash [] 0]) = [62, 61, 59] ∧
    thirdIsTooMany.crashThreshold = 3 := by
  decide

end Moduless.PluginHost
