import Moduless.Go.Map
import Moduless.Go.Strconv

/-!
What the in-process cache and the in-process locks share: keys that carry the plugin they
belong to, and deadlines.

A time is the number of nanoseconds since Go's zero time, the first of January of the
year 1. A clock reads no earlier one, so that its readings are natural numbers; a
deadline of 0 is the zero time and means that there is none.
-/

namespace Moduless.Memory
open Go

/-- A deadline is live while the clock is before it. -/
def expired (now : Nat) (deadline : Int) : Bool := deadline ≠ 0 && !decide ((now : Int) < deadline)

theorem expired_iff {now : Nat} {deadline : Int} (h : 0 < deadline) :
    expired now deadline = true ↔ deadline ≤ now := by
  simp only [expired, ne_eq, Bool.and_eq_true, decide_eq_true_eq, Bool.not_eq_true',
    decide_eq_false_iff_not]
  omega

theorem not_expired_of_lt {now : Nat} {deadline : Int} (h : (now : Int) < deadline) :
    expired now deadline = false := by
  simp [expired, h]

theorem expired_mono {now later : Nat} {deadline : Int} (hLater : now ≤ later)
    (h : expired now deadline = true) : expired later deadline = true := by
  simp only [expired, ne_eq, Bool.and_eq_true, decide_eq_true_eq, Bool.not_eq_true',
    decide_eq_false_iff_not] at h ⊢
  omega

/-- The key of an entry, with the plugin it belongs to. -/
def namespaced (pluginKey key : Str) : Str := pluginKey ++ '\x00' :: key

def NulFree (pluginKey : Str) : Prop := '\x00' ∉ pluginKey

theorem namespaced_inj {p p' k k' : Str} (hp : NulFree p) (hp' : NulFree p') :
    namespaced p k = namespaced p' k' ↔ p = p' ∧ k = k' := append_sep_inj hp hp'

end Moduless.Memory
