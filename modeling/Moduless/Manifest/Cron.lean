import Mathlib.Data.BitVec
import Moduless.Go.Strconv

/-!
Cron expressions: `ParseSchedule` turns each of the five fields into a bit mask,
and `Matches` looks the fields of a time up in the masks.

A loop over the values of a part counts with a 64-bit integer that wraps around.
It is followed for as many rounds as there are such integers; a loop that has not
ended by then never does, and `none` stands for it.
-/

namespace Moduless.Cron
open Go

abbrev Mask := BitVec 64

/-- A computation that fails, succeeds or does not return. -/
abbrev Parsing (ε : Type) := ExceptT ε Option

inductive PartError where
  | badStep (s : Str)
  | badRangeStart (s : Str)
  | badRangeEnd (s : Str)
  | backwards (lo hi : Int)
  | badValue (s : Str)
  | outOfRange (min max : Int)
  deriving DecidableEq

inductive CronField where
  | minute
  | hour
  | dayOfMonth
  | month
  | dayOfWeek
  deriving DecidableEq

inductive ScheduleError where
  | wantFiveFields (expr : Str) (got : Nat)
  | badField (expr : Str) (field : CronField) (e : PartError)
  deriving DecidableEq

/-- `minute` has a bit for each minute, and so on; a day field is restricted when it
is something other than `*`. -/
structure Schedule where
  minute : BitVec 64
  hour : BitVec 32
  dom : BitVec 32
  month : BitVec 16
  dow : BitVec 8
  domRestricted : Bool
  dowRestricted : Bool
  deriving DecidableEq

/-- The fields of a time that a schedule looks at. Weekdays count from Sunday. -/
structure Civil where
  minute : Nat
  hour : Nat
  day : Nat
  month : Nat
  weekday : Nat
  minute_lt : minute < 60
  hour_lt : hour < 24
  day_pos : 0 < day
  day_lt : day < 32
  month_pos : 0 < month
  month_lt : month < 13
  weekday_lt : weekday < 7

def everyValue : Str := "*".toList

def intValues : Nat := 0x10000000000000000

/-- `1 << uint(v)`: beyond the width of the mask there is no bit to set. -/
def bitAt (v : Int) : Mask := if 0 ≤ v ∧ v < 64 then BitVec.twoPow 64 v.toNat else 0

/-- `for ; v <= hi; v += step { mask |= 1 << uint(v) }`. -/
def maskFrom (hi step : Int) : Nat → Int → Mask → Option Mask
  | 0, _, _ => none
  | rounds + 1, v, mask =>
    if v ≤ hi then maskFrom hi step rounds (int64 (v + step)) (mask ||| bitAt v) else some mask

def fullMask (min max : Int) : Option Mask := maskFrom max 1 intValues min 0

/-- The step of a part and what stands before it. -/
def parseStep (part : Str) : Except PartError (Str × Int) :=
  match cut part '/' with
  | none => .ok (part, 1)
  | some (base, stepStr) =>
    match atoi stepStr with
    | none => .error (.badStep stepStr)
    | some n => if n ≤ 0 then .error (.badStep stepStr) else .ok (base, n)

/-- The first and the last value of a part without its step. -/
def parseRange (part : Str) (min max : Int) : Except PartError (Int × Int) :=
  if part = everyValue then .ok (min, max)
  else
    match cut part '-' with
    | some (loStr, hiStr) =>
      match atoi loStr with
      | none => .error (.badRangeStart loStr)
      | some lo =>
        match atoi hiStr with
        | none => .error (.badRangeEnd hiStr)
        | some hi => if lo > hi then .error (.backwards lo hi) else .ok (lo, hi)
    | none =>
      match atoi part with
      | none => .error (.badValue part)
      | some n => .ok (n, n)

def parsePart (min max : Int) (part : Str) : Parsing PartError Mask := do
  let stepped ← ExceptT.mk (some (parseStep part))
  let range ← ExceptT.mk (some (parseRange stepped.1 min max))
  if range.1 < min ∨ range.2 > max then throw (.outOfRange min max)
  else liftM (maskFrom range.2 stepped.2 intValues range.1 0)

def parseParts (min max : Int) : List Str → Mask → Parsing PartError Mask
  | [], mask => pure mask
  | part :: rest, mask => do
      let m ← parsePart min max part
      parseParts min max rest (mask ||| m)

/-- The mask of a field and whether it is restricted. -/
def parseField (field : Str) (min max : Int) : Parsing PartError (Mask × Bool) :=
  if field = everyValue then do
    let mask ← liftM (fullMask min max)
    pure (mask, false)
  else do
    let mask ← parseParts min max (split field ',') 0
    pure (mask, true)

def parseSchedule (expr : Str) : Parsing ScheduleError Schedule :=
  match fields expr with
  | [minute, hour, dom, month, dow] => do
      let minute ← (parseField minute 0 59).adapt (ScheduleError.badField expr .minute)
      let hour ← (parseField hour 0 23).adapt (ScheduleError.badField expr .hour)
      let dom ← (parseField dom 1 31).adapt (ScheduleError.badField expr .dayOfMonth)
      let month ← (parseField month 1 12).adapt (ScheduleError.badField expr .month)
      let dow ← (parseField dow 0 6).adapt (ScheduleError.badField expr .dayOfWeek)
      pure
        { minute := minute.1
          hour := hour.1.setWidth 32
          dom := dom.1.setWidth 32
          month := month.1.setWidth 16
          dow := dow.1.setWidth 8
          domRestricted := dom.2
          dowRestricted := dow.2 }
  | fs => throw (.wantFiveFields expr fs.length)

def Schedule.matches (s : Schedule) (t : Civil) : Bool :=
  if s.minute &&& BitVec.twoPow 64 t.minute = 0 then false
  else if s.hour &&& BitVec.twoPow 32 t.hour = 0 then false
  else if s.month &&& BitVec.twoPow 16 t.month = 0 then false
  else
    let domOK : Bool := s.dom &&& BitVec.twoPow 32 t.day ≠ 0
    let dowOK : Bool := s.dow &&& BitVec.twoPow 8 t.weekday ≠ 0
    if s.domRestricted && s.dowRestricted then domOK || dowOK else domOK && dowOK

section Parsing

variable {ε ε' α β : Type} {x : Parsing ε α} {f : α → Parsing ε β}

def Parsing.Returns (x : Parsing ε α) : Prop := ∃ r, x.run = some r

theorem run_bind_ok {b : β} : (x >>= f).run = some (.ok b) ↔
    ∃ a, x.run = some (.ok a) ∧ (f a).run = some (.ok b) := by
  rw [ExceptT.run_bind]
  cases x.run with
  | none => simp
  | some r => cases r <;> simp

theorem run_adapt_ok {g : ε → ε'} {a : α} :
    (x.adapt g).run = some (.ok a) ↔ x.run = some (.ok a) := by
  change (x.run.map (Except.mapError g)) = some (.ok a) ↔ _
  cases x.run with
  | none => simp
  | some r => cases r <;> simp [Except.mapError]

theorem returns_bind (hx : Parsing.Returns x) (hf : ∀ a, x.run = some (.ok a) → (f a).Returns) :
    Parsing.Returns (x >>= f) := by
  obtain ⟨r, hr⟩ := hx
  cases r with
  | error e => exact ⟨.error e, by simp [ExceptT.run_bind, hr]⟩
  | ok a =>
    obtain ⟨r, hReturn⟩ := hf a hr
    exact ⟨r, by simpa [ExceptT.run_bind, hr] using hReturn⟩

theorem returns_adapt {g : ε → ε'} (hx : Parsing.Returns x) : Parsing.Returns (x.adapt g) := by
  obtain ⟨r, hr⟩ := hx
  exact ⟨r.mapError g, congrArg (Option.map (Except.mapError g)) hr⟩

theorem returns_lift {o : Option α} (h : ∃ a, o = some a) :
    Parsing.Returns (liftM o : Parsing ε α) := by
  obtain ⟨a, rfl⟩ := h
  exact ⟨.ok a, rfl⟩

theorem run_lift_ok {o : Option α} {a : α} :
    (liftM o : Parsing ε α).run = some (.ok a) ↔ o = some a := by
  cases o with
  | none => simp
  | some b => simp

end Parsing

end Moduless.Cron
