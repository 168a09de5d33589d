/-
  MetricCube.Calendar.DateRange
  ─────────────────────────────
  **Ranges of days,** both ends included.  A range is never empty: its start is
  not after its end, and that is part of the type.
-/
import MetricCube.Calendar.DateText

namespace MetricCube

/-- The days from `start` to `stop`, both included. -/
structure DateRange where
  start : Date
  stop : Date
  ordered : start ≤ stop
deriving DecidableEq

/-- Why two days do not make a range. -/
inductive RangeError where
  | inverted (start stop : Date)
deriving DecidableEq

/-- The wording of a range error. -/
def RangeError.message : RangeError → String
  | .inverted start stop => "date range start " ++ start.text ++ " is after end " ++ stop.text

namespace DateRange

/-- The range between two days, unless they are in the wrong order. -/
def make (start stop : Date) : Except RangeError DateRange :=
  if h : start ≤ stop then .ok ⟨start, stop, h⟩ else .error (.inverted start stop)

/-- The range of one day. -/
def single (d : Date) : DateRange :=
  ⟨d, d, Int.le_refl _⟩

/-- The true number of days. -/
def size (r : DateRange) : Nat :=
  (r.stop.days - r.start.days + 1).toNat

/-- The number of days as a 32-bit count, which the whole day line wraps to zero. -/
def lengthWord (r : DateRange) : Nat :=
  r.size % 4294967296

/-- The day lies in the range. -/
def contains (r : DateRange) (d : Date) : Bool :=
  r.start ≤ d && d ≤ r.stop

/-- Every day of `s` lies in `r`. -/
def containsRange (r s : DateRange) : Bool :=
  r.start ≤ s.start && s.stop ≤ r.stop

/-- The common days of two ranges, if there are any. -/
def intersect? (r s : DateRange) : Option DateRange :=
  (make (r.start.max s.start) (r.stop.min s.stop)).toOption

/-- The days of the range in order. -/
def days (r : DateRange) : List Date :=
  (List.range r.size).map fun (i : Nat) => r.start.addDays (i : Int)

/-- Ranges are ordered by their start, then by their end. -/
def order (r s : DateRange) : Ordering :=
  (compare r.start s.start).then (compare r.stop s.stop)

/-- The text of a range: its two ends parted by a colon. -/
def text (r : DateRange) : String :=
  r.start.text ++ ":" ++ r.stop.text

end DateRange

end MetricCube
