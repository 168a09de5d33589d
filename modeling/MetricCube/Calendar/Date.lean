/-
  MetricCube.Calendar.Date
  ────────────────────────
  **Days and the Gregorian calendar.**  A `Date` is a day number, counted from
  1970-01-01 and kept in the signed 32-bit range; moving past either end stops
  there.

  The calendar side is the proleptic Gregorian one with the years -9999 … 9999.
  `dayNumber` counts the days before a year, a month and a day.  `civilOfDay`
  goes back: the year is the one whose days hold the number, found by a
  proportional guess that is off by at most one, and the month likewise by
  walking the twelve month lengths.  A day beyond the calendar shows the
  calendar day of the nearer end.
-/

namespace MetricCube

/-- A day, numbered from 1970-01-01. -/
structure Date where
  days : Int
  lower : -2147483648 ≤ days
  upper : days ≤ 2147483647
deriving DecidableEq

namespace Date

theorem ext_days {a b : Date} (h : a.days = b.days) : a = b := by
  cases a; cases b; cases h; rfl

instance : LT Date := ⟨fun a b => a.days < b.days⟩
instance : LE Date := ⟨fun a b => a.days ≤ b.days⟩
instance (a b : Date) : Decidable (a < b) := inferInstanceAs (Decidable (a.days < b.days))
instance (a b : Date) : Decidable (a ≤ b) := inferInstanceAs (Decidable (a.days ≤ b.days))
instance : Ord Date := ⟨fun a b => compare a.days b.days⟩

theorem lt_def {a b : Date} : a < b ↔ a.days < b.days := Iff.rfl

theorem le_def {a b : Date} : a ≤ b ↔ a.days ≤ b.days := Iff.rfl

/-! ## §1. The day line. -/

/-- The day with number `n`, or the nearer end of the day line. -/
def ofDays (n : Int) : Date :=
  if h : n < -2147483648 then ⟨-2147483648, by omega, by omega⟩
  else if h' : 2147483647 < n then ⟨2147483647, by omega, by omega⟩
  else ⟨n, by omega, by omega⟩

/-- The day `n` days later (earlier if negative), stopping at the ends. -/
def addDays (d : Date) (n : Int) : Date :=
  ofDays (d.days + n)

/-- The following day. -/
def next (d : Date) : Date :=
  d.addDays 1

/-- The preceding day. -/
def prev (d : Date) : Date :=
  d.addDays (-1)

/-- The number of days from `d` to `e`; negative when `e` is earlier. -/
def daysUntil (d e : Date) : Int :=
  e.days - d.days

/-- The later of two days. -/
def max (a b : Date) : Date :=
  if a ≤ b then b else a

/-- The earlier of two days. -/
def min (a b : Date) : Date :=
  if a ≤ b then a else b

theorem days_ofDays {n : Int} (h₁ : -2147483648 ≤ n) (h₂ : n ≤ 2147483647) :
    (ofDays n).days = n := by
  simp [ofDays, show ¬ n < -2147483648 by omega, show ¬ 2147483647 < n by omega]

theorem ofDays_days (d : Date) : ofDays d.days = d :=
  ext_days (days_ofDays d.lower d.upper)

theorem days_next {d e : Date} (h : d < e) : d.next.days = d.days + 1 := by
  have h₁ := d.lower
  have h₂ := e.upper
  have h₃ := lt_def.1 h
  exact days_ofDays (by omega) (by omega)

theorem days_prev {d e : Date} (h : d < e) : e.prev.days = e.days - 1 := by
  have h₁ := d.lower
  have h₂ := e.upper
  have h₃ := lt_def.1 h
  exact days_ofDays (by omega) (by omega)

end Date

/-! ## §2. The calendar. -/

/-- A calendar day. -/
structure Civil where
  year : Int
  month : Nat
  day : Nat
deriving DecidableEq, Repr

namespace Civil

/-- The year has a 29th of February. -/
def isLeap (y : Int) : Bool :=
  y % 4 == 0 && (y % 100 != 0 || y % 400 == 0)

/-- The number of days of the months January to December of year `y`. -/
def monthLengths (y : Int) : List Nat :=
  [31, if isLeap y then 29 else 28, 31, 30, 31, 30, 31, 31, 30, 31, 30, 31]

/-- The number of days of month `m` (1 to 12) of year `y`; none for another `m`. -/
def monthLength (y : Int) (m : Nat) : Nat :=
  if m = 0 then 0 else (monthLengths y).getD (m - 1) 0

/-- A day of the proleptic Gregorian calendar in the years -9999 … 9999. -/
def isValid (c : Civil) : Bool :=
  -9999 ≤ c.year && c.year ≤ 9999 && 1 ≤ c.month && c.month ≤ 12
    && 1 ≤ c.day && c.day ≤ monthLength c.year c.month

/-- The number of days from 1970-01-01 to the first day of year `y`. -/
def daysBeforeYear (y : Int) : Int :=
  365 * (y - 1) + (y - 1) / 4 - (y - 1) / 100 + (y - 1) / 400 - 719162

/-- The number of days of year `y` before its month `m`. -/
def daysBeforeMonth (y : Int) (m : Nat) : Nat :=
  ((monthLengths y).take (m - 1)).foldl (· + ·) 0

/-- The day number of a calendar day. -/
def dayNumber (c : Civil) : Int :=
  daysBeforeYear c.year + daysBeforeMonth c.year c.month + c.day - 1

/-- The year whose days hold day number `n`. -/
def yearOfDay (n : Int) : Int :=
  let guess := (n + 719162) * 400 / 146097 + 1
  if n < daysBeforeYear guess then guess - 1
  else if daysBeforeYear (guess + 1) ≤ n then guess + 1
  else guess

/-- Month and day of the `k`-th day (from zero) of a stretch of months with the
    given lengths, the first of them being month `m`. -/
def monthAndDay : (m : Nat) → List Nat → (k : Nat) → Nat × Nat
  | m, [], k => (m, k + 1)
  | m, len :: rest, k =>
    if k < len ∨ rest = [] then (m, k + 1) else monthAndDay (m + 1) rest (k - len)

/-- The calendar day of day number `n`. -/
def ofDayNumber (n : Int) : Civil :=
  let y := yearOfDay n
  let md := monthAndDay 1 (monthLengths y) (n - daysBeforeYear y).toNat
  ⟨y, md.1, md.2⟩

/-- The first day of the calendar, -9999-01-01. -/
def first : Civil := ⟨-9999, 1, 1⟩

/-- The last day of the calendar, 9999-12-31. -/
def last : Civil := ⟨9999, 12, 31⟩

end Civil

namespace Date

/-- The day of a calendar date, if there is such a date. -/
def ofCivil? (c : Civil) : Option Date :=
  if c.isValid then some (ofDays c.dayNumber) else none

/-- The calendar date of a day; beyond the calendar, that of the nearer end. -/
def civil (d : Date) : Civil :=
  if d.days < Civil.first.dayNumber then Civil.first
  else if Civil.last.dayNumber < d.days then Civil.last
  else Civil.ofDayNumber d.days

end Date

end MetricCube
