/-
  MetricCube.Settings.Toml.Moment
  ───────────────────────────────
  **Dates and times in settings documents.**

      1979-05-27                       a date
      07:32:00.5                       a time of day
      1979-05-27T07:32:00              both, also with `t` or a space between
      1979-05-27T07:32:00-07:30        both, at a distance from universal time

  A date exists in its month, hours go to 23, minutes to 59 and seconds to 60.
  Of a fraction of a second the first nine digits count.
-/
import MetricCube.Calendar.Date
import MetricCube.Json.Tree
import MetricCube.Text.Digits

namespace MetricCube.Toml

/-- A time of day. -/
structure Clock where
  hour : Nat
  minute : Nat
  second : Nat
  nanosecond : Nat
deriving DecidableEq

/-- A date, a time or both. -/
inductive Moment where
  | date (d : Date)
  | time (t : Clock)
  /-- A date and a time; `offset` is the distance from universal time in minutes. -/
  | dateTime (d : Date) (t : Clock) (offset : Option Int)
deriving DecidableEq

/-! ## §1. Parts. -/

/-- A given character in front. -/
def takeMark (mark : Char) : List Char → Option (List Char)
  | c :: cs => if c = mark then some cs else none
  | [] => none

/-- Two digits in front, of a number up to `bound`. -/
def takePair (bound : Nat) (cs : List Char) : Option (Nat × List Char) :=
  (Text.takeDigits 2 0 cs).filter fun r => r.1 ≤ bound

/-- A date in front. -/
def takeDate (cs : List Char) : Option (Date × List Char) := do
  let (year, cs) ← Text.takeDigits 4 0 cs
  let cs ← takeMark '-' cs
  let (month, cs) ← takePair 12 cs
  let cs ← takeMark '-' cs
  let (day, cs) ← takePair 31 cs
  let d ← Date.ofCivil? ⟨year, month, day⟩
  some (d, cs)

/-- The nanoseconds of a fraction of a second. -/
def nanoseconds (digits : List Nat) : Nat :=
  (digits.take 9 ++ List.replicate (9 - digits.length) 0).foldl (fun n d => n * 10 + d) 0

/-- A fraction of a second in front, if there is one. -/
def takeNanoseconds : List Char → Nat × List Char
  | '.' :: cs =>
    match Json.scanDigits1? cs with
    | some (digits, rest) => (nanoseconds digits, rest)
    | none => (0, '.' :: cs)
  | cs => (0, cs)

/-- A time of day in front. -/
def takeClock (cs : List Char) : Option (Clock × List Char) := do
  let (hour, cs) ← takePair 23 cs
  let cs ← takeMark ':' cs
  let (minute, cs) ← takePair 59 cs
  let cs ← takeMark ':' cs
  let (second, cs) ← takePair 60 cs
  let (nanosecond, cs) := takeNanoseconds cs
  some (⟨hour, minute, second, nanosecond⟩, cs)

/-- Hours and minutes in front, in minutes. -/
def takeMinutes (cs : List Char) : Option (Nat × List Char) := do
  let (hour, cs) ← takePair 23 cs
  let cs ← takeMark ':' cs
  let (minute, cs) ← takePair 59 cs
  some (hour * 60 + minute, cs)

/-- A distance from universal time in front, if there is one. -/
def takeOffset : List Char → Option (Option Int × List Char)
  | 'Z' :: cs | 'z' :: cs => some (some 0, cs)
  | '+' :: cs => (takeMinutes cs).map fun r => (some r.1, r.2)
  | '-' :: cs => (takeMinutes cs).map fun r => (some (-(r.1 : Int)), r.2)
  | cs => some (none, cs)

/-! ## §2. Moments. -/

/-- A time of day in front, after the character that divides it from a date. -/
def takeDivided : List Char → Option (Clock × List Char)
  | 'T' :: cs | 't' :: cs | ' ' :: cs => takeClock cs
  | _ => none

/-- A moment in front. -/
def takeMoment (cs : List Char) : Option (Moment × List Char) :=
  match takeDate cs with
  | none => (takeClock cs).map fun r => (.time r.1, r.2)
  | some (d, cs) =>
    match takeDivided cs with
    | none => some (.date d, cs)
    | some (t, cs) => (takeOffset cs).map fun r => (.dateTime d t r.1, r.2)

end MetricCube.Toml
