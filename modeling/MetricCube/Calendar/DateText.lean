/-
  MetricCube.Calendar.DateText
  ────────────────────────────
  **Dates as text.**  A date is written year-month-day.  The year has four
  characters or more, the sign included, so year -1 is written `-001`.

  Two forms are read:

    • `iso?`: an optional sign, four year digits, two month digits, two day
      digits, parted by hyphens;
    • `short?`: day, English month abbreviation in any letter case, and the last
      two digits of a year from 2000 to 2099.
-/
import MetricCube.Calendar.Date
import MetricCube.Text.Blank
import MetricCube.Text.Digits
import MetricCube.Text.Utf8

namespace MetricCube

namespace Date

open Text

/-! ## §1. Writing. -/

/-- A year in at least four characters, its sign included. -/
def yearChars (y : Int) : List Char :=
  if 0 ≤ y then fixedDigits 4 y.natAbs
  else if -1000 < y then '-' :: fixedDigits 3 y.natAbs
  else '-' :: fixedDigits 4 y.natAbs

/-- A calendar day, year first. -/
def civilChars (c : Civil) : List Char :=
  yearChars c.year ++ '-' :: fixedDigits 2 c.month ++ '-' :: fixedDigits 2 c.day

/-- The text of a date. -/
def text (d : Date) : String :=
  String.ofList (civilChars d.civil)

/-- The text of a date, marked as a date. -/
def debugText (d : Date) : String :=
  "Date(" ++ d.text ++ ")"

/-! ## §2. Reading the ISO form. -/

/-- Splits off an optional sign; `true` stands for a minus. -/
def takeSign : List Char → Bool × List Char
  | '+' :: cs => (false, cs)
  | '-' :: cs => (true, cs)
  | cs => (false, cs)

/-- Drops a hyphen in front. -/
def takeHyphen : List Char → Option (List Char)
  | '-' :: cs => some cs
  | _ => none

/-- Year, month and day in the ISO form, whether or not there is such a day. -/
def isoCivil? (cs : List Char) : Option Civil := do
  let (negative, cs) := takeSign cs
  let (y, cs) ← takeDigits 4 0 cs
  let cs ← takeHyphen cs
  let (m, cs) ← takeDigits 2 0 cs
  let cs ← takeHyphen cs
  let (d, cs) ← takeDigits 2 0 cs
  if cs.isEmpty then some ⟨if negative then -(y : Int) else y, m, d⟩ else none

/-- Reads the ISO form. -/
def iso? (s : String) : Option Date :=
  (isoCivil? s.toList).bind ofCivil?

/-! ## §3. Reading the short form. -/

/-- The month abbreviations, January first. -/
def monthNames : List (List Char) :=
  [['j', 'a', 'n'], ['f', 'e', 'b'], ['m', 'a', 'r'], ['a', 'p', 'r'], ['m', 'a', 'y'],
    ['j', 'u', 'n'], ['j', 'u', 'l'], ['a', 'u', 'g'], ['s', 'e', 'p'], ['o', 'c', 't'],
    ['n', 'o', 'v'], ['d', 'e', 'c']]

/-- The number of the month with the given abbreviation, in any letter case. -/
def monthOfName? (name : List Char) : Option Nat :=
  (monthNames.findIdx? (· == name.map Char.toLower)).map (· + 1)

/-- The pieces of a list of characters between hyphens. -/
def splitHyphens : List Char → List (List Char)
  | [] => [[]]
  | c :: cs =>
    match splitHyphens cs with
    | [] => [[c]]
    | piece :: rest => if c = '-' then [] :: piece :: rest else (c :: piece) :: rest

/-- Year, month and day in the short form, whether or not there is such a day. -/
def shortCivil? (cs : List Char) : Option Civil :=
  match splitHyphens cs with
  | [dayPart, monthPart, yearPart] => do
    let d ← unsigned? 255 dayPart
    if utf8Length yearPart ≠ 2 then none
    else
      let y ← signed? 2147483647 yearPart
      let m ← monthOfName? monthPart
      some ⟨2000 + y, m, d⟩
  | _ => none

/-- Reads the short form. -/
def short? (s : String) : Option Date :=
  (shortCivil? s.toList).bind ofCivil?

/-- Reads either form, with blanks around it. -/
def any? (s : String) : Option Date :=
  let t := trim s
  match iso? t with
  | some d => some d
  | none => short? t

end Date

end MetricCube
