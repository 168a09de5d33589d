/-
  MetricCube.Text.Position
  ────────────────────────
  **Messages that end in a position.**  A message may say where a fault was met
  by ending in ` at line L column C`, with numbers below `2 ^ 64`.  Such an
  ending is no part of what the message says, whoever wrote it.
-/
import MetricCube.Text.Digits

namespace MetricCube.Text

/-- Drops given characters in front. -/
def dropFront? (front cs : List Char) : Option (List Char) :=
  if front.isPrefixOf cs then some (cs.drop front.length) else none

/-- Drops digits in front, read from the last to the first, of a number below `2 ^ 64`. -/
def dropNumber? (cs : List Char) : Option (List Char) :=
  let digits := (cs.takeWhile Char.isDigit).reverse
  match natural? digits with
  | some n => if n < Nat.pow 2 64 then some (cs.drop digits.length) else none
  | none => none

/-- Drops a position in front of a reversed text. -/
def dropReversedPosition? (cs : List Char) : Option (List Char) := do
  let cs ← dropNumber? cs
  let cs ← dropFront? " column ".toList.reverse cs
  let cs ← dropNumber? cs
  dropFront? " at line ".toList.reverse cs

/-- The message without a position at its end. -/
def withoutPosition (s : String) : String :=
  match dropReversedPosition? s.toList.reverse with
  | some cs => String.ofList cs.reverse
  | none => s

end MetricCube.Text
