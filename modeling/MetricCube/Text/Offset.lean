/-
  MetricCube.Text.Offset
  ──────────────────────
  **Places in a text, counted in bytes.**  An offset is a boundary of a text when
  the characters in front of it take up exactly that many bytes.  A text is cut
  at boundaries only: elsewhere, and behind the end, there is nothing to cut.
-/
import MetricCube.Text.Utf8

namespace MetricCube.Text

/-- What follows the first `n` bytes, if `n` is a boundary. -/
def dropBytes? : (n : Nat) → List Char → Option (List Char)
  | 0, cs => some cs
  | _ + 1, [] => none
  | n + 1, c :: cs => if c.utf8Size ≤ n + 1 then dropBytes? (n + 1 - c.utf8Size) cs else none

/-- The first `n` bytes, if `n` is a boundary. -/
def takeBytes? : (n : Nat) → List Char → Option (List Char)
  | 0, _ => some []
  | _ + 1, [] => none
  | n + 1, c :: cs =>
    if c.utf8Size ≤ n + 1 then (takeBytes? (n + 1 - c.utf8Size) cs).map (c :: ·) else none

/-- What stands between two offsets, if they are boundaries in this order. -/
def cutBytes? (first last : Nat) (cs : List Char) : Option (List Char) :=
  if first ≤ last then (dropBytes? first cs).bind (takeBytes? (last - first)) else none

/-- The number of bytes in front of a rest, reckoned from the two lengths, if it is no less than
    zero. -/
def lead? (cs rest : List Char) : Option Nat :=
  if utf8Length rest ≤ utf8Length cs then some (utf8Length cs - utf8Length rest) else none

/-- The offset of the first occurrence of a character. -/
def offsetOf? (c : Char) : List Char → Option Nat
  | [] => none
  | d :: cs => if d = c then some 0 else (offsetOf? c cs).map (d.utf8Size + ·)

end MetricCube.Text
