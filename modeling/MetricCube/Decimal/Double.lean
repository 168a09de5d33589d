/-
  MetricCube.Decimal.Double
  ─────────────────────────
  **Doubles as text.**  A double is held as its 64 bits.  It is written with the
  fewest digits that read back: positionally, with at least one digit after the
  point, when its decimal exponent is from -5 to 15, and with an exponent and
  its sign otherwise.
-/
import MetricCube.Decimal.Shortest
import MetricCube.Text.Digits

namespace MetricCube.Decimal

/-- How a double is laid out as text. -/
structure DoubleFormat where
  /-- The least decimal exponent that is written positionally. -/
  leastPositional : Int
  /-- The greatest decimal exponent that is written positionally. -/
  greatestPositional : Int
  /-- What stands before a non-negative exponent. -/
  exponentPlus : String
  /-- What stands before the size of a negative exponent. -/
  exponentMinus : String

/-- The layout of numbers in written values. -/
def valueFormat : DoubleFormat :=
  ⟨-5, 15, "e+", "e-"⟩

/-- The sign bit is set. -/
def isNegative (bits : UInt64) : Bool :=
  bits.toNat / Nat.pow 2 63 == 1

/-- The magnitude of a finite double; nothing for zero. -/
def magnitude? (bits : UInt64) : Option Positive :=
  let exponent : Nat := bits.toNat / Nat.pow 2 52 % 2048
  let fraction : Nat := bits.toNat % Nat.pow 2 52
  if exponent = 0 then
    if fraction = 0 then none else some ⟨fraction, -1074, false⟩
  else
    some ⟨Nat.pow 2 52 + fraction, (exponent : Int) - 1075, fraction == 0 && exponent != 1⟩

/-- The digits of a decimal without sign, laid out positionally or with an exponent. -/
def layout (f : DoubleFormat) (digits : List Char) (k : Int) : List Char :=
  let count := digits.length
  let e := k + count - 1
  if f.leastPositional ≤ e ∧ e ≤ f.greatestPositional then
    if 0 ≤ k then digits ++ List.replicate k.toNat '0' ++ ['.', '0']
    else if 0 ≤ e then
      digits.take (e + 1).toNat ++ '.' :: digits.drop (e + 1).toNat
    else '0' :: '.' :: List.replicate (-e - 1).toNat '0' ++ digits
  else
    let mantissa := match digits with
      | d :: d' :: rest => d :: '.' :: d' :: rest
      | _ => digits
    mantissa ++ (if 0 ≤ e then f.exponentPlus else f.exponentMinus).toList
      ++ (Text.decimal e.natAbs).toList

/-- The characters of a finite double. -/
def doubleChars (f : DoubleFormat) (bits : UInt64) : List Char :=
  let body := match magnitude? bits with
    | none => ['0', '.', '0']
    | some x =>
      let (a, k) := x.shortest
      layout f (Text.decimal a).toList k
  if isNegative bits then '-' :: body else body

end MetricCube.Decimal
