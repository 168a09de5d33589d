/-
  MetricCube.Text.Digits
  ──────────────────────
  **Decimal digits.**  Writing a number with a fixed count of digits and reading
  it back, and reading a number of any length with an optional sign.  Only the
  ten ASCII digits count as digits.
-/

namespace MetricCube.Text

/-- The character of a digit below ten. -/
def digitChar (d : Nat) : Char :=
  Char.ofNat (48 + d)

/-- The value of an ASCII digit. -/
def digitValue? (c : Char) : Option Nat :=
  if 48 ≤ c.toNat ∧ c.toNat ≤ 57 then some (c.toNat - 48) else none

/-! ## §1. A fixed count of digits. -/

/-- The last `width` decimal digits of `n`, most significant first. -/
def fixedDigits : (width n : Nat) → List Char
  | 0, _ => []
  | width + 1, n => fixedDigits width (n / 10) ++ [digitChar (n % 10)]

/-- Reads exactly `width` digits in front, continuing from the value `acc`. -/
def takeDigits : (width acc : Nat) → List Char → Option (Nat × List Char)
  | 0, acc, cs => some (acc, cs)
  | _ + 1, _, [] => none
  | width + 1, acc, c :: cs =>
    match digitValue? c with
    | some d => takeDigits width (acc * 10 + d) cs
    | none => none

/-! ## §2. Any count of digits. -/

/-- The value of a run of digits, continuing from `acc`; nothing else may occur. -/
def digitsValue? : (acc : Nat) → List Char → Option Nat
  | acc, [] => some acc
  | acc, c :: cs =>
    match digitValue? c with
    | some d => digitsValue? (acc * 10 + d) cs
    | none => none

/-- A natural number: one or more digits. -/
def natural? (cs : List Char) : Option Nat :=
  if cs.isEmpty then none else digitsValue? 0 cs

/-- A natural number with an optional plus sign, at most `bound`. -/
def unsigned? (bound : Nat) (cs : List Char) : Option Nat :=
  let digits := match cs with
    | '+' :: rest => rest
    | _ => cs
  (natural? digits).filter (· ≤ bound)

/-- A whole number with an optional sign, between `-(bound + 1)` and `bound`. -/
def signed? (bound : Nat) (cs : List Char) : Option Int :=
  match cs with
  | '-' :: rest => ((natural? rest).filter (· ≤ bound + 1)).map fun n => -(n : Int)
  | _ => (unsigned? bound cs).map fun n => (n : Int)

/-- The decimal text of a natural number, without leading zeros. -/
def decimal (n : Nat) : String :=
  String.ofList (Nat.toDigits 10 n)

/-- The decimal text of a whole number. -/
def decimalInt (n : Int) : String :=
  if n < 0 then "-" ++ decimal n.natAbs else decimal n.natAbs

/-- The decimal text of a natural number, filled with zeros to `width` digits. -/
def decimalPadded (width n : Nat) : String :=
  let digits := Nat.toDigits 10 n
  String.ofList (List.replicate (width - digits.length) '0' ++ digits)

end MetricCube.Text
