/-
  MetricCube.Settings.Toml.Number
  ───────────────────────────────
  **Numbers in settings documents.**  A number is an integer within 64 bits, or
  has a fraction or an exponent; single underscores may stand between digits.
  Integers may also be written in base 16, 8 or 2, and the words `inf` and `nan`
  stand for what no digits can say.

  A number that is not an integer is kept as written, as a sign, a significand
  and a power of ten.  One that rounds to positive infinity as a double is
  refused; a negative one is not.
-/
import MetricCube.Json.Tree
import MetricCube.Text.Digits

namespace MetricCube.Toml

/-- The number `significand · 10 ^ exponent` with a sign. -/
structure Scientific where
  negative : Bool
  significand : Nat
  exponent : Int
deriving DecidableEq

/-- A number. -/
inductive Number where
  | integer (n : Int)
  | scientific (x : Scientific)
  | infinite (negative : Bool)
  | undefined
deriving DecidableEq

/-! ## §1. Digits. -/

/-- Digits in front, with underscores between them; `digit?` gives the value of a digit. -/
def takeGrouped (digit? : Char → Option Nat) : List Char → Option (List Nat × List Char)
  | [] => some ([], [])
  | '_' :: c :: cs =>
    match digit? c with
    | some d => (takeGrouped digit? cs).map fun r => (d :: r.1, r.2)
    | none => none
  | c :: cs =>
    match digit? c with
    | some d => (takeGrouped digit? cs).map fun r => (d :: r.1, r.2)
    | none => if c = '_' then none else some ([], c :: cs)

/-- One digit and further digits. -/
def takeRun (digit? : Char → Option Nat) : List Char → Option (List Nat × List Char)
  | [] => none
  | c :: cs =>
    match digit? c with
    | some d => (takeGrouped digit? cs).map fun r => (d :: r.1, r.2)
    | none => none

/-- Decimal digits in front, without leading zeros. -/
def takeWhole : List Char → Option (List Nat × List Char)
  | '0' :: cs => some ([0], cs)
  | cs => takeRun Text.digitValue? cs

/-- The number with given digits. -/
def ofDigits (base : Nat) (digits : List Nat) : Nat :=
  digits.foldl (fun n d => n * base + d) 0

/-- The value of a digit below `base`. -/
def digitBelow? (base : Nat) (c : Char) : Option Nat :=
  (Json.hexValue? c).filter (· < base)

/-! ## §2. Parts of a number. -/

/-- A sign in front; set for a minus. -/
def takeSign : List Char → Bool × List Char
  | '+' :: cs => (false, cs)
  | '-' :: cs => (true, cs)
  | cs => (false, cs)

/-- The digits of a fraction in front, if there is one. -/
def takeFraction : List Char → Option (Option (List Nat) × List Char)
  | '.' :: cs => (takeRun Text.digitValue? cs).map fun r => (some r.1, r.2)
  | cs => some (none, cs)

/-- Sign and digits of an exponent. -/
def takePower (cs : List Char) : Option (Option Int × List Char) :=
  let (negative, cs) := takeSign cs
  (takeRun Text.digitValue? cs).map fun r =>
    let e : Int := ofDigits 10 r.1
    (some (if negative then -e else e), r.2)

/-- An exponent in front, if there is one. -/
def takeExponent : List Char → Option (Option Int × List Char)
  | 'e' :: cs | 'E' :: cs => takePower cs
  | cs => some (none, cs)

/-! ## §3. Size. -/

/-- The least number that rounds to infinity: half a unit in the last place above the largest
    double. -/
def doubleBound : Nat := Nat.pow 2 1024 - Nat.pow 2 970

/-- The magnitude rounds to infinity. -/
def Scientific.isTooLarge (x : Scientific) : Bool :=
  -- The decimal exponent of the first digit decides, except near the bound.
  let lead : Int := (Nat.toDigits 10 x.significand).length + x.exponent
  if x.significand = 0 ∨ lead < 300 then false
  else if 320 < lead then true
  else if 0 ≤ x.exponent then decide (doubleBound ≤ x.significand * Nat.pow 10 x.exponent.toNat)
  else decide (doubleBound * Nat.pow 10 x.exponent.natAbs ≤ x.significand)

/-- An integer within 64 bits. -/
def bounded? (n : Int) : Option Number :=
  if -9223372036854775808 ≤ n ∧ n ≤ 9223372036854775807 then some (.integer n) else none

/-- The number with given parts. -/
def ofParts? (negative : Bool) (whole : List Nat) (fraction : Option (List Nat))
    (exponent : Option Int) : Option Number :=
  match fraction, exponent with
  | none, none =>
    let n : Int := ofDigits 10 whole
    bounded? (if negative then -n else n)
  | _, _ =>
    let places := fraction.getD []
    let x : Scientific :=
      ⟨negative, ofDigits 10 (whole ++ places), exponent.getD 0 - places.length⟩
    if !negative && x.isTooLarge then none else some (.scientific x)

/-! ## §4. Numbers. -/

/-- A decimal number in front, or a word in place of one. -/
def takeDecimal (cs : List Char) : Option (Number × List Char) :=
  let (negative, cs) := takeSign cs
  match cs with
  | 'i' :: 'n' :: 'f' :: cs => some (.infinite negative, cs)
  | 'n' :: 'a' :: 'n' :: cs => some (.undefined, cs)
  | cs => do
    let (whole, cs) ← takeWhole cs
    let (fraction, cs) ← takeFraction cs
    let (exponent, cs) ← takeExponent cs
    let n ← ofParts? negative whole fraction exponent
    some (n, cs)

/-- An integer of a given base in front. -/
def takeBased (base : Nat) (cs : List Char) : Option (Number × List Char) := do
  let (digits, cs) ← takeRun (digitBelow? base) cs
  let n ← bounded? (ofDigits base digits)
  some (n, cs)

/-- A number in front. -/
def takeNumber : List Char → Option (Number × List Char)
  | '0' :: 'x' :: cs => takeBased 16 cs
  | '0' :: 'o' :: cs => takeBased 8 cs
  | '0' :: 'b' :: cs => takeBased 2 cs
  | cs => takeDecimal cs

end MetricCube.Toml
