/-
  MetricCube.Json.Numeral
  ───────────────────────
  **Numbers in JSON text.**  `Numeral` holds the digits of a number as written.
  A numeral without fraction and exponent that fits a 64-bit integer is a whole
  number, except for minus zero.  Every other numeral is a double, reckoned in
  double precision from a significand of as many leading digits as fit 64 bits
  and a power of ten; a result beyond the doubles is no number at all.
-/
import MetricCube.Json.Value

namespace MetricCube.Json

/-- The digits of a number as written. -/
structure Numeral where
  negative : Bool
  whole : List Nat
  fraction : List Nat
  /-- Sign (`true` for a minus) and digits of the exponent. -/
  exponent : Option (Bool × List Nat)
  /-- There is a fraction or an exponent. -/
  scientific : Bool
deriving DecidableEq

/-! ## §1. Scanning. -/

/-- The digits in front. -/
def scanDigits : List Char → List Nat × List Char
  | [] => ([], [])
  | c :: cs =>
    match Text.digitValue? c with
    | some d => let (ds, rest) := scanDigits cs; (d :: ds, rest)
    | none => ([], c :: cs)

/-- One or more digits in front. -/
def scanDigits1? (cs : List Char) : Option (List Nat × List Char) :=
  match scanDigits cs with
  | ([], _) => none
  | r => some r

/-- An optional fraction: a point and digits. -/
def scanFraction? : List Char → Option (Option (List Nat) × List Char)
  | '.' :: cs => (scanDigits1? cs).map fun r => (some r.1, r.2)
  | cs => some (none, cs)

/-- Sign and digits of an exponent. -/
def scanExponentDigits? : List Char → Option ((Bool × List Nat) × List Char)
  | '+' :: cs => (scanDigits1? cs).map fun r => ((false, r.1), r.2)
  | '-' :: cs => (scanDigits1? cs).map fun r => ((true, r.1), r.2)
  | cs => (scanDigits1? cs).map fun r => ((false, r.1), r.2)

/-- An optional exponent. -/
def scanExponent? : List Char → Option (Option (Bool × List Nat) × List Char)
  | 'e' :: cs | 'E' :: cs => (scanExponentDigits? cs).map fun r => (some r.1, r.2)
  | cs => some (none, cs)

/-- The digits before the point: a single zero, or digits that do not start with one. -/
def scanWhole? (cs : List Char) : Option (List Nat × List Char) :=
  match scanDigits cs with
  | ([], _) => none
  | (0 :: _ :: _, _) => none
  | r => some r

/-- A number in front. -/
def scanNumeral? (cs : List Char) : Option (Numeral × List Char) := do
  let (negative, cs) := match cs with
    | '-' :: rest => (true, rest)
    | _ => (false, cs)
  let (whole, cs) ← scanWhole? cs
  let (fraction, cs) ← scanFraction? cs
  let (exponent, cs) ← scanExponent? cs
  some (⟨negative, whole, fraction.getD [], exponent, fraction.isSome || exponent.isSome⟩, cs)

/-! ## §2. The value. -/

/-- The largest significand. -/
def significandMax : Nat := 18446744073709551615

/-- Appends digits to a number as long as it stays within `bound`; the digits from the first
    one that does not fit are left over. -/
def appendDigits (bound : Nat) : Nat → List Nat → Nat × List Nat
  | acc, [] => (acc, [])
  | acc, d :: ds => if acc * 10 + d ≤ bound then appendDigits bound (acc * 10 + d) ds else (acc, d :: ds)

/-- A power of ten as a double. -/
def tenTo (e : Nat) : Float :=
  Float.ofScientific 1 false e

/-- Divides by powers of ten of at most 308 places at a time. -/
def divideTens : (fuel : Nat) → Float → Nat → Float
  | 0, f, _ => f
  | fuel + 1, f, e => if e ≤ 308 then f / tenTo e else divideTens fuel (f / tenTo 308) (e - 308)

/-- `significand · 10 ^ exponent` as a double, unless it is too large. -/
def scaled? (significand : Nat) (exponent : Int) : Option Float :=
  let f := significand.toUInt64.toFloat
  if exponent < 0 then some (divideTens 4 f exponent.natAbs)
  else if significand = 0 then some f
  else if 308 < exponent then none
  else
    let g := f * tenTo exponent.toNat
    if g.isInf then none else some g

/-- A double with a sign in front. -/
def signedDouble (negative : Bool) (f : Float) : Number :=
  .double (if negative then -f else f).toBits

/-- The largest exponent that is reckoned with. -/
def exponentMax : Nat := 2147483647

/-- The number that a numeral stands for. -/
def Numeral.number? (n : Numeral) : Option Number :=
  let (s₀, dropped) := appendDigits significandMax 0 n.whole
  if !n.scientific && dropped.isEmpty then
    if !n.negative then some (.whole s₀)
    else if s₀ = 0 ∨ 9223372036854775808 < s₀ then some (signedDouble true s₀.toUInt64.toFloat)
    else some (.whole (-(s₀ : Int)))
  else
    let (s, ignored) := appendDigits significandMax s₀ n.fraction
    let shift : Int := dropped.length - (n.fraction.length - ignored.length : Nat)
    match n.exponent with
    | none => (scaled? s shift).map (signedDouble n.negative)
    | some (down, digits) =>
      let (e, beyond) := appendDigits exponentMax 0 digits
      if beyond.isEmpty then
        (scaled? s (if down then shift - e else shift + e)).map (signedDouble n.negative)
      else if s ≠ 0 ∧ !down then none
      else some (signedDouble n.negative 0)

end MetricCube.Json
