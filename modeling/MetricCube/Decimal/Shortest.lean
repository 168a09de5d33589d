/-
  MetricCube.Decimal.Shortest
  ───────────────────────────
  **The shortest decimal of a double.**  A finite double is `m · 2 ^ q`.  The
  reals that round to it form an interval around it, with the ends included
  exactly when `m` is even.  For 1, 2, … 17 digits the two neighbours of the
  value on the grid of decimals with that many digits are tried in exact
  arithmetic: the first grid with a neighbour in the interval gives the digits,
  of two neighbours the nearer one, and of two equally near the even one.
-/

namespace MetricCube.Decimal

/-- A positive rational, as a quotient of naturals. -/
structure Ratio where
  num : Nat
  den : Nat

/-- `a · 2 ^ q`. -/
def Ratio.ofScaled (a : Nat) (q : Int) : Ratio :=
  if 0 ≤ q then ⟨a * Nat.pow 2 q.toNat, 1⟩ else ⟨a, Nat.pow 2 (-q).toNat⟩

/-- `a · 10 ^ k`. -/
def Ratio.ofDecimal (a : Nat) (k : Int) : Ratio :=
  if 0 ≤ k then ⟨a * Nat.pow 10 k.toNat, 1⟩ else ⟨a, Nat.pow 10 (-k).toNat⟩

/-- `a ≤ b`. -/
def Ratio.le (a b : Ratio) : Bool :=
  a.num * b.den ≤ b.num * a.den

/-- `a < b`. -/
def Ratio.lt (a b : Ratio) : Bool :=
  a.num * b.den < b.num * a.den

/-- The distance of two rationals. -/
def Ratio.distance (a b : Ratio) : Ratio :=
  let x := a.num * b.den
  let y := b.num * a.den
  ⟨if x ≤ y then y - x else x - y, a.den * b.den⟩

/-! ## §1. The interval of a double. -/

/-- A positive finite double `m · 2 ^ q`; `tight` when the next lower double is at half the
    distance of the next higher one. -/
structure Positive where
  m : Nat
  q : Int
  tight : Bool

/-- The value. -/
def Positive.value (x : Positive) : Ratio :=
  .ofScaled x.m x.q

/-- The lower end of the interval of reals that round to the double. -/
def Positive.lower (x : Positive) : Ratio :=
  .ofScaled (4 * x.m - if x.tight then 1 else 2) (x.q - 2)

/-- The upper end of the interval of reals that round to the double. -/
def Positive.upper (x : Positive) : Ratio :=
  .ofScaled (4 * x.m + 2) (x.q - 2)

/-- The decimal rounds to the double. -/
def Positive.holds (x : Positive) (r : Ratio) : Bool :=
  if x.m % 2 = 0 then x.lower.le r && r.le x.upper else x.lower.lt r && r.lt x.upper

/-! ## §2. Grids. -/

/-- Raises a guess for the decimal exponent of a rational until the next power of ten is
    too large; the guess has to be low and off by at most `fuel`. -/
def raiseExponent (r : Ratio) : (fuel : Nat) → Int → Int
  | 0, e => e
  | fuel + 1, e => if (Ratio.ofDecimal 1 (e + 1)).le r then raiseExponent r fuel (e + 1) else e

/-- The exponent `e` with `10 ^ e ≤ r < 10 ^ (e + 1)`, for a double. -/
def decimalExponent (r : Ratio) : Int :=
  raiseExponent r 640 (-330)

/-- The largest whole multiple of `10 ^ k` up to `r`, divided by `10 ^ k`. -/
def floorOnGrid (r : Ratio) (k : Int) : Nat :=
  if 0 ≤ k then r.num / (r.den * Nat.pow 10 k.toNat)
  else r.num * Nat.pow 10 (-k).toNat / r.den

/-- The better of the two neighbours on the grid of multiples of `10 ^ k`, if one rounds to
    the double. -/
def Positive.onGrid? (x : Positive) (k : Int) : Option Nat :=
  let a := floorOnGrid x.value k
  let below := Ratio.ofDecimal a k
  let above := Ratio.ofDecimal (a + 1) k
  match x.holds below, x.holds above with
  | true, true =>
    let d := below.distance x.value
    let d' := above.distance x.value
    some (if d.lt d' then a else if d'.lt d then a + 1 else if a % 2 = 0 then a else a + 1)
  | true, false => some a
  | false, true => some (a + 1)
  | false, false => none

/-- Tries the grids with more and more digits, `k` being the first grid. -/
def Positive.search (x : Positive) : (fuel : Nat) → Int → Nat × Int
  | 0, k => (floorOnGrid x.value k, k)
  | fuel + 1, k =>
    match x.onGrid? k with
    | some a => (a, k)
    | none => x.search fuel (k - 1)

/-- Drops zeros at the end, raising the exponent. -/
def dropZeros : (fuel : Nat) → Nat × Int → Nat × Int
  | 0, d => d
  | fuel + 1, (a, k) => if a % 10 = 0 ∧ a ≠ 0 then dropZeros fuel (a / 10, k + 1) else (a, k)

/-- The digits `a` and the exponent `k` of the shortest decimal `a · 10 ^ k`. -/
def Positive.shortest (x : Positive) : Nat × Int :=
  dropZeros 20 (x.search 17 (decimalExponent x.value))

end MetricCube.Decimal
