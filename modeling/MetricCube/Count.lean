/-
  MetricCube.Count
  ────────────────
  **Counts.**  A `Count` is a number of trials `n` with a number of successes
  `k`, each a 64-bit counter.  Adding is checked: a sum that leaves the counter
  range is an `Overflow`, never a smaller number.  A share of a count is rounded
  to the nearest whole, halves up.
-/

namespace MetricCube

/-- A sum of counts left the range of a 64-bit counter. -/
inductive Overflow where
  | counts
deriving DecidableEq, Repr

/-- The wording of an overflow. -/
def Overflow.message : Overflow → String
  | .counts => "attempt to add with overflow"

/-- One more than the largest counter. -/
def counterBound : Nat := 18446744073709551616

/-- Trials and successes. -/
structure Count where
  n : Nat
  k : Nat
  n_lt : n < counterBound
  k_lt : k < counterBound
deriving DecidableEq

namespace Count

theorem ext_nk {a b : Count} (hn : a.n = b.n) (hk : a.k = b.k) : a = b := by
  cases a; cases b; cases hn; cases hk; rfl

/-- No trials. -/
def zero : Count :=
  ⟨0, 0, by decide, by decide⟩

/-- The count of `n` and `k`, each taken modulo the counter range. -/
def wrap (n k : Nat) : Count :=
  ⟨n % counterBound, k % counterBound, Nat.mod_lt _ (by decide), Nat.mod_lt _ (by decide)⟩

/-- The count of `n` and `k`, if both are counters. -/
def ofNats? (n k : Nat) : Option Count :=
  if h : n < counterBound ∧ k < counterBound then some ⟨n, k, h.1, h.2⟩ else none

/-- The sum of two counts, if it is a count. -/
def add (a b : Count) : Except Overflow Count :=
  match ofNats? (a.n + b.n) (a.k + b.k) with
  | some c => .ok c
  | none => .error .counts

/-- The sum of `acc` and the listed counts, from left to right. -/
def addAll (acc : Count) : List Count → Except Overflow Count
  | [] => .ok acc
  | c :: cs =>
    match acc.add c with
    | .ok s => s.addAll cs
    | .error e => .error e

/-- The sum of a list of counts. -/
def sum (cs : List Count) : Except Overflow Count :=
  zero.addAll cs

/-- The `part`-th of `whole` of a number, to the nearest whole, halves up; zero when
    `whole` is. -/
def shareOf (value part whole : Nat) : Nat :=
  if whole = 0 then 0 else (value * part * 2 + whole) / (whole * 2)

/-- The `part`-th of `whole` of both counters. -/
def prorate (c : Count) (part whole : Nat) : Count :=
  wrap (shareOf c.n part whole) (shareOf c.k part whole)

/-- Successes per trial in double precision; there is none without trials. -/
def rate? (c : Count) : Option Float :=
  if c.n = 0 then none else some (c.k.toUInt64.toFloat / c.n.toUInt64.toFloat)

end Count

end MetricCube
