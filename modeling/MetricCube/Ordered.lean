/-
  MetricCube.Ordered
  ──────────────────
  **Ordering lists.**  `distinct` lists the different members of a list in
  ascending order.  `sortOn` sorts by a numeric key and `sortWith` by a
  comparison; both keep members of equal rank in their given order.
-/

namespace MetricCube.Ordered

/-! ## §1. Distinct members in ascending order. -/

section Distinct

variable {α : Type} [LT α] [DecidableLT α] [DecidableEq α]

/-- Puts a member in its place in an ascending list, unless it is there already. -/
def insertDistinct (a : α) : List α → List α
  | [] => [a]
  | b :: bs => if a < b then a :: b :: bs else if a = b then b :: bs else b :: insertDistinct a bs

/-- The different members of a list in ascending order. -/
def distinct (as : List α) : List α :=
  as.foldr insertDistinct []

end Distinct

/-! ## §2. Stable sorting. -/

variable {α : Type}

/-- Puts `a` in front of the first member that it does not come after. -/
def insertWith (le : α → α → Bool) (a : α) : List α → List α
  | [] => [a]
  | b :: bs => if le a b then a :: b :: bs else b :: insertWith le a bs

/-- Sorts by a comparison, keeping equal members in order. -/
def sortWith (le : α → α → Bool) (as : List α) : List α :=
  as.foldr (insertWith le) []

/-- Sorts by a numeric key, keeping members with equal keys in order. -/
def sortOn (key : α → Nat) (as : List α) : List α :=
  sortWith (fun a b => key a ≤ key b) as

end MetricCube.Ordered
