/-
  MetricCube.Reduction
  ────────────────────
  **Summing the members of a family.**  Members are summed only if their grid
  allows it: no dimension fails, and a grid of two or more dimensions has no
  missing cell.  Payloads are summed day by day, or window by window, and have
  to align: all daily with the same days, or all aggregate with the same window.
-/
import MetricCube.Grid
import MetricCube.Slice

namespace MetricCube

/-- Why payloads do not add up. -/
inductive SumFailure where
  | nothingToSum
  | dateMismatch (slice : Assignment)
  | mixedPayloads
  | windowMismatch (slice : Assignment)
deriving DecidableEq

/-- The wording of a sum failure. -/
def SumFailure.message : SumFailure → String
  | .nothingToSum => "no slices to sum"
  | .dateMismatch a => "date array of " ++ a.text ++ " does not align"
  | .mixedPayloads => "daily and aggregate payloads mixed"
  | .windowMismatch a => "aggregate window of " ++ a.text ++ " does not align"

/-- Why members cannot be reduced. -/
inductive ReduceError where
  | ambiguous (cell : Assignment)
  | failed (failure : SumFailure)
  | overflow (cause : Overflow)
deriving DecidableEq

/-- The wording of a reduce error. -/
def ReduceError.message : ReduceError → String
  | .ambiguous cell => "ambiguous slice: cell " ++ cell.text ++ " is populated more than once"
  | .failed failure => "aggregation failed: " ++ failure.message
  | .overflow cause => cause.message

/-! ## §1. Summing payloads. -/

/-- Adds the daily series of the slices to `acc`. -/
def addDaily (acc : Series) : List Slice → Except ReduceError Series
  | [] => .ok acc
  | s :: rest =>
    match s.payload with
    | .aggregate _ => .error (.failed .mixedPayloads)
    | .daily series =>
      match acc.accumulate? series with
      | none => .error (.failed (.dateMismatch s.assignment))
      | some (.error e) => .error (.overflow e)
      | some (.ok acc) => addDaily acc rest

/-- Adds the windows of the slices to `acc`. -/
def addWindows (acc : Window) : List Slice → Except ReduceError Window
  | [] => .ok acc
  | s :: rest =>
    match s.payload with
    | .daily _ => .error (.failed .mixedPayloads)
    | .aggregate w =>
      if w.range = acc.range then
        match acc.counts.add w.counts with
        | .error e => .error (.overflow e)
        | .ok counts => addWindows ⟨acc.range, counts⟩ rest
      else .error (.failed (.windowMismatch s.assignment))

/-- The sum of the payloads of the slices. -/
def sumPayloads : List Slice → Except ReduceError Payload
  | [] => .error (.failed .nothingToSum)
  | s :: rest =>
    match s.payload with
    | .daily series => (addDaily series rest).map .daily
    | .aggregate w => (addWindows w rest).map .aggregate

/-! ## §2. Reducing a family. -/

/-- Why a grid does not allow a sum. -/
inductive Obstacle where
  | dimension (failure : DimensionFailure)
  | incompleteGrid (missing : List Assignment)
deriving DecidableEq

/-- The wording of an obstacle. -/
def Obstacle.message : Obstacle → String
  | .dimension d => d.key ++ ": " ++ d.failure.message
  | .incompleteGrid missing =>
    "incomplete grid, " ++ Text.decimal missing.length ++ " cell(s) missing"

/-- A sum, with how far its members make up each dimension. -/
structure Reduction where
  payload : Payload
  dimensions : List DimensionStatus
deriving DecidableEq

/-- Every dimension is complete. -/
def Reduction.isComplete (r : Reduction) : Bool :=
  r.dimensions.all fun d => d.status.isComplete

/-- The dimensions that are not complete. -/
def Reduction.partials (r : Reduction) : List DimensionStatus :=
  r.dimensions.filter fun d => !d.status.isComplete

/-- A sum, or why the grid does not allow one. -/
inductive ReductionOutcome where
  | reduced (reduction : Reduction)
  | blocked (obstacles : List Obstacle)
deriving DecidableEq

/-- Sums slices over the given keys if their grid allows it. -/
def reduce (registry : Registry) (slices : List Slice) (keys : List String) :
    Except ReduceError ReductionOutcome :=
  match Grid.assess registry (slices.map Slice.assignment) keys with
  | .error cell => .error (.ambiguous cell)
  | .ok grid =>
    if !grid.failures.isEmpty then .ok (.blocked (grid.failures.map .dimension))
    else if 1 < grid.dimensions.length && !grid.missing.isEmpty then
      .ok (.blocked [.incompleteGrid grid.missing])
    else (sumPayloads slices).map fun payload => .reduced ⟨payload, grid.dimensions⟩

end MetricCube
