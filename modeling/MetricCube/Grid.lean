/-
  MetricCube.Grid
  ───────────────
  **Do cells fill a grid?**  The cells of a family, one for each member, are
  points of the grid spanned by its keys.  Two members in one cell make the grid
  ambiguous.  Each key is judged by its definition; if none fails, the grid is
  the product of the expected values of the keys (the observed ones for an
  open-ended key), and the missing cells are the points that no member holds.
-/
import MetricCube.Assignment
import MetricCube.Dimension.Partition
import MetricCube.Dimension.Registry

namespace MetricCube

/-- How far the members make up one dimension. -/
structure DimensionStatus where
  key : String
  policy : Policy
  status : PartitionStatus
deriving DecidableEq

/-- Why one dimension cannot be summed over. -/
structure DimensionFailure where
  key : String
  failure : PolicyFailure
deriving DecidableEq

/-- The judgement on a grid. -/
structure Grid where
  dimensions : List DimensionStatus
  failures : List DimensionFailure
  missing : List Assignment
deriving DecidableEq

namespace Grid

/-- Nothing failed, nothing is missing, and every dimension is complete. -/
def isComplete (g : Grid) : Bool :=
  g.failures.isEmpty && g.missing.isEmpty && g.dimensions.all fun d => d.status.isComplete

/-- The first cell that occurs a second time. -/
def firstRepeated? : (seen : List Assignment) → List Assignment → Option Assignment
  | _, [] => none
  | seen, c :: cs => if seen.contains c then some c else firstRepeated? (c :: seen) cs

/-- One axis of the grid: the values it ranges over, and how far they are made up. -/
structure Axis where
  values : List String
  status : DimensionStatus

/-- The axis of a key, or why there is none. -/
def axis (registry : Registry) (members : List Assignment) (key : String) :
    Except DimensionFailure Axis :=
  let observed := members.map fun a => a.get? key
  if observed.any Option.isNone then .error ⟨key, .missingOnSlice⟩
  else
    match registry.find? key with
    | none => .error ⟨key, .unknownDimension⟩
    | some d =>
      let present := Ordered.distinct (observed.filterMap id)
      match d.partition present with
      | .error failure => .error ⟨key, failure⟩
      | .ok status =>
        .ok ⟨if d.policy.isExhaustive then d.expected else present, ⟨key, d.policy, status⟩⟩

/-- Every cell of the list, extended by every value of the key. -/
def extend (cells : List Assignment) (key : String) (values : List String) : List Assignment :=
  cells.flatMap fun cell => values.map fun value => cell.insert key value

/-- All cells of the product of the axes. -/
def product (axes : List Axis) : List Assignment :=
  axes.foldl (fun cells a => extend cells a.status.key a.values) [Assignment.empty]

/-- Judges the grid that the keys span, given the members' assignments.  The failing case
    is the first cell that two members hold. -/
def assess (registry : Registry) (members : List Assignment) (keys : List String) :
    Except Assignment Grid :=
  let cells := members.map fun a => a.project keys
  match firstRepeated? [] cells with
  | some cell => .error cell
  | none =>
    let results := keys.map (axis registry members)
    let axes := results.filterMap Except.toOption
    let failures := results.filterMap fun
      | .error f => some f
      | .ok _ => none
    let missing :=
      if failures.isEmpty && !axes.isEmpty then
        (product axes).filter fun cell => !cells.contains cell
      else []
    .ok ⟨axes.map Axis.status, failures, missing⟩

end Grid

end MetricCube
