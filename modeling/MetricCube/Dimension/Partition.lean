/-
  MetricCube.Dimension.Partition
  ──────────────────────────────
  **Does a set of values make up a dimension?**  Under an exhaustive policy a
  value beyond the expected ones is a failure, and the set is complete when no
  expected value is missing.  An open dimension is never complete.
-/
import MetricCube.Dimension.Definition

namespace MetricCube

/-- How far a set of values makes up its dimension. -/
inductive PartitionStatus where
  | complete
  | lacking (missing : List String)
deriving DecidableEq

/-- Nothing can be missing. -/
def PartitionStatus.isComplete : PartitionStatus → Bool
  | .complete => true
  | .lacking _ => false

/-- Why a dimension cannot be summed over. -/
inductive PolicyFailure where
  | unknownDimension
  | unrecognised (values : List String)
  | missingOnSlice
deriving DecidableEq

/-- The wording of a policy failure. -/
def PolicyFailure.message : PolicyFailure → String
  | .unknownDimension => "unknown dimension"
  | .unrecognised values => "unrecognised values [" ++ ", ".intercalate values ++ "]"
  | .missingOnSlice => "a matched slice lacks the dimension"

/-- The status of the values `present`, which are distinct and ascending. -/
def Definition.partition (d : Definition) (present : List String) :
    Except PolicyFailure PartitionStatus :=
  let expected := d.expected
  let strangers := present.filter fun v => !expected.contains v
  let missing := expected.filter fun v => !present.contains v
  if d.policy.isExhaustive then
    if strangers.isEmpty then
      .ok (if missing.isEmpty then .complete else .lacking missing)
    else .error (.unrecognised strangers)
  else .ok (.lacking missing)

end MetricCube
