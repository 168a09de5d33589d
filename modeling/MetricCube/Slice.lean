/-
  MetricCube.Slice
  ────────────────
  **Cached slices.**  A slice holds the counts of one assignment, day by day or
  as one count over a window, together with the signature of the question that
  they answer.
-/
import MetricCube.Assignment
import MetricCube.Coverage
import MetricCube.Signature

namespace MetricCube

/-- Daily counts, or one count over a window. -/
inductive Payload where
  | daily (series : Series)
  | aggregate (window : Window)
deriving DecidableEq

/-- The daily counts, if there are any. -/
def Payload.daily? : Payload → Option Series
  | .daily s => some s
  | .aggregate _ => none

/-- The cached counts of one assignment. -/
structure Slice where
  assignment : Assignment
  payload : Payload
  signature : Signature
deriving DecidableEq

end MetricCube
