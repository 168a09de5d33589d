/-
  MetricCube.Plan.Outcome
  ───────────────────────
  **Requests and what planning makes of them.**  A request is answered from the
  cache, with disclosures about how; or it needs fetches; or it is refused for a
  fault of the cached data.
-/
import MetricCube.Constraint
import MetricCube.Plan.Item
import MetricCube.Plan.Trace
import MetricCube.Reduction
import MetricCube.Slice.Family

namespace MetricCube

/-- The counts of a metric that are asked for. -/
structure Request where
  metric : String
  assignment : Assignment
  range : DateRange
  core : String

/-- The request for what a constraint asks, with a question that is put in its mode. -/
def Request.ofConstraint (metric : String) (c : Constraint) (q : Question) : Request :=
  ⟨metric, c.assignment, c.range, (q.withMode c.mode).hash⟩

/-- Counts over a range, in total and, if known, by day. -/
structure Answer where
  range : DateRange
  daily : Option Series
  total : Count
deriving DecidableEq

/-- How an answer came about. -/
inductive Disclosure where
  /-- From a slice of exactly the requested assignment. -/
  | exact
  /-- Summed over a complete partition; `alternatives` are further ones. -/
  | complete (dims : List String) (alternatives : List (List String))
  /-- Summed over a partition that lacks values. -/
  | incomplete (dims : List String) (missing : Table (List String))
  /-- A share of a count over a longer window. -/
  | prorated (cached requested : DateRange)
deriving DecidableEq

/-- The wording of a disclosure. -/
def Disclosure.text : Disclosure → String
  | .exact => "exact"
  | .complete dims _ => "mece_complete(" ++ ",".intercalate dims ++ ")"
  | .incomplete dims _ => "partial_aggregation(" ++ ",".intercalate dims ++ ")"
  | .prorated cached requested =>
    "prorated(" ++ cached.text ++ " -> " ++ requested.text ++ ")"

/-- Why a request is refused. -/
inductive PlanFault where
  | ambiguous (cell : Assignment)
  | isolation (error : IsolationError)
  | unsummable (failure : SumFailure)
deriving DecidableEq

/-- The wording of a plan fault. -/
def PlanFault.message : PlanFault → String
  | .ambiguous cell => "ambiguous slice at " ++ cell.text
  | .isolation e => e.message
  | .unsummable f => "aggregation failed: " ++ f.message

/-- What planning makes of a request. -/
inductive Outcome where
  | satisfied (answer : Answer) (disclosures : List Disclosure)
  | needsFetch (items : List FetchItem)
  | refused (fault : PlanFault)
deriving DecidableEq

/-- The items to be fetched. -/
def Outcome.items : Outcome → List FetchItem
  | .needsFetch items => items
  | _ => []

/-- An outcome and how it was reached. -/
structure Plan where
  outcome : Outcome
  trace : Trace

end MetricCube
