/-
  MetricCube.Plan.Item
  ────────────────────
  **Fetch items.**  An item asks a source for the days of a range under one
  assignment.  Its id is the XXH3 digest of `idBytes`: metric, assignment and
  range.  Its status moves from needed to in flight to failed, and back to
  needed after a failure that may be retried; no other move is allowed.
-/
import MetricCube.Bytes
import MetricCube.Digest.Xxh3
import MetricCube.Fault
import MetricCube.Slice

namespace MetricCube

/-- Where a fetch item stands. -/
inductive FetchStatus where
  | needed
  | inFlight
  | failed (retryable : Bool)
deriving DecidableEq, Repr

/-- The name of a status. -/
def FetchStatus.name : FetchStatus → String
  | .needed => "needed"
  | .inFlight => "in_flight"
  | .failed true => "failed(retryable)"
  | .failed false => "failed(terminal)"

/-- Days to be fetched for one assignment. -/
structure FetchItem where
  metric : String
  assignment : Assignment
  range : DateRange
  signature : Signature
  status : FetchStatus
deriving DecidableEq

namespace FetchItem

/-- A new item. -/
def make (metric : String) (assignment : Assignment) (range : DateRange)
    (signature : Signature) : FetchItem :=
  ⟨metric, assignment, range, signature, .needed⟩

/-- The bytes whose digest is the id of an item. -/
def idBytes (metric : String) (assignment : Assignment) (range : DateRange) : List UInt8 :=
  Bytes.text "fetch-item:v1" ++ Bytes.text metric ++ Bytes.text assignment.canonical
    ++ Bytes.signed32 range.start.days ++ Bytes.signed32 range.stop.days

/-- The id of an item. -/
def id (i : FetchItem) : UInt64 :=
  Digest.Xxh3.digest (idBytes i.metric i.assignment i.range)

/-- The id as text. -/
def idText (i : FetchItem) : String :=
  Bytes.hexWord64 i.id

/-- Moves an item from one status to another. -/
def move (i : FetchItem) (source target : FetchStatus) : Except InternalFault FetchItem :=
  if i.status = source then .ok { i with status := target }
  else .error (.plannerInvariant
    ("fetch item " ++ i.idText ++ " cannot move from " ++ i.status.name ++ " to " ++ target.name))

/-- The item is on its way. -/
def start (i : FetchItem) : Except InternalFault FetchItem :=
  i.move .needed .inFlight

/-- The item came back without an answer. -/
def fail (i : FetchItem) (retryable : Bool) : Except InternalFault FetchItem :=
  i.move .inFlight (.failed retryable)

/-- The item is asked for once more. -/
def reset (i : FetchItem) : Except InternalFault FetchItem :=
  i.move (.failed true) .needed

/-- The item on one line. -/
def text (i : FetchItem) : String :=
  i.metric ++ " " ++ i.assignment.text ++ " " ++ i.range.text ++ " [" ++ i.status.name ++ "]"

end FetchItem

end MetricCube
