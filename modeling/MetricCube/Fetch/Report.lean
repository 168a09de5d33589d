/-
  MetricCube.Fetch.Report
  ───────────────────────
  **What became of fetch items.**  A report sorts the items of one dispatch by
  their ends: merged, failed at the source, stopped by an internal fault,
  cancelled, or left out because the budget was used up.  Each list is in
  ascending order of ids; items with equal ids stay in the order in which their
  tasks ended.
-/
import MetricCube.Fetch.Machine

namespace MetricCube.Fetch

/-- An item that was merged, and the number of days it added. -/
structure MergedItem where
  id : UInt64
  days : Nat
deriving DecidableEq

/-- An item that the source failed. -/
structure FailedItem where
  item : FetchItem
  error : SourceError
deriving DecidableEq

/-- An item that an internal fault stopped. -/
structure FaultedItem where
  id : UInt64
  fault : InternalFault
deriving DecidableEq

/-- What became of the items of one dispatch. -/
structure Report where
  merged : List MergedItem
  failed : List FailedItem
  faulted : List FaultedItem
  cancelled : List FetchItem
  overBudget : List FetchItem
deriving DecidableEq

/-! ## §1. Ends of tasks. -/

/-- How a task ended; breaking down is an internal fault. -/
def Task.ending? (t : Task) : Option Ending :=
  match t.phase with
  | .ended e => some e
  | .crashed message => some (.faulted (crashFault message))
  | _ => none

/-- The item of a task that was merged. -/
def Task.merged? (t : Task) : Option MergedItem :=
  match t.ending? with
  | some (.merged days) => some ⟨t.item.id, days⟩
  | _ => none

/-- The item of a task that the source failed. -/
def Task.failed? (t : Task) : Option FailedItem :=
  match t.ending? with
  | some (.failed e) => some ⟨t.item, e⟩
  | _ => none

/-- The item of a task that an internal fault stopped. -/
def Task.faulted? (t : Task) : Option FaultedItem :=
  match t.ending? with
  | some (.faulted f) => some ⟨t.item.id, f⟩
  | _ => none

/-- The item of a task that was cancelled. -/
def Task.cancelled? (t : Task) : Option FetchItem :=
  match t.ending? with
  | some .cancelled => some t.item
  | _ => none

namespace Report

/-- The report of tasks in the order of their ends and of items that were left out. -/
def ofTasks (tasks : List Task) (overBudget : List FetchItem) : Report where
  merged := Ordered.sortOn (fun m => m.id.toNat) (tasks.filterMap Task.merged?)
  failed := Ordered.sortOn (fun f => f.item.id.toNat) (tasks.filterMap Task.failed?)
  faulted := Ordered.sortOn (fun f => f.id.toNat) (tasks.filterMap Task.faulted?)
  cancelled := Ordered.sortOn (fun i => i.id.toNat) (tasks.filterMap Task.cancelled?)
  overBudget := Ordered.sortOn (fun i => i.id.toNat) overBudget

/-! ## §2. Reading a report. -/

/-- Every item was merged. -/
def isComplete (r : Report) : Bool :=
  r.failed.isEmpty && r.faulted.isEmpty && r.cancelled.isEmpty && r.overBudget.isEmpty

/-- The number of days that were added. -/
def daysAdded (r : Report) : Nat :=
  (r.merged.map MergedItem.days).foldl (· + ·) 0

/-- The failures that may pass. -/
def retryable (r : Report) : List FailedItem :=
  r.failed.filter fun f => f.error.isRetryable

/-- Some failure will not pass. -/
def hasTerminalFailure (r : Report) : Bool :=
  r.failed.any fun f => !f.error.isRetryable

/-- Some item was stopped by an internal fault. -/
def hasInternalFailure (r : Report) : Bool :=
  !r.faulted.isEmpty

/-- Another round would not get any further: there was an internal fault, or nothing was added
    and nothing is worth another try. -/
def isStalled (r : Report) : Bool :=
  r.hasInternalFailure || (r.daysAdded = 0 && r.retryable.isEmpty)

end Report

end MetricCube.Fetch
