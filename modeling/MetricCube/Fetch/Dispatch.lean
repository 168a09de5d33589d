/-
  MetricCube.Fetch.Dispatch
  ─────────────────────────
  **Dispatching fetch items.**  All items have to belong to the metric.  As many
  as the budget allows get a task; the others are left out.

  What a source and a store have become is kept in a `World`, together with what
  was reported, so that one dispatch follows another.
-/
import MetricCube.Fetch.Schedule

namespace MetricCube.Fetch

/-- Why a dispatch is refused. -/
inductive DispatchError where
  | foreignItem (item : FetchItem) (expected : String)
deriving DecidableEq

/-- The wording of a dispatch error. -/
def DispatchError.message : DispatchError → String
  | .foreignItem item expected =>
    "fetch item " ++ item.idText ++ " belongs to metric '" ++ item.metric ++ "', not '"
      ++ expected ++ "'"

/-- The largest number of permits. -/
def permitsMax : Nat := 2305843009213693951

/-- Why dispatching cannot be set up. -/
inductive PermitError where
  | tooMany
deriving DecidableEq

/-- The wording of a permit error. -/
def PermitError.message : PermitError → String
  | .tooMany =>
    "a semaphore may not have more than MAX_PERMITS permits (" ++ Text.decimal permitsMax ++ ")"

/-- The number of permits that settings ask for; there is at least one. -/
def permits (s : DispatchSettings) : Except PermitError Nat :=
  let count := max s.maxConcurrentFetches 1
  if permitsMax < count then .error .tooMany else .ok count

/-- What dispatching works on and leaves behind. -/
structure World (σ τ : Type) where
  store : σ
  /-- The memory of the source. -/
  memory : τ
  cancelled : Bool
  events : List Telemetry.Event
  /-- The number of calls of the source so far. -/
  calls : Nat
  /-- The largest number of calls that ran at a time so far. -/
  peak : Nat
  /-- The number of locks that the last dispatch left registered. -/
  locksLeft : Nat

namespace Dispatcher

variable {σ τ : Type}

/-- The items that get a task and those that are left out, if all belong to the metric. -/
def budgeted (d : Dispatcher σ τ) (metric : String) (items : List FetchItem) :
    Except DispatchError (List FetchItem × List FetchItem) :=
  match items.find? fun i => i.metric ≠ metric with
  | some i => .error (.foreignItem i metric)
  | none => .ok (items.splitAt d.settings.requestBudget)

/-- The events of items that are left out. -/
def overBudgetEvents (items : List FetchItem) : List Telemetry.Event :=
  items.map fun i => .fetchFinished i.metric .overBudget 0

/-- The world after a run. -/
def after (w : World σ τ) (r : Run σ τ) (overBudget : List FetchItem) : World σ τ where
  store := r.machine.store
  memory := r.memory
  cancelled := r.machine.cancelled
  events := w.events ++ overBudgetEvents overBudget ++ r.machine.events
  calls := w.calls + r.machine.calls
  peak := max w.peak r.machine.peak
  locksLeft := r.machine.locks.length

/-- Fetches and merges the items of a metric. -/
def execute (d : Dispatcher σ τ) (w : World σ τ) (metric : String) (items : List FetchItem) :
    Except DispatchError Report × World σ τ :=
  match d.budgeted metric items with
  | .error e => (.error e, w)
  | .ok (admitted, overBudget) =>
    let r := d.runTasks w.store w.memory w.cancelled admitted
    (.ok (.ofTasks r.machine.endedTasks overBudget), after w r overBudget)

end Dispatcher

end MetricCube.Fetch
