/-
  MetricCube.Fetch.Machine
  ────────────────────────
  **Fetch tasks as a machine.**  Each item has a task.  A task waits for one of
  a limited number of permits, calls the source while it holds the permit, and
  merges the answer under the lock of its metric and assignment:

      waiting → fetching → fetched → handled → locked → merged
              → unlocked → released → ended

  Locks live in a registry while someone holds a handle: the handle is taken,
  the lock is acquired, the merge is made, the lock is given back, the handle is
  dropped, and then the entry is removed if no handle is left.  Each arrow is one
  atomic step; `step` makes one step of one task, so that a list of moves is an
  interleaving.  Cancelling is a move of its own and can come at any time.
-/
import MetricCube.Fetch.Source
import MetricCube.Store
import MetricCube.Telemetry
import MetricCube.Text.Quoted

namespace MetricCube.Fetch

/-- What a merge comes to: the number of days it added, or nothing if it was cancelled. -/
abbrev MergeResult := Except InternalFault (Option Nat)

/-- How a task ends. -/
inductive Ending where
  | merged (days : Nat)
  | failed (error : SourceError)
  | faulted (fault : InternalFault)
  | cancelled
deriving DecidableEq

/-- Where a task stands; locks are known by number. -/
inductive Phase where
  | waiting
  /-- Holds a permit; the source is at work. -/
  | fetching
  /-- The source has answered; the permit is given back. -/
  | fetched (series : Series)
  /-- Holds a handle to a lock. -/
  | handled (series : Series) (lock : Nat)
  /-- Holds the lock. -/
  | locked (series : Series) (lock : Nat)
  /-- The merge is made; still holds the lock. -/
  | merged (result : MergeResult) (lock : Nat)
  /-- The lock is given back; still holds the handle. -/
  | unlocked (result : MergeResult) (lock : Nat)
  /-- The handle is dropped; the entry of the lock may be left. -/
  | released (result : MergeResult)
  | ended (ending : Ending)
  /-- The source broke down, and the task with it. -/
  | crashed (message : String)

namespace Phase

/-- The lock that the task holds a handle to. -/
def handle? : Phase → Option Nat
  | .handled _ l | .locked _ l | .merged _ l | .unlocked _ l => some l
  | _ => none

/-- The lock that the task holds. -/
def held? : Phase → Option Nat
  | .locked _ l | .merged _ l => some l
  | _ => none

/-- The task holds a permit. -/
def isFetching : Phase → Bool
  | .fetching => true
  | _ => false

/-- The task makes no further step. -/
def isOver : Phase → Bool
  | .ended _ | .crashed _ => true
  | _ => false

end Phase

/-- An item and where its task stands. -/
structure Task where
  item : FetchItem
  phase : Phase

/-- What is locked for a merge: the slices of a metric with one assignment. -/
abbrev MergeKey := String × Assignment

/-- The merge key of an item. -/
def mergeKey (i : FetchItem) : MergeKey :=
  (i.metric, i.assignment)

/-- The state of all tasks and of what they share. -/
structure Machine (σ : Type) where
  store : σ
  /-- How many calls of the source may run at a time. -/
  limit : Nat
  tasks : List Task
  /-- The registry of locks. -/
  locks : List (MergeKey × Nat)
  /-- The number of the next new lock. -/
  nextLock : Nat
  cancelled : Bool
  events : List Telemetry.Event
  /-- The number of calls of the source so far. -/
  calls : Nat
  /-- The largest number of calls that ran at a time so far. -/
  peak : Nat
  /-- The tasks that are over, in the order of their ends. -/
  ended : List Nat

/-- A move of the machine. -/
inductive Move where
  /-- Everything is cancelled. -/
  | cancel
  /-- A waiting or fetching task notices that it is cancelled. -/
  | abandon (task : Nat)
  /-- A waiting task takes a permit and calls the source. -/
  | start (task : Nat)
  /-- The source answers a fetching task. -/
  | answer (task : Nat) (reply : Reply)
  /-- A task that has its series makes its next step. -/
  | advance (task : Nat)

namespace Machine

variable {σ : Type}

/-! ## §1. Shared state. -/

/-- The machine before its first step. -/
def initial (store : σ) (limit : Nat) (cancelled : Bool) (items : List FetchItem) : Machine σ where
  store := store
  limit := limit
  tasks := items.map fun i => ⟨i, .waiting⟩
  locks := []
  nextLock := 0
  cancelled := cancelled
  events := []
  calls := 0
  peak := 0
  ended := []

/-- The number of calls of the source that run now. -/
def inFlight (m : Machine σ) : Nat :=
  m.tasks.countP fun t => t.phase.isFetching

/-- The number of handles to a lock. -/
def handles (m : Machine σ) (lock : Nat) : Nat :=
  m.tasks.countP fun t => t.phase.handle? == some lock

/-- Some task holds the lock. -/
def isHeld (m : Machine σ) (lock : Nat) : Bool :=
  m.tasks.any fun t => t.phase.held? == some lock

/-- The lock that is registered for a key. -/
def lockOf? (m : Machine σ) (key : MergeKey) : Option Nat :=
  (m.locks.find? fun e => e.1 = key).map Prod.snd

/-- Puts a task in its place. -/
def put (m : Machine σ) (i : Nat) (t : Task) : Machine σ :=
  { m with tasks := m.tasks.set i t }

/-- Puts a task in its place that makes no further step. -/
def putLast (m : Machine σ) (i : Nat) (t : Task) : Machine σ :=
  { m.put i t with ended := m.ended ++ [i] }

/-- The tasks that are over, in the order of their ends. -/
def endedTasks (m : Machine σ) : List Task :=
  m.ended.filterMap fun i => m.tasks[i]?

/-- Reports an event. -/
def report (m : Machine σ) (e : Telemetry.Event) : Machine σ :=
  { m with events := m.events ++ [e] }

/-- The event that a task ends with. -/
def endEvent (metric : String) : Ending → Telemetry.Event
  | .merged days => .fetchFinished metric .merged days
  | .failed _ => .fetchFinished metric .failed 0
  | .faulted _ => .fetchFinished metric .failed 0
  | .cancelled => .fetchFinished metric .cancelled 0

/-- Ends a task. -/
def finish (m : Machine σ) (i : Nat) (item : FetchItem) (e : Ending) : Machine σ :=
  (m.putLast i ⟨item, .ended e⟩).report (endEvent item.metric e)

/-- Ends a task that fails in flight: with the given ending if its item may fail now, and
    with the fault otherwise. -/
def finishFailed (m : Machine σ) (i : Nat) (item : FetchItem) (retryable : Bool) (e : Ending) :
    Machine σ :=
  match item.fail retryable with
  | .ok item => m.finish i item e
  | .error fault => m.finish i item (.faulted fault)

/-! ## §2. The steps of a task. -/

/-- A waiting task calls the source, if a permit is free. -/
def start? (m : Machine σ) (i : Nat) (t : Task) : Option (Machine σ) :=
  match t.phase with
  | .waiting =>
    if m.inFlight < m.limit then
      match t.item.start with
      | .error fault => some (m.finish i t.item (.faulted fault))
      | .ok item =>
        let m := (m.put i ⟨item, .fetching⟩).report (.fetchStarted item.metric)
        some { m with calls := m.calls + 1, peak := max m.peak m.inFlight }
    else none
  | _ => none

/-- The source answers. -/
def answer? (m : Machine σ) (i : Nat) (t : Task) (reply : Reply) : Option (Machine σ) :=
  match t.phase with
  | .fetching =>
    match reply with
    | .crash message => some (m.putLast i ⟨t.item, .crashed message⟩)
    | .error e => some (m.finishFailed i t.item e.isRetryable (.failed e))
    | .series s =>
      match withinRange t.item s with
      | .error e => some (m.finishFailed i t.item e.isRetryable (.failed e))
      | .ok s => some (m.put i ⟨t.item, .fetched s⟩)
  | _ => none

/-- A task notices that it is cancelled. -/
def abandon? (m : Machine σ) (i : Nat) (t : Task) : Option (Machine σ) :=
  if m.cancelled then
    match t.phase with
    | .waiting => some (m.finish i t.item .cancelled)
    | .fetching => some (m.finishFailed i t.item true .cancelled)
    | _ => none
  else none

/-- Takes a handle to the lock of a key, which is registered if it is not yet. -/
def takeHandle (m : Machine σ) (key : MergeKey) : Nat × Machine σ :=
  match m.lockOf? key with
  | some l => (l, m)
  | none =>
    (m.nextLock, { m with locks := (key, m.nextLock) :: m.locks, nextLock := m.nextLock + 1 })

/-- The merge of a series: nothing if cancelled, nothing to do for an empty series.  The item
    fails when the merge is cancelled. -/
def mergeSeries (b : Backend σ) (m : Machine σ) (item : FetchItem) (s : Series) :
    MergeResult × FetchItem × σ :=
  if m.cancelled then
    -- Cancelling wins as long as nothing has been written.
    match item.fail true with
    | .ok item => (.ok none, item, m.store)
    | .error fault => (.error fault, item, m.store)
  else if s.isEmpty then (.ok (some 0), item, m.store)
  else
    match b.merge m.store item.metric ⟨item.assignment, .daily s, item.signature⟩ with
    | .ok (r, store) => (.ok (some r.added), item, store)
    | .error fault => (.error fault, item, m.store)

/-- Removes the entry of a lock that has no handle. -/
def releaseLock (m : Machine σ) (key : MergeKey) : Machine σ :=
  match m.lockOf? key with
  | some l =>
    -- Handles are taken from the registry only, so a lock without handles has no user.
    if m.handles l = 0 then { m with locks := m.locks.filter fun e => e.1 ≠ key } else m
  | none => m

/-- The ending that a merge leads to. -/
def endingOf : MergeResult → Ending
  | .ok (some days) => .merged days
  | .ok none => .cancelled
  | .error fault => .faulted fault

/-- A task that has its series makes its next step. -/
def advance? (b : Backend σ) (m : Machine σ) (i : Nat) (t : Task) : Option (Machine σ) :=
  match t.phase with
  | .fetched s =>
    let (l, m) := m.takeHandle (mergeKey t.item)
    some (m.put i ⟨t.item, .handled s l⟩)
  | .handled s l => if m.isHeld l then none else some (m.put i ⟨t.item, .locked s l⟩)
  | .locked s l =>
    let (r, item, store) := mergeSeries b m t.item s
    some { m.put i ⟨item, .merged r l⟩ with store := store }
  | .merged r l => some (m.put i ⟨t.item, .unlocked r l⟩)
  | .unlocked r _ => some (m.put i ⟨t.item, .released r⟩)
  | .released r => some ((m.releaseLock (mergeKey t.item)).finish i t.item (endingOf r))
  | _ => none

/-! ## §3. Moves and runs. -/

/-- Makes one move; nothing if it is not possible now. -/
def step (b : Backend σ) (m : Machine σ) : Move → Option (Machine σ)
  | .cancel => some { m with cancelled := true }
  | .abandon i => m.tasks[i]?.bind (m.abandon? i)
  | .start i => m.tasks[i]?.bind (m.start? i)
  | .answer i reply => m.tasks[i]?.bind fun t => m.answer? i t reply
  | .advance i => m.tasks[i]?.bind (advance? b m i)

/-- Makes moves in order; nothing if one of them is not possible. -/
def run (b : Backend σ) (m : Machine σ) : List Move → Option (Machine σ)
  | [] => some m
  | move :: rest => (m.step b move).bind fun m => m.run b rest

/-- Makes a move if it is possible now. -/
def attempt (b : Backend σ) (m : Machine σ) (move : Move) : Machine σ :=
  (m.step b move).getD m

/-- Every task is over. -/
def isOver (m : Machine σ) : Bool :=
  m.tasks.all fun t => t.phase.isOver

end Machine

/-- The fault of a task that broke down. -/
def crashFault (message : String) : InternalFault :=
  .dispatchInternal ("fetch task failed: task # panicked with message " ++ Text.quoted message)

end MetricCube.Fetch
