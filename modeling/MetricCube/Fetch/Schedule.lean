/-
  MetricCube.Fetch.Schedule
  ─────────────────────────
  **Turns of fetch tasks.**  Tasks take turns, one at a time, in the order of a
  queue.  In its turn a task goes on as far as it can:

    • it waits in line, if no permit is free, and is queued again when a permit
      is given back and nobody is before it in the line;
    • it calls the source, and gives way as often as calls do before the answer
      is there;
    • it takes the answer, merges it and is over.

  Tasks that have given way are queued again at the next break, the latest
  first.  There is a break when the queue has run out, and after every 61 turns.
  Tasks that broke down are noticed in breaks only.

  A call that does not answer leaves its task, and its permit, where they are
  until everything is cancelled.  Cancelling queues every task.
-/
import MetricCube.Fetch.Report
import MetricCube.Settings

namespace MetricCube.Fetch

/-- What dispatching needs. -/
structure Dispatcher (σ τ : Type) where
  settings : DispatchSettings
  backend : Backend σ
  source : Source τ
  /-- How often a call of the source gives way before it answers. -/
  pauses : Nat

/-- A call of the source that is under way. -/
structure Call where
  task : Nat
  /-- How often it still gives way. -/
  pauses : Nat
  answer : Answer

/-- A machine at work with a source. -/
structure Run (σ τ : Type) where
  machine : Machine σ
  /-- The memory of the source. -/
  memory : τ
  calls : List Call
  /-- The tasks whose turn comes, in order. -/
  queue : List Nat
  /-- The tasks that wait for a permit, in order. -/
  line : List Nat
  /-- The tasks that have given way since the last break, the latest first. -/
  resting : List Nat
  /-- The number of turns since the last break. -/
  turns : Nat
  /-- The number of tasks whose end has been noticed. -/
  noticed : Nat

/-- The number of turns after which there is a break. -/
def turnsPerBreak : Nat := 61

namespace Run

variable {σ τ : Type}

/-- The run before its first turn. -/
def initial (machine : Machine σ) (memory : τ) : Run σ τ :=
  ⟨machine, memory, [], List.range machine.tasks.length, [], [], 0, 0⟩

/-- Task `i` is over. -/
def isOver (r : Run σ τ) (i : Nat) : Bool :=
  r.machine.tasks[i]?.any fun t => t.phase.isOver

/-- The event of a task that broke down. -/
def crashEvent? (t : Task) : Option Telemetry.Event :=
  match t.phase with
  | .crashed _ => some (.fetchFinished t.item.metric .failed 0)
  | _ => none

/-- Notices the ends of tasks, and reports those that broke down. -/
def notice (r : Run σ τ) : Run σ τ :=
  let ended := r.machine.endedTasks.drop r.noticed
  { r with
    machine := (ended.filterMap crashEvent?).foldl Machine.report r.machine
    noticed := r.noticed + ended.length }

/-- A break: tasks that have given way are queued again. -/
def rest (r : Run σ τ) : Run σ τ :=
  notice { r with queue := r.queue ++ r.resting, resting := [], turns := 0 }

/-- The first task in line is queued for a permit that has been given back. -/
def grant (r : Run σ τ) : Run σ τ :=
  match r.line with
  | [] => r
  | i :: line => { r with line := line, queue := r.queue ++ [i] }

/-- Every task that is not over is queued. -/
def rouse (r : Run σ τ) : Run σ τ :=
  let others := (List.range r.machine.tasks.length).filter fun i =>
    !r.queue.contains i && !r.isOver i
  { r with queue := r.queue ++ others, line := [], resting := [] }

/-- A call gives way once more. -/
def giveWay (r : Run σ τ) (i : Nat) : Run σ τ :=
  { r with
    calls := r.calls.map fun c => if c.task = i then { c with pauses := c.pauses - 1 } else c
    resting := i :: r.resting }

end Run

namespace Dispatcher

variable {σ τ : Type}

/-- The number of permits; there is at least one. -/
def limit (d : Dispatcher σ τ) : Nat :=
  max d.settings.maxConcurrentFetches 1

/-! ## §1. One turn. -/

/-- A task notices that it is cancelled. -/
def abandon (d : Dispatcher σ τ) (r : Run σ τ) (i : Nat) : Run σ τ :=
  { r with machine := r.machine.attempt d.backend (.abandon i) }

/-- A task goes on to its end. -/
def complete (d : Dispatcher σ τ) (m : Machine σ) (i : Nat) : Machine σ :=
  (List.range 6).foldl (fun m _ => m.attempt d.backend (.advance i)) m

/-- A task takes the answer that it waited for. -/
def settle (d : Dispatcher σ τ) (r : Run σ τ) (i : Nat) (a : Answer) : Run σ τ :=
  -- A call that cancels everything still has its own answer taken.
  let m := if a.cancels then r.machine.attempt d.backend .cancel else r.machine
  let m := match a.reply with
    | none => m.attempt d.backend (.abandon i)
    | some reply => d.complete (m.attempt d.backend (.answer i reply)) i
  let r := { r with machine := m }
  if a.cancels then r.rouse else r

/-- A task with a call under way goes on. -/
def proceed (d : Dispatcher σ τ) (r : Run σ τ) (i : Nat) : Run σ τ :=
  match r.calls.find? fun c => c.task = i with
  | none => r
  | some c =>
    if r.machine.cancelled then d.abandon r i
    else if c.pauses = 0 then d.settle r i c.answer
    else r.giveWay i

/-- A task that has just got its permit calls the source. -/
def callSource (d : Dispatcher σ τ) (r : Run σ τ) (i : Nat) (item : FetchItem) : Run σ τ :=
  let (answer, memory) := d.source r.memory item
  d.proceed { r with memory := memory, calls := ⟨i, d.pauses, answer⟩ :: r.calls } i

/-- A waiting task takes a permit, or gets in line. -/
def begin (d : Dispatcher σ τ) (r : Run σ τ) (i : Nat) : Run σ τ :=
  if r.machine.cancelled then d.abandon r i
  else
    match r.machine.step d.backend (.start i) with
    | none => { r with line := r.line ++ [i] }
    | some m =>
      let r := { r with machine := m }
      match m.tasks[i]? with
      | some ⟨item, .fetching⟩ => d.callSource r i item
      | _ => r

/-- The turn of task `i`; when it is over, so is its use of a permit. -/
def turn (d : Dispatcher σ τ) (r : Run σ τ) (i : Nat) : Run σ τ :=
  let r := match r.machine.tasks[i]? with
    | some ⟨_, .waiting⟩ => d.begin r i
    | some ⟨_, .fetching⟩ => d.proceed r i
    | _ => r
  if r.isOver i then r.grant else r

/-! ## §2. All turns. -/

/-- Takes turns until nobody is queued or rests. -/
def takeTurns (d : Dispatcher σ τ) : (fuel : Nat) → Run σ τ → Run σ τ
  | 0, r => r
  | fuel + 1, r =>
    match r.queue with
    | [] => if r.resting.isEmpty then r else d.takeTurns fuel r.rest
    | i :: queue =>
      if r.turns = turnsPerBreak then d.takeTurns fuel r.rest
      else d.takeTurns fuel (d.turn { r with queue := queue, turns := r.turns + 1 } i)

/-- Enough fuel: a task begins, is queued from the line, gives way, answers and is roused, and
    there may be a break after each turn and another one before a task that gave way goes on. -/
def fuelFor (d : Dispatcher σ τ) (count : Nat) : Nat :=
  count * (3 * d.pauses + 8) + 2

/-- Abandons what is left; a run that nothing moves any more is cancelled. -/
def close (d : Dispatcher σ τ) (m : Machine σ) : Machine σ :=
  let m := if m.isOver then m else m.attempt d.backend .cancel
  (List.range m.tasks.length).foldl (fun m i => m.attempt d.backend (.abandon i)) m

/-- Runs the tasks of the given items to their ends. -/
def runTasks (d : Dispatcher σ τ) (store : σ) (memory : τ) (cancelled : Bool)
    (items : List FetchItem) : Run σ τ :=
  let start := Run.initial (Machine.initial store d.limit cancelled items) memory
  let r := d.takeTurns (d.fuelFor items.length) start
  Run.notice { r with machine := d.close r.machine }

end Dispatcher

end MetricCube.Fetch
