/-
  MetricCube.Fetch.Resolve
  ────────────────────────
  **Resolving a request.**  Plan; if the plan asks for fetches, dispatch them and
  plan again.  This ends when a plan needs nothing, when no round is left, when
  everything is cancelled, or when a round has stalled, after which one more
  plan is made.  The last plan is the result.

  `resolveWith` is this loop over any way to plan and to dispatch; `resolve` is
  the loop over a store and a source.
-/
import MetricCube.Fetch.Dispatch

namespace MetricCube.Fetch

/-- The last plan, and the report of each round. -/
structure Resolution where
  plan : Plan
  rounds : List Report

/-- The number of days that were fetched. -/
def Resolution.daysFetched (r : Resolution) : Nat :=
  (r.rounds.map Report.daysAdded).foldl (· + ·) 0

/-- Why a request cannot be resolved. -/
inductive ResolveError where
  | unreadable (fault : InternalFault)
  | overflow (cause : Overflow)
  | dispatch (error : DispatchError)
deriving DecidableEq

/-! ## §1. The loop. -/

/-- How a loop plans and dispatches in worlds of type `ω`. -/
structure Strategy (ω : Type) where
  plan : ω → Except ResolveError Plan × ω
  dispatch : ω → List FetchItem → Except ResolveError Report × ω
  cancelled : ω → Bool

variable {ω : Type}

/-- A resolution with one more round in front. -/
def Resolution.after (report : Report) (r : Resolution) : Resolution :=
  { r with rounds := report :: r.rounds }

/-- Plans for the last time. -/
def Strategy.conclude (s : Strategy ω) (w : ω) : Except ResolveError Resolution × ω :=
  let (plan, w) := s.plan w
  (plan.map fun p => ⟨p, []⟩, w)

/-- Plans and dispatches for at most the given number of rounds. -/
def resolveWith (s : Strategy ω) : (roundsLeft : Nat) → ω → Except ResolveError Resolution × ω
  | 0, w => s.conclude w
  | left + 1, w =>
    match s.plan w with
    | (.error e, w) => (.error e, w)
    | (.ok plan, w) =>
      match plan.outcome with
      | .needsFetch items =>
        if s.cancelled w then (.ok ⟨plan, []⟩, w)
        else
          match s.dispatch w items with
          | (.error e, w) => (.error e, w)
          | (.ok report, w) =>
            -- A stalled round has still changed the store, so the result is planned anew.
            let (rest, w) := if report.isStalled then s.conclude w else resolveWith s left w
            (rest.map (Resolution.after report), w)
      | _ => (.ok ⟨plan, []⟩, w)

/-! ## §2. Planning and dispatching over a store and a source. -/

variable {σ τ : Type}

/-- Plans over the slices that are stored now. -/
def planStored (p : Planner) (b : Backend σ) (req : Request) (w : World σ τ) :
    Except ResolveError Plan × World σ τ :=
  match b.load w.store req.metric with
  | .error fault => (.error (.unreadable fault), w)
  | .ok slices =>
    let planning := p.plan slices req
    (planning.result.mapError .overflow, { w with events := w.events ++ planning.events })

/-- Plans and dispatches over a store and a source. -/
def strategy (p : Planner) (d : Dispatcher σ τ) (req : Request) : Strategy (World σ τ) where
  plan := planStored p d.backend req
  dispatch w items :=
    let (report, w) := d.execute w req.metric items
    (report.mapError .dispatch, w)
  cancelled w := w.cancelled

/-- Resolves a request. -/
def resolve (p : Planner) (d : Dispatcher σ τ) (req : Request) (w : World σ τ) :
    Except ResolveError Resolution × World σ τ :=
  resolveWith (strategy p d req) d.settings.maxRounds w

end MetricCube.Fetch
