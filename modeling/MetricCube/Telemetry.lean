/-
  MetricCube.Telemetry
  ────────────────────
  **Events and counters.**  Planning and fetching report events.  Counters add
  them up, in total and for each metric that was planned for or merged into, and
  stay at the largest 64-bit number once they reach it.  A scope captures the
  events of a stretch of work in place of the counters.
-/
import MetricCube.Count
import MetricCube.Ordered
import MetricCube.Table
import MetricCube.Text.Digits

namespace MetricCube.Telemetry

/-- How planning ended. -/
inductive PlanEnd where
  | satisfied
  | needsFetch
  | refused
deriving DecidableEq, Repr

/-- How a fetch ended. -/
inductive FetchEnd where
  | merged
  | failed
  | cancelled
  | overBudget
deriving DecidableEq, Repr

/-- Something that happened for a metric. -/
inductive Event where
  | planFinished (metric : String) (ending : PlanEnd) (items : Nat)
  | signatureRejected (metric : String)
  | reduced (metric : String) (complete : Bool)
  | fetchStarted (metric : String)
  | fetchFinished (metric : String) (ending : FetchEnd) (days : Nat)
deriving DecidableEq

/-! ## §1. Events as text. -/

/-- The name of an ending. -/
def PlanEnd.name : PlanEnd → String
  | .satisfied => "Satisfied"
  | .needsFetch => "NeedsFetch"
  | .refused => "Refused"

/-- The name of an ending. -/
def FetchEnd.name : FetchEnd → String
  | .merged => "Merged"
  | .failed => "Failed"
  | .cancelled => "Cancelled"
  | .overBudget => "OverBudget"

/-- An event on one line. -/
def Event.text : Event → String
  | .planFinished m e items =>
    "plan_finish " ++ m ++ " " ++ e.name ++ " " ++ Text.decimal items
  | .signatureRejected m => "signature_rejected " ++ m
  | .reduced m complete => "reduction " ++ m ++ " " ++ (if complete then "true" else "false")
  | .fetchStarted m => "fetch_start " ++ m
  | .fetchFinished m e days =>
    "fetch_finish " ++ m ++ " " ++ e.name ++ " " ++ Text.decimal days

/-! ## §2. Counters. -/

/-- Adds to a counter, which stays at its largest value. -/
def bump (counter amount : Nat) : Nat :=
  min (counter + amount) (counterBound - 1)

/-- Counters over all metrics. -/
structure Totals where
  planCalls : Nat
  planSatisfied : Nat
  planNeedsFetch : Nat
  planRefused : Nat
  signatureRejections : Nat
  reductionsComplete : Nat
  reductionsPartial : Nat
  fetchItemsPlanned : Nat
  fetchesStarted : Nat
  fetchesMerged : Nat
  fetchesFailed : Nat
  fetchesCancelled : Nat
  fetchesOverBudget : Nat
  daysMerged : Nat
deriving DecidableEq

/-- Counters of one metric. -/
structure MetricTotals where
  planCalls : Nat
  planSatisfied : Nat
  planNeedsFetch : Nat
  planRefused : Nat
  fetchesMerged : Nat
  daysMerged : Nat
deriving DecidableEq

/-- All counters. -/
structure Counters where
  totals : Totals
  metrics : Table MetricTotals

/-- Nothing counted yet. -/
def Totals.zero : Totals := ⟨0, 0, 0, 0, 0, 0, 0, 0, 0, 0, 0, 0, 0, 0⟩

/-- Nothing counted yet. -/
def MetricTotals.zero : MetricTotals := ⟨0, 0, 0, 0, 0, 0⟩

/-- Nothing counted yet. -/
def Counters.zero : Counters := ⟨.zero, Table.empty⟩

/-- The totals after one more event. -/
def Totals.record (t : Totals) : Event → Totals
  | .planFinished _ ending items =>
    let t := { t with
      planCalls := bump t.planCalls 1
      fetchItemsPlanned := bump t.fetchItemsPlanned items }
    match ending with
    | .satisfied => { t with planSatisfied := bump t.planSatisfied 1 }
    | .needsFetch => { t with planNeedsFetch := bump t.planNeedsFetch 1 }
    | .refused => { t with planRefused := bump t.planRefused 1 }
  | .signatureRejected _ => { t with signatureRejections := bump t.signatureRejections 1 }
  | .reduced _ true => { t with reductionsComplete := bump t.reductionsComplete 1 }
  | .reduced _ false => { t with reductionsPartial := bump t.reductionsPartial 1 }
  | .fetchStarted _ => { t with fetchesStarted := bump t.fetchesStarted 1 }
  | .fetchFinished _ ending days =>
    match ending with
    | .merged =>
      { t with fetchesMerged := bump t.fetchesMerged 1, daysMerged := bump t.daysMerged days }
    | .failed => { t with fetchesFailed := bump t.fetchesFailed 1 }
    | .cancelled => { t with fetchesCancelled := bump t.fetchesCancelled 1 }
    | .overBudget => { t with fetchesOverBudget := bump t.fetchesOverBudget 1 }

/-- The metric whose own counters an event moves. -/
def Event.counted? : Event → Option String
  | .planFinished m _ _ => some m
  | .fetchFinished m .merged _ => some m
  | _ => none

/-- The counters of a metric after one more event of it. -/
def MetricTotals.record (t : MetricTotals) : Event → MetricTotals
  | .planFinished _ ending _ =>
    let t := { t with planCalls := bump t.planCalls 1 }
    match ending with
    | .satisfied => { t with planSatisfied := bump t.planSatisfied 1 }
    | .needsFetch => { t with planNeedsFetch := bump t.planNeedsFetch 1 }
    | .refused => { t with planRefused := bump t.planRefused 1 }
  | .fetchFinished _ .merged days =>
    { t with fetchesMerged := bump t.fetchesMerged 1, daysMerged := bump t.daysMerged days }
  | _ => t

/-- All counters after one more event. -/
def Counters.record (c : Counters) (e : Event) : Counters :=
  let totals := c.totals.record e
  match e.counted? with
  | none => ⟨totals, c.metrics⟩
  | some m => ⟨totals, c.metrics.insert m (((c.metrics.get? m).getD .zero).record e)⟩

/-- All counters after further events, in order. -/
def Counters.recordAll (c : Counters) (es : List Event) : Counters :=
  es.foldl Counters.record c

/-! ## §3. Reports. -/

/-- The metrics with their counters, the most planned for first, then by name. -/
def Counters.ranking (c : Counters) : List (String × MetricTotals) :=
  Ordered.sortWith (fun a b => decide (b.2.planCalls ≤ a.2.planCalls)) c.metrics.entries

/-- The share of plans that were satisfied, in double precision; zero without plans. -/
def MetricTotals.hitRatio (t : MetricTotals) : Float :=
  if t.planCalls = 0 then 0
  else t.planSatisfied.toUInt64.toFloat / t.planCalls.toUInt64.toFloat

/-! ## §4. Where events go. -/

/-- Events go to the counters, or, inside a scope, only to the scope. -/
structure Recorder where
  counters : Counters
  /-- What the innermost scope has captured; none outside of scopes. -/
  scope : Option (List Event)

namespace Recorder

/-- Nothing recorded yet. -/
def zero : Recorder := ⟨.zero, none⟩

/-- Takes up an event. -/
def record (r : Recorder) (e : Event) : Recorder :=
  match r.scope with
  | some es => { r with scope := some (es ++ [e]) }
  | none => { r with counters := r.counters.record e }

/-- Takes up events in order. -/
def recordAll (r : Recorder) (es : List Event) : Recorder :=
  es.foldl record r

/-- Opens a scope. -/
def enter (r : Recorder) : Recorder :=
  { r with scope := some [] }

/-- Closes the scope that was opened in `outer`: what it captured, and the recorder after it. -/
def leave (inner outer : Recorder) : List Event × Recorder :=
  (inner.scope.getD [], { inner with scope := outer.scope })

/-- Sets all counters to zero. -/
def reset (r : Recorder) : Recorder :=
  { r with counters := .zero }

end Recorder

end MetricCube.Telemetry
