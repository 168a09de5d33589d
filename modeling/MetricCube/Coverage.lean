/-
  MetricCube.Coverage
  ───────────────────
  **What a request lacks.**  The coverage of a requested range by a set of days
  is the list of its gaps: the maximal stretches of requested days that are not
  in the set, in ascending order.  Several series are covered where all of them
  are; no series at all covers nothing.

  A single count over a window answers a request for exactly that window, and,
  when allowed, a request inside the window by its share of days.
-/
import MetricCube.Series

namespace MetricCube

/-- The gaps of a request. -/
structure Coverage where
  gaps : List DateRange
deriving DecidableEq

namespace Coverage

/-- Nothing is missing. -/
def isFull (c : Coverage) : Bool :=
  c.gaps.isEmpty

/-- The days from `lo` up to the day before `d`. -/
def gapBefore (lo d : Date) : List DateRange :=
  if h : lo < d then
    [⟨lo, d.prev, by
      have h₁ := Date.lt_def.1 h
      have h₂ := Date.days_prev h
      exact Date.le_def.2 (by omega)⟩]
  else []

/-- The gaps from `lo` to `hi` that ascending covered days of that stretch leave. -/
def gapsFrom (lo hi : Date) : List Date → List DateRange
  | [] => if h : lo ≤ hi then [⟨lo, hi, h⟩] else []
  | d :: ds => gapBefore lo d ++ if d < hi then gapsFrom d.next hi ds else []

/-- The coverage of a range by ascending days. -/
def ofDates (r : DateRange) (ds : List Date) : Coverage :=
  ⟨gapsFrom r.start r.stop (ds.filter r.contains)⟩

/-- The coverage of a range by a series. -/
def ofSeries (s : Series) (r : DateRange) : Coverage :=
  ofDates r s.dates

/-- The common days of two ascending lists of days. -/
def commonDates : List Date → List Date → List Date
  | [], _ => []
  | d :: ds, es =>
    let later := es.dropWhile fun e => decide (e < d)
    if later.head? = some d then d :: commonDates ds later else commonDates ds later

/-- The days that every listed series has; none when no series is listed. -/
def jointDates : List Series → List Date
  | [] => []
  | s :: rest => rest.foldl (fun ds t => commonDates ds t.dates) s.dates

/-- The coverage of a range by several series together. -/
def joint (series : List Series) (r : DateRange) : Coverage :=
  ofDates r (jointDates series)

end Coverage

/-! ## Counts over a window. -/

/-- One count for all days of a range. -/
structure Window where
  range : DateRange
  counts : Count
deriving DecidableEq

/-- How a window answers a request. -/
inductive WindowCoverage where
  | exact (counts : Count)
  | prorated (counts : Count) (cached : DateRange)
  | uncovered
deriving DecidableEq

/-- A window answers its own range, and a part of it by the share of days if
    `allowProrate` is set. -/
def Window.cover (w : Window) (requested : DateRange) (allowProrate : Bool) : WindowCoverage :=
  if w.range = requested then .exact w.counts
  else if allowProrate && w.range.containsRange requested then
    .prorated (w.counts.prorate requested.lengthWord w.range.lengthWord) w.range
  else .uncovered

end MetricCube
