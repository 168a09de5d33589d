/-
  MetricCube.Series
  ─────────────────
  **Daily series.**  A series is a finite map from days to counts, kept as its
  points in strictly ascending order of days; the order is part of the type.
  `get?` is the map, and every operation is described through it:

    • `ofPoints` accepts exactly the strictly ascending lists;
    • `merge` is the union of two series in which the first one wins;
    • `clip` keeps the days of a range;
    • `accumulate` adds two series with the same days, day by day;
    • `runs` are the maximal stretches of consecutive days.
-/
import MetricCube.Calendar.DateRange
import MetricCube.Count

namespace MetricCube

/-- The count of one day. -/
structure Point where
  date : Date
  counts : Count
deriving DecidableEq

/-- Points by day, in strictly ascending order. -/
structure Series where
  points : List Point
  ascending : points.Pairwise fun p q => p.date < q.date
deriving DecidableEq

/-- Why a list of points is not a series. -/
inductive SeriesError where
  | duplicateDate (date : Date)
  | notIncreasing (earlier later : Date)
deriving DecidableEq

/-- The wording of a series error. -/
def SeriesError.message : SeriesError → String
  | .duplicateDate d => "duplicate date " ++ d.text ++ " in time series"
  | .notIncreasing a b =>
    "time series dates not increasing: " ++ a.text ++ " followed by " ++ b.text

namespace Series

theorem ext_points {s t : Series} (h : s.points = t.points) : s = t := by
  cases s; cases t; cases h; rfl

/-! ## §1. Building. -/

/-- The series without points. -/
def empty : Series := ⟨[], List.Pairwise.nil⟩

instance : Inhabited Series := ⟨empty⟩

/-- What is wrong with two neighbouring points, if anything. -/
def stepFault? (p q : Point) : Option SeriesError :=
  if p.date = q.date then some (.duplicateDate q.date)
  else if q.date < p.date then some (.notIncreasing p.date q.date)
  else none

/-- The first fault of a list of points, given the point in front of it. -/
def faultAfter? : Point → List Point → Option SeriesError
  | _, [] => none
  | p, q :: rest =>
    match stepFault? p q with
    | some e => some e
    | none => faultAfter? q rest

/-- The first fault of a list of points: two neighbours out of order. -/
def fault? : List Point → Option SeriesError
  | [] => none
  | p :: rest => faultAfter? p rest

theorem lt_of_stepFault? {p q : Point} (h : stepFault? p q = none) : p.date < q.date := by
  unfold stepFault? at h
  split at h
  · cases h
  · split at h
    · cases h
    · rename_i h₁ h₂
      have h₃ : ¬ p.date.days = q.date.days := fun e => h₁ (Date.ext_days e)
      have h₄ : ¬ q.date.days < p.date.days := h₂
      exact Date.lt_def.2 (by omega)

theorem ascending_of_faultAfter? {rest : List Point} : ∀ {p : Point}, faultAfter? p rest = none →
    (p :: rest).Pairwise fun p q => p.date < q.date := by
  induction rest with
  | nil => intro p _; exact List.pairwise_singleton _ _
  | cons q rest ih =>
    intro p h
    unfold faultAfter? at h
    split at h
    · cases h
    · rename_i hstep
      have hpq := lt_of_stepFault? hstep
      have htail := ih h
      refine List.Pairwise.cons ?_ htail
      intro r hr
      rcases List.mem_cons.1 hr with rfl | hr
      · exact hpq
      · exact Int.lt_trans hpq (List.rel_of_pairwise_cons htail hr)

theorem ascending_of_fault? {ps : List Point} (h : fault? ps = none) :
    ps.Pairwise fun p q => p.date < q.date := by
  cases ps with
  | nil => exact List.Pairwise.nil
  | cons p rest => exact ascending_of_faultAfter? h

/-- The series of a list of points, if the list is strictly ascending. -/
def ofPoints (ps : List Point) : Except SeriesError Series :=
  match h : fault? ps with
  | some e => .error e
  | none => .ok ⟨ps, ascending_of_fault? h⟩

/-! ## §2. Looking up. -/

/-- The days that have a point. -/
def dates (s : Series) : List Date :=
  s.points.map Point.date

/-- The number of points. -/
def size (s : Series) : Nat :=
  s.points.length

/-- There are no points. -/
def isEmpty (s : Series) : Bool :=
  s.points.isEmpty

/-- The count of a day. -/
def get? (s : Series) (d : Date) : Option Count :=
  (s.points.find? fun p => p.date = d).map Point.counts

/-- The day has a point. -/
def contains (s : Series) (d : Date) : Bool :=
  (s.get? d).isSome

/-- The sum over all days. -/
def total (s : Series) : Except Overflow Count :=
  Count.sum (s.points.map Point.counts)

/-- Two series have the same days. -/
def sameDates (s t : Series) : Bool :=
  s.dates == t.dates

/-! ## §3. Clipping and merging. -/

/-- The points on the days of a range. -/
def clip (s : Series) (r : DateRange) : Series :=
  ⟨s.points.filter fun p => r.contains p.date, s.ascending.filter _⟩

/-- The union of two ascending lists of points; on a common day the first list wins. -/
def mergePoints : List Point → List Point → List Point
  | [], ys => ys
  | x :: xs, ys =>
    (ys.takeWhile fun y => decide (y.date < x.date))
      ++ x :: mergePoints xs (ys.dropWhile fun y => decide (y.date ≤ x.date))

theorem mem_mergePoints {xs ys : List Point} {p : Point} (h : p ∈ mergePoints xs ys) :
    p ∈ xs ∨ p ∈ ys := by
  induction xs generalizing ys with
  | nil => exact Or.inr h
  | cons x xs ih =>
    rcases List.mem_append.1 h with h | h
    · exact Or.inr ((List.takeWhile_sublist _).subset h)
    · rcases List.mem_cons.1 h with rfl | h
      · exact Or.inl List.mem_cons_self
      · rcases ih h with h | h
        · exact Or.inl (List.mem_cons_of_mem _ h)
        · exact Or.inr ((List.dropWhile_sublist _).subset h)

theorem lt_of_mem_dropWhile {x : Point} {ys : List Point}
    (hy : ys.Pairwise fun p q => p.date < q.date) {q : Point}
    (hq : q ∈ ys.dropWhile fun y => decide (y.date ≤ x.date)) : x.date < q.date := by
  induction ys with
  | nil => cases hq
  | cons y ys ih =>
    rw [List.dropWhile_cons] at hq
    split at hq
    · exact ih hy.of_cons hq
    · rename_i hle
      have hxy : x.date < y.date := by
        have hle' : ¬ y.date.days ≤ x.date.days := by simpa [Date.le_def] using hle
        exact Date.lt_def.2 (by omega)
      rcases List.mem_cons.1 hq with rfl | hq
      · exact hxy
      · exact Int.lt_trans hxy (List.rel_of_pairwise_cons hy hq)

theorem lt_of_mem_takeWhile {x : Point} {ys : List Point} {q : Point}
    (hq : q ∈ ys.takeWhile fun y => decide (y.date < x.date)) : q.date < x.date := by
  induction ys with
  | nil => cases hq
  | cons y ys ih =>
    rw [List.takeWhile_cons] at hq
    split at hq
    · rename_i hlt
      rcases List.mem_cons.1 hq with rfl | hq
      · simpa using hlt
      · exact ih hq
    · cases hq

theorem ascending_mergePoints {xs ys : List Point}
    (hx : xs.Pairwise fun p q => p.date < q.date)
    (hy : ys.Pairwise fun p q => p.date < q.date) :
    (mergePoints xs ys).Pairwise fun p q => p.date < q.date := by
  induction xs generalizing ys with
  | nil => exact hy
  | cons x xs ih =>
    have hafter : ∀ q ∈ mergePoints xs (ys.dropWhile fun y => decide (y.date ≤ x.date)),
        x.date < q.date := by
      intro q hq
      rcases mem_mergePoints hq with hq | hq
      · exact List.rel_of_pairwise_cons hx hq
      · exact lt_of_mem_dropWhile hy hq
    refine List.pairwise_append.2 ⟨hy.sublist (List.takeWhile_sublist _), ?_, ?_⟩
    · exact List.Pairwise.cons hafter
        (ih hx.of_cons (hy.sublist (List.dropWhile_sublist _)))
    · intro p hp q hq
      have hpx := lt_of_mem_takeWhile hp
      rcases List.mem_cons.1 hq with rfl | hq
      · exact hpx
      · exact Int.lt_trans hpx (hafter q hq)

/-- The union of two series; on a common day the first one wins. -/
def merge (s t : Series) : Series :=
  ⟨mergePoints s.points t.points, ascending_mergePoints s.ascending t.ascending⟩

/-- How many points a merge took over and how many it passed over. -/
structure MergeReport where
  added : Nat
  skipped : Nat
deriving DecidableEq, Repr

/-- What merging `t` into `s` takes over: the points on new days. -/
def mergeReport (s t : Series) : MergeReport :=
  let added := (s.merge t).size - s.size
  ⟨added, t.size - added⟩

/-! ## §4. Adding day by day. -/

/-- Adds the counts of two lists of points, pair by pair, keeping the first days. -/
def addPoints : List Point → List Point → Except Overflow (List Point)
  | p :: ps, q :: qs =>
    match p.counts.add q.counts with
    | .error e => .error e
    | .ok c =>
      match addPoints ps qs with
      | .error e => .error e
      | .ok rest => .ok (⟨p.date, c⟩ :: rest)
  | ps, _ => .ok ps

theorem dates_addPoints {ps qs rs : List Point} (h : addPoints ps qs = .ok rs) :
    rs.map Point.date = ps.map Point.date := by
  induction ps generalizing qs rs with
  | nil => cases qs <;> (cases h; rfl)
  | cons p ps ih =>
    cases qs with
    | nil => cases h; rfl
    | cons q qs =>
      unfold addPoints at h
      split at h
      · cases h
      · split at h
        · cases h
        · rename_i hrest
          cases h
          simp [ih hrest]

theorem ascending_of_dates {ps qs : List Point} (hd : qs.map Point.date = ps.map Point.date)
    (h : ps.Pairwise fun p q => p.date < q.date) : qs.Pairwise fun p q => p.date < q.date := by
  have hp : (ps.map Point.date).Pairwise (· < ·) := List.pairwise_map.2 h
  exact List.pairwise_map.1 (hd ▸ hp)

/-- The day-by-day sum of two series with the same days; nothing for other series. -/
def accumulate? (s t : Series) : Option (Except Overflow Series) :=
  if s.sameDates t then
    some (match h : addPoints s.points t.points with
      | .error e => .error e
      | .ok ps => .ok ⟨ps, ascending_of_dates (dates_addPoints h) s.ascending⟩)
  else none

/-! ## §5. Stretches of consecutive days. -/

/-- Puts one more day in front of a list of later stretches, joining the first of them
    when it starts on the following day. -/
def prependDay (d : Date) : List DateRange → List DateRange
  | [] => [DateRange.single d]
  | r :: rs =>
    if h : d.days + 1 = r.start.days then
      ⟨d, r.stop, by
        have := Date.le_def.1 r.ordered
        exact Date.le_def.2 (by omega)⟩ :: rs
    else DateRange.single d :: r :: rs

/-- The maximal stretches of consecutive days of a list of days. -/
def runsOf (ds : List Date) : List DateRange :=
  ds.foldr prependDay []

/-- The maximal stretches of consecutive days that have points. -/
def runs (s : Series) : List DateRange :=
  runsOf s.dates

end Series

end MetricCube
