/-
  MetricCube.Proofs.Tiling
  ────────────────────────
  **Runs and gaps tile a range.**  The runs of a series are found by walking its days from
  the last one to the first, the gaps of a range by walking its covered days forwards.  Yet
  the two fit together without overlap or rest:

    • the runs, expanded in order, are the days of the series (`flatMap_runs`), with a missing
      day between any two of them (`before_runs`);
    • cut down to a range and put in order among its gaps, they alternate with them, and all
      parts together, expanded in order, are the days of the range.

  Parts of one kind are kept apart by `DateRange.Before`, and parts of different kinds have no
  day in common; alternation follows, since a day between two neighbours would lie in a part
  that has no place there (`touch_of_neighbours`).

  Main statement: `runs_and_gaps_tile`.
-/
import Mathlib
import MetricCube.Proofs.Gaps
import MetricCube.Proofs.Table

namespace MetricCube

/-! ## §1. Days of ranges. -/

namespace Date

theorem days_max (a b : Date) : (a.max b).days = Max.max a.days b.days := by
  unfold max
  by_cases h : a ≤ b
  · rw [if_pos h]
    rw [le_def] at h
    omega
  · rw [if_neg h]
    rw [le_def] at h
    omega

theorem days_min (a b : Date) : (a.min b).days = Min.min a.days b.days := by
  unfold min
  by_cases h : a ≤ b
  · rw [if_pos h]
    rw [le_def] at h
    omega
  · rw [if_neg h]
    rw [le_def] at h
    omega

end Date

namespace DateRange

theorem days_single (d : Date) : (single d).days = [d] := by
  apply List.Pairwise.eq_of_mem_iff (ascending_days _) (List.pairwise_singleton _ d)
  intro e
  rw [mem_days, contains_iff, List.mem_singleton]
  show d.days ≤ e.days ∧ e.days ≤ d.days ↔ e = d
  constructor
  · intro h
    exact Date.ext_days (by omega)
  · intro h
    rw [h]
    omega

/-- A range that starts one day earlier has that day in front. -/
theorem days_eq_cons {d : Date} {r : DateRange} (hnext : d.days + 1 = r.start.days)
    (hordered : d ≤ r.stop) : (mk d r.stop hordered).days = d :: r.days := by
  have hlater : ∀ e ∈ r.days, d < e := by
    intro e he
    rw [mem_days, contains_iff] at he
    rw [Date.lt_def]
    omega
  -- Both lists ascend, so it is enough that they have the same days.
  apply List.Pairwise.eq_of_mem_iff (ascending_days _) (r.ascending_days.cons hlater)
  intro e
  rw [List.mem_cons, mem_days, mem_days, contains_iff, contains_iff]
  show d.days ≤ e.days ∧ e.days ≤ r.stop.days ↔ _
  rw [Date.le_def] at hordered
  constructor
  · intro h
    by_cases he : e.days = d.days
    · exact .inl (Date.ext_days he)
    · exact .inr (by omega)
  · intro h
    rcases h with heq | h
    · rw [heq]
      omega
    · omega

theorem intersect?_eq_some_iff {r s g : DateRange} :
    r.intersect? s = some g ↔ g.start = r.start.max s.start ∧ g.stop = r.stop.min s.stop := by
  unfold intersect? make
  by_cases h : r.start.max s.start ≤ r.stop.min s.stop
  · rw [dif_pos h]
    show some _ = some g ↔ _
    rw [Option.some_inj]
    cases g
    rw [mk.injEq]
    constructor
    · intro heq
      exact ⟨heq.1.symm, heq.2.symm⟩
    · intro heq
      exact ⟨heq.1.symm, heq.2.symm⟩
  · rw [dif_neg h]
    show none = some g ↔ _
    constructor
    · intro heq
      cases heq
    · intro heq
      exact absurd (heq.1 ▸ heq.2 ▸ g.ordered) h

/-- **The intersection of two ranges holds the days that both of them hold.** -/
theorem contains_of_intersect? {r s g : DateRange} (h : r.intersect? s = some g) {d : Date} :
    g.contains d = true ↔ r.contains d = true ∧ s.contains d = true := by
  obtain ⟨hstart, hstop⟩ := intersect?_eq_some_iff.1 h
  rw [contains_iff, contains_iff, contains_iff, hstart, hstop, Date.days_max, Date.days_min]
  omega

theorem exists_intersect? {r s : DateRange} {d : Date} (hr : r.contains d = true)
    (hs : s.contains d = true) : ∃ g, r.intersect? s = some g := by
  rw [contains_iff] at hr hs
  have hordered : r.start.max s.start ≤ r.stop.min s.stop := by
    rw [Date.le_def, Date.days_max, Date.days_min]
    omega
  exact ⟨⟨_, _, hordered⟩, intersect?_eq_some_iff.2 ⟨rfl, rfl⟩⟩

theorem Before.stop_lt {r s : DateRange} (h : r.Before s) : r.stop < s.start := by
  have hbetween : r.stop.days + 1 < s.start.days := h
  rw [Date.lt_def]
  omega

/-- Of two ranges without a common day one lies before the other. -/
theorem disjoint_of_no_common {r s : DateRange}
    (hnone : ∀ d, r.contains d = true → s.contains d = true → False) :
    r.stop < s.start ∨ s.stop < r.start := by
  have hr := Date.le_def.1 r.ordered
  have hs := Date.le_def.1 s.ordered
  by_contra hmeet
  rw [not_or, Date.lt_def, Date.lt_def] at hmeet
  -- The later one of the two starts is a common day.
  by_cases hle : r.start.days ≤ s.start.days
  · exact hnone s.start (contains_iff.2 (by omega)) (contains_iff.2 (by omega))
  · exact hnone r.start (contains_iff.2 (by omega)) (contains_iff.2 (by omega))

end DateRange

namespace Coverage

theorem reaches_iff {gaps : List DateRange} {d : Date} :
    Reaches gaps d ↔ d ∈ gaps.flatMap DateRange.days := by
  rw [List.mem_flatMap]
  exact exists_congr fun g => and_congr_right fun _ => DateRange.mem_days.symm

end Coverage

/-! ## §2. Runs. -/

namespace Series

/-- One more day in front is one more day in front of the days of all stretches. -/
theorem flatMap_prependDay (d : Date) (rs : List DateRange) :
    (prependDay d rs).flatMap DateRange.days = d :: rs.flatMap DateRange.days := by
  cases rs with
  | nil =>
    show (DateRange.single d).days ++ [] = [d]
    rw [DateRange.days_single, List.append_nil]
  | cons r rs =>
    by_cases hnext : d.days + 1 = r.start.days
    · -- The day joins the first stretch.
      rw [prependDay, dif_pos hnext, List.flatMap_cons, List.flatMap_cons,
        DateRange.days_eq_cons hnext]
      rfl
    · rw [prependDay, dif_neg hnext, List.flatMap_cons, DateRange.days_single]
      rfl

/-- **Expanding the stretches of a list of days gives the days back.** -/
theorem flatMap_runsOf (ds : List Date) : (runsOf ds).flatMap DateRange.days = ds := by
  induction ds with
  | nil => rfl
  | cons d ds ih =>
    show (prependDay d (runsOf ds)).flatMap DateRange.days = _
    rw [flatMap_prependDay, ih]

theorem before_prependDay {d : Date} {rs : List DateRange} (hrs : rs.Pairwise DateRange.Before)
    (hd : ∀ r ∈ rs, d < r.start) : (prependDay d rs).Pairwise DateRange.Before := by
  cases rs with
  | nil => exact List.pairwise_singleton _ _
  | cons r rs =>
    have hfirst := Date.lt_def.1 (hd r List.mem_cons_self)
    by_cases hnext : d.days + 1 = r.start.days
    · -- The first stretch keeps its end, which is what the others are compared with.
      rw [prependDay, dif_pos hnext]
      exact hrs.of_cons.cons fun s hs => List.rel_of_pairwise_cons hrs hs
    · rw [prependDay, dif_neg hnext]
      refine List.Pairwise.cons ?_ hrs
      intro s hs
      show d.days + 1 < s.start.days
      rcases List.mem_cons.1 hs with heq | hs
      · rw [heq]
        omega
      · have hafter : r.stop.days + 1 < s.start.days := List.rel_of_pairwise_cons hrs hs
        have hordered := Date.le_def.1 r.ordered
        omega

/-- **Between two stretches of ascending days a day is left out.** -/
theorem before_runsOf {ds : List Date} (hasc : ds.Pairwise (· < ·)) :
    (runsOf ds).Pairwise DateRange.Before := by
  induction ds with
  | nil => exact List.Pairwise.nil
  | cons d ds ih =>
    show (prependDay d (runsOf ds)).Pairwise DateRange.Before
    apply before_prependDay (ih hasc.of_cons)
    intro r hr
    have hstart : r.start ∈ (runsOf ds).flatMap DateRange.days :=
      List.mem_flatMap.2 ⟨r, hr, r.start_mem_days⟩
    rw [flatMap_runsOf] at hstart
    exact List.rel_of_pairwise_cons hasc hstart

theorem flatMap_runs (s : Series) : s.runs.flatMap DateRange.days = s.dates :=
  flatMap_runsOf s.dates

theorem before_runs (s : Series) : s.runs.Pairwise DateRange.Before :=
  before_runsOf s.ascending_dates

theorem reaches_runs {s : Series} {d : Date} : Coverage.Reaches s.runs d ↔ d ∈ s.dates := by
  rw [Coverage.reaches_iff, flatMap_runs]

theorem mem_runs_iff {s : Series} {g : DateRange} :
    g ∈ s.runs ↔ Coverage.MaximalRun (fun d => d ∈ s.dates) g :=
  Coverage.maximalRun_iff_mem s.before_runs fun _ => reaches_runs

theorem missing_between_runs (s : Series) :
    s.runs.Pairwise fun g h => ∃ d, g.stop < d ∧ d < h.start ∧ d ∉ s.dates := by
  apply s.before_runs.imp_of_mem
  intro g h hg _ hbefore
  exact (mem_runs_iff.1 hg).exists_between hbefore

/-- The runs of a series as far as they lie in a range. -/
def runsWithin (s : Series) (r : DateRange) : List DateRange :=
  s.runs.filterMap fun run => run.intersect? r

theorem reaches_runsWithin {s : Series} {r : DateRange} {d : Date} :
    Coverage.Reaches (s.runsWithin r) d ↔ r.contains d = true ∧ d ∈ s.dates := by
  rw [← reaches_runs]
  unfold Coverage.Reaches runsWithin
  constructor
  · intro h
    obtain ⟨g, hg, hd⟩ := h
    obtain ⟨run, hrun, hcut⟩ := List.mem_filterMap.1 hg
    have hboth := (DateRange.contains_of_intersect? hcut).1 hd
    exact ⟨hboth.2, run, hrun, hboth.1⟩
  · intro h
    obtain ⟨hr, run, hrun, hd⟩ := h
    obtain ⟨g, hcut⟩ := DateRange.exists_intersect? hd hr
    exact ⟨g, List.mem_filterMap.2 ⟨run, hrun, hcut⟩,
      (DateRange.contains_of_intersect? hcut).2 ⟨hd, hr⟩⟩

/-- Cutting runs down to a range does not bring them closer. -/
theorem before_runsWithin (s : Series) (r : DateRange) :
    (s.runsWithin r).Pairwise DateRange.Before := by
  unfold runsWithin
  rw [List.pairwise_filterMap]
  apply s.before_runs.imp
  intro a b hbefore g hg h hh
  have hstop := (DateRange.intersect?_eq_some_iff.1 hg).2
  have hstart := (DateRange.intersect?_eq_some_iff.1 hh).1
  have hapart : a.stop.days + 1 < b.start.days := hbefore
  show g.stop.days + 1 < h.start.days
  rw [hstop, hstart, Date.days_min, Date.days_max]
  omega

end Series

/-! ## §3. The parts of a range. -/

namespace Coverage

/-- What a series has of the days of a part: none, or all. -/
inductive PartKind where
  | gap
  | run
deriving DecidableEq

/-- A gap or a run, as a part of a range. -/
structure Part where
  kind : PartKind
  range : DateRange
deriving DecidableEq

/-- The gaps of a range, and the runs of the series in it. -/
def loose (s : Series) (r : DateRange) : List Part :=
  (ofSeries s r).gaps.map (Part.mk .gap) ++ (s.runsWithin r).map (Part.mk .run)

/-- The gaps and the runs of a range, sorted by their start. -/
def parts (s : Series) (r : DateRange) : List Part :=
  Ordered.sortWith (fun p q => decide (p.range.start ≤ q.range.start)) (loose s r)

/-- The two parts have no day in common, and do not touch if they are of one kind. -/
structure Part.Clear (p q : Part) : Prop where
  disjoint : p.range.stop < q.range.start ∨ q.range.stop < p.range.start
  apart : p.kind = q.kind → p.range.Apart q.range

theorem Part.Clear.symm {p q : Part} (h : p.Clear q) : q.Clear p :=
  ⟨h.disjoint.symm, fun heq => (h.apart heq.symm).symm⟩

/-- A part of the range: all of its days lie in the range, and the series has all of them or
    none, as its kind says. -/
structure Part.IsOf (s : Series) (r : DateRange) (p : Part) : Prop where
  within : ∀ d ∈ p.range.days, r.contains d = true
  shown : ∀ d ∈ p.range.days, d ∈ s.dates ↔ p.kind = .run

/-- The list holds the gaps of the range and the runs in it, in ascending order and apart from
    each other; gaps and runs alternate, and their days in order are the days of the range. -/
structure Tiles (s : Series) (r : DateRange) (ps : List Part) : Prop where
  members : ps.Perm (loose s r)
  ascending : ps.Pairwise fun p q => p.range.stop < q.range.start
  alternate : ps.IsChain fun p q => p.kind ≠ q.kind
  days : (ps.flatMap fun p => p.range.days) = r.days
  shown : ∀ p ∈ ps, p.IsOf s r

variable {s : Series} {r : DateRange}

theorem mem_parts {p : Part} :
    p ∈ parts s r ↔ p.kind = .gap ∧ p.range ∈ (ofSeries s r).gaps
      ∨ p.kind = .run ∧ p.range ∈ s.runsWithin r := by
  unfold parts
  rw [(Ordered.perm_sortWith _ _).mem_iff, loose, List.mem_append, List.mem_map, List.mem_map]
  cases p with
  | mk kind range =>
    simp only [Part.mk.injEq]
    constructor
    · intro h
      rcases h with ⟨g, hg, hkind, heq⟩ | ⟨g, hg, hkind, heq⟩
      · exact .inl ⟨hkind.symm, heq ▸ hg⟩
      · exact .inr ⟨hkind.symm, heq ▸ hg⟩
    · intro h
      rcases h with ⟨hkind, hg⟩ | ⟨hkind, hg⟩
      · exact .inl ⟨range, hg, hkind.symm, rfl⟩
      · exact .inr ⟨range, hg, hkind.symm, rfl⟩

theorem isOf_of_mem {p : Part} (hp : p ∈ parts s r) : p.IsOf s r := by
  rcases mem_parts.1 hp with ⟨hkind, hgap⟩ | ⟨hkind, hrun⟩
  · have hdays : ∀ d ∈ p.range.days, r.contains d = true ∧ d ∉ s.dates := fun d hd =>
      mem_gaps_ofSeries.1 ⟨p.range, hgap, DateRange.mem_days.1 hd⟩
    refine ⟨fun d hd => (hdays d hd).1, fun d hd => ?_⟩
    simp [(hdays d hd).2, hkind]
  · have hdays : ∀ d ∈ p.range.days, r.contains d = true ∧ d ∈ s.dates := fun d hd =>
      Series.reaches_runsWithin.1 ⟨p.range, hrun, DateRange.mem_days.1 hd⟩
    refine ⟨fun d hd => (hdays d hd).1, fun d hd => ?_⟩
    simp [(hdays d hd).2, hkind]

/-- Every day of the range lies in a part. -/
theorem exists_part {d : Date} (hd : r.contains d = true) :
    ∃ p ∈ parts s r, p.range.contains d = true := by
  by_cases hs : d ∈ s.dates
  · obtain ⟨g, hg, hcontains⟩ := Series.reaches_runsWithin.2 ⟨hd, hs⟩
    exact ⟨⟨.run, g⟩, mem_parts.2 (.inr ⟨rfl, hg⟩), hcontains⟩
  · obtain ⟨g, hg, hcontains⟩ := mem_gaps_ofSeries.2 ⟨hd, hs⟩
    exact ⟨⟨.gap, g⟩, mem_parts.2 (.inl ⟨rfl, hg⟩), hcontains⟩

theorem pairwise_clear_map (kind : PartKind) {gs : List DateRange}
    (hgs : gs.Pairwise DateRange.Before) : (gs.map (Part.mk kind)).Pairwise Part.Clear := by
  rw [List.pairwise_map]
  exact hgs.imp fun hbefore => ⟨.inl hbefore.stop_lt, fun _ => .inl hbefore⟩

theorem pairwise_clear_loose (s : Series) (r : DateRange) :
    (loose s r).Pairwise Part.Clear := by
  unfold loose
  rw [List.pairwise_append]
  refine ⟨pairwise_clear_map .gap (pairwise_gaps s r),
    pairwise_clear_map .run (s.before_runsWithin r), ?_⟩
  -- A gap and a run: a common day would be there and be missing.
  intro p hp q hq
  obtain ⟨g, hg, rfl⟩ := List.mem_map.1 hp
  obtain ⟨h, hh, rfl⟩ := List.mem_map.1 hq
  refine ⟨DateRange.disjoint_of_no_common fun d hd he => ?_, fun heq => by cases heq⟩
  exact (mem_gaps_ofSeries.1 ⟨g, hg, hd⟩).2 (Series.reaches_runsWithin.1 ⟨h, hh, he⟩).2

theorem pairwise_clear_parts (s : Series) (r : DateRange) :
    (parts s r).Pairwise Part.Clear :=
  ((Ordered.perm_sortWith _ _).pairwise_iff Part.Clear.symm).2 (pairwise_clear_loose s r)

/-- Parts are in ascending order, and each ends before the next one starts. -/
theorem ascending_parts (s : Series) (r : DateRange) :
    (parts s r).Pairwise fun p q => p.range.stop < q.range.start := by
  have hsorted : (parts s r).Pairwise fun p q => p.range.start ≤ q.range.start := by
    refine (Ordered.pairwise_sortWith ?_ ?_ _).imp of_decide_eq_true
    · intro p q h
      have hnot : ¬ p.range.start ≤ q.range.start := of_decide_eq_false h
      rw [Date.le_def] at hnot
      exact decide_eq_true (Date.le_def.2 (by omega))
    · intro p q t hpq hqt
      exact decide_eq_true (Int.le_trans (of_decide_eq_true hpq) (of_decide_eq_true hqt))
  refine (hsorted.and (pairwise_clear_parts s r)).imp ?_
  intro p q h
  obtain ⟨hle, hclear⟩ := h
  refine hclear.disjoint.resolve_right fun hlt => ?_
  have hordered := Date.le_def.1 q.range.ordered
  rw [Date.le_def] at hle
  rw [Date.lt_def] at hlt
  omega

/-! ## §4. The tiling. -/

/-- Ranges in ascending order have their days in ascending order. -/
theorem ascending_flatMap {ps : List Part}
    (hps : ps.Pairwise fun p q => p.range.stop < q.range.start) :
    (ps.flatMap fun p => p.range.days).Pairwise (· < ·) := by
  rw [List.pairwise_flatMap]
  refine ⟨fun p _ => p.range.ascending_days, hps.imp ?_⟩
  intro p q hlt d hd e he
  rw [DateRange.mem_days, DateRange.contains_iff] at hd he
  rw [Date.lt_def] at hlt ⊢
  omega

theorem flatMap_parts (s : Series) (r : DateRange) :
    ((parts s r).flatMap fun p => p.range.days) = r.days := by
  apply List.Pairwise.eq_of_mem_iff (ascending_flatMap (ascending_parts s r)) r.ascending_days
  intro d
  rw [List.mem_flatMap, DateRange.mem_days]
  constructor
  · intro h
    obtain ⟨p, hp, hd⟩ := h
    exact (isOf_of_mem hp).within d hd
  · intro h
    obtain ⟨p, hp, hd⟩ := exists_part (s := s) h
    exact ⟨p, hp, DateRange.mem_days.2 hd⟩

/-- In ascending order, no part reaches between two neighbours. -/
theorem no_part_between {before after : List Part} {p q t : Part}
    (hasc : (before ++ p :: q :: after).Pairwise fun p q => p.range.stop < q.range.start)
    (ht : t ∈ before ++ p :: q :: after) {d : Date} (hd : t.range.contains d = true) :
    ¬ (p.range.stop < d ∧ d < q.range.start) := by
  intro h
  obtain ⟨hpd, hdq⟩ := h
  rw [Date.lt_def] at hpd hdq
  rw [DateRange.contains_iff] at hd
  rw [List.pairwise_append] at hasc
  obtain ⟨_, hrest, hbefore⟩ := hasc
  have hp := Date.le_def.1 p.range.ordered
  have hq := Date.le_def.1 q.range.ordered
  rw [List.mem_append, List.mem_cons, List.mem_cons] at ht
  -- A part comes before the first one, is one of the two, or comes after the second one.
  rcases ht with ht | heq | heq | ht
  · have hlt := Date.lt_def.1 (hbefore t ht p List.mem_cons_self)
    omega
  · rw [heq] at hd
    omega
  · rw [heq] at hd
    omega
  · have hlt := Date.lt_def.1 (List.rel_of_pairwise_cons hrest.of_cons ht)
    omega

/-- **Neighbours touch:** no day is left between a part and the next one. -/
theorem touch_of_neighbours {before after : List Part} {p q : Part}
    (hparts : parts s r = before ++ p :: q :: after) :
    p.range.stop.days + 1 = q.range.start.days := by
  have hasc := ascending_parts s r
  have hp : p ∈ parts s r := by simp [hparts]
  have hq : q ∈ parts s r := by simp [hparts]
  rw [hparts] at hasc
  have hpq := Date.lt_def.1
    (List.rel_of_pairwise_cons (List.pairwise_append.1 hasc).2.1 List.mem_cons_self)
  by_contra hne
  have hnext : p.range.stop.next.days = p.range.stop.days + 1 := Date.days_next hpq
  -- The day after the first part lies in the range, as both parts do, so it is in some part.
  have hin : r.contains p.range.stop.next = true := by
    have hstop := DateRange.mem_days.2 (DateRange.contains_iff.2 ⟨p.range.ordered, le_refl _⟩)
    have hpr := (isOf_of_mem hp).within _ hstop
    have hqr := (isOf_of_mem hq).within _ q.range.start_mem_days
    rw [DateRange.contains_iff] at hpr hqr ⊢
    omega
  obtain ⟨t, ht, hcontains⟩ := exists_part (s := s) hin
  rw [hparts] at ht
  refine no_part_between hasc ht hcontains ⟨?_, ?_⟩
  · rw [Date.lt_def]
    omega
  · rw [Date.lt_def]
    omega

/-- **Gaps and runs alternate.** -/
theorem alternate_parts (s : Series) (r : DateRange) :
    (parts s r).IsChain fun p q => p.kind ≠ q.kind := by
  rw [List.isChain_iff_forall_rel_of_append_cons_cons]
  intro p q before after hparts hkind
  have hnext := touch_of_neighbours hparts
  have hclear := pairwise_clear_parts s r
  rw [hparts, List.pairwise_append] at hclear
  have hpq : p.Clear q := List.rel_of_pairwise_cons hclear.2.1 List.mem_cons_self
  -- Two parts of one kind do not touch.
  have hapart := hpq.apart hkind
  have hpo := Date.le_def.1 p.range.ordered
  have hqo := Date.le_def.1 q.range.ordered
  unfold DateRange.Apart DateRange.Before at hapart
  omega

/-- **Runs and gaps tile every range.**  The runs of a series are its days, in order, in stretches
    with a missing day between any two; cut down to a range, they fill it up with its gaps. -/
theorem runs_and_gaps_tile (s : Series) :
    (s.runs.Pairwise fun g h => ∃ d, g.stop < d ∧ d < h.start ∧ d ∉ s.dates)
      ∧ s.runs.flatMap DateRange.days = s.dates
      ∧ (∀ g, g ∈ s.runs ↔ MaximalRun (fun d => d ∈ s.dates) g)
      ∧ ∀ r : DateRange, Tiles s r (parts s r) := by
  refine ⟨s.missing_between_runs, s.flatMap_runs, fun g => Series.mem_runs_iff, fun r => ?_⟩
  exact ⟨Ordered.perm_sortWith _ _, ascending_parts s r, alternate_parts s r, flatMap_parts s r,
    fun p hp => isOf_of_mem hp⟩

/-- At the end of the day line, a run between two gaps. -/
example : parts Sample.middle Sample.lastDays
    = [⟨.gap, .single (.ofDays 2147483645)⟩, ⟨.run, .single (.ofDays 2147483646)⟩,
      ⟨.gap, .single (.ofDays 2147483647)⟩] := by
  decide

end Coverage

end MetricCube
