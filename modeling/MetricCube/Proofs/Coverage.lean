/-
  MetricCube.Proofs.Coverage
  ──────────────────────────
  **Gaps are the missing days.**  The days of the gaps that ascending days leave of
  a range are exactly its other days (`mem_gaps_ofDates`), so a range is fully
  covered when no day of it is missing (`isFull_ofDates`).  Gaps are in ascending
  order, with a day between any two of them (`pairwise_gaps_ofDates`).  The same is
  said of a series, whose days are ascending.
-/
import Mathlib
import MetricCube.Coverage
import MetricCube.Proofs.Series

namespace MetricCube

namespace DateRange

/-- A day lies between the two ranges, the first of which is the earlier one. -/
def Before (r s : DateRange) : Prop :=
  r.stop.days + 1 < s.start.days

/-- The two ranges neither overlap nor touch. -/
def Apart (r s : DateRange) : Prop :=
  r.Before s ∨ s.Before r

theorem containsRange_iff {r s : DateRange} :
    r.containsRange s = true ↔ r.contains s.start = true ∧ r.contains s.stop = true := by
  have hordered := Date.le_def.1 s.ordered
  rw [contains_iff, contains_iff, containsRange, Bool.and_eq_true, decide_eq_true_eq,
    decide_eq_true_eq, Date.le_def, Date.le_def]
  omega

theorem containsRange_self (r : DateRange) : r.containsRange r = true := by
  rw [containsRange, Bool.and_eq_true, decide_eq_true_eq, decide_eq_true_eq]
  exact ⟨Int.le_refl _, Int.le_refl _⟩

end DateRange

namespace Coverage

/-- Some range of the list contains the day. -/
def Reaches (gaps : List DateRange) (d : Date) : Prop :=
  ∃ g ∈ gaps, g.contains d = true

theorem reaches_append {gs hs : List DateRange} {d : Date} :
    Reaches (gs ++ hs) d ↔ Reaches gs d ∨ Reaches hs d := by
  simp only [Reaches, List.mem_append, or_and_right, exists_or]

theorem reaches_gapBefore {lo d x : Date} :
    Reaches (gapBefore lo d) x ↔ lo.days ≤ x.days ∧ x.days < d.days := by
  unfold gapBefore Reaches
  split
  · rename_i h
    have hprev := Date.days_prev h
    simp only [List.mem_singleton, exists_eq_left, DateRange.contains_iff, hprev]
    omega
  · rename_i h
    rw [Date.lt_def] at h
    simp only [List.not_mem_nil, false_and, exists_false, false_iff]
    omega

theorem pairwise_gapBefore {lo d : Date} : (gapBefore lo d).Pairwise DateRange.Before := by
  unfold gapBefore
  split
  · exact List.pairwise_singleton _ _
  · exact List.Pairwise.nil

theorem next_le_of_pairwise {d hi : Date} {ds : List Date} (hasc : (d :: ds).Pairwise (· < ·))
    (hlt : d < hi) (hin : ∀ e ∈ d :: ds, e ≤ hi) : ∀ e ∈ ds, d.next ≤ e ∧ e ≤ hi := by
  intro e he
  have hnext := Date.days_next hlt
  have hlater := Date.lt_def.1 (List.rel_of_pairwise_cons hasc he)
  exact ⟨Date.le_def.2 (by omega), hin e (List.mem_cons_of_mem _ he)⟩

/-- **What ascending covered days of a stretch leave.** -/
theorem reaches_gapsFrom {hi x : Date} {ds : List Date} (hasc : ds.Pairwise (· < ·)) :
    ∀ {lo : Date}, (∀ d ∈ ds, lo ≤ d ∧ d ≤ hi) →
      (Reaches (gapsFrom lo hi ds) x ↔ (lo.days ≤ x.days ∧ x.days ≤ hi.days) ∧ x ∉ ds) := by
  -- The next gap starts after the covered day, so `lo` moves along with the induction.
  induction ds with
  | nil =>
    intro lo _
    unfold gapsFrom Reaches
    split
    · simp [DateRange.contains_iff]
    · rename_i h
      rw [Date.le_def] at h
      simp only [List.not_mem_nil, false_and, exists_false, not_false_eq_true, and_true, false_iff]
      omega
  | cons d ds ih =>
    intro lo hin
    obtain ⟨hlod, hdhi⟩ := hin d List.mem_cons_self
    rw [Date.le_def] at hlod hdhi
    have hlater : ∀ e ∈ ds, d < e := fun e he => List.rel_of_pairwise_cons hasc he
    have hne : ∀ {y : Date}, y ≠ d ↔ y.days ≠ d.days :=
      fun {y} => ⟨fun h heq => h (Date.ext_days heq), fun h heq => h (congrArg Date.days heq)⟩
    rw [gapsFrom, reaches_append, reaches_gapBefore, List.mem_cons, not_or, ← ne_eq, hne]
    by_cases hlt : d < hi
    · have hnext := Date.days_next hlt
      have hin' := next_le_of_pairwise hasc hlt fun e he => (hin e he).2
      rw [if_pos hlt, ih hasc.of_cons hin', hnext]
      rw [Date.lt_def] at hlt
      -- Days up to `d` are not among the later ones.
      have hearly : x.days ≤ d.days → x ∉ ds := by
        intro hx hmem
        have := Date.lt_def.1 (hlater x hmem)
        omega
      -- Up to `d` only the gap before it counts, after `d` only the later ones.
      by_cases hx : x.days ≤ d.days
      · have := hearly hx
        simp only [this, not_false_eq_true, and_true]
        omega
      · constructor
        · rintro (h | ⟨h, hmem⟩)
          · omega
          · exact ⟨by omega, by omega, hmem⟩
        · rintro ⟨h, _, hmem⟩
          exact Or.inr ⟨by omega, hmem⟩
    · -- The last covered day is the end of the stretch, so nothing comes after it.
      have hnil : ds = [] := by
        rw [List.eq_nil_iff_forall_not_mem]
        intro e he
        have h₁ := Date.lt_def.1 (hlater e he)
        have h₂ := Date.le_def.1 (hin e (List.mem_cons_of_mem _ he)).2
        rw [Date.lt_def] at hlt
        omega
      subst hnil
      rw [Date.lt_def] at hlt
      simp only [show ¬ d < hi from hlt, if_false, Reaches, List.not_mem_nil, false_and,
        exists_false, or_false, not_false_eq_true, and_true]
      omega

/-- **The days of the gaps that ascending days leave are the days of the range beside them.** -/
theorem mem_gaps_ofDates {r : DateRange} {ds : List Date} (hasc : ds.Pairwise (· < ·)) {d : Date} :
    Reaches (ofDates r ds).gaps d ↔ r.contains d = true ∧ d ∉ ds := by
  have hin : ∀ e ∈ ds.filter r.contains, r.start ≤ e ∧ e ≤ r.stop := fun e he =>
    DateRange.contains_iff.1 (List.mem_filter.1 he).2
  have h := reaches_gapsFrom (x := d) (hasc.filter _) hin
  rw [ofDates, h, ← DateRange.contains_iff, List.mem_filter, not_and]
  constructor
  · rintro ⟨hr, hnot⟩
    exact ⟨hr, fun hmem => hnot hmem hr⟩
  · rintro ⟨hr, hnot⟩
    exact ⟨hr, fun hmem => absurd hmem hnot⟩

theorem mem_gaps_ofSeries {s : Series} {r : DateRange} {d : Date} :
    Reaches (ofSeries s r).gaps d ↔ r.contains d = true ∧ d ∉ s.dates :=
  mem_gaps_ofDates s.ascending_dates

/-- Every gap is made up of days that it reaches. -/
theorem start_of_mem {gaps : List DateRange} {g : DateRange} (h : g ∈ gaps) :
    Reaches gaps g.start :=
  ⟨g, h, DateRange.contains_iff.2 ⟨le_refl _, g.ordered⟩⟩

theorem stop_of_mem {gaps : List DateRange} {g : DateRange} (h : g ∈ gaps) :
    Reaches gaps g.stop :=
  ⟨g, h, DateRange.contains_iff.2 ⟨g.ordered, le_refl _⟩⟩

/-- **A range is fully covered when each of its days is among the given ones.** -/
theorem isFull_ofDates {r : DateRange} {ds : List Date} (hasc : ds.Pairwise (· < ·)) :
    (ofDates r ds).isFull = true ↔ ∀ d ∈ r.days, d ∈ ds := by
  rw [isFull, List.isEmpty_iff]
  constructor
  · intro hnil d hd
    by_contra hnot
    obtain ⟨g, hg, _⟩ := (mem_gaps_ofDates hasc).2 ⟨DateRange.mem_days.1 hd, hnot⟩
    rw [hnil] at hg
    cases hg
  · intro h
    rw [List.eq_nil_iff_forall_not_mem]
    intro g hg
    obtain ⟨hr, hnot⟩ := (mem_gaps_ofDates hasc).1 (start_of_mem hg)
    exact hnot (h _ (DateRange.mem_days.2 hr))

theorem isFull_ofSeries {s : Series} {r : DateRange} :
    (ofSeries s r).isFull = true ↔ ∀ d ∈ r.days, d ∈ s.dates :=
  isFull_ofDates s.ascending_dates

/-! ## Gaps are apart. -/

/-- **Two gaps have a covered day between them.** -/
theorem pairwise_gapsFrom {hi : Date} {ds : List Date} (hasc : ds.Pairwise (· < ·)) :
    ∀ {lo : Date}, (∀ d ∈ ds, lo ≤ d ∧ d ≤ hi) →
      (gapsFrom lo hi ds).Pairwise DateRange.Before := by
  induction ds with
  | nil =>
    intro lo _
    unfold gapsFrom
    split
    · exact List.pairwise_singleton _ _
    · exact List.Pairwise.nil
  | cons d ds ih =>
    intro lo hin
    unfold gapsFrom
    by_cases hlt : d < hi
    · have hnext := Date.days_next hlt
      have hin' := next_le_of_pairwise hasc hlt fun e he => (hin e he).2
      rw [if_pos hlt, List.pairwise_append]
      refine ⟨pairwise_gapBefore, ih hasc.of_cons hin', ?_⟩
      intro g hg h hh
      -- The gap before `d` ends on the day before it, a later one starts after it.
      have hstop := ((reaches_gapBefore).1 (stop_of_mem hg)).2
      have hstart := ((reaches_gapsFrom hasc.of_cons hin').1 (start_of_mem hh)).1.1
      show g.stop.days + 1 < h.start.days
      omega
    · rw [if_neg hlt, List.append_nil]
      exact pairwise_gapBefore

theorem pairwise_gaps_ofDates {ds : List Date} (hasc : ds.Pairwise (· < ·)) (r : DateRange) :
    (ofDates r ds).gaps.Pairwise DateRange.Before := by
  refine pairwise_gapsFrom (hasc.filter _) fun d hd => ?_
  exact DateRange.contains_iff.1 (List.mem_filter.1 hd).2

theorem pairwise_gaps (s : Series) (r : DateRange) :
    (ofSeries s r).gaps.Pairwise DateRange.Before :=
  pairwise_gaps_ofDates s.ascending_dates r

end Coverage

end MetricCube
