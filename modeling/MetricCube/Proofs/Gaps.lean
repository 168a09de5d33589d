/-
  MetricCube.Proofs.Gaps
  ──────────────────────
  **Gaps are the maximal missing runs.**  The coverage of a range, by one series or
  by several together, is fixed by which days are covered:

    • the days of the gaps are the days of the range that are not covered;
    • between two gaps there is a covered day;
    • a range is a gap exactly if it is a maximal run of such days (`MaximalRun`).

  The first two give the third (`maximalRun_iff_mem`): a run that cannot be
  extended meets a gap on its first day, and both end where the missing days do.
  Several series together cover the days that they all have (`mem_jointDates`).

  Main statement: `gaps_are_missing_runs`, for every range of the day line, ranges
  that touch its ends included.
-/
import Mathlib
import MetricCube.Proofs.Coverage

namespace MetricCube.Coverage

/-! ## §1. Days that several series have. -/

theorem mem_dropWhile_lt {d e : Date} {es : List Date} (hasc : es.Pairwise (· < ·)) :
    (e ∈ es.dropWhile fun x => decide (x < d)) ↔ e ∈ es ∧ d ≤ e := by
  induction es with
  | nil => simp
  | cons x es ih =>
    rw [List.dropWhile_cons]
    by_cases hx : x < d
    · -- The first day goes, and `d` is not after it.
      simp only [hx, decide_true, if_true, ih hasc.of_cons, List.mem_cons]
      have hne : d ≤ e → e ≠ x := by
        intro hle heq
        rw [heq, Date.le_def] at hle
        rw [Date.lt_def] at hx
        omega
      constructor
      · intro h
        exact ⟨.inr h.1, h.2⟩
      · intro h
        exact ⟨h.1.resolve_left (hne h.2), h.2⟩
    · -- The first day stays, and with it all later ones.
      simp only [hx, decide_false, Bool.false_eq_true, if_false]
      refine (and_iff_left_of_imp ?_).symm
      intro he
      rw [Date.lt_def] at hx
      rcases List.mem_cons.1 he with heq | he
      · rw [heq, Date.le_def]
        omega
      · have hlater := Date.lt_def.1 (List.rel_of_pairwise_cons hasc he)
        rw [Date.le_def]
        omega

theorem commonDates_sublist (ds : List Date) : ∀ es : List Date,
    (commonDates ds es).Sublist ds := by
  induction ds with
  | nil => intro es; exact List.Sublist.slnil
  | cons d ds ih =>
    intro es
    unfold commonDates
    simp only
    split
    · exact (ih _).cons_cons d
    · exact (ih _).cons d

/-- What is left of ascending days from `d` on starts with `d` if they have `d` at all. -/
theorem head?_dropWhile_lt {d : Date} {es : List Date} (hes : es.Pairwise (· < ·)) :
    (es.dropWhile fun e => decide (e < d)).head? = some d ↔ d ∈ es := by
  constructor
  · intro h
    exact ((mem_dropWhile_lt hes).1 (List.mem_of_head? h)).1
  · intro h
    have hd := (mem_dropWhile_lt hes).2 ⟨h, le_refl d.days⟩
    have hleft := hes.sublist (List.dropWhile_sublist fun e => decide (e < d))
    cases hcut : es.dropWhile fun e => decide (e < d) with
    | nil =>
      rw [hcut] at hd
      cases hd
    | cons y rest =>
      have hy := ((mem_dropWhile_lt (d := d) hes).1 (hcut ▸ List.mem_cons_self)).2
      rw [hcut] at hd hleft
      rcases List.mem_cons.1 hd with heq | hd
      · rw [heq, List.head?_cons]
      · -- The first day that is left is not before `d`, and all others are after it.
        have hyd := Date.lt_def.1 (List.rel_of_pairwise_cons hleft hd)
        rw [Date.le_def] at hy
        omega

/-- **The common days are the days of both lists.** -/
theorem mem_commonDates {d : Date} {ds : List Date} (hds : ds.Pairwise (· < ·)) :
    ∀ {es : List Date}, es.Pairwise (· < ·) →
      (d ∈ commonDates ds es ↔ d ∈ ds ∧ d ∈ es) := by
  -- The second list loses its days before the current one, so it moves with the induction.
  induction ds with
  | nil => intro es _; simp [commonDates]
  | cons x ds ih =>
    intro es hes
    have hmem := ih hds.of_cons (hes.sublist (List.dropWhile_sublist fun e => decide (e < x)))
    rw [mem_dropWhile_lt hes] at hmem
    -- No later day of the first list is among the days that are lost.
    have hafter : d ∈ ds → x ≤ d := fun hd =>
      Int.le_of_lt (List.rel_of_pairwise_cons hds hd)
    unfold commonDates
    simp only [head?_dropWhile_lt hes]
    by_cases hx : x ∈ es
    · rw [if_pos hx, List.mem_cons, List.mem_cons, hmem]
      constructor
      · intro h
        rcases h with heq | h
        · exact ⟨.inl heq, heq ▸ hx⟩
        · exact ⟨.inr h.1, h.2.1⟩
      · intro h
        obtain ⟨heq | hd, he⟩ := h
        · exact .inl heq
        · exact .inr ⟨hd, he, hafter hd⟩
    · rw [if_neg hx, List.mem_cons, hmem]
      constructor
      · intro h
        exact ⟨.inr h.1, h.2.1⟩
      · intro h
        obtain ⟨heq | hd, he⟩ := h
        · exact absurd (heq ▸ he) hx
        · exact ⟨hd, he, hafter hd⟩

/-- What is common to ascending days and to each series, and stays ascending. -/
theorem foldl_commonDates (rest : List Series) : ∀ {ds : List Date}, ds.Pairwise (· < ·) →
    (rest.foldl (fun ds t => commonDates ds t.dates) ds).Pairwise (· < ·)
      ∧ ∀ d, d ∈ rest.foldl (fun ds t => commonDates ds t.dates) ds
          ↔ d ∈ ds ∧ ∀ t ∈ rest, d ∈ t.dates := by
  induction rest with
  | nil =>
    intro ds hds
    exact ⟨hds, fun d => by simp⟩
  | cons t rest ih =>
    intro ds hds
    obtain ⟨hasc, hmem⟩ := ih (hds.sublist (commonDates_sublist ds t.dates))
    refine ⟨hasc, fun d => ?_⟩
    rw [List.foldl_cons, hmem, mem_commonDates hds t.ascending_dates, List.forall_mem_cons,
      and_assoc]

theorem ascending_jointDates (series : List Series) : (jointDates series).Pairwise (· < ·) := by
  cases series with
  | nil => exact List.Pairwise.nil
  | cons s rest => exact (foldl_commonDates rest s.ascending_dates).1

theorem mem_jointDates {series : List Series} (hne : series ≠ []) {d : Date} :
    d ∈ jointDates series ↔ ∀ s ∈ series, d ∈ s.dates := by
  cases series with
  | nil => exact absurd rfl hne
  | cons s rest =>
    rw [List.forall_mem_cons]
    exact (foldl_commonDates rest s.ascending_dates).2 d

/-! ## §2. Maximal runs. -/

/-- Every day of the run is missing, and the days next to it are not. -/
structure MaximalRun (missing : Date → Prop) (g : DateRange) : Prop where
  inside : ∀ d, g.contains d = true → missing d
  before : ∀ d : Date, d.days + 1 = g.start.days → ¬ missing d
  after : ∀ d : Date, d.days = g.stop.days + 1 → ¬ missing d

/-- The gaps are the maximal runs of the days of `r` that are not covered. -/
structure MissingRuns (covered : Date → Prop) (r : DateRange) (gaps : List DateRange) : Prop where
  within : ∀ g ∈ gaps, r.containsRange g = true
  /-- Gaps are in ascending order, with a covered day of the range between any two. -/
  separated : gaps.Pairwise fun g h =>
    ∃ d, g.stop < d ∧ d < h.start ∧ r.contains d = true ∧ covered d
  days : ∀ d, Reaches gaps d ↔ r.contains d = true ∧ ¬ covered d
  maximal : ∀ g, g ∈ gaps ↔ MaximalRun (fun d => r.contains d = true ∧ ¬ covered d) g

variable {gaps : List DateRange} {missing covered : Date → Prop} {r : DateRange}

/-- Two gaps that reach days next to each other are the same gap. -/
theorem eq_of_neighbours (hapart : gaps.Pairwise DateRange.Before) {g h : DateRange}
    (hg : g ∈ gaps) (hh : h ∈ gaps) {d e : Date} (hd : g.contains d = true)
    (he : h.contains e = true) (hnear : d.days = e.days + 1 ∨ e.days = d.days + 1
      ∨ d.days = e.days) : g = h := by
  rw [DateRange.contains_iff] at hd he
  by_contra hne
  have hsymm : Std.Symm DateRange.Apart := ⟨fun a b hab => hab.symm⟩
  have hbesides : gaps.Pairwise DateRange.Apart := hapart.imp fun hab => .inl hab
  have hbeside : g.Apart h := hbesides.forall hg hh hne
  unfold DateRange.Apart DateRange.Before at hbeside
  omega

theorem maximalRun_of_mem (hapart : gaps.Pairwise DateRange.Before)
    (hdays : ∀ d, Reaches gaps d ↔ missing d) {g : DateRange} (hg : g ∈ gaps) :
    MaximalRun missing g := by
  have hordered := Date.le_def.1 g.ordered
  refine ⟨fun d hd => (hdays d).1 ⟨g, hg, hd⟩, fun d hd hmissing => ?_, fun d hd hmissing => ?_⟩
  · -- A gap with the day before would be this one, but this one starts later.
    obtain ⟨h, hh, hcontains⟩ := (hdays d).2 hmissing
    have hstart : g.contains g.start = true := DateRange.contains_iff.2 ⟨le_refl _, hordered⟩
    obtain rfl := eq_of_neighbours hapart hg hh hstart hcontains (by omega)
    rw [DateRange.contains_iff] at hcontains
    omega
  · obtain ⟨h, hh, hcontains⟩ := (hdays d).2 hmissing
    have hstop : g.contains g.stop = true := DateRange.contains_iff.2 ⟨hordered, le_refl _⟩
    obtain rfl := eq_of_neighbours hapart hg hh hstop hcontains (by omega)
    rw [DateRange.contains_iff] at hcontains
    omega

/-- The day after a maximal run is not missing, so one lies between the run and a later range. -/
theorem MaximalRun.exists_between {g h : DateRange} (hg : MaximalRun missing g)
    (hbefore : g.Before h) : ∃ d, g.stop < d ∧ d < h.start ∧ ¬ missing d := by
  have hbetween : g.stop.days + 1 < h.start.days := hbefore
  have hnext : g.stop.next.days = g.stop.days + 1 :=
    Date.days_next (show g.stop.days < h.start.days by omega)
  exact ⟨g.stop.next, Date.lt_def.2 (by omega), Date.lt_def.2 (by omega), hg.after _ hnext⟩

/-- Two maximal runs with a common day are the same. -/
theorem MaximalRun.eq {g h : DateRange} (hg : MaximalRun missing g) (hh : MaximalRun missing h)
    {d : Date} (hdg : g.contains d = true) (hdh : h.contains d = true) : g = h := by
  rw [DateRange.contains_iff] at hdg hdh
  -- Neither run may start, or stop, inside the other: the day next to it would be missing.
  have hstart : ∀ {a b : DateRange}, MaximalRun missing a → MaximalRun missing b →
      a.start.days ≤ d.days → d.days ≤ b.stop.days → ¬ b.start.days < a.start.days := by
    intro a b ha hb hle hle' hlt
    have hlower := b.start.lower
    have hupper := a.start.upper
    have hprev : (Date.ofDays (a.start.days - 1)).days = a.start.days - 1 :=
      Date.days_ofDays (by omega) (by omega)
    refine ha.before (.ofDays (a.start.days - 1)) (by omega) (hb.inside _ ?_)
    rw [DateRange.contains_iff]
    omega
  have hstop : ∀ {a b : DateRange}, MaximalRun missing a → MaximalRun missing b →
      d.days ≤ a.stop.days → b.start.days ≤ d.days → ¬ a.stop.days < b.stop.days := by
    intro a b ha hb hle hle' hlt
    have hlower := a.stop.lower
    have hupper := b.stop.upper
    have hnext : (Date.ofDays (a.stop.days + 1)).days = a.stop.days + 1 :=
      Date.days_ofDays (by omega) (by omega)
    refine ha.after (.ofDays (a.stop.days + 1)) hnext (hb.inside _ ?_)
    rw [DateRange.contains_iff]
    omega
  have h₁ := hstart hg hh hdg.1 hdh.2
  have h₂ := hstart hh hg hdh.1 hdg.2
  have h₃ := hstop hg hh hdg.2 hdh.1
  have h₄ := hstop hh hg hdh.2 hdg.1
  have hs : g.start = h.start := Date.ext_days (by omega)
  have ht : g.stop = h.stop := Date.ext_days (by omega)
  cases g
  cases h
  cases hs
  cases ht
  rfl

/-- **Ranges that are apart are the maximal runs of their days.** -/
theorem maximalRun_iff_mem (hapart : gaps.Pairwise DateRange.Before)
    (hdays : ∀ d, Reaches gaps d ↔ missing d) {g : DateRange} :
    g ∈ gaps ↔ MaximalRun missing g := by
  constructor
  · exact maximalRun_of_mem hapart hdays
  · intro hg
    have hstart : g.contains g.start = true := DateRange.contains_iff.2 ⟨le_refl _, g.ordered⟩
    obtain ⟨h, hh, hcontains⟩ := (hdays _).2 (hg.inside _ hstart)
    have heq := hg.eq (maximalRun_of_mem hapart hdays hh) hstart hcontains
    exact heq ▸ hh

/-! ## §3. Gaps. -/

theorem missingRuns_of_days (hapart : gaps.Pairwise DateRange.Before)
    (hdays : ∀ d, Reaches gaps d ↔ r.contains d = true ∧ ¬ covered d) :
    MissingRuns covered r gaps := by
  refine ⟨fun g hg => ?_, ?_, hdays, fun g => maximalRun_iff_mem hapart hdays⟩
  · exact DateRange.containsRange_iff.2
      ⟨((hdays _).1 (start_of_mem hg)).1, ((hdays _).1 (stop_of_mem hg)).1⟩
  · -- Between two gaps a day is not missing, and it lies in the range as both gaps do.
    refine hapart.imp_of_mem ?_
    intro g h hg hh hbefore
    have hgr := DateRange.contains_iff.1 ((hdays _).1 (stop_of_mem hg)).1
    have hhr := DateRange.contains_iff.1 ((hdays _).1 (start_of_mem hh)).1
    obtain ⟨d, hgd, hdh, hnot⟩ := (maximalRun_of_mem hapart hdays hg).exists_between hbefore
    have hin : r.contains d = true := by
      rw [Date.lt_def] at hgd hdh
      rw [DateRange.contains_iff]
      omega
    refine ⟨d, hgd, hdh, hin, ?_⟩
    by_contra hcovered
    exact hnot ⟨hin, hcovered⟩

theorem missingRuns_ofDates {ds : List Date} (hasc : ds.Pairwise (· < ·))
    (hcovered : ∀ d, covered d ↔ d ∈ ds) (r : DateRange) :
    MissingRuns covered r (ofDates r ds).gaps := by
  refine missingRuns_of_days (pairwise_gaps_ofDates hasc r) fun d => ?_
  rw [mem_gaps_ofDates hasc, hcovered]

/-- **The gaps of a range are its maximal runs of days that some series lacks;** there are none
    exactly if no day is lacking, and no series at all leaves the whole range. -/
theorem gaps_are_missing_runs (series : List Series) (r : DateRange) :
    (∀ s : Series, MissingRuns (fun d => d ∈ s.dates) r (ofSeries s r).gaps
        ∧ ((ofSeries s r).isFull = true ↔ ∀ d ∈ r.days, d ∈ s.dates))
      ∧ (series ≠ [] →
          MissingRuns (fun d => ∀ s ∈ series, d ∈ s.dates) r (joint series r).gaps
          ∧ ((joint series r).isFull = true ↔ ∀ d ∈ r.days, ∀ s ∈ series, d ∈ s.dates)
          ∧ ∀ d, Reaches (joint series r).gaps d ↔ ∃ s ∈ series, Reaches (ofSeries s r).gaps d)
      ∧ (joint [] r).gaps = [r] := by
  refine ⟨fun s => ⟨?_, isFull_ofSeries⟩, fun hne => ?_, ?_⟩
  · exact missingRuns_ofDates s.ascending_dates (fun d => Iff.rfl) r
  · -- The gaps are those of the days that all series have.
    have hruns : MissingRuns (fun d => ∀ s ∈ series, d ∈ s.dates) r (joint series r).gaps :=
      missingRuns_ofDates (ascending_jointDates series) (fun d => (mem_jointDates hne).symm) r
    refine ⟨hruns, ?_, fun d => ?_⟩
    · unfold joint
      rw [isFull_ofDates (ascending_jointDates series)]
      exact forall₂_congr fun d _ => mem_jointDates hne
    · rw [hruns.days]
      simp only [mem_gaps_ofSeries, not_forall, exists_prop]
      constructor
      · intro h
        obtain ⟨hr, s, hs, hnot⟩ := h
        exact ⟨s, hs, hr, hnot⟩
      · intro h
        obtain ⟨s, hs, hr, hnot⟩ := h
        exact ⟨hr, s, hs, hnot⟩
  · show gapsFrom r.start r.stop [] = [r]
    unfold gapsFrom
    exact dif_pos r.ordered

namespace Sample

/-- The last three days of the day line. -/
def lastDays : DateRange :=
  ⟨.ofDays 2147483645, .ofDays 2147483647, by decide⟩

/-- A series of the middle one of them. -/
def middle : Series :=
  ⟨[⟨.ofDays 2147483646, .zero⟩], List.pairwise_singleton _ _⟩

/-- A series of the first two of them. -/
def firstTwo : Series :=
  ⟨[⟨.ofDays 2147483645, .zero⟩, ⟨.ofDays 2147483646, .zero⟩],
    List.pairwise_pair.2 (show Date.ofDays 2147483645 < Date.ofDays 2147483646 by decide)⟩

end Sample

/-- At the end of the day line, two series leave a gap on both sides of their common day. -/
theorem gaps_of_lastDays :
    [Sample.middle, Sample.firstTwo] ≠ []
      ∧ (joint [Sample.middle, Sample.firstTwo] Sample.lastDays).gaps
        = [.single (.ofDays 2147483645), .single (.ofDays 2147483647)]
      ∧ MissingRuns (fun d => ∀ s ∈ [Sample.middle, Sample.firstTwo], d ∈ s.dates) Sample.lastDays
        [.single (.ofDays 2147483645), .single (.ofDays 2147483647)] := by
  have hgaps : (joint [Sample.middle, Sample.firstTwo] Sample.lastDays).gaps
      = [.single (.ofDays 2147483645), .single (.ofDays 2147483647)] := by
    decide
  have hne : [Sample.middle, Sample.firstTwo] ≠ [] := by simp
  obtain ⟨_, hjoint, _⟩ :=
    gaps_are_missing_runs [Sample.middle, Sample.firstTwo] Sample.lastDays
  exact ⟨hne, hgaps, hgaps ▸ (hjoint hne).1⟩

end MetricCube.Coverage
