/-
  MetricCube.Proofs.Reduction
  ───────────────────────────
  **What a sum of payloads is.**  Whatever adds up is of one kind, over the same
  days or the same range, and adds up to the sum of its counts
  (`sumOf_of_sumPayloads`).  So payloads that show the amounts `g s` of a range,
  day by day or in one count, add up to a payload that shows the sum
  (`shows_sumPayloads`).

  Payloads of which those of one kind agree fail to add up for two reasons only:
  both kinds are among them, or a counter overflows (`error_sumPayloads`); those of
  one kind whose true sums fit never fail (`Uniform.exists_sum`).
-/
import Mathlib
import MetricCube.Proofs.Series
import MetricCube.Reduction

namespace MetricCube

namespace Payload

/-- The payload is over exactly the days of the range. -/
def Aligned (range : DateRange) : Payload → Prop
  | .daily s => s.dates = range.days
  | .aggregate w => w.range = range

/-- The payload has the amounts `f` of the range, day by day or in one count. -/
def Shows (range : DateRange) (f : Date → Amount) : Payload → Prop
  | .daily s => s.Holds range.days f
  | .aggregate w => w.range = range ∧ w.counts.amount = (range.days.map f).sum

/-- The payload is daily. -/
def IsDaily (p : Payload) : Prop :=
  ∃ s, p = .daily s

/-- The payload is a window. -/
def IsWindow (p : Payload) : Prop :=
  ∃ w, p = .aggregate w

theorem isDaily_or_isWindow : ∀ p : Payload, p.IsDaily ∨ p.IsWindow
  | .daily s => .inl ⟨s, rfl⟩
  | .aggregate w => .inr ⟨w, rfl⟩

theorem IsDaily.not_isWindow {p : Payload} : p.IsDaily → ¬ p.IsWindow := by
  rintro ⟨s, rfl⟩ ⟨w, hw⟩
  cases hw

/-- If both payloads are of one kind, they are over the same days or the same range. -/
def Agrees : Payload → Payload → Prop
  | .daily s, .daily t => s.dates = t.dates
  | .aggregate v, .aggregate w => v.range = w.range
  | _, _ => True

theorem Aligned.agrees {range : DateRange} {p q : Payload} (hp : p.Aligned range)
    (hq : q.Aligned range) : p.Agrees q := by
  cases p with
  | daily s =>
    cases q with
    | daily t => exact hp.trans hq.symm
    | aggregate w => trivial
  | aggregate v =>
    cases q with
    | daily t => trivial
    | aggregate w => exact hp.trans hq.symm

/-- What the payload counts on a day; a window counts nothing on a day of its own. -/
def on (d : Date) : Payload → Amount
  | .daily s => s.amountOn d
  | .aggregate _ => 0

/-- What the payload counts of a window as a whole. -/
def whole : Payload → Amount
  | .daily _ => 0
  | .aggregate w => w.counts.amount

end Payload

/-- All payloads are daily, with the given days. -/
def AllDaily (slices : List Slice) (dates : List Date) : Prop :=
  ∀ s ∈ slices, ∃ series, s.payload = .daily series ∧ series.dates = dates

/-- All payloads are windows over the given range. -/
def AllWindows (slices : List Slice) (range : DateRange) : Prop :=
  ∀ s ∈ slices, ∃ w, s.payload = .aggregate w ∧ w.range = range

/-- All payloads are of one kind, over the same days or the same range. -/
def Uniform (slices : List Slice) : Prop :=
  (∃ dates, AllDaily slices dates) ∨ ∃ range, AllWindows slices range

/-! ## §1. Adding daily series. -/

theorem Series.accumulate?_cases {s t : Series} (h : s.dates = t.dates) :
    (∃ ps : Series, Series.addPoints s.points t.points = .ok ps.points
        ∧ s.accumulate? t = some (.ok ps))
      ∨ ∃ e, Series.addPoints s.points t.points = .error e ∧ s.accumulate? t = some (.error e) := by
  have hsame : s.sameDates t = true := by rw [Series.sameDates, h, beq_self_eq_true]
  unfold Series.accumulate?
  rw [if_pos hsame]
  split
  · rename_i e he
    exact .inr ⟨e, he, rfl⟩
  · rename_i ps hps
    exact .inl ⟨⟨ps, _⟩, hps, rfl⟩

theorem Series.accumulate?_eq_none {s t : Series} (h : s.dates ≠ t.dates) :
    s.accumulate? t = none := by
  unfold Series.accumulate?
  rw [if_neg fun hsame => h (by simpa [Series.sameDates] using hsame)]

/-- **Adding series that hold the same days adds what they hold.** -/
theorem holds_addDaily {ds : List Date} {g : Slice → Date → Amount} {slices : List Slice} :
    ∀ {acc r : Series} {f : Date → Amount}, acc.Holds ds f →
      (∀ s ∈ slices, ∀ series, s.payload = .daily series → series.Holds ds (g s)) →
      addDaily acc slices = .ok r → r.Holds ds fun d => f d + (slices.map fun s => g s d).sum := by
  induction slices with
  | nil =>
    intro acc r f hacc _ h
    cases h
    simpa using hacc
  | cons s rest ih =>
    intro acc r f hacc hall h
    cases hpayload : s.payload with
    | aggregate w => simp only [addDaily, hpayload] at h; cases h
    | daily series =>
      have hseries := hall s List.mem_cons_self series hpayload
      have hdates : acc.dates = series.dates := hacc.dates_eq.trans hseries.dates_eq.symm
      rcases Series.accumulate?_cases hdates with ⟨ps, hps, hacc'⟩ | ⟨e, _, hacc'⟩
      · simp only [addDaily, hpayload, hacc'] at h
        -- The new accumulator holds what was there and what the slice adds to it.
        have hsum : ps.Holds ds fun d => f d + g s d := Series.holds_addPoints hacc hseries hps
        have hrest := ih hsum (fun t ht => hall t (List.mem_cons_of_mem _ ht)) h
        simpa only [List.map_cons, List.sum_cons, add_assoc] using hrest
      · simp only [addDaily, hpayload, hacc'] at h
        cases h

theorem exists_addDaily {ds : List Date} {g : Slice → Date → Amount} {slices : List Slice} :
    ∀ {acc : Series} {f : Date → Amount}, acc.Holds ds f →
      (∀ s ∈ slices, ∃ series, s.payload = .daily series ∧ series.Holds ds (g s)) →
      (∀ d ∈ ds, Amount.Fits (f d + (slices.map fun s => g s d).sum)) →
      ∃ r, addDaily acc slices = .ok r := by
  induction slices with
  | nil => intro acc f _ _ _; exact ⟨acc, rfl⟩
  | cons s rest ih =>
    intro acc f hacc hall hfits
    obtain ⟨series, hpayload, hseries⟩ := hall s List.mem_cons_self
    simp only [List.map_cons, List.sum_cons, ← add_assoc] at hfits
    -- A part of a sum that is a count is a count, too.
    obtain ⟨qs, hqs⟩ := Series.exists_addPoints hacc hseries fun d hd => (hfits d hd).of_add
    have hdates : acc.dates = series.dates := hacc.dates_eq.trans hseries.dates_eq.symm
    rcases Series.accumulate?_cases hdates with ⟨ps, hps, hacc'⟩ | ⟨e, he, _⟩
    · have hsum : ps.Holds ds fun d => f d + g s d := Series.holds_addPoints hacc hseries hps
      obtain ⟨r, hr⟩ := ih hsum (fun t ht => hall t (List.mem_cons_of_mem _ ht)) hfits
      exact ⟨r, by simp only [addDaily, hpayload, hacc', hr]⟩
    · rw [hqs] at he
      cases he

theorem error_addDaily {ds : List Date} {slices : List Slice} {e : ReduceError} :
    ∀ {acc : Series}, acc.dates = ds →
      (∀ s ∈ slices, ∀ series, s.payload = .daily series → series.dates = ds) →
      addDaily acc slices = .error e →
      (∃ o, e = .overflow o) ∨ e = .failed .mixedPayloads ∧ ∃ s ∈ slices, s.payload.IsWindow := by
  -- The accumulated days stay those of every slice, so that adding fails by overflow only.
  induction slices with
  | nil => intro acc _ _ h; cases h
  | cons s rest ih =>
    intro acc hacc hall h
    cases hpayload : s.payload with
    | aggregate w =>
      simp only [addDaily, hpayload] at h
      cases h
      exact .inr ⟨rfl, s, List.mem_cons_self, w, hpayload⟩
    | daily series =>
      have hdates : acc.dates = series.dates :=
        hacc.trans (hall s List.mem_cons_self series hpayload).symm
      rcases Series.accumulate?_cases hdates with ⟨ps, hps, hacc'⟩ | ⟨o, _, hacc'⟩
      · simp only [addDaily, hpayload, hacc'] at h
        have hkept : ps.dates = ds := (Series.dates_addPoints hps).trans hacc
        rcases ih hkept (fun t ht => hall t (List.mem_cons_of_mem _ ht)) h with ho | ⟨he, t, ht, hw⟩
        · exact .inl ho
        · exact .inr ⟨he, t, List.mem_cons_of_mem _ ht, hw⟩
      · simp only [addDaily, hpayload, hacc'] at h
        cases h
        exact .inl ⟨o, rfl⟩

theorem allDaily_of_addDaily {slices : List Slice} : ∀ {acc r : Series},
    addDaily acc slices = .ok r → AllDaily slices acc.dates := by
  induction slices with
  | nil => intro acc r _ s hs; cases hs
  | cons t rest ih =>
    intro acc r h s hs
    cases hpayload : t.payload with
    | aggregate w => simp only [addDaily, hpayload] at h; cases h
    | daily series =>
      by_cases hdates : acc.dates = series.dates
      · rcases Series.accumulate?_cases hdates with ⟨ps, hps, hacc⟩ | ⟨e, _, hacc⟩
        · simp only [addDaily, hpayload, hacc] at h
          rcases List.mem_cons.1 hs with rfl | hs
          · exact ⟨series, hpayload, hdates.symm⟩
          · -- The sum so far keeps its days, and the later slices have them.
            have hkept : ps.dates = acc.dates := Series.dates_addPoints hps
            exact hkept ▸ ih h s hs
        · simp only [addDaily, hpayload, hacc] at h
          cases h
      · simp only [addDaily, hpayload, Series.accumulate?_eq_none hdates] at h
        cases h

/-! ## §2. Adding windows. -/

theorem amount_addWindows {g : Slice → Amount} {slices : List Slice} :
    ∀ {acc r : Window},
      (∀ s ∈ slices, ∀ w, s.payload = .aggregate w → w.counts.amount = g s) →
      addWindows acc slices = .ok r →
      r.range = acc.range ∧ r.counts.amount = acc.counts.amount + (slices.map g).sum := by
  -- The accumulated window moves with the induction and keeps its range.
  induction slices with
  | nil =>
    intro acc r _ h
    cases h
    simp
  | cons s rest ih =>
    intro acc r hall h
    unfold addWindows at h
    split at h
    · cases h
    · rename_i w hpayload
      split at h
      · split at h
        · cases h
        · rename_i counts hcounts
          obtain ⟨hrange, hamount⟩ := ih (fun t ht => hall t (List.mem_cons_of_mem _ ht)) h
          refine ⟨hrange, ?_⟩
          rw [hamount, Count.add_eq_ok_iff.1 hcounts, hall s List.mem_cons_self w hpayload,
            List.map_cons, List.sum_cons, add_assoc]
      · cases h

theorem error_addWindows {range : DateRange} {slices : List Slice} {e : ReduceError} :
    ∀ {acc : Window}, acc.range = range →
      (∀ s ∈ slices, ∀ w, s.payload = .aggregate w → w.range = range) →
      addWindows acc slices = .error e →
      (∃ o, e = .overflow o) ∨ e = .failed .mixedPayloads ∧ ∃ s ∈ slices, s.payload.IsDaily := by
  -- The accumulated range stays that of every window, so that adding fails by overflow only.
  induction slices with
  | nil => intro acc _ _ h; cases h
  | cons s rest ih =>
    intro acc hacc hall h
    unfold addWindows at h
    split at h
    · rename_i series hpayload
      cases h
      exact .inr ⟨rfl, s, List.mem_cons_self, series, hpayload⟩
    · rename_i w hpayload
      rw [if_pos ((hall s List.mem_cons_self w hpayload).trans hacc.symm)] at h
      split at h
      · rename_i o _
        cases h
        exact .inl ⟨o, rfl⟩
      · rename_i counts _
        have hrest : ∀ t ∈ rest, ∀ w, t.payload = .aggregate w → w.range = range :=
          fun t ht => hall t (List.mem_cons_of_mem _ ht)
        rcases @ih ⟨acc.range, counts⟩ hacc hrest h with ho | ⟨he, t, ht, hw⟩
        · exact .inl ho
        · exact .inr ⟨he, t, List.mem_cons_of_mem _ ht, hw⟩

theorem allWindows_of_addWindows {slices : List Slice} : ∀ {acc r : Window},
    addWindows acc slices = .ok r → AllWindows slices acc.range := by
  induction slices with
  | nil => intro acc r _ s hs; cases hs
  | cons t rest ih =>
    intro acc r h s hs
    unfold addWindows at h
    split at h
    · cases h
    · rename_i w hpayload
      split at h
      · rename_i hrange
        split at h
        · cases h
        · rcases List.mem_cons.1 hs with rfl | hs
          · exact ⟨w, hpayload, hrange⟩
          · exact ih h s hs
      · cases h

theorem exists_addWindows {slices : List Slice} : ∀ {acc : Window}, AllWindows slices acc.range →
    Amount.Fits (acc.counts.amount + (slices.map fun s => s.payload.whole).sum) →
    ∃ r, addWindows acc slices = .ok r := by
  induction slices with
  | nil => intro acc _ _; exact ⟨acc, rfl⟩
  | cons s rest ih =>
    intro acc hall hfits
    obtain ⟨w, hpayload, hrange⟩ := hall s List.mem_cons_self
    rw [List.map_cons, List.sum_cons, hpayload, ← add_assoc] at hfits
    -- A part of a sum that is a count is a count, too.
    obtain ⟨counts, hcounts⟩ := Count.exists_of_fits hfits.of_add
    have hadd : acc.counts.add w.counts = .ok counts := Count.add_eq_ok_iff.2 hcounts
    obtain ⟨r, hr⟩ := @ih ⟨acc.range, counts⟩ (fun t ht => hall t (List.mem_cons_of_mem _ ht))
      (hcounts ▸ hfits)
    exact ⟨r, by simp only [addWindows, hpayload, hrange, if_true, hadd, hr]⟩

/-! ## §3. Sums of payloads. -/

theorem sumPayloads_eq_ok {s : Slice} {rest : List Slice} {p : Payload}
    (h : sumPayloads (s :: rest) = .ok p) :
    (∃ series sum, s.payload = .daily series ∧ addDaily series rest = .ok sum ∧ p = .daily sum)
      ∨ ∃ w sum, s.payload = .aggregate w ∧ addWindows w rest = .ok sum ∧ p = .aggregate sum := by
  cases hpayload : s.payload with
  | daily series =>
    simp only [sumPayloads, hpayload] at h
    cases hadd : addDaily series rest with
    | error e => rw [hadd] at h; cases h
    | ok sum =>
      rw [hadd] at h
      cases h
      exact .inl ⟨series, sum, rfl, hadd, rfl⟩
  | aggregate w =>
    simp only [sumPayloads, hpayload] at h
    cases hadd : addWindows w rest with
    | error e => rw [hadd] at h; cases h
    | ok sum =>
      rw [hadd] at h
      cases h
      exact .inr ⟨w, sum, rfl, hadd, rfl⟩

theorem sumPayloads_eq_error {s : Slice} {rest : List Slice} {e : ReduceError}
    (h : sumPayloads (s :: rest) = .error e) :
    (∃ series, s.payload = .daily series ∧ addDaily series rest = .error e)
      ∨ ∃ w, s.payload = .aggregate w ∧ addWindows w rest = .error e := by
  cases hpayload : s.payload with
  | daily series =>
    simp only [sumPayloads, hpayload] at h
    cases hadd : addDaily series rest with
    | error e' =>
      rw [hadd] at h
      cases h
      exact .inl ⟨series, rfl, hadd⟩
    | ok sum => rw [hadd] at h; cases h
  | aggregate w =>
    simp only [sumPayloads, hpayload] at h
    cases hadd : addWindows w rest with
    | error e' =>
      rw [hadd] at h
      cases h
      exact .inr ⟨w, rfl, hadd⟩
    | ok sum => rw [hadd] at h; cases h

/-- The payload is the sum of those of the slices, over the same days or the same range. -/
def SumOf (slices : List Slice) : Payload → Prop
  | .daily sum => AllDaily slices sum.dates
      ∧ ∀ d, sum.amountOn d = (slices.map fun s => s.payload.on d).sum
  | .aggregate sum => AllWindows slices sum.range
      ∧ sum.counts.amount = (slices.map fun s => s.payload.whole).sum

theorem AllDaily.holds {slices : List Slice} {dates : List Date} (h : AllDaily slices dates) :
    ∀ s ∈ slices, ∃ series, s.payload = .daily series
      ∧ series.Holds dates fun d => s.payload.on d := by
  intro s hs
  obtain ⟨series, hpayload, rfl⟩ := h s hs
  rw [hpayload]
  exact ⟨series, rfl, series.holds_amountOn⟩

theorem AllDaily.on_eq_zero {slices : List Slice} {dates : List Date} (h : AllDaily slices dates)
    {d : Date} (hd : d ∉ dates) : (slices.map fun s => s.payload.on d).sum = 0 := by
  refine List.sum_eq_zero (List.forall_mem_map.2 fun s hs => ?_)
  obtain ⟨series, hpayload, rfl⟩ := h s hs
  rw [hpayload]
  exact Series.amountOn_of_not_mem hd

theorem sumOf_of_addDaily {s : Slice} {rest : List Slice} {series sum : Series}
    (hpayload : s.payload = .daily series) (h : addDaily series rest = .ok sum) :
    SumOf (s :: rest) (.daily sum) := by
  have hrest := allDaily_of_addDaily h
  have hholds := @holds_addDaily series.dates (fun t d => t.payload.on d) rest series sum _
    series.holds_amountOn (fun t ht u hu => by
      obtain ⟨u', hu', hholds⟩ := hrest.holds t ht
      rw [hu] at hu'
      cases hu'
      exact hholds) h
  have hall : AllDaily (s :: rest) sum.dates := by
    rw [hholds.dates_eq]
    exact List.forall_mem_cons.2 ⟨⟨series, hpayload, rfl⟩, hrest⟩
  refine ⟨hall, fun d => ?_⟩
  -- Off their common days neither the slices nor the sum count anything.
  by_cases hd : d ∈ sum.dates
  · rw [hholds.amountOn_eq (hholds.dates_eq ▸ hd), List.map_cons, List.sum_cons, hpayload]
    rfl
  · rw [Series.amountOn_of_not_mem hd, hall.on_eq_zero hd]

theorem sumOf_of_addWindows {s : Slice} {rest : List Slice} {w sum : Window}
    (hpayload : s.payload = .aggregate w) (h : addWindows w rest = .ok sum) :
    SumOf (s :: rest) (.aggregate sum) := by
  obtain ⟨hrange, hamount⟩ := @amount_addWindows (fun t => t.payload.whole) rest w sum
    (fun t _ v hv => by rw [hv]; rfl) h
  constructor
  · rw [hrange]
    exact List.forall_mem_cons.2 ⟨⟨w, hpayload, rfl⟩, allWindows_of_addWindows h⟩
  · rw [hamount, List.map_cons, List.sum_cons, hpayload]
    rfl

/-- **A sum of payloads is the sum of what the slices count.** -/
theorem sumOf_of_sumPayloads {slices : List Slice} {p : Payload} (h : sumPayloads slices = .ok p) :
    SumOf slices p := by
  cases slices with
  | nil => cases h
  | cons s rest =>
    rcases sumPayloads_eq_ok h with ⟨series, sum, hpayload, hadd, rfl⟩ | ⟨w, sum, hpayload, hadd, rfl⟩
    · exact sumOf_of_addDaily hpayload hadd
    · exact sumOf_of_addWindows hpayload hadd

theorem sum_sum_comm {α β : Type} (as : List α) (bs : List β) (g : α → β → Amount) :
    (as.map fun a => (bs.map (g a)).sum).sum = (bs.map fun b => (as.map fun a => g a b).sum).sum := by
  induction as with
  | nil => simp
  | cons a as ih => simp only [List.map_cons, List.sum_cons, ih, List.sum_map_add]

/-- **The sum of payloads shows the sum of what they show.** -/
theorem shows_sumPayloads {range : DateRange} {g : Slice → Date → Amount} {slices : List Slice}
    {p : Payload} (hall : ∀ s ∈ slices, s.payload.Shows range (g s))
    (h : sumPayloads slices = .ok p) :
    p.Shows range fun d => (slices.map fun s => g s d).sum := by
  obtain ⟨first, hfirst⟩ : ∃ s, s ∈ slices := by
    cases slices with
    | nil => cases h
    | cons s rest => exact ⟨s, List.mem_cons_self⟩
  have hsum := sumOf_of_sumPayloads h
  cases p with
  | daily sum =>
    have hholds : ∀ s ∈ slices, ∃ series, s.payload = .daily series ∧ series.dates = sum.dates
        ∧ series.Holds range.days (g s) := by
      intro s hs
      obtain ⟨series, hpayload, hdates⟩ := hsum.1 s hs
      have hshows := hall s hs
      rw [hpayload] at hshows
      exact ⟨series, hpayload, hdates, hshows⟩
    obtain ⟨_, _, hdates, hfirst⟩ := hholds first hfirst
    refine Series.holds_of_dates (hdates.symm.trans hfirst.dates_eq) fun pt hpt => ?_
    rw [sum.holds_amountOn.amount_eq pt hpt, hsum.2]
    refine congrArg List.sum (List.map_congr_left fun s hs => ?_)
    obtain ⟨series, hpayload, hdates, hshows⟩ := hholds s hs
    have hday : pt.date ∈ range.days := by
      rw [← hshows.dates_eq, hdates]
      exact List.mem_map_of_mem hpt
    rw [hpayload]
    exact hshows.amountOn_eq hday
  | aggregate sum =>
    have hshows : ∀ s ∈ slices, ∃ w, s.payload = .aggregate w ∧ w.range = sum.range
        ∧ w.range = range ∧ w.counts.amount = (range.days.map (g s)).sum := by
      intro s hs
      obtain ⟨w, hpayload, hrange⟩ := hsum.1 s hs
      have hshows := hall s hs
      rw [hpayload] at hshows
      exact ⟨w, hpayload, hrange, hshows⟩
    obtain ⟨_, _, hsame, hrange, _⟩ := hshows first hfirst
    refine ⟨hsame.symm.trans hrange, ?_⟩
    -- Windows are added slice by slice, what is shown is summed day by day.
    rw [hsum.2, ← sum_sum_comm slices]
    refine congrArg List.sum (List.map_congr_left fun s hs => ?_)
    obtain ⟨w, hpayload, _, _, hamount⟩ := hshows s hs
    rw [hpayload]
    exact hamount

/-! ## §4. Payloads that add up. -/

/-- **Payloads that agree fail to add up only if both kinds are among them, or on overflow.** -/
theorem error_sumPayloads {slices : List Slice} {e : ReduceError} (hne : slices ≠ [])
    (hall : ∀ s ∈ slices, ∀ t ∈ slices, s.payload.Agrees t.payload)
    (h : sumPayloads slices = .error e) :
    (∃ o, e = .overflow o) ∨ e = .failed .mixedPayloads
      ∧ (∃ s ∈ slices, s.payload.IsDaily) ∧ ∃ s ∈ slices, s.payload.IsWindow := by
  cases slices with
  | nil => exact absurd rfl hne
  | cons s rest =>
    -- The later payloads agree with the first one.
    have hlater : ∀ t ∈ rest, t.payload.Agrees s.payload := fun t ht =>
      hall t (List.mem_cons_of_mem _ ht) s List.mem_cons_self
    rcases sumPayloads_eq_error h with ⟨series, hpayload, hadd⟩ | ⟨w, hpayload, hadd⟩
    · have hdates : ∀ t ∈ rest, ∀ u, t.payload = .daily u → u.dates = series.dates := by
        intro t ht u hu
        have hagree := hlater t ht
        rwa [hu, hpayload] at hagree
      rcases error_addDaily rfl hdates hadd with ho | ⟨he, t, ht, hw⟩
      · exact .inl ho
      · exact .inr ⟨he, ⟨s, List.mem_cons_self, series, hpayload⟩, t, List.mem_cons_of_mem _ ht, hw⟩
    · have hranges : ∀ t ∈ rest, ∀ v, t.payload = .aggregate v → v.range = w.range := by
        intro t ht v hv
        have hagree := hlater t ht
        rwa [hv, hpayload] at hagree
      rcases error_addWindows rfl hranges hadd with ho | ⟨he, t, ht, hd⟩
      · exact .inl ho
      · exact .inr ⟨he, ⟨t, List.mem_cons_of_mem _ ht, hd⟩, s, List.mem_cons_self, w, hpayload⟩

namespace Uniform

variable {slices : List Slice}

theorem of_sumOf {p : Payload} (h : SumOf slices p) : Uniform slices := by
  cases p with
  | daily sum => exact .inl ⟨_, h.1⟩
  | aggregate sum => exact .inr ⟨_, h.1⟩

theorem kind (h : Uniform slices) :
    (∀ s ∈ slices, s.payload.IsDaily) ∨ ∀ s ∈ slices, s.payload.IsWindow := by
  rcases h with ⟨dates, hall⟩ | ⟨range, hall⟩
  · left
    intro s hs
    obtain ⟨series, hseries, _⟩ := hall s hs
    exact ⟨series, hseries⟩
  · right
    intro s hs
    obtain ⟨w, hw, _⟩ := hall s hs
    exact ⟨w, hw⟩

theorem agrees (h : Uniform slices) :
    ∀ s ∈ slices, ∀ t ∈ slices, s.payload.Agrees t.payload := by
  intro s hs t ht
  rcases h with ⟨dates, hall⟩ | ⟨range, hall⟩
  · obtain ⟨a, ha, hadates⟩ := hall s hs
    obtain ⟨b, hb, hbdates⟩ := hall t ht
    rw [ha, hb]
    exact hadates.trans hbdates.symm
  · obtain ⟨v, hv, hvrange⟩ := hall s hs
    obtain ⟨w, hw, hwrange⟩ := hall t ht
    rw [hv, hw]
    exact hvrange.trans hwrange.symm

/-- Payloads of one kind fail to add up on overflow only. -/
theorem overflow (h : Uniform slices) (hne : slices ≠ []) {e : ReduceError}
    (herror : sumPayloads slices = .error e) : ∃ o, e = .overflow o := by
  rcases error_sumPayloads hne h.agrees herror with ho | ⟨_, ⟨s, hs, hdaily⟩, t, ht, hwindow⟩
  · exact ho
  · rcases h.kind with hall | hall
    · exact absurd hwindow (hall t ht).not_isWindow
    · exact absurd (hall s hs) hdaily.not_isWindow

end Uniform

/-- Daily payloads add up if the true sum of each day is a count. -/
theorem exists_sumPayloads {ds : List Date} {g : Slice → Date → Amount} {slices : List Slice}
    (hne : slices ≠ [])
    (hall : ∀ s ∈ slices, ∃ series, s.payload = .daily series ∧ series.Holds ds (g s))
    (hfits : ∀ d ∈ ds, Amount.Fits (slices.map fun s => g s d).sum) :
    ∃ series, sumPayloads slices = .ok (.daily series) := by
  cases slices with
  | nil => exact absurd rfl hne
  | cons s rest =>
    obtain ⟨series, hpayload, hseries⟩ := hall s List.mem_cons_self
    obtain ⟨r, hr⟩ := exists_addDaily hseries (fun t ht => hall t (List.mem_cons_of_mem _ ht)) hfits
    exact ⟨r, by simp only [sumPayloads, hpayload, hr]; rfl⟩

/-- What the slices count adds up to counts, on every day and over windows. -/
structure SumsFit (slices : List Slice) : Prop where
  daily : ∀ d, Amount.Fits (slices.map fun s => s.payload.on d).sum
  windows : Amount.Fits (slices.map fun s => s.payload.whole).sum

/-- Payloads of one kind add up if their true sums are counts. -/
theorem Uniform.exists_sum {slices : List Slice} (h : Uniform slices) (hne : slices ≠ [])
    (hfits : SumsFit slices) : ∃ p, sumPayloads slices = .ok p := by
  rcases h with ⟨dates, hall⟩ | ⟨range, hall⟩
  · obtain ⟨series, hsum⟩ := exists_sumPayloads hne hall.holds fun d _ => hfits.daily d
    exact ⟨_, hsum⟩
  · cases slices with
    | nil => exact absurd rfl hne
    | cons s rest =>
      obtain ⟨w, hpayload, hrange⟩ := hall s List.mem_cons_self
      have hrest : AllWindows rest w.range := by
        intro t ht
        rw [hrange]
        exact hall t (List.mem_cons_of_mem _ ht)
      have htotal := hfits.windows
      rw [List.map_cons, List.sum_cons, hpayload] at htotal
      obtain ⟨r, hr⟩ := exists_addWindows hrest htotal
      exact ⟨.aggregate r, by simp only [sumPayloads, hpayload, hr]; rfl⟩

end MetricCube
