/-
  MetricCube.Proofs.Series
  ────────────────────────
  **Days, counts and series.**  The days of a range are the days that it contains,
  in ascending order, and a strictly ascending list of days is determined by its
  members.  Counts are compared as pairs of unbounded numbers: a checked sum
  succeeds exactly with the true sum (`add_eq_ok_iff`, `sum_eq_ok_iff`).

  `Holds s ds f` says that a series has exactly the days `ds`, with the counts
  that `f` gives; it is kept by clipping and by adding day by day, and it fixes
  the total.
-/
import Mathlib
import MetricCube.Series

namespace MetricCube

/-! ## §1. Days. -/

theorem Date.not_lt_self (d : Date) : ¬ d < d :=
  Int.lt_irrefl d.days

instance : Std.Irrefl fun a b : Date => a < b :=
  ⟨Date.not_lt_self⟩

instance : Std.Antisymm fun a b : Date => a < b :=
  ⟨fun a b hab hba => absurd hab (lt_asymm (show b.days < a.days from hba))⟩

namespace DateRange

theorem contains_iff {r : DateRange} {d : Date} :
    r.contains d = true ↔ r.start.days ≤ d.days ∧ d.days ≤ r.stop.days := by
  rw [contains, Bool.and_eq_true, decide_eq_true_eq, decide_eq_true_eq, Date.le_def, Date.le_def]

theorem days_addDays {r : DateRange} {i : Nat} (h : i < r.size) :
    (r.start.addDays (i : Int)).days = r.start.days + i := by
  have h₁ := r.start.lower
  have h₂ := r.stop.upper
  unfold size at h
  exact Date.days_ofDays (by omega) (by omega)

theorem mem_days {r : DateRange} {d : Date} : d ∈ r.days ↔ r.contains d = true := by
  rw [contains_iff, days, List.mem_map]
  constructor
  · rintro ⟨i, hi, rfl⟩
    rw [List.mem_range] at hi
    rw [days_addDays hi]
    unfold size at hi
    omega
  · rintro ⟨hstart, hstop⟩
    -- A day is found at its distance from the start.
    have hi : (d.days - r.start.days).toNat < r.size := by
      unfold size
      omega
    refine ⟨(d.days - r.start.days).toNat, List.mem_range.2 hi, Date.ext_days ?_⟩
    rw [days_addDays hi]
    omega

theorem ascending_days (r : DateRange) : r.days.Pairwise (· < ·) := by
  rw [days, List.pairwise_map]
  refine List.Pairwise.imp_of_mem ?_ List.pairwise_lt_range
  intro i j hi hj hij
  rw [Date.lt_def, days_addDays (List.mem_range.1 hi), days_addDays (List.mem_range.1 hj)]
  omega

theorem start_mem_days (r : DateRange) : r.start ∈ r.days :=
  mem_days.2 (contains_iff.2 ⟨le_refl _, r.ordered⟩)

end DateRange

/-! ## §2. Counts as pairs of numbers. -/

/-- Trials and successes without a bound. -/
abbrev Amount := ℕ × ℕ

/-- Both numbers are counters. -/
def Amount.Fits (x : Amount) : Prop :=
  x.1 < counterBound ∧ x.2 < counterBound

theorem Amount.Fits.of_add {x y : Amount} (h : Amount.Fits (x + y)) : Amount.Fits x := by
  obtain ⟨hn, hk⟩ := h
  rw [Prod.fst_add] at hn
  rw [Prod.snd_add] at hk
  exact ⟨by omega, by omega⟩

/-- If a sum fits, then so does each of its terms. -/
theorem Amount.Fits.of_mem_sum {α : Type} {as : List α} {f : α → Amount}
    (h : Amount.Fits (as.map f).sum) {a : α} (ha : a ∈ as) : Amount.Fits (f a) := by
  classical
  rw [← List.sum_map_erase f ha] at h
  exact h.of_add

namespace Count

/-- Trials and successes of a count. -/
def amount (c : Count) : Amount :=
  (c.n, c.k)

theorem amount_injective {a b : Count} (h : a.amount = b.amount) : a = b :=
  ext_nk (congrArg Prod.fst h) (congrArg Prod.snd h)

theorem fits_amount (c : Count) : c.amount.Fits :=
  ⟨c.n_lt, c.k_lt⟩

theorem exists_of_fits {x : Amount} (h : x.Fits) : ∃ c : Count, c.amount = x :=
  ⟨⟨x.1, x.2, h.1, h.2⟩, rfl⟩

@[simp] theorem amount_zero : zero.amount = 0 := rfl

theorem add_eq_ok_iff {a b c : Count} : a.add b = .ok c ↔ c.amount = a.amount + b.amount := by
  unfold add ofNats?
  by_cases h : a.n + b.n < counterBound ∧ a.k + b.k < counterBound
  · simp only [h, and_self, dite_true]
    constructor
    · rintro ⟨⟩
      rfl
    · intro hc
      refine congrArg Except.ok (amount_injective ?_)
      rw [hc]
      rfl
  · simp only [h, dite_false]
    constructor
    · rintro ⟨⟩
    · intro hc
      have hfits := c.fits_amount
      rw [hc] at hfits
      exact absurd hfits h

/-- **A list of counts has a sum exactly when the true sum is a count.** -/
theorem addAll_eq_ok_iff {cs : List Count} : ∀ {acc c : Count},
    acc.addAll cs = .ok c ↔ c.amount = acc.amount + (cs.map amount).sum := by
  induction cs with
  | nil =>
    intro acc c
    rw [addAll, List.map_nil, List.sum_nil, add_zero]
    constructor
    · rintro ⟨⟩
      rfl
    · intro h
      rw [amount_injective h]
  | cons b cs ih =>
    intro acc c
    rw [addAll, List.map_cons, List.sum_cons, ← add_assoc]
    cases hadd : acc.add b with
    | ok s =>
      rw [← add_eq_ok_iff.1 hadd]
      exact ih
    | error e =>
      -- A partial sum that is no count leaves no count for the whole.
      constructor
      · rintro ⟨⟩
      · intro h
        have hfits := c.fits_amount
        rw [h] at hfits
        obtain ⟨s, hs⟩ := exists_of_fits hfits.of_add
        rw [add_eq_ok_iff.2 hs] at hadd
        cases hadd

theorem sum_eq_ok_iff {cs : List Count} {c : Count} :
    sum cs = .ok c ↔ c.amount = (cs.map amount).sum := by
  rw [sum, addAll_eq_ok_iff, amount_zero, zero_add]

end Count

/-! ## §3. Looking up, merging and clipping. -/

namespace Series

theorem ascending_dates (s : Series) : s.dates.Pairwise (· < ·) :=
  List.pairwise_map.2 s.ascending

theorem mem_takeWhile_lt {ys : List Point} (h : ys.Pairwise fun p q => p.date < q.date)
    {x p : Point} :
    (p ∈ ys.takeWhile fun y => decide (y.date < x.date)) ↔ p ∈ ys ∧ p.date < x.date := by
  refine ⟨fun hp => ⟨(List.takeWhile_sublist _).subset hp, lt_of_mem_takeWhile hp⟩, ?_⟩
  rintro ⟨hp, hlt⟩
  induction ys with
  | nil => cases hp
  | cons y ys ih =>
    have hy : y.date < x.date := by
      rcases List.mem_cons.1 hp with rfl | hp
      · exact hlt
      · exact Int.lt_trans (List.rel_of_pairwise_cons h hp) hlt
    rw [List.takeWhile_cons, if_pos (by simpa using hy)]
    rcases List.mem_cons.1 hp with rfl | hp
    · exact List.mem_cons_self
    · exact List.mem_cons_of_mem _ (ih h.of_cons hp)

theorem mem_dropWhile_le {ys : List Point} (h : ys.Pairwise fun p q => p.date < q.date)
    {x p : Point} :
    (p ∈ ys.dropWhile fun y => decide (y.date ≤ x.date)) ↔ p ∈ ys ∧ x.date < p.date := by
  refine ⟨fun hp => ⟨(List.dropWhile_sublist _).subset hp, lt_of_mem_dropWhile h hp⟩, ?_⟩
  rintro ⟨hp, hlt⟩
  induction ys with
  | nil => cases hp
  | cons y ys ih =>
    rw [List.dropWhile_cons]
    split
    · rename_i hle
      rcases List.mem_cons.1 hp with rfl | hp
      · exact absurd hlt (Int.not_lt.2 (show p.date ≤ x.date by simpa using hle))
      · exact ih h.of_cons hp
    · exact hp

/-- The points of a union: all of the first list, and those of the second on new days. -/
theorem mem_mergePoints_iff {xs ys : List Point} (hx : xs.Pairwise fun p q => p.date < q.date)
    (hy : ys.Pairwise fun p q => p.date < q.date) {p : Point} :
    p ∈ mergePoints xs ys ↔ p ∈ xs ∨ p ∈ ys ∧ p.date ∉ xs.map Point.date := by
  induction xs generalizing ys with
  | nil => simp [mergePoints]
  | cons x xs ih =>
    have hafter : ∀ q ∈ xs, x.date < q.date := fun q hq => List.rel_of_pairwise_cons hx hq
    rw [mergePoints, List.mem_append, List.mem_cons, mem_takeWhile_lt hy,
      ih hx.of_cons (hy.sublist (List.dropWhile_sublist _)), mem_dropWhile_le hy, List.mem_cons,
      List.map_cons, List.mem_cons]
    -- The second list is cut at `x`: what is earlier goes before it, what is later is merged on.
    constructor
    · rintro (⟨hp, hlt⟩ | rfl | hp | ⟨⟨hp, hlt⟩, hnew⟩)
      · refine Or.inr ⟨hp, ?_⟩
        rintro (heq | hmem)
        · exact absurd (heq ▸ hlt) (Date.not_lt_self _)
        · obtain ⟨q, hq, heq⟩ := List.mem_map.1 hmem
          exact absurd (Int.lt_trans (heq ▸ hafter q hq) hlt) (lt_irrefl _)
      · exact Or.inl (Or.inl rfl)
      · exact Or.inl (Or.inr hp)
      · refine Or.inr ⟨hp, ?_⟩
        rintro (heq | hmem)
        · exact absurd (heq ▸ hlt) (Date.not_lt_self _)
        · exact hnew hmem
    · rintro ((rfl | hp) | ⟨hp, hnew⟩)
      · exact Or.inr (Or.inl rfl)
      · exact Or.inr (Or.inr (Or.inl hp))
      · rw [not_or] at hnew
        rcases lt_trichotomy p.date.days x.date.days with hlt | heq | hgt
        · exact Or.inl ⟨hp, hlt⟩
        · exact absurd (Date.ext_days heq) hnew.1
        · exact Or.inr (Or.inr (Or.inr ⟨⟨hp, hgt⟩, hnew.2⟩))

theorem mem_merge_iff {s t : Series} {p : Point} :
    p ∈ (s.merge t).points ↔ p ∈ s.points ∨ p ∈ t.points ∧ p.date ∉ s.dates :=
  mem_mergePoints_iff s.ascending t.ascending

theorem mem_dates_merge {s t : Series} {d : Date} :
    d ∈ (s.merge t).dates ↔ d ∈ s.dates ∨ d ∈ t.dates := by
  rw [dates, List.mem_map]
  constructor
  · rintro ⟨p, hp, rfl⟩
    rcases mem_merge_iff.1 hp with hp | ⟨hp, _⟩
    · exact Or.inl (List.mem_map_of_mem hp)
    · exact Or.inr (List.mem_map_of_mem hp)
  · intro h
    by_cases hs : d ∈ s.dates
    · obtain ⟨p, hp, rfl⟩ := List.mem_map.1 hs
      exact ⟨p, mem_merge_iff.2 (Or.inl hp), rfl⟩
    · obtain ⟨p, hp, rfl⟩ := List.mem_map.1 (h.resolve_left hs)
      exact ⟨p, mem_merge_iff.2 (Or.inr ⟨hp, hs⟩), rfl⟩

/-- The days that `t` has and `s` does not. -/
def newDays (s t : Series) : List Date :=
  t.dates.filter fun d => d ∉ s.dates

theorem nodup_dates (s : Series) : s.dates.Nodup := by
  refine s.ascending_dates.imp ?_
  rintro a b hlt rfl
  exact Date.not_lt_self a hlt

/-- A merge adds the new days. -/
theorem perm_dates_merge (s t : Series) : (s.merge t).dates.Perm (s.dates ++ s.newDays t) := by
  have hnodup : (s.dates ++ s.newDays t).Nodup := by
    refine List.nodup_append.2 ⟨s.nodup_dates, t.nodup_dates.filter _, fun d hd e he heq => ?_⟩
    have hnew : e ∉ s.dates := by simpa using (List.mem_filter.1 he).2
    exact hnew (heq ▸ hd)
  refine (List.perm_ext_iff_of_nodup (s.merge t).nodup_dates hnodup).2 fun d => ?_
  rw [mem_dates_merge, List.mem_append, newDays, List.mem_filter, decide_eq_true_eq]
  by_cases hd : d ∈ s.dates <;> simp [hd]

theorem size_merge (s t : Series) : (s.merge t).size = s.size + (s.newDays t).length := by
  have hlength := (s.perm_dates_merge t).length_eq
  rwa [List.length_append, dates, dates, List.length_map, List.length_map] at hlength

/-- What a merge reports as added are the new days. -/
theorem added_mergeReport (s t : Series) : (s.mergeReport t).added = (s.newDays t).length := by
  rw [mergeReport, size_merge]
  exact Nat.add_sub_cancel_left ..

theorem mem_dates_clip {s : Series} {r : DateRange} {d : Date} :
    d ∈ (s.clip r).dates ↔ d ∈ s.dates ∧ r.contains d = true := by
  simp only [dates, clip, List.mem_map, List.mem_filter]
  constructor
  · rintro ⟨p, ⟨hp, hr⟩, rfl⟩
    exact ⟨⟨p, hp, rfl⟩, hr⟩
  · rintro ⟨⟨p, hp, rfl⟩, hr⟩
    exact ⟨p, ⟨hp, hr⟩, rfl⟩

/-- A series that has every day of a range is clipped to exactly these days. -/
theorem dates_clip {s : Series} {r : DateRange} (h : ∀ d ∈ r.days, d ∈ s.dates) :
    (s.clip r).dates = r.days := by
  refine List.Pairwise.eq_of_mem_iff (ascending_dates _) r.ascending_days ?_
  intro d
  rw [mem_dates_clip, DateRange.mem_days]
  exact ⟨fun hd => hd.2, fun hd => ⟨h d (DateRange.mem_days.2 hd), hd⟩⟩

/-! ## §4. Adding day by day. -/

/-- The points are those of the listed days, with the counts that `f` gives. -/
def HoldsPoints (ps : List Point) (ds : List Date) (f : Date → Amount) : Prop :=
  ps.map (fun p => (p.date, p.counts.amount)) = ds.map fun d => (d, f d)

/-- The series has exactly the listed days, with the counts that `f` gives. -/
def Holds (s : Series) (ds : List Date) (f : Date → Amount) : Prop :=
  HoldsPoints s.points ds f

theorem holds_of_dates {s : Series} {ds : List Date} {f : Date → Amount} (hdates : s.dates = ds)
    (h : ∀ p ∈ s.points, p.counts.amount = f p.date) : s.Holds ds f := by
  subst hdates
  rw [Holds, HoldsPoints, dates, List.map_map]
  refine List.map_congr_left fun p hp => ?_
  exact congrArg (Prod.mk p.date) (h p hp)

theorem Holds.dates_eq {s : Series} {ds : List Date} {f : Date → Amount} (h : s.Holds ds f) :
    s.dates = ds := by
  have h' := congrArg (List.map Prod.fst) h
  rw [List.map_map, List.map_map] at h'
  exact h'.trans (List.map_id _)

theorem Holds.amount_eq {s : Series} {ds : List Date} {f : Date → Amount} (h : s.Holds ds f) :
    ∀ p ∈ s.points, p.counts.amount = f p.date := by
  intro p hp
  have hmem : (p.date, p.counts.amount) ∈ s.points.map fun q => (q.date, q.counts.amount) :=
    List.mem_map_of_mem hp
  rw [h, List.mem_map] at hmem
  obtain ⟨d, _, heq⟩ := hmem
  rw [← show d = p.date from congrArg Prod.fst heq]
  exact (congrArg Prod.snd heq).symm

theorem Holds.amounts_eq {s : Series} {ds : List Date} {f : Date → Amount} (h : s.Holds ds f) :
    s.points.map (fun p => p.counts.amount) = ds.map f := by
  have h' := congrArg (List.map Prod.snd) h
  rwa [List.map_map, List.map_map] at h'

/-- The total of a series is the sum over its days. -/
theorem Holds.total_eq_ok_iff {s : Series} {ds : List Date} {f : Date → Amount} (h : s.Holds ds f)
    {c : Count} : s.total = .ok c ↔ c.amount = (ds.map f).sum := by
  rw [total, Count.sum_eq_ok_iff, List.map_map, ← h.amounts_eq]
  rfl

theorem holds_addPoints {ps qs rs : List Point} {ds : List Date} {f g : Date → Amount}
    (hp : HoldsPoints ps ds f) (hq : HoldsPoints qs ds g) (h : addPoints ps qs = .ok rs) :
    HoldsPoints rs ds fun d => f d + g d := by
  induction ds generalizing ps qs rs with
  | nil =>
    rw [List.map_eq_nil_iff.1 hp] at h
    cases h
    rfl
  | cons d ds ih =>
    -- Both lists have a point on `d`, since they hold the same days.
    obtain ⟨p, ps, rfl, hp₀, hps⟩ := List.map_eq_cons_iff.1 hp
    obtain ⟨q, qs, rfl, hq₀, hqs⟩ := List.map_eq_cons_iff.1 hq
    unfold addPoints at h
    split at h
    · cases h
    · rename_i c hc
      split at h
      · cases h
      · rename_i rest hrest
        cases h
        have hc' : c.amount = f d + g d := by
          rw [Count.add_eq_ok_iff.1 hc, show p.counts.amount = f d from congrArg Prod.snd hp₀,
            show q.counts.amount = g d from congrArg Prod.snd hq₀]
        show (p.date, c.amount) :: _ = _
        rw [hc', show p.date = d from congrArg Prod.fst hp₀, ih hps hqs hrest]
        rfl

/-- Points on the same days can be added when every true sum is a count. -/
theorem exists_addPoints {ps qs : List Point} {ds : List Date} {f g : Date → Amount}
    (hp : HoldsPoints ps ds f) (hq : HoldsPoints qs ds g) (h : ∀ d ∈ ds, (f d + g d).Fits) :
    ∃ rs, addPoints ps qs = .ok rs := by
  induction ds generalizing ps qs with
  | nil =>
    rw [List.map_eq_nil_iff.1 hp]
    exact ⟨[], by cases qs <;> rfl⟩
  | cons d ds ih =>
    obtain ⟨p, ps, rfl, hp₀, hps⟩ := List.map_eq_cons_iff.1 hp
    obtain ⟨q, qs, rfl, hq₀, hqs⟩ := List.map_eq_cons_iff.1 hq
    obtain ⟨rest, hrest⟩ := ih hps hqs fun e he => h e (List.mem_cons_of_mem _ he)
    obtain ⟨c, hc⟩ := Count.exists_of_fits (h d List.mem_cons_self)
    have hadd : p.counts.add q.counts = .ok c := by
      rw [Count.add_eq_ok_iff, hc, show p.counts.amount = f d from congrArg Prod.snd hp₀,
        show q.counts.amount = g d from congrArg Prod.snd hq₀]
    exact ⟨⟨p.date, c⟩ :: rest, by simp only [addPoints, hadd, hrest]⟩

/-! ## §5. The counts of a day. -/

theorem get?_of_mem {s : Series} {p : Point} (hp : p ∈ s.points) :
    s.get? p.date = some p.counts := by
  have hsome : (s.points.find? fun q => q.date = p.date).isSome = true :=
    List.find?_isSome.2 ⟨p, hp, by simp⟩
  obtain ⟨q, hq⟩ := Option.isSome_iff_exists.1 hsome
  have hdate : q.date = p.date := by simpa using List.find?_some hq
  -- Days do not repeat, so the point that is found is the given one.
  have hnodup : (s.points.map Point.date).Nodup := s.ascending_dates.nodup
  rw [get?, hq, List.inj_on_of_nodup_map hnodup (List.mem_of_find?_eq_some hq) hp hdate]
  rfl

theorem get?_of_not_mem {s : Series} {d : Date} (h : d ∉ s.dates) : s.get? d = none := by
  rw [get?, Option.map_eq_none_iff, List.find?_eq_none]
  intro p hp hdate
  have heq : p.date = d := by simpa using hdate
  exact h (heq ▸ List.mem_map_of_mem hp)

theorem get?_eq_some_iff {s : Series} {d : Date} {c : Count} :
    s.get? d = some c ↔ (⟨d, c⟩ : Point) ∈ s.points := by
  refine ⟨fun h => ?_, fun h => get?_of_mem h⟩
  have hd : d ∈ s.dates := by
    by_contra hnot
    rw [get?_of_not_mem hnot] at h
    cases h
  obtain ⟨p, hp, rfl⟩ := List.mem_map.1 hd
  have hc : p.counts = c := Option.some.inj ((get?_of_mem hp).symm.trans h)
  rwa [← hc]

theorem mem_dates_iff {s : Series} {d : Date} : d ∈ s.dates ↔ ∃ c, s.get? d = some c := by
  constructor
  · intro hd
    obtain ⟨p, hp, rfl⟩ := List.mem_map.1 hd
    exact ⟨p.counts, get?_of_mem hp⟩
  · rintro ⟨c, hc⟩
    exact List.mem_map_of_mem (get?_eq_some_iff.1 hc)

/-- **A merge is the union of two maps in which the first one wins.** -/
@[simp] theorem get?_merge (s t : Series) (d : Date) :
    (s.merge t).get? d = (s.get? d).or (t.get? d) := by
  by_cases hs : d ∈ s.dates
  · obtain ⟨c, hc⟩ := mem_dates_iff.1 hs
    rw [hc, Option.some_or, get?_eq_some_iff]
    exact mem_merge_iff.2 (.inl (get?_eq_some_iff.1 hc))
  · rw [get?_of_not_mem hs, Option.none_or]
    refine Option.ext fun c => ?_
    rw [get?_eq_some_iff, get?_eq_some_iff, mem_merge_iff]
    have hnew : (⟨d, c⟩ : Point) ∉ s.points := fun h => hs (List.mem_map_of_mem h)
    exact ⟨fun h => (h.resolve_left hnew).1, fun h => .inr ⟨h, hs⟩⟩

theorem get?_clip (s : Series) (r : DateRange) (d : Date) :
    (s.clip r).get? d = if r.contains d = true then s.get? d else none := by
  refine Option.ext fun c => ?_
  rw [get?_eq_some_iff, clip, List.mem_filter]
  by_cases hd : r.contains d = true
  · rw [if_pos hd, get?_eq_some_iff]
    exact and_iff_left hd
  · rw [if_neg hd]
    exact ⟨fun h => absurd h.2 hd, fun h => nomatch h⟩

/-- A series is determined by the counts of its days. -/
theorem ext_get? {s t : Series} (h : ∀ d, s.get? d = t.get? d) : s = t := by
  have : Std.Irrefl fun p q : Point => p.date < q.date := ⟨fun p => Date.not_lt_self p.date⟩
  have : Std.Antisymm fun p q : Point => p.date < q.date :=
    ⟨fun p q hpq hqp => absurd hpq (lt_asymm (show q.date.days < p.date.days from hqp))⟩
  refine ext_points (List.Pairwise.eq_of_mem_iff s.ascending t.ascending fun p => ?_)
  show (⟨p.date, p.counts⟩ : Point) ∈ s.points ↔ (⟨p.date, p.counts⟩ : Point) ∈ t.points
  rw [← get?_eq_some_iff, ← get?_eq_some_iff, h]

/-- A merge does not change a range that the first series has all days of. -/
theorem clip_merge {s t : Series} {r : DateRange} (h : ∀ d ∈ r.days, d ∈ s.dates) :
    (s.merge t).clip r = s.clip r := by
  refine ext_get? fun d => ?_
  rw [get?_clip, get?_clip]
  by_cases hd : r.contains d = true
  · obtain ⟨c, hc⟩ := mem_dates_iff.1 (h d (DateRange.mem_days.2 hd))
    rw [if_pos hd, if_pos hd, get?_merge, hc, Option.some_or]
  · rw [if_neg hd, if_neg hd]

theorem empty_merge (t : Series) : empty.merge t = t := by
  refine ext_get? fun d => ?_
  rw [get?_merge]
  rfl

/-- What the series counts on a day; nothing on a day without a point. -/
def amountOn (s : Series) (d : Date) : Amount :=
  ((s.get? d).map Count.amount).getD 0

theorem amountOn_of_not_mem {s : Series} {d : Date} (h : d ∉ s.dates) : s.amountOn d = 0 := by
  rw [amountOn, get?_of_not_mem h]
  rfl

theorem amountOn_clip {s : Series} {r : DateRange} {d : Date} (h : r.contains d = true) :
    (s.clip r).amountOn d = s.amountOn d := by
  rw [amountOn, amountOn, get?_clip, if_pos h]

theorem holds_amountOn (s : Series) : s.Holds s.dates s.amountOn := by
  refine holds_of_dates rfl fun p hp => ?_
  rw [amountOn, get?_of_mem hp]
  rfl

theorem Holds.amountOn_eq {s : Series} {ds : List Date} {f : Date → Amount} (h : s.Holds ds f)
    {d : Date} (hd : d ∈ ds) : s.amountOn d = f d := by
  rw [← h.dates_eq] at hd
  obtain ⟨p, hp, rfl⟩ := List.mem_map.1 hd
  rw [← h.amount_eq p hp, s.holds_amountOn.amount_eq p hp]

end Series

end MetricCube
