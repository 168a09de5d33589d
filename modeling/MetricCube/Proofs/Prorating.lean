/-
  MetricCube.Proofs.Prorating
  ───────────────────────────
  **Shares of counts.**  A share is an exact fraction rounded to the nearest whole,
  halves up (`shareOf_bounds`):

      2 · whole · share ≤ 2 · value · part + whole < 2 · whole · (share + 1)

  By induction over the parts, what rounding adds or takes away grows by at most one
  half with each part (`sum_shareOf`), so the shares of parts that make up the whole
  add up to the count within half their number (`shares_nearly_add_up`).

  A window is shared out by true numbers of days, unless it is the whole day line,
  whose length is one more than a 32-bit count can hold: its shares are zero
  (`cover_by_days`).
-/
import Mathlib
import MetricCube.Coverage
import MetricCube.Proofs.Coverage

namespace MetricCube

namespace Count

/-! ## §1. One share. -/

variable {value part whole : ℕ}

theorem shareOf_eq (h : 0 < whole) :
    shareOf value part whole = (2 * value * part + whole) / (2 * whole) := by
  have hdividend : value * part * 2 + whole = 2 * value * part + whole := by ring
  unfold shareOf
  rw [if_neg (Nat.ne_of_gt h), hdividend, Nat.mul_comm whole 2]

/-- **A share is the exact fraction, off by at most one half.** -/
theorem shareOf_bounds (h : 0 < whole) :
    2 * whole * shareOf value part whole ≤ 2 * value * part + whole
      ∧ 2 * value * part + whole < 2 * whole * (shareOf value part whole + 1) := by
  rw [shareOf_eq h]
  constructor
  · exact Nat.mul_div_le _ _
  · exact Nat.lt_mul_div_succ _ (by omega)

/-- A share of a part is not more than the number itself. -/
theorem shareOf_le (h : part ≤ whole) : shareOf value part whole ≤ value := by
  rcases Nat.eq_zero_or_pos whole with rfl | hpos
  · show (0 : ℕ) ≤ value
    omega
  · obtain ⟨hlow, _⟩ := @shareOf_bounds value part whole hpos
    have hpart : value * part ≤ value * whole := Nat.mul_le_mul_left value h
    -- One more than the number would take more than the whole and the rounding give.
    by_contra hmore
    have hmul : 2 * whole * (value + 1) ≤ 2 * whole * shareOf value part whole :=
      Nat.mul_le_mul_left _ (by omega)
    nlinarith

/-- The whole of a number is the number. -/
theorem shareOf_whole (h : 0 < whole) : shareOf value whole whole = value := by
  apply Nat.le_antisymm (shareOf_le (Nat.le_refl whole))
  obtain ⟨_, hhigh⟩ := @shareOf_bounds value whole whole h
  have hlt : 2 * whole * value < 2 * whole * (shareOf value whole whole + 1) := by
    nlinarith
  have := Nat.lt_of_mul_lt_mul_left hlt
  omega

/-- A larger part of a larger number has no smaller share. -/
theorem shareOf_mono {value' part' : ℕ} (hvalue : value ≤ value') (hpart : part ≤ part') :
    shareOf value part whole ≤ shareOf value' part' whole := by
  unfold shareOf
  split
  · exact Nat.le_refl 0
  · apply Nat.div_le_div_right
    gcongr

/-- A share is not zero once the exact fraction reaches one half. -/
theorem shareOf_ne_zero_iff (h : 0 < whole) :
    shareOf value part whole ≠ 0 ↔ whole ≤ 2 * value * part := by
  obtain ⟨hlow, hhigh⟩ := @shareOf_bounds value part whole h
  constructor
  · intro hne
    have hone : 2 * whole * 1 ≤ 2 * whole * shareOf value part whole :=
      Nat.mul_le_mul_left _ (Nat.one_le_iff_ne_zero.2 hne)
    omega
  · intro hhalf hzero
    rw [hzero] at hhigh
    omega

/-- Shares of parts are counters, so that no share is cut. -/
theorem amount_prorate (c : Count) (h : part ≤ whole) :
    (c.prorate part whole).amount = (shareOf c.n part whole, shareOf c.k part whole) := by
  have hn : shareOf c.n part whole < counterBound := Nat.lt_of_le_of_lt (shareOf_le h) c.n_lt
  have hk : shareOf c.k part whole < counterBound := Nat.lt_of_le_of_lt (shareOf_le h) c.k_lt
  show (shareOf c.n part whole % counterBound, shareOf c.k part whole % counterBound) = _
  rw [Nat.mod_eq_of_lt hn, Nat.mod_eq_of_lt hk]

/-! ## §2. Shares in machine numbers. -/

/-- The number, if it has no more than the given bits. -/
def fits? (bits n : ℕ) : Option ℕ :=
  if n < 2 ^ bits then some n else none

/-- The share by steps of 128 bits, cut to 64 bits at the end; there is none if a step leaves
    128 bits or if the cut changes the share. -/
def steppedShare? (value part whole : ℕ) : Option ℕ :=
  if whole = 0 then some 0
  else do
    let product ← fits? 128 (value * part)
    let twice ← fits? 128 (product * 2)
    let dividend ← fits? 128 (twice + whole)
    let divisor ← fits? 128 (whole * 2)
    fits? 64 (dividend / divisor)

/-- **No step of a share of a part leaves its width.** -/
theorem steppedShare?_eq (hvalue : value < counterBound) (h : part ≤ whole)
    (hwhole : whole < 2 ^ 32) :
    steppedShare? value part whole = some (shareOf value part whole) := by
  have hproduct : value * part < 2 ^ 64 * 2 ^ 32 :=
    Nat.mul_lt_mul'' hvalue (Nat.lt_of_le_of_lt h hwhole)
  have hshare : shareOf value part whole < 2 ^ 64 := Nat.lt_of_le_of_lt (shareOf_le h) hvalue
  unfold steppedShare?
  unfold shareOf at hshare ⊢
  split
  · rfl
  · rename_i hne
    rw [if_neg hne] at hshare
    have h₁ : fits? 128 (value * part) = some (value * part) := if_pos (by omega)
    have h₂ : fits? 128 (value * part * 2) = some (value * part * 2) := if_pos (by omega)
    have h₃ : fits? 128 (value * part * 2 + whole) = some (value * part * 2 + whole) :=
      if_pos (by omega)
    have h₄ : fits? 128 (whole * 2) = some (whole * 2) := if_pos (by omega)
    simp only [h₁, h₂, h₃, h₄, Option.bind_eq_bind, Option.bind_some]
    exact if_pos hshare

/-! ## §3. Shares of parts that make up the whole. -/

/-- **Each part adds an error of at most one half.** -/
theorem sum_shareOf (h : 0 < whole) (parts : List ℕ) :
    2 * whole * (parts.map fun part => shareOf value part whole).sum
        ≤ 2 * value * parts.sum + parts.length * whole
      ∧ 2 * value * parts.sum
        ≤ 2 * whole * (parts.map fun part => shareOf value part whole).sum
          + parts.length * whole := by
  induction parts with
  | nil => simp
  | cons part parts ih =>
    obtain ⟨hlow, hhigh⟩ := @shareOf_bounds value part whole h
    simp only [List.map_cons, List.sum_cons, List.length_cons, Nat.mul_add, Nat.add_mul,
      Nat.one_mul, Nat.mul_one] at hlow hhigh ih ⊢
    omega

/-- The error of the shares of all parts, with the whole divided out. -/
theorem sum_shareOf_of_sum_eq (h : 0 < whole) {parts : List ℕ} (hsum : parts.sum = whole) :
    |2 * (((parts.map fun part => shareOf value part whole).sum : ℤ) - value)|
      ≤ parts.length := by
  obtain ⟨hlow, hhigh⟩ := @sum_shareOf value whole h parts
  rw [hsum] at hlow hhigh
  have hupper : 2 * (parts.map fun part => shareOf value part whole).sum
      ≤ 2 * value + parts.length := by
    apply Nat.le_of_mul_le_mul_left _ h
    linarith
  have hlower : 2 * value
      ≤ 2 * (parts.map fun part => shareOf value part whole).sum + parts.length := by
    apply Nat.le_of_mul_le_mul_left _ h
    linarith
  rw [abs_le]
  constructor <;> omega

/-- Added up, shares of a count are the shares of its two numbers added up. -/
theorem sum_amount_prorate (c : Count) {parts : List ℕ} (h : ∀ part ∈ parts, part ≤ whole) :
    (parts.map fun part => (c.prorate part whole).amount).sum
      = ((parts.map fun part => shareOf c.n part whole).sum,
          (parts.map fun part => shareOf c.k part whole).sum) := by
  induction parts with
  | nil => rfl
  | cons part parts ih =>
    obtain ⟨hpart, hparts⟩ := List.forall_mem_cons.1 h
    simp only [List.map_cons, List.sum_cons]
    rw [ih hparts, amount_prorate c hpart]
    rfl

/-- **Shares of the parts of a whole nearly add up to the count.**  Each is worked out within its
    width, is at most the count, grows with its part, and has no more successes than trials if the
    count has not; their sum is off by at most half a unit for each part, and a single part that is
    the whole has all of the count. -/
theorem shares_nearly_add_up (c : Count) {parts : List ℕ} (hwhole : 0 < whole)
    (hword : whole < 2 ^ 32) (hsum : parts.sum = whole) :
    (∀ part ∈ parts, steppedShare? c.n part whole = some (c.prorate part whole).n
        ∧ steppedShare? c.k part whole = some (c.prorate part whole).k)
      ∧ (∀ part ∈ parts, (c.prorate part whole).n ≤ c.n ∧ (c.prorate part whole).k ≤ c.k)
      ∧ (∀ part ∈ parts, ∀ larger ∈ parts, part ≤ larger →
          (c.prorate part whole).n ≤ (c.prorate larger whole).n
            ∧ (c.prorate part whole).k ≤ (c.prorate larger whole).k)
      ∧ (c.k ≤ c.n → ∀ part ∈ parts, (c.prorate part whole).k ≤ (c.prorate part whole).n)
      ∧ |2 * (((parts.map fun part => (c.prorate part whole).amount).sum.1 : ℤ) - c.n)|
          ≤ parts.length
      ∧ |2 * (((parts.map fun part => (c.prorate part whole).amount).sum.2 : ℤ) - c.k)|
          ≤ parts.length
      ∧ (parts.length = 1 → (parts.map fun part => c.prorate part whole) = [c]) := by
  have hpart : ∀ part ∈ parts, part ≤ whole := fun part h =>
    hsum ▸ List.le_sum_of_mem h
  -- No part is more than the whole, so that every share is worked out within its width.
  have hn : ∀ part ∈ parts, (c.prorate part whole).n = shareOf c.n part whole := fun part h =>
    congrArg Prod.fst (amount_prorate c (hpart part h))
  have hk : ∀ part ∈ parts, (c.prorate part whole).k = shareOf c.k part whole := fun part h =>
    congrArg Prod.snd (amount_prorate c (hpart part h))
  refine ⟨?_, ?_, ?_, ?_, ?_, ?_, ?_⟩
  · intro part h
    rw [hn part h, hk part h]
    exact ⟨steppedShare?_eq c.n_lt (hpart part h) hword,
      steppedShare?_eq c.k_lt (hpart part h) hword⟩
  · intro part h
    rw [hn part h, hk part h]
    exact ⟨shareOf_le (hpart part h), shareOf_le (hpart part h)⟩
  · intro part h larger hlarger hle
    rw [hn part h, hk part h, hn larger hlarger, hk larger hlarger]
    exact ⟨shareOf_mono (Nat.le_refl _) hle, shareOf_mono (Nat.le_refl _) hle⟩
  · intro hrate part h
    rw [hn part h, hk part h]
    exact shareOf_mono hrate (Nat.le_refl _)
  · rw [sum_amount_prorate c hpart]
    exact sum_shareOf_of_sum_eq hwhole hsum
  · rw [sum_amount_prorate c hpart]
    exact sum_shareOf_of_sum_eq hwhole hsum
  · intro hone
    obtain ⟨part, rfl⟩ := List.length_eq_one_iff.1 hone
    rw [List.sum_singleton] at hsum
    subst hsum
    have hall : c.prorate part part = c := by
      apply amount_injective
      rw [amount_prorate c (Nat.le_refl part), shareOf_whole hwhole, shareOf_whole hwhole]
      rfl
    rw [List.map_singleton, hall]

/-- One trial and one success halved: both halves round up to one, and the sum is off by as much
    as two parts allow. -/
theorem shares_of_halves :
    0 < 2 ∧ 2 < 2 ^ 32 ∧ [1, 1].sum = 2
      ∧ ([1, 1].map fun part => ((wrap 1 1).prorate part 2).amount).sum = (2, 2)
      ∧ |2 * ((([1, 1].map fun part => ((wrap 1 1).prorate part 2).amount).sum.1 : ℤ)
          - (wrap 1 1).n)| ≤ ([1, 1] : List ℕ).length := by
  have hwhole : 0 < 2 := by decide
  have hword : 2 < 2 ^ 32 := by decide
  have hsum : [1, 1].sum = 2 := by decide
  obtain ⟨_, _, _, _, htrials, _, _⟩ := @shares_nearly_add_up 2 (wrap 1 1) [1, 1] hwhole hword hsum
  exact ⟨hwhole, hword, hsum, by decide, htrials⟩

end Count

/-! ## §4. Ranges by their numbers of days. -/

namespace DateRange

variable {r s : DateRange}

/-- The number of days that the range contains. -/
noncomputable def dayCount (r : DateRange) : ℕ :=
  {d : Date | r.contains d = true}.ncard

theorem length_days (r : DateRange) : r.days.length = r.size := by
  rw [days, List.length_map, List.length_range]

theorem dayCount_eq_size (r : DateRange) : r.dayCount = r.size := by
  have hnodup : r.days.Nodup := by
    refine r.ascending_days.imp ?_
    rintro d _ hlt rfl
    exact Date.not_lt_self d hlt
  have hset : {d : Date | r.contains d = true} = {d | d ∈ r.days.toFinset} := by
    ext d
    rw [Set.mem_ofPred_eq, Set.mem_ofPred_eq, List.mem_toFinset, mem_days]
  rw [dayCount, hset, Finset.setOfPred_mem, Set.ncard_coe_finset, List.toFinset_card_of_nodup hnodup,
    length_days]

/-- The range is the whole day line. -/
def IsLine (r : DateRange) : Prop :=
  ∀ d, r.contains d = true

theorem size_pos (r : DateRange) : 0 < r.size := by
  have := Date.le_def.1 r.ordered
  unfold size
  omega

theorem isLine_iff : r.IsLine ↔ r.size = 4294967296 := by
  have hlower := r.start.lower
  have hupper := r.stop.upper
  unfold size
  constructor
  · intro h
    -- The line has both its ends.
    have hfirst := (contains_iff.1 (h (Date.ofDays (-2147483648)))).1
    have hlast := (contains_iff.1 (h (Date.ofDays 2147483647))).2
    rw [Date.days_ofDays (by omega) (by omega)] at hfirst hlast
    omega
  · intro h d
    have := d.lower
    have := d.upper
    rw [contains_iff]
    omega

instance (r : DateRange) : Decidable r.IsLine :=
  decidable_of_iff (r.size = 4294967296) isLine_iff.symm

theorem lengthWord_eq (h : ¬ r.IsLine) : r.lengthWord = r.size := by
  have hlower := r.start.lower
  have hupper := r.stop.upper
  have hne : r.size ≠ 4294967296 := fun heq => h (isLine_iff.2 heq)
  have hlt : r.size < 4294967296 := by
    unfold size at hne ⊢
    omega
  exact Nat.mod_eq_of_lt hlt

theorem lengthWord_of_isLine (h : r.IsLine) : r.lengthWord = 0 := by
  rw [lengthWord, isLine_iff.1 h]

theorem containsRange_iff_days :
    s.containsRange r = true ↔ ∀ d, r.contains d = true → s.contains d = true := by
  rw [containsRange_iff]
  constructor
  · intro h d hd
    rw [contains_iff] at h hd ⊢
    rw [contains_iff] at h
    omega
  · intro h
    have hstop : r.contains r.stop = true := contains_iff.2 ⟨r.ordered, Int.le_refl _⟩
    exact ⟨h r.start (mem_days.1 r.start_mem_days), h r.stop hstop⟩

end DateRange

/-! ## §5. Windows that are shared out. -/

namespace Window

/-- The share of the window's counts that falls on the range by numbers of days, halves up. -/
noncomputable def shareByDays (w : Window) (r : DateRange) : Amount :=
  ((2 * w.counts.n * r.dayCount + w.range.dayCount) / (2 * w.range.dayCount),
    (2 * w.counts.k * r.dayCount + w.range.dayCount) / (2 * w.range.dayCount))

variable {w : Window} {r : DateRange} {allowProrate : Bool}

theorem shareByDays_eq : w.shareByDays r
    = (Count.shareOf w.counts.n r.size w.range.size,
        Count.shareOf w.counts.k r.size w.range.size) := by
  rw [Count.shareOf_eq w.range.size_pos, Count.shareOf_eq w.range.size_pos]
  unfold shareByDays
  rw [DateRange.dayCount_eq_size, DateRange.dayCount_eq_size]

theorem size_le_of_contains (h : w.range.containsRange r = true) : r.size ≤ w.range.size := by
  obtain ⟨hstart, hstop⟩ := DateRange.containsRange_iff.1 h
  rw [DateRange.contains_iff] at hstart hstop
  unfold DateRange.size
  omega

/-- The share of the whole day line is nothing. -/
theorem prorate_of_isLine (hline : w.range.IsLine) :
    w.counts.prorate r.lengthWord w.range.lengthWord = .zero := by
  rw [DateRange.lengthWord_of_isLine hline]
  rfl

/-- **The share of a part of a window goes by days,** if the window is not the whole day line. -/
theorem amount_prorate_of_not_isLine (h : w.range.containsRange r = true)
    (hline : ¬ w.range.IsLine) :
    (w.counts.prorate r.lengthWord w.range.lengthWord).amount = w.shareByDays r := by
  have hsize := size_le_of_contains h
  -- A part of a window that is not the whole line is not the whole line.
  have hpart : ¬ r.IsLine := by
    intro hr
    have hword : w.range.lengthWord < 4294967296 := Nat.mod_lt _ (by omega)
    rw [DateRange.lengthWord_eq hline] at hword
    rw [DateRange.isLine_iff] at hr
    omega
  rw [DateRange.lengthWord_eq hline, DateRange.lengthWord_eq hpart, Count.amount_prorate _ hsize,
    shareByDays_eq]

theorem amount_prorate_eq (h : w.range.containsRange r = true) :
    (w.counts.prorate r.lengthWord w.range.lengthWord).amount
      = if w.range.IsLine then 0 else w.shareByDays r := by
  split
  · rename_i hline
    rw [prorate_of_isLine hline]
    rfl
  · rename_i hline
    exact amount_prorate_of_not_isLine h hline

theorem cover_eq_exact_iff {counts : Count} :
    w.cover r allowProrate = .exact counts ↔ w.range = r ∧ counts = w.counts := by
  unfold cover
  split_ifs with hrange
  · simp [hrange, eq_comm]
  · simp [hrange]
  · simp [hrange]

theorem cover_eq_prorated_iff {counts : Count} {cached : DateRange} :
    w.cover r allowProrate = .prorated counts cached
      ↔ (allowProrate = true ∧ w.range ≠ r ∧ w.range.containsRange r = true)
        ∧ cached = w.range ∧ counts = w.counts.prorate r.lengthWord w.range.lengthWord := by
  unfold cover
  split_ifs with hrange hpart
  · simp [hrange]
  · rw [Bool.and_eq_true] at hpart
    simp only [WindowCoverage.prorated.injEq, hpart, hrange, ne_eq, not_false_eq_true, true_and,
      eq_comm (a := counts), eq_comm (a := cached), and_comm]
  · rw [Bool.and_eq_true] at hpart
    simp only [false_iff]
    intro h
    exact hpart ⟨h.1.1, h.1.2.2⟩

theorem cover_eq_uncovered_iff :
    w.cover r allowProrate = .uncovered
      ↔ w.range ≠ r ∧ (allowProrate = false ∨ w.range.containsRange r = false) := by
  unfold cover
  split_ifs with hrange hpart
  · simp [hrange]
  · rw [Bool.and_eq_true] at hpart
    simp [hrange, hpart.1, hpart.2]
  · rw [Bool.and_eq_true, not_and_or, Bool.not_eq_true, Bool.not_eq_true] at hpart
    simp [hrange, hpart]

/-- **How a window answers a request.**  Exactly for its own range; by a share for a part of its
    range, if that is allowed; and else not at all.  The share goes by true numbers of days except
    that of the whole day line, which is nothing.  A share is never more than the counts, and by
    days it is more than nothing once it reaches one half; that of the day line is the one by days
    only where that one is nothing too. -/
theorem cover_by_days (w : Window) (r : DateRange) (allowProrate : Bool) :
    (∀ counts, w.cover r allowProrate = .exact counts ↔ w.range = r ∧ counts = w.counts)
      ∧ (∀ counts cached, w.cover r allowProrate = .prorated counts cached
          ↔ (allowProrate = true ∧ w.range ≠ r
              ∧ ∀ d, r.contains d = true → w.range.contains d = true)
            ∧ cached = w.range
            ∧ counts.amount = if w.range.IsLine then 0 else w.shareByDays r)
      ∧ (w.cover r allowProrate = .uncovered
          ↔ w.range ≠ r
            ∧ (allowProrate = false ∨ ∃ d, r.contains d = true ∧ w.range.contains d = false))
      ∧ ∀ counts cached, w.cover r allowProrate = .prorated counts cached →
          (counts.n ≤ w.counts.n ∧ counts.k ≤ w.counts.k)
            ∧ (¬ w.range.IsLine →
                (counts.n ≠ 0 ↔ w.range.dayCount ≤ 2 * w.counts.n * r.dayCount)
                  ∧ (counts.k ≠ 0 ↔ w.range.dayCount ≤ 2 * w.counts.k * r.dayCount))
            ∧ (counts.amount = w.shareByDays r
                ↔ ¬ w.range.IsLine ∨ w.shareByDays r = 0) := by
  have houtside : w.range.containsRange r = false
      ↔ ∃ d, r.contains d = true ∧ w.range.contains d = false := by
    rw [← Bool.not_eq_true, DateRange.containsRange_iff_days]
    simp
  refine ⟨fun counts => cover_eq_exact_iff, ?_, ?_, ?_⟩
  · intro counts cached
    rw [cover_eq_prorated_iff, ← DateRange.containsRange_iff_days]
    apply and_congr_right
    intro hpart
    rw [← amount_prorate_eq hpart.2.2]
    exact and_congr_right fun _ => ⟨congrArg Count.amount, Count.amount_injective⟩
  · rw [cover_eq_uncovered_iff, houtside]
  · intro counts cached h
    obtain ⟨⟨_, _, hpart⟩, _, rfl⟩ := cover_eq_prorated_iff.1 h
    have hsize := size_le_of_contains hpart
    -- The length of the whole day line does not fit its word, and is taken for zero.
    by_cases hline : w.range.IsLine
    · rw [prorate_of_isLine hline]
      refine ⟨⟨Nat.zero_le _, Nat.zero_le _⟩, fun h => absurd hline h, ?_⟩
      show (0 : Amount) = _ ↔ _
      simp only [hline, not_true_eq_false, false_or]
      exact eq_comm
    · have hamount := amount_prorate_of_not_isLine hpart hline
      have hn : (w.counts.prorate r.lengthWord w.range.lengthWord).n
          = Count.shareOf w.counts.n r.size w.range.size :=
        congrArg Prod.fst (hamount.trans shareByDays_eq)
      have hk : (w.counts.prorate r.lengthWord w.range.lengthWord).k
          = Count.shareOf w.counts.k r.size w.range.size :=
        congrArg Prod.snd (hamount.trans shareByDays_eq)
      rw [hn, hk, DateRange.dayCount_eq_size, DateRange.dayCount_eq_size]
      refine ⟨⟨Count.shareOf_le hsize, Count.shareOf_le hsize⟩, fun _ => ⟨?_, ?_⟩, ?_⟩
      · exact Count.shareOf_ne_zero_iff w.range.size_pos
      · exact Count.shareOf_ne_zero_iff w.range.size_pos
      · exact iff_of_true hamount (.inl hline)

/-- Nine trials, all successes, over the whole day line. -/
def nineEver : Window :=
  ⟨⟨.ofDays (-2147483648), .ofDays 2147483647, by decide⟩, .wrap 9 9⟩

/-- All days but the last one. -/
def allButLast : DateRange :=
  ⟨.ofDays (-2147483648), .ofDays 2147483646, by decide⟩

/-- The share of all days but one of the day line is nothing, and by days it is all nine. -/
theorem share_of_day_line :
    nineEver.cover allButLast true = .prorated .zero nineEver.range
      ∧ nineEver.shareByDays allButLast = (9, 9) := by
  refine ⟨by decide, ?_⟩
  rw [shareByDays_eq]
  decide

end Window

end MetricCube
