/-
  MetricCube.Proofs.Calendar
  ──────────────────────────
  **Day numbers and calendar days.**  What a day of the Gregorian calendar is and
  which day follows it is said here without day numbers (`Civil.IsDay`,
  `Civil.next`, `Civil.Before`).  The day numbers go with it:

      dayNumber c.next = dayNumber c + 1,   dayNumber (ofDayNumber n) = n.

  Both come from sums of lengths: the days before a year grow by the length of the
  year (`daysBeforeYear_succ`), and those before a month by the length of the month
  (`daysBeforeMonth_succ`).  A later day has a larger number, so that a day is known
  by its number and `ofDayNumber` goes back both ways.
-/
import Mathlib
import MetricCube.Calendar.Date

namespace MetricCube

namespace Civil

/-! ## §1. The Gregorian calendar. -/

/-- The year has a leap day: every fourth year has one, but of the hundredth years only every
    fourth. -/
def Leap (y : Int) : Prop :=
  4 ∣ y ∧ (¬ 100 ∣ y ∨ 400 ∣ y)

instance (y : Int) : Decidable (Leap y) :=
  inferInstanceAs (Decidable (_ ∧ _))

/-- The last day of a month. -/
def lastDay (y : Int) : (m : Nat) → Nat
  | 2 => if Leap y then 29 else 28
  | 4 | 6 | 9 | 11 => 30
  | _ => 31

/-- The calendar has such a day, in whatever year. -/
structure IsDay (c : Civil) : Prop where
  month_pos : 1 ≤ c.month
  month_le : c.month ≤ 12
  day_pos : 1 ≤ c.day
  day_le : c.day ≤ lastDay c.year c.month

/-- The following day of the calendar. -/
def next (c : Civil) : Civil :=
  if c.day < lastDay c.year c.month then { c with day := c.day + 1 }
  else if c.month < 12 then ⟨c.year, c.month + 1, 1⟩
  else ⟨c.year + 1, 1, 1⟩

/-- `c` is before `c'`: by year, then by month, then by day. -/
def Before (c c' : Civil) : Prop :=
  c.year < c'.year
    ∨ c.year = c'.year ∧ (c.month < c'.month ∨ c.month = c'.month ∧ c.day < c'.day)

theorem before_trichotomy (c c' : Civil) : c.Before c' ∨ c = c' ∨ c'.Before c := by
  obtain ⟨y, m, d⟩ := c
  obtain ⟨y', m', d'⟩ := c'
  simp only [Before, mk.injEq]
  omega

theorem lastDay_pos (y : Int) (m : Nat) : 1 ≤ lastDay y m := by
  unfold lastDay
  split
  · split <;> decide
  all_goals decide

theorem isDay_next {c : Civil} (h : c.IsDay) : c.next.IsDay := by
  unfold next
  split
  · rename_i hday
    exact ⟨h.month_pos, h.month_le, Nat.le_add_left 1 _, hday⟩
  · split
    · rename_i hmonth
      exact ⟨Nat.le_add_left 1 _, hmonth, le_refl 1, lastDay_pos _ _⟩
    · exact ⟨le_refl 1, Nat.le_add_left 1 11, le_refl 1, lastDay_pos _ _⟩

/-! ## §2. The lengths of months and years. -/

theorem isLeap_iff (y : Int) : isLeap y = true ↔ Leap y := by
  simp only [isLeap, Leap, Bool.and_eq_true, Bool.or_eq_true, beq_iff_eq, bne_iff_ne]
  omega

theorem monthLength_eq (y : Int) {m : Nat} (h : 1 ≤ m) (h' : m ≤ 12) :
    monthLength y m = lastDay y m := by
  have hleap : (if isLeap y = true then 29 else 28) = if Leap y then 29 else 28 :=
    if_congr (isLeap_iff y) rfl rfl
  unfold monthLength monthLengths
  rw [hleap]
  interval_cases m <;> rfl

theorem isValid_iff (c : Civil) :
    c.isValid = true ↔ -9999 ≤ c.year ∧ c.year ≤ 9999 ∧ c.IsDay := by
  simp only [isValid, Bool.and_eq_true, decide_eq_true_eq]
  constructor
  · rintro ⟨⟨⟨⟨⟨hlow, hhigh⟩, hmonth⟩, hmonth'⟩, hday⟩, hday'⟩
    rw [monthLength_eq _ hmonth hmonth'] at hday'
    exact ⟨hlow, hhigh, hmonth, hmonth', hday, hday'⟩
  · rintro ⟨hlow, hhigh, hmonth, hmonth', hday, hday'⟩
    rw [← monthLength_eq _ hmonth hmonth'] at hday'
    exact ⟨⟨⟨⟨⟨hlow, hhigh⟩, hmonth⟩, hmonth'⟩, hday⟩, hday'⟩

theorem length_monthLengths (y : Int) : (monthLengths y).length = 12 := rfl

theorem getElem_monthLengths (y : Int) {i : Nat} (h : i < (monthLengths y).length) :
    (monthLengths y)[i] = lastDay y (i + 1) := by
  have hi : i + 1 ≤ 12 := h
  rw [← monthLength_eq y (Nat.le_add_left 1 i) hi, monthLength, if_neg (Nat.succ_ne_zero i),
    Nat.add_sub_cancel, List.getD_eq_getElem?_getD, List.getElem?_eq_getElem h, Option.getD_some]

theorem daysBeforeMonth_eq_sum (y : Int) (m : Nat) :
    daysBeforeMonth y m = ((monthLengths y).take (m - 1)).sum :=
  List.sum_eq_foldl.symm

theorem daysBeforeMonth_one (y : Int) : daysBeforeMonth y 1 = 0 := rfl

/-- The days before a month grow by the length of the month. -/
theorem daysBeforeMonth_succ (y : Int) {m : Nat} (h : 1 ≤ m) (h' : m ≤ 12) :
    daysBeforeMonth y (m + 1) = daysBeforeMonth y m + lastDay y m := by
  obtain ⟨i, rfl⟩ := Nat.exists_eq_add_of_le' h
  have hi : i < (monthLengths y).length := h'
  rw [daysBeforeMonth_eq_sum, daysBeforeMonth_eq_sum, Nat.add_sub_cancel, Nat.add_sub_cancel,
    List.sum_take_succ _ _ hi, getElem_monthLengths y hi]

theorem daysBeforeMonth_mono (y : Int) {m m' : Nat} (h : m ≤ m') :
    daysBeforeMonth y m ≤ daysBeforeMonth y m' := by
  rw [daysBeforeMonth_eq_sum, daysBeforeMonth_eq_sum]
  exact (List.take_sublist_take_left (Nat.sub_le_sub_right h 1)).sum_le_sum fun _ _ => Nat.zero_le _

/-- The number of days of a year. -/
def yearLength (y : Int) : Nat :=
  if Leap y then 366 else 365

theorem sum_monthLengths (y : Int) : (monthLengths y).sum = yearLength y := by
  unfold monthLengths yearLength
  simp only [isLeap_iff]
  split <;> rfl

theorem daysBeforeMonth_thirteen (y : Int) : daysBeforeMonth y 13 = yearLength y :=
  (daysBeforeMonth_eq_sum y 13).trans (sum_monthLengths y)

/-- The days before a year grow by the length of the year. -/
theorem daysBeforeYear_succ (y : Int) :
    daysBeforeYear (y + 1) = daysBeforeYear y + yearLength y := by
  unfold yearLength daysBeforeYear
  by_cases hleap : Leap y
  · rw [if_pos hleap]
    unfold Leap at hleap
    omega
  · rw [if_neg hleap]
    unfold Leap at hleap
    omega

theorem daysBeforeYear_mono {y y' : Int} (h : y ≤ y') : daysBeforeYear y ≤ daysBeforeYear y' := by
  unfold daysBeforeYear
  omega

/-! ## §3. Day numbers of calendar days. -/

/-- A day of a year is numbered behind what is before the year, and before what follows the
    month. -/
theorem dayNumber_bounds {c : Civil} (h : c.IsDay) :
    daysBeforeYear c.year + daysBeforeMonth c.year c.month ≤ c.dayNumber
      ∧ c.dayNumber < daysBeforeYear c.year + daysBeforeMonth c.year (c.month + 1) := by
  have hpos := h.day_pos
  have hle := h.day_le
  rw [daysBeforeMonth_succ _ h.month_pos h.month_le]
  unfold dayNumber
  omega

theorem dayNumber_lt_next_year {c : Civil} (h : c.IsDay) :
    c.dayNumber < daysBeforeYear (c.year + 1) := by
  have hbounds := (dayNumber_bounds h).2
  have hmono : daysBeforeMonth c.year (c.month + 1) ≤ daysBeforeMonth c.year 13 :=
    daysBeforeMonth_mono c.year (Nat.succ_le_succ h.month_le)
  rw [daysBeforeYear_succ, ← daysBeforeMonth_thirteen]
  omega

/-- **A later day has a larger number.** -/
theorem dayNumber_lt {c c' : Civil} (h : c.IsDay) (h' : c'.IsDay) (hbefore : c.Before c') :
    c.dayNumber < c'.dayNumber := by
  rcases hbefore with hyear | ⟨hyear, hmonth | ⟨hmonth, hday⟩⟩
  · calc c.dayNumber < daysBeforeYear (c.year + 1) := dayNumber_lt_next_year h
      _ ≤ daysBeforeYear c'.year := daysBeforeYear_mono hyear
      _ ≤ c'.dayNumber := by
          have hbounds := (dayNumber_bounds h').1
          omega
  · have hbounds := (dayNumber_bounds h).2
    have hbounds' := (dayNumber_bounds h').1
    have hmono : daysBeforeMonth c'.year (c.month + 1) ≤ daysBeforeMonth c'.year c'.month :=
      daysBeforeMonth_mono c'.year hmonth
    rw [hyear] at hbounds
    omega
  · unfold dayNumber
    rw [hyear, hmonth]
    omega

/-- The years up to `y` have the days before the next year. -/
theorem year_le_iff {c : Civil} (h : c.IsDay) (y : Int) :
    c.year ≤ y ↔ c.dayNumber < daysBeforeYear (y + 1) := by
  have hstart := (dayNumber_bounds h).1
  have hstop := dayNumber_lt_next_year h
  constructor
  · intro hle
    have hmono : daysBeforeYear (c.year + 1) ≤ daysBeforeYear (y + 1) :=
      daysBeforeYear_mono (by omega)
    omega
  · intro hlt
    by_contra hgt
    have hmono : daysBeforeYear (y + 1) ≤ daysBeforeYear c.year := daysBeforeYear_mono (by omega)
    omega

theorem eq_of_dayNumber_eq {c c' : Civil} (h : c.IsDay) (h' : c'.IsDay)
    (heq : c.dayNumber = c'.dayNumber) : c = c' := by
  rcases before_trichotomy c c' with hbefore | rfl | hbefore
  · exact absurd heq (dayNumber_lt h h' hbefore).ne
  · rfl
  · exact absurd heq.symm (dayNumber_lt h' h hbefore).ne

/-- **The following day has the following number.** -/
theorem dayNumber_next {c : Civil} (h : c.IsDay) : c.next.dayNumber = c.dayNumber + 1 := by
  have hle := h.day_le
  unfold next
  split
  · unfold dayNumber
    push_cast
    omega
  · rename_i hday
    have hlast : c.day = lastDay c.year c.month := by omega
    split
    · -- The month is over.
      have hmonth := daysBeforeMonth_succ c.year h.month_pos h.month_le
      unfold dayNumber
      simp only
      rw [hmonth, hlast]
      push_cast
      omega
    · -- The year is over.
      have htwelve : c.month = 12 := by
        have := h.month_le
        omega
      have hmonth := daysBeforeMonth_succ c.year h.month_pos h.month_le
      have hyear := daysBeforeYear_succ c.year
      rw [← daysBeforeMonth_thirteen] at hyear
      rw [htwelve] at hmonth hlast
      unfold dayNumber
      simp only
      rw [hyear, daysBeforeMonth_one, htwelve, hmonth, hlast]
      push_cast
      omega

/-! ## §4. Back from day numbers. -/

/-- The year that is found holds the day. -/
theorem yearOfDay_bounds (n : Int) :
    daysBeforeYear (yearOfDay n) ≤ n ∧ n < daysBeforeYear (yearOfDay n + 1) := by
  -- The guess is off by one at most, as 400 years have 146097 days.
  generalize hguess : (n + 719162) * 400 / 146097 + 1 = guess
  have hlow : daysBeforeYear (guess - 1) ≤ n := by
    unfold daysBeforeYear
    omega
  have hhigh : n < daysBeforeYear (guess + 2) := by
    unfold daysBeforeYear
    omega
  unfold yearOfDay
  simp only [hguess]
  split
  · rename_i hbefore
    rw [Int.sub_add_cancel]
    exact ⟨hlow, hbefore⟩
  · split
    · rename_i hafter
      rw [Int.add_assoc]
      exact ⟨hafter, hhigh⟩
    · omega

/-- What is found in a stretch of months: a month of the stretch, and a day of it.  `k` is the
    number of days in between, which the stretch has. -/
theorem monthAndDay_spec {lengths : List Nat} : ∀ {m k : Nat}, k < lengths.sum →
    ∃ i, ∃ hi : i < lengths.length, (monthAndDay m lengths k).1 = m + i
      ∧ 1 ≤ (monthAndDay m lengths k).2 ∧ (monthAndDay m lengths k).2 ≤ lengths[i]
      ∧ (lengths.take i).sum + (monthAndDay m lengths k).2 = k + 1 := by
  -- Month and day number move with the induction: each month takes its length off.
  induction lengths with
  | nil => exact fun h => absurd h (Nat.not_lt_zero _)
  | cons len rest ih =>
    intro m k hk
    rw [List.sum_cons] at hk
    rw [monthAndDay]
    split
    · rename_i hfirst
      have hlt : k < len := by
        rcases hfirst with hlt | rfl
        · exact hlt
        · exact hk
      exact ⟨0, Nat.succ_pos _, rfl, Nat.le_add_left 1 k, hlt, Nat.zero_add _⟩
    · rename_i hlater
      have hle : len ≤ k := Nat.le_of_not_lt fun hlt => hlater (.inl hlt)
      obtain ⟨i, hi, hmonth, hpos, hday, hsum⟩ := ih (m := m + 1) (k := k - len) (by omega)
      refine ⟨i + 1, Nat.succ_lt_succ hi, by rw [hmonth]; omega, hpos, hday, ?_⟩
      rw [List.take_succ_cons, List.sum_cons]
      omega

theorem ofDayNumber_spec (n : Int) : (ofDayNumber n).IsDay ∧ (ofDayNumber n).dayNumber = n := by
  obtain ⟨hlow, hhigh⟩ := yearOfDay_bounds n
  generalize hy : yearOfDay n = y at hlow hhigh
  rw [daysBeforeYear_succ] at hhigh
  -- The day number is within the year, so the months of the year have it.
  have hk : (n - daysBeforeYear y).toNat < (monthLengths y).sum := by
    rw [sum_monthLengths]
    omega
  obtain ⟨i, hi, hmonth, hpos, hday, hsum⟩ := monthAndDay_spec (m := 1) hk
  rw [getElem_monthLengths y hi] at hday
  have hcivil : ofDayNumber n
      = ⟨y, 1 + i, (monthAndDay 1 (monthLengths y) (n - daysBeforeYear y).toNat).2⟩ := by
    simp only [ofDayNumber, hy, hmonth]
  rw [hcivil]
  constructor
  · rw [length_monthLengths] at hi
    rw [Nat.add_comm 1 i]
    exact ⟨Nat.le_add_left 1 i, hi, hpos, hday⟩
  · unfold dayNumber
    rw [daysBeforeMonth_eq_sum, Nat.add_sub_cancel_left]
    simp only
    omega

theorem ofDayNumber_dayNumber {c : Civil} (h : c.IsDay) : ofDayNumber c.dayNumber = c := by
  obtain ⟨hday, hnumber⟩ := ofDayNumber_spec c.dayNumber
  exact eq_of_dayNumber_eq hday h hnumber

/-! ## §5. The ends of the calendar. -/

theorem isDay_last : last.IsDay :=
  ⟨by decide, by decide, by decide, by decide⟩

theorem dayNumber_first : first.dayNumber = -4371587 := by decide

theorem dayNumber_last : last.dayNumber = 2932896 := by decide

/-- The days of the calendar are those with a number between its ends. -/
theorem isValid_iff_dayNumber {c : Civil} (h : c.IsDay) : c.isValid = true
    ↔ first.dayNumber ≤ c.dayNumber ∧ c.dayNumber ≤ last.dayNumber := by
  have hbefore := year_le_iff h (-10000)
  have hlast := year_le_iff h 9999
  have hends : daysBeforeYear (-10000 + 1) = -4371587 ∧ daysBeforeYear (9999 + 1) = 2932897 := by
    decide
  rw [hends.1] at hbefore
  rw [hends.2] at hlast
  rw [isValid_iff, dayNumber_first, dayNumber_last, and_iff_left h]
  omega

end Civil

namespace Date

open Civil

/-! ## §6. Dates. -/

theorem ofCivil?_eq_some_iff {c : Civil} {d : Date} :
    ofCivil? c = some d ↔ c.isValid = true ∧ d.days = c.dayNumber := by
  rw [ofCivil?, Option.ite_none_right_eq_some, Option.some.injEq]
  refine and_congr_right fun hvalid => ?_
  -- No day of the calendar is beyond the day line.
  have hday := ((isValid_iff c).1 hvalid).2.2
  have hbounds := (isValid_iff_dayNumber hday).1 hvalid
  rw [dayNumber_first, dayNumber_last] at hbounds
  have hdays : (ofDays c.dayNumber).days = c.dayNumber := days_ofDays (by omega) (by omega)
  constructor
  · rintro rfl
    exact hdays
  · intro h
    exact ext_days (hdays.trans h.symm)

theorem isSome_ofCivil? (c : Civil) :
    (ofCivil? c).isSome = true ↔ -9999 ≤ c.year ∧ c.year ≤ 9999 ∧ c.IsDay := by
  rw [ofCivil?, ← isValid_iff]
  split <;> simp [*]

theorem civil_eq_ofDayNumber {d : Date} (h : first.dayNumber ≤ d.days)
    (h' : d.days ≤ last.dayNumber) : d.civil = ofDayNumber d.days := by
  rw [civil, if_neg (by omega), if_neg (by omega)]

/-- The components of a date of the calendar are what it was made of. -/
theorem civil_of_ofCivil? {c : Civil} {d : Date} (h : ofCivil? c = some d) : d.civil = c := by
  obtain ⟨hvalid, hdays⟩ := ofCivil?_eq_some_iff.1 h
  have hday := ((isValid_iff c).1 hvalid).2.2
  obtain ⟨hfirst, hlast⟩ := (isValid_iff_dayNumber hday).1 hvalid
  rw [civil_eq_ofDayNumber (by omega) (by omega), hdays, ofDayNumber_dayNumber hday]

/-- A date between the ends of the calendar is made of its components. -/
theorem ofCivil?_civil {d : Date} (h : first.dayNumber ≤ d.days) (h' : d.days ≤ last.dayNumber) :
    ofCivil? d.civil = some d := by
  obtain ⟨hday, hnumber⟩ := ofDayNumber_spec d.days
  rw [civil_eq_ofDayNumber h h', ofCivil?_eq_some_iff, isValid_iff_dayNumber hday, hnumber]
  exact ⟨⟨h, h'⟩, rfl⟩

theorem lt_of_before {c c' : Civil} {d d' : Date} (h : ofCivil? c = some d)
    (h' : ofCivil? c' = some d') (hbefore : c.Before c') : d < d' := by
  obtain ⟨hvalid, hdays⟩ := ofCivil?_eq_some_iff.1 h
  obtain ⟨hvalid', hdays'⟩ := ofCivil?_eq_some_iff.1 h'
  rw [lt_def, hdays, hdays']
  exact dayNumber_lt ((isValid_iff c).1 hvalid).2.2 ((isValid_iff c').1 hvalid').2.2 hbefore

/-- The calendar goes on until its last day. -/
theorem ofCivil?_next {c : Civil} {d : Date} (h : ofCivil? c = some d) (hlast : c ≠ last) :
    ofCivil? c.next = some d.next ∧ d.next.days = d.days + 1 := by
  obtain ⟨hvalid, hdays⟩ := ofCivil?_eq_some_iff.1 h
  have hday := ((isValid_iff c).1 hvalid).2.2
  have hnext := dayNumber_next hday
  obtain ⟨hlow, hhigh⟩ := (isValid_iff_dayNumber hday).1 hvalid
  have hne : c.dayNumber ≠ last.dayNumber := fun heq => hlast (eq_of_dayNumber_eq hday isDay_last heq)
  have hvalid' : c.next.isValid = true := by
    rw [isValid_iff_dayNumber (isDay_next hday), hnext]
    omega
  have hdays' : d.next.days = d.days + 1 := by
    rw [dayNumber_last] at hhigh hne
    exact days_ofDays (by have := d.lower; omega) (by omega)
  refine ⟨ofCivil?_eq_some_iff.2 ⟨hvalid', ?_⟩, hdays'⟩
  rw [hdays', hnext, hdays]

/-- **Days and calendar dates.**  There is a date exactly for each day of the Gregorian calendar
    from the year -9999 to the year 9999.  It has the components that it was made of, later days
    are later dates, the following day has the following number, and the first of January 1970 has
    the number zero.  The dates between the ends of the calendar are made of their components, and
    beyond an end a date has the components of that end. -/
theorem ordered_calendar :
    (∀ c : Civil, (ofCivil? c).isSome = true ↔ -9999 ≤ c.year ∧ c.year ≤ 9999 ∧ c.IsDay)
      ∧ (∀ c d, ofCivil? c = some d → d.civil = c)
      ∧ (∀ c c' d d', ofCivil? c = some d → ofCivil? c' = some d' → c.Before c' → d < d')
      ∧ (∀ c d, ofCivil? c = some d → c ≠ last →
          ofCivil? c.next = some d.next ∧ d.next.days = d.days + 1)
      ∧ ofCivil? ⟨1970, 1, 1⟩ = some (ofDays 0)
      ∧ ∃ a z, ofCivil? first = some a ∧ ofCivil? last = some z
        ∧ ∀ d, (a ≤ d → d ≤ z → ofCivil? d.civil = some d)
          ∧ (d < a → d.civil = first) ∧ (z < d → d.civil = last) := by
  refine ⟨isSome_ofCivil?, fun _ _ => civil_of_ofCivil?, fun _ _ _ _ => lt_of_before,
    fun _ _ => ofCivil?_next, by decide, ofDays first.dayNumber, ofDays last.dayNumber,
    by decide, by decide, fun d => ?_⟩
  have hfirst : (ofDays first.dayNumber).days = first.dayNumber := by decide
  have hlast : (ofDays last.dayNumber).days = last.dayNumber := by decide
  simp only [le_def, lt_def, hfirst, hlast]
  refine ⟨ofCivil?_civil, fun h => ?_, fun h => ?_⟩
  · rw [civil, if_pos h]
  · rw [dayNumber_last] at h
    rw [civil, dayNumber_first, dayNumber_last, if_neg (by omega), if_pos h]

/-- The year 1900 has no leap day, and the last day number is that of no calendar day. -/
theorem ordered_calendar_1900 :
    (ofDays (-25509)).civil = ⟨1900, 2, 28⟩
      ∧ ofCivil? ⟨1900, 3, 1⟩ = some (ofDays (-25509)).next
      ∧ (ofDays (-25509)).next.days = -25508
      ∧ ofDays (-25509) < ofDays (-25508)
      ∧ ofCivil? (ofDays (-25508)).civil = some (ofDays (-25508))
      ∧ (ofDays (-2147483648)).civil = first ∧ (ofDays 2147483647).civil = last := by
  obtain ⟨_, hcivil, hbefore, hnext, _, a, z, ha, hz, hbetween⟩ := ordered_calendar
  have hfebruary : ofCivil? ⟨1900, 2, 28⟩ = some (ofDays (-25509)) := by decide
  have hmarch : ofCivil? ⟨1900, 3, 1⟩ = some (ofDays (-25508)) := by decide
  obtain rfl : ofDays (-4371587) = a := Option.some.inj ((by decide : _ = _).trans ha)
  obtain rfl : ofDays 2932896 = z := Option.some.inj ((by decide : _ = _).trans hz)
  exact ⟨hcivil _ _ hfebruary, (hnext _ _ hfebruary (by decide)).1,
    (hnext _ _ hfebruary (by decide)).2.trans (by decide),
    hbefore _ _ _ _ hfebruary hmarch (.inr ⟨rfl, .inl (by decide)⟩),
    (hbetween _).1 (by decide) (by decide), (hbetween _).2.1 (by decide),
    (hbetween _).2.2 (by decide)⟩

end Date

end MetricCube
