/-
  MetricCube.Proofs.DateText
  ──────────────────────────
  **Written dates are read back, but for some years before the year zero.**  A year is written in
  at least four characters, and its sign is one of them: the year -1 is `-001`.  What is read has
  four digits beside the sign.  The dates of the years -999 to -1 (`Date.Terse`) are therefore
  written in a form that nothing reads (`iso?_text_of_terse`), and all other dates of the calendar
  are read back (`iso?_text`).

  Ranges and series are written with the text of their dates.  They are read back if all of their
  dates are; otherwise the reader stops at the first one that is not (`readBack`).

  Main statement: `Codec.dates_read_back`.
-/
import Mathlib
import MetricCube.Codec
import MetricCube.Proofs.Calendar
import MetricCube.Proofs.DateToken
import MetricCube.Proofs.Rescan
import MetricCube.Proofs.SeriesMap

namespace MetricCube

namespace Text

/-! ## §1. A fixed count of digits. -/

theorem isDigit_digitChar {d : Nat} (h : d < 10) : (digitChar d).isDigit = true := by
  interval_cases d <;> rfl

theorem toNat_digitChar {d : Nat} (h : d < 10) : (digitChar d).toNat - 48 = d := by
  interval_cases d <;> rfl

theorem length_fixedDigits (width n : Nat) : (fixedDigits width n).length = width := by
  induction width generalizing n with
  | zero => rfl
  | succ width ih => rw [fixedDigits, List.length_append, ih, List.length_singleton]

theorem isDigit_of_mem_fixedDigits {width n : Nat} : ∀ c ∈ fixedDigits width n, c.isDigit = true := by
  induction width generalizing n with
  | zero => simp [fixedDigits]
  | succ width ih =>
    rw [fixedDigits, List.forall_mem_append, List.forall_mem_singleton]
    exact ⟨ih, isDigit_digitChar (Nat.mod_lt _ (by decide))⟩

/-- The digits stand for what is left of the number by so many places. -/
theorem foldl_fixedDigits (width n acc : Nat) :
    (fixedDigits width n).foldl (fun acc c => acc * 10 + (c.toNat - 48)) acc
      = acc * 10 ^ width + n % 10 ^ width := by
  induction width generalizing n with
  | zero => simp [fixedDigits, Nat.mod_one]
  | succ width ih =>
    rw [fixedDigits, List.foldl_append, ih, List.foldl_cons, List.foldl_nil,
      toNat_digitChar (Nat.mod_lt _ (by decide)), Nat.pow_succ', Nat.mod_mul]
    ring

theorem spells_fixedDigits {width n : Nat} (hwidth : 0 < width) (h : n < 10 ^ width) :
    Spells (fixedDigits width n) n where
  nonempty := List.ne_nil_of_length_pos (by rwa [length_fixedDigits])
  digits := isDigit_of_mem_fixedDigits
  value := by rw [foldl_fixedDigits, Nat.zero_mul, Nat.zero_add, Nat.mod_eq_of_lt h]

end Text

namespace Date

open Civil

/-! ## §2. Dates. -/

/-- The date is one of the calendar. -/
def InCalendar (d : Date) : Prop :=
  first.dayNumber ≤ d.days ∧ d.days ≤ last.dayNumber

instance (d : Date) : Decidable d.InCalendar :=
  inferInstanceAs (Decidable (_ ∧ _))

/-- The sign of the year takes the place of one of its four digits. -/
def Terse (d : Date) : Prop :=
  -1000 < d.civil.year ∧ d.civil.year < 0

instance (d : Date) : Decidable d.Terse :=
  inferInstanceAs (Decidable (_ ∧ _))

theorem isoText_civilChars {c : Civil} (h : c.isValid = true)
    (hyear : ¬ (-1000 < c.year ∧ c.year < 0)) : IsoText (civilChars c) c := by
  obtain ⟨hlow, hhigh, hday⟩ := (isValid_iff c).1 h
  have hday_le : c.day ≤ 31 := by
    have hle := hday.day_le
    rw [← monthLength_eq _ hday.month_pos hday.month_le] at hle
    exact hle.trans (monthLength_le _ _)
  have hdigits : Text.Spells (Text.fixedDigits 4 c.year.natAbs) c.year.natAbs :=
    Text.spells_fixedDigits (by decide) (by omega)
  have hmonths : Text.Spells (Text.fixedDigits 2 c.month) c.month :=
    Text.spells_fixedDigits (by decide) (by have := hday.month_le; omega)
  have hdays : Text.Spells (Text.fixedDigits 2 c.day) c.day :=
    Text.spells_fixedDigits (by decide) (by omega)
  have hform : ∀ s ∈ yearSigns, yearChars c.year = s.1 ++ Text.fixedDigits 4 c.year.natAbs →
      (if s.2 then -(c.year.natAbs : Int) else c.year.natAbs) = c.year →
      IsoText (civilChars c) c := by
    intro s hs htext hvalue
    have hiso := IsoText.intro hs hdigits (Text.length_fixedDigits _ _) hmonths
      (Text.length_fixedDigits _ _) hdays (Text.length_fixedDigits _ _)
    rw [hvalue] at hiso
    rwa [civilChars, htext]
  -- A year of four digits has the form with a minus sign or without a sign.
  by_cases hneg : c.year < 0
  · refine hform (['-'], true) (by simp [yearSigns]) ?_ (by simp only [if_true]; omega)
    rw [yearChars, if_neg (by omega), if_neg (by omega)]
    rfl
  · refine hform ([], false) (by simp [yearSigns]) ?_ (by simp only [Bool.false_eq_true, if_false]; omega)
    rw [yearChars, if_pos (by omega)]
    rfl

/-- Behind a minus sign and three digits, the next character of the form would be a digit. -/
theorem not_isoText_of_three_digits {ds rest : List Char} (hlength : ds.length = 3) {c : Civil} :
    ¬ IsoText ('-' :: ds ++ '-' :: rest) c := by
  generalize htext : '-' :: ds ++ '-' :: rest = text
  intro h
  cases h with
  | @intro s ys ms ms' y m d hs hy hys _ _ _ _ =>
    -- The text starts with a minus sign, so this is the sign of its year.
    have hunsigned : s.1 = ['-'] := by
      obtain ⟨a, ys, rfl⟩ := List.exists_cons_of_ne_nil hy.nonempty
      simp only [yearSigns, List.mem_cons, List.not_mem_nil, or_false] at hs
      rcases hs with rfl | rfl | rfl
      · have ha : '-' = a := (List.cons.inj htext).1
        exact absurd hy.head_isDigit (by rw [← ha]; decide)
      · exact absurd (List.cons.inj htext).1 (by decide)
      · rfl
    rw [hunsigned] at htext
    have hbehind : ds ++ '-' :: rest = ys ++ ('-' :: ms ++ '-' :: ms') := by
      simpa using htext
    have hfourth : ys[3]? = some '-' := by
      have hat := congrArg (fun cs => cs[3]?) hbehind
      rw [List.getElem?_append_right (by omega), List.getElem?_append_left (by omega), hlength] at hat
      exact hat.symm
    exact absurd (hy.digits _ (List.mem_of_getElem? hfourth)) (by decide)

theorem iso?_text {d : Date} (h : d.InCalendar) (hyear : ¬ d.Terse) : iso? d.text = some d := by
  have hd := ofCivil?_civil h.1 h.2
  refine iso?_eq_some_iff.2 ⟨d.civil, ?_, hd⟩
  rw [text, String.toList_ofList]
  exact isoText_civilChars (ofCivil?_eq_some_iff.1 hd).1 hyear

theorem iso?_text_of_terse {d : Date} (hyear : d.Terse) : iso? d.text = none := by
  rw [Option.eq_none_iff_forall_ne_some]
  intro d' hread
  obtain ⟨c, hc, _⟩ := iso?_eq_some_iff.1 hread
  obtain ⟨hlow, hhigh⟩ := hyear
  rw [text, String.toList_ofList, civilChars, yearChars, if_neg (by omega), if_pos hlow] at hc
  rw [List.append_assoc, List.cons_append] at hc
  exact not_isoText_of_three_digits (Text.length_fixedDigits 3 _) hc

end Date

namespace Codec

open Json

variable {α : Type}

/-! ## §3. Reading back. -/

/-- The value, unless one of its dates is not read back: the first such date is rejected. -/
def readBack (dates : List Date) (a : α) : Except (Fault ContentFault) α :=
  match dates.find? fun d => d.Terse with
  | none => .ok a
  | some d => .error (.rejected (.date d.text))

theorem readBack_cons (d : Date) (dates : List Date) (a : α) : readBack (d :: dates) a
    = if d.Terse then .error (.rejected (.date d.text)) else readBack dates a := by
  unfold readBack
  rw [List.find?_cons]
  by_cases hd : d.Terse <;> simp [hd]

/-- What is read later adds its dates. -/
theorem readBack_bind {β : Type} {dates later : List Date} {a : α} {b : β}
    {f : α → Except (Fault ContentFault) β} (h : f a = readBack later b) :
    readBack dates a >>= f = readBack (dates ++ later) b := by
  unfold readBack
  rw [List.find?_append]
  cases dates.find? fun d => d.Terse with
  | none => exact h
  | some d => rfl

theorem date_tree {depth : Nat} {d : Date} (h : d.InCalendar) :
    date.read depth (date.write d).tree = readBack [d] d := by
  have hread : date.read depth (date.write d).tree
      = (Date.iso? d.text).elim (.error (.rejected (.date d.text))) .ok := rfl
  rw [hread, readBack_cons]
  by_cases hd : d.Terse
  · rw [if_pos hd, Date.iso?_text_of_terse hd]
    rfl
  · rw [if_neg hd, Date.iso?_text h hd]
    rfl

theorem range_tree {depth : Nat} (hdepth : 1 < depth) {r : DateRange}
    (h : r.start.InCalendar) (h' : r.stop.InCalendar) :
    range.read depth (range.write r).tree = readBack [r.start, r.stop] r := by
  have hmake : checked .range (DateRange.make r.start r.stop) = .ok r := by
    rw [DateRange.make, dif_pos r.ordered]
    rfl
  have hfields : (range.write r).tree = .object (List.zipWith (fun f t => (some f.name, t))
      [field "start" date.read fun d (s : Option Date × Option Date) => (some d, s.2),
        field "end" date.read fun d (s : Option Date × Option Date) => (s.1, some d)]
      [(date.write r.start).tree, (date.write r.stop).tree]) true := rfl
  have hread : range.read depth (range.write r).tree
      = date.read (depth - 1) (date.write r.start).tree
        >>= fun start => date.read (depth - 1) (date.write r.stop).tree
        >>= fun stop => checked .range (DateRange.make start stop) := by
    show readRange depth _ = _
    rw [readRange, hfields, record_object_inOrder (by decide) rfl]
    simp only [record, enter_of_lt hdepth, readPlaced, field, bind, Except.bind]
    cases date.read (depth - 1) (date.write r.start).tree <;>
      cases date.read (depth - 1) (date.write r.stop).tree <;> rfl
  rw [hread, date_tree h, date_tree h']
  exact readBack_bind (readBack_bind hmake)

theorem value_natural {depth n : Nat} (h : n < counterBound) :
    (Json.value depth (Value.number (.whole n)).tree : Except (Fault ContentFault) Value)
      = .ok (.number (.whole n)) := by
  show (Numeral.ofInt n).number?.elim _ _ = _
  rw [number?_ofNat (Nat.le_of_lt_succ h)]
  rfl

theorem counter_natural {depth n : Nat} (h : n < counterBound) :
    counter depth (Value.number (.whole n)).tree = .ok n := by
  show naturalBelow counterBound depth (.number (Numeral.ofInt n)) = _
  rw [naturalBelow, number?_ofNat (Nat.le_of_lt_succ h)]
  exact if_pos h

theorem point_tree {depth : Nat} (hdepth : 1 < depth) {p : Point} (h : p.date.InCalendar) :
    point.read depth (point.write p).tree = readBack [p.date] p := by
  generalize hkept : [("n", (Value.number (.whole p.counts.n)).tree),
    ("k", (Value.number (.whole p.counts.k)).tree)] = kept
  have hmembers : readPointMembers (depth - 1) (Value.memberTrees (("date", date.write p.date)
      :: countMembers p.counts)) none []
        = date.read (depth - 1) (date.write p.date).tree >>= fun d => .ok (some d, kept) := by
    simp only [Value.memberTrees, countMembers, readPointMembers, if_true,
      show ¬ "n" = "date" by decide, show ¬ "k" = "date" by decide, if_false,
      value_natural p.counts.n_lt, value_natural p.counts.k_lt, ← hkept]
    rfl
  have hn : readSole counter (depth - 1) "n" kept = .ok p.counts.n := by
    rw [← hkept]
    exact counter_natural p.counts.n_lt
  have hk : readSole counter (depth - 1) "k" kept = .ok p.counts.k := by
    rw [← hkept]
    exact counter_natural p.counts.k_lt
  have hcount : countOf (some p.counts.n) (some p.counts.k) = .ok p.counts := by
    show required (Count.ofNats? p.counts.n p.counts.k) = _
    rw [Count.ofNats?, dif_pos ⟨p.counts.n_lt, p.counts.k_lt⟩]
    rfl
  -- The point is read as its date is, for its counts are read back.
  have hread : point.read depth (point.write p).tree
      = date.read (depth - 1) (date.write p.date).tree >>= fun d => .ok ⟨d, p.counts⟩ := by
    show readPoint depth (.object (Value.memberTrees (("date", date.write p.date)
      :: countMembers p.counts)) true) = _
    simp only [readPoint, enter_of_lt hdepth, hmembers, bind, Except.bind]
    cases date.read (depth - 1) (date.write p.date).tree with
    | error e => rfl
    | ok d =>
      simp only [whenClosed, required, if_true, Option.elim_some, hn, hk, hcount]
  rw [hread, date_tree h]
  exact readBack_bind rfl

theorem points_tree {depth : Nat} (hdepth : 1 < depth) {ps : List Point}
    (h : ∀ p ∈ ps, p.date.InCalendar) : readAll point.read depth (Value.itemTrees (ps.map point.write))
      = readBack (ps.map Point.date) ps := by
  induction ps with
  | nil => rfl
  | cons p ps ih =>
    obtain ⟨hp, hps⟩ := List.forall_mem_cons.1 h
    rw [List.map_cons, Value.itemTrees, readAll, point_tree hdepth hp, ih hps]
    have hrest : (readBack (ps.map Point.date) ps >>= fun as => .ok (p :: as))
        = readBack (ps.map Point.date ++ []) (p :: ps) := readBack_bind rfl
    rw [List.append_nil] at hrest
    exact readBack_bind hrest

theorem series_tree {depth : Nat} (hdepth : 2 < depth) {s : Series}
    (h : ∀ d ∈ s.dates, d.InCalendar) :
    series.read depth (series.write s).tree = readBack s.dates s := by
  have hpoints : readAll point.read (depth - 1) (Value.itemTrees (s.points.map point.write))
      = readBack (s.points.map Point.date) s.points :=
    points_tree (by omega) fun p hp => h p.date (List.mem_map.2 ⟨p, hp, rfl⟩)
  have hseries : checked .series (Series.ofPoints s.points) = .ok s := by
    rw [Series.ofPoints_eq_ok_iff.2 rfl]
    rfl
  have hread : series.read depth (series.write s).tree
      = readAll point.read (depth - 1) (Value.itemTrees (s.points.map point.write))
        >>= fun points => checked .series (Series.ofPoints points) := by
    show Json.list point.read depth (.array (Value.itemTrees (s.points.map point.write)) true)
      >>= _ = _
    rw [Json.list, enter_of_lt (by omega)]
    simp only [bind, Except.bind]
    cases readAll point.read (depth - 1) (Value.itemTrees (s.points.map point.write)) <;> rfl
  have hdates : s.points.map Point.date ++ [] = s.dates := List.append_nil _
  rw [hread, hpoints, ← hdates]
  exact readBack_bind hseries

theorem whole_date (d : Date) : (date.write d).Whole :=
  Value.whole_string _

theorem whole_range (r : DateRange) : (range.write r).Whole := by
  refine Value.whole_object.2 ?_
  simp only [List.forall_mem_cons]
  exact ⟨whole_date r.start, whole_date r.stop, by simp⟩

theorem whole_series (s : Series) : (series.write s).Whole := by
  refine Value.whole_array.2 fun v hv => ?_
  obtain ⟨p, _, rfl⟩ := List.mem_map.1 hv
  refine Value.whole_object.2 ?_
  simp only [countMembers, List.forall_mem_cons]
  exact ⟨whole_date p.date, Value.whole_number _, Value.whole_number _, by simp⟩

/-- **Which written dates are read back.**  What is read is an optional sign, four digits of the
    year, two of the month and two of the day, parted by hyphens.  A date of the calendar is read
    back from its text exactly if its year is not between -999 and -1; the text of every other is
    not read at all.  A date, a range or a series in its written form is read back if it has no
    such date, and otherwise the text of the first such date is rejected. -/
theorem dates_read_back (text : String) (d : Date) (r : DateRange) (s : Series) :
    (Date.iso? text = some d ↔ ∃ c, Date.IsoText text.toList c ∧ Date.ofCivil? c = some d)
      ∧ (d.InCalendar →
          Date.iso? d.text = if -999 ≤ d.civil.year ∧ d.civil.year ≤ -1 then none else some d)
      ∧ (d.InCalendar → date.decode (date.encode d) = readBack [d] d)
      ∧ (r.start.InCalendar → r.stop.InCalendar →
          range.decode (range.encode r) = readBack [r.start, r.stop] r)
      ∧ ((∀ d ∈ s.dates, d.InCalendar) →
          series.decode (series.encode s) = readBack s.dates s) := by
  refine ⟨Date.iso?_eq_some_iff, fun h => ?_, fun h => ?_, fun h h' => ?_, fun h => ?_⟩
  · have hterse : (-999 ≤ d.civil.year ∧ d.civil.year ≤ -1) ↔ d.Terse := by
      unfold Date.Terse
      omega
    rw [if_congr hterse rfl rfl]
    split
    · exact Date.iso?_text_of_terse ‹_›
    · exact Date.iso?_text h ‹_›
  · exact (read_text date.read (whole_date d)).trans (date_tree h)
  · exact (read_text range.read (whole_range r)).trans (range_tree (by decide) h h')
  · exact (read_text series.read (whole_series s)).trans (series_tree (by decide) h)

namespace Sample

/-- The day before the first day of the year zero. -/
def beforeYearZero : Date := Date.ofDays (-719529)

/-- The last two days before the year zero and the first of it, as a range. -/
def acrossYearZero : DateRange :=
  ⟨Date.ofDays (-719530), Date.ofDays (-719528), by decide⟩

/-- Points at both ends of the calendar, and on a leap day. -/
def scattered : Series :=
  ⟨[⟨Date.ofDays (-4371587), ⟨1, 0, by decide, Count.zero.k_lt⟩⟩,
    ⟨Date.ofDays 19782, ⟨18446744073709551615, 7, by decide, by decide⟩⟩,
    ⟨Date.ofDays 2932896, ⟨0, 3, Count.zero.n_lt, by decide⟩⟩], by decide⟩

end Sample

/-- A series from end to end of the calendar is read back; a day before the year zero is not, and a
    range that starts there is rejected for its start. -/
theorem dates_read_back_sample :
    Date.iso? Sample.beforeYearZero.text = none
      ∧ date.decode (date.encode Sample.beforeYearZero) = .error (.rejected (.date "-001-12-31"))
      ∧ range.decode (range.encode Sample.acrossYearZero)
          = .error (.rejected (.date "-001-12-30"))
      ∧ (∀ d ∈ Sample.scattered.dates, d.InCalendar)
      ∧ series.decode (series.encode Sample.scattered) = .ok Sample.scattered := by
  obtain ⟨_, htext, hdate, hrange, hseries⟩ := dates_read_back "-001-12-31" Sample.beforeYearZero
    Sample.acrossYearZero Sample.scattered
  have hbetween : ∀ d ∈ Sample.scattered.dates, d.InCalendar := by decide
  refine ⟨(htext (by decide)).trans (by decide), (hdate (by decide)).trans (by decide),
    (hrange (by decide) (by decide)).trans (by decide), hbetween,
    (hseries hbetween).trans (by decide)⟩

/-- Not every date of the calendar is read back from its text: the last day of the year -1 is not. -/
theorem not_every_date_read_back :
    Sample.beforeYearZero.InCalendar ∧ Sample.beforeYearZero.civil = ⟨-1, 12, 31⟩
      ∧ Sample.beforeYearZero.text = "-001-12-31" ∧ Date.iso? "-001-12-31" = none
      ∧ ¬ ∀ d : Date, d.InCalendar → Date.iso? d.text = some d := by
  have hcalendar : Sample.beforeYearZero.InCalendar := by decide
  have htext : Sample.beforeYearZero.text = "-001-12-31" := by decide
  have hread : Date.iso? "-001-12-31" = none := by decide
  refine ⟨hcalendar, by decide, htext, hread, fun hall => ?_⟩
  have hback := hall Sample.beforeYearZero hcalendar
  rw [htext, hread] at hback
  cases hback

end Codec

end MetricCube
