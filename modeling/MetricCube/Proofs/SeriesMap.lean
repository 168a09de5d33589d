/-
  MetricCube.Proofs.SeriesMap
  ───────────────────────────
  **A series is a map from days to counts.**  A list of points is a series exactly
  if its days are strictly ascending (`ofPoints_eq_ok_iff`).  From there on a series
  is edited by merging, clipping and adding up, and each edit is described by what
  it does to a map from days to amounts:

      amounts after any edits  =  the effects of the edits on the amounts before

  (`amounts_editAll`, from `amounts_edit` for one edit).

  A merge is the union in which the first series wins.  It takes over the days that
  are new and passes over those that both series have; merging the same series
  again changes nothing, and merges are associative.

  Main statement: `sorted_map_and_union`.
-/
import Mathlib
import MetricCube.Proofs.Reduction
import MetricCube.Proofs.Series

namespace MetricCube.Series

/-! ## §1. Which lists of points are series. -/

theorem stepFault?_eq_none_iff {p q : Point} : stepFault? p q = none ↔ p.date < q.date := by
  refine ⟨lt_of_stepFault?, fun hlt => ?_⟩
  have hne : p.date ≠ q.date := fun heq => Date.not_lt_self _ (heq ▸ hlt)
  have hnot : ¬ q.date < p.date := fun h => Date.not_lt_self _ (Int.lt_trans hlt h)
  unfold stepFault?
  rw [if_neg hne, if_neg hnot]

theorem faultAfter?_eq_none {rest : List Point} : ∀ {p : Point},
    ((p :: rest).Pairwise fun p q => p.date < q.date) → faultAfter? p rest = none := by
  induction rest with
  | nil => intro p _; rfl
  | cons q rest ih =>
    intro p hasc
    have hpq := List.rel_of_pairwise_cons hasc List.mem_cons_self
    unfold faultAfter?
    rw [stepFault?_eq_none_iff.2 hpq]
    exact ih hasc.of_cons

theorem fault?_eq_none_iff {ps : List Point} :
    fault? ps = none ↔ ps.Pairwise fun p q => p.date < q.date := by
  refine ⟨ascending_of_fault?, fun hasc => ?_⟩
  cases ps with
  | nil => rfl
  | cons p rest => exact faultAfter?_eq_none hasc

/-- **A list of points is read as the series that has these points,** if there is one. -/
theorem ofPoints_eq_ok_iff {ps : List Point} {s : Series} :
    ofPoints ps = .ok s ↔ s.points = ps := by
  unfold ofPoints
  split
  · rename_i e he
    constructor
    · intro h
      cases h
    · intro heq
      rw [← heq, fault?_eq_none_iff.2 s.ascending] at he
      cases he
  · constructor
    · intro h
      cases h
      rfl
    · intro heq
      exact congrArg Except.ok (ext_points heq.symm)

theorem exists_ofPoints_iff {ps : List Point} :
    (∃ s, ofPoints ps = .ok s) ↔ ps.Pairwise fun p q => p.date < q.date := by
  constructor
  · intro h
    obtain ⟨s, hs⟩ := h
    exact ofPoints_eq_ok_iff.1 hs ▸ s.ascending
  · intro hasc
    exact ⟨⟨ps, hasc⟩, ofPoints_eq_ok_iff.2 rfl⟩

/-! ## §2. Edits. -/

/-- The amount of each day that has a point. -/
def amounts (s : Series) (d : Date) : Option Amount :=
  (s.get? d).map Count.amount

/-- One way of changing a series. -/
inductive Edit where
  | merge (patch : Series)
  | clip (range : DateRange)
  | accumulate (other : Series)

/-- The edited series; other days are not added up, and leave the series as it is. -/
def edit (s : Series) : Edit → Except Overflow Series
  | .merge patch => .ok (s.merge patch)
  | .clip range => .ok (s.clip range)
  | .accumulate other => (s.accumulate? other).getD (.ok s)

/-- The series after all edits, from left to right. -/
def editAll (s : Series) : List Edit → Except Overflow Series
  | [] => .ok s
  | e :: es =>
    match s.edit e with
    | .error cause => .error cause
    | .ok t => t.editAll es

open Classical in
/-- What an edit does to a map from days to amounts. -/
noncomputable def Edit.effect (m : Date → Option Amount) : Edit → Date → Option Amount
  | .merge patch => fun d => (m d).or (patch.amounts d)
  | .clip range => fun d => if range.contains d = true then m d else none
  | .accumulate other =>
    if ∀ d, (m d).isSome = (other.amounts d).isSome then
      fun d => (m d).map fun x => x + other.amountOn d
    else m

theorem isSome_amounts {s : Series} {d : Date} : (s.amounts d).isSome = true ↔ d ∈ s.dates := by
  rw [amounts, Option.isSome_map, mem_dates_iff, Option.isSome_iff_exists]

theorem amounts_of_mem {s : Series} {d : Date} (h : d ∈ s.dates) :
    s.amounts d = some (s.amountOn d) := by
  obtain ⟨c, hc⟩ := mem_dates_iff.1 h
  rw [amounts, amountOn, hc]
  rfl

theorem amounts_of_not_mem {s : Series} {d : Date} (h : d ∉ s.dates) : s.amounts d = none := by
  rw [amounts, get?_of_not_mem h]
  rfl

theorem dates_eq_iff {s t : Series} :
    s.dates = t.dates ↔ ∀ d, (s.amounts d).isSome = (t.amounts d).isSome := by
  constructor
  · intro heq d
    rw [Bool.eq_iff_iff, isSome_amounts, isSome_amounts, heq]
  · intro h
    -- Days are ascending on both sides, so having the same days they are the same.
    refine List.Pairwise.eq_of_mem_iff s.ascending_dates t.ascending_dates fun d => ?_
    rw [← isSome_amounts, ← isSome_amounts, h]

/-- Adding up keeps the days and adds their amounts. -/
theorem amounts_accumulate {s t u : Series} (hdates : s.dates = t.dates)
    (h : addPoints s.points t.points = .ok u.points) (d : Date) :
    u.amounts d = (s.amounts d).map fun x => x + t.amountOn d := by
  have hs := s.holds_amountOn
  have ht := t.holds_amountOn
  rw [← hdates] at ht
  have hu : u.Holds s.dates fun d => s.amountOn d + t.amountOn d := holds_addPoints hs ht h
  by_cases hd : d ∈ s.dates
  · have hdu : d ∈ u.dates := hu.dates_eq ▸ hd
    rw [amounts_of_mem hdu, amounts_of_mem hd, hu.amountOn_eq hd]
    rfl
  · have hdu : d ∉ u.dates := hu.dates_eq ▸ hd
    rw [amounts_of_not_mem hdu, amounts_of_not_mem hd]
    rfl

/-- **An edit has its effect.** -/
theorem amounts_edit {s t : Series} {e : Edit} (h : s.edit e = .ok t) :
    t.amounts = e.effect s.amounts := by
  cases e with
  | merge patch =>
    cases h
    funext d
    show ((s.merge patch).get? d).map Count.amount = _
    rw [get?_merge, Option.map_or]
    rfl
  | clip range =>
    cases h
    funext d
    show ((s.clip range).get? d).map Count.amount = _
    rw [get?_clip]
    by_cases hd : range.contains d = true
    · simp only [Edit.effect, hd, if_true]
      rfl
    · simp only [Edit.effect, hd, Bool.false_eq_true, if_false, Option.map_none]
  | accumulate other =>
    have hsum : (s.accumulate? other).getD (.ok s) = .ok t := h
    -- Accumulating does nothing unless both series have the same days.
    by_cases hdates : s.dates = other.dates
    · have heffect : (Edit.accumulate other).effect s.amounts
          = fun d => (s.amounts d).map fun x => x + other.amountOn d :=
        if_pos (dates_eq_iff.1 hdates)
      rcases accumulate?_cases hdates with hok | herror
      · obtain ⟨u, hadd, hacc⟩ := hok
        rw [hacc, Option.getD_some] at hsum
        cases hsum
        rw [heffect]
        exact funext (amounts_accumulate hdates hadd)
      · obtain ⟨cause, _, hacc⟩ := herror
        rw [hacc, Option.getD_some] at hsum
        cases hsum
    · have heffect : (Edit.accumulate other).effect s.amounts = s.amounts :=
        if_neg fun hsame => hdates (dates_eq_iff.2 hsame)
      rw [accumulate?_eq_none hdates, Option.getD_none] at hsum
      cases hsum
      exact heffect.symm

/-- **Edits have their effects, one after another.** -/
theorem amounts_editAll {edits : List Edit} : ∀ {s t : Series}, s.editAll edits = .ok t →
    t.amounts = edits.foldl Edit.effect s.amounts := by
  -- What the first edits lead to is what the rest start from.
  induction edits with
  | nil =>
    intro s t h
    cases h
    rfl
  | cons e edits ih =>
    intro s t h
    unfold editAll at h
    cases hedit : s.edit e with
    | error cause =>
      rw [hedit] at h
      cases h
    | ok u =>
      rw [hedit] at h
      rw [ih h, List.foldl_cons, amounts_edit hedit]

/-! ## §3. Merges. -/

/-- The days that both series have. -/
def commonDays (s t : Series) : List Date :=
  t.dates.filter fun d => d ∈ s.dates

theorem length_commonDays (s t : Series) :
    (s.newDays t).length + (s.commonDays t).length = t.size := by
  have hsplit := List.length_eq_length_filter_add (l := t.dates) fun d => decide (d ∈ s.dates)
  have hsize : t.dates.length = t.size := List.length_map _
  have hnew : (t.dates.filter fun d => !decide (d ∈ s.dates)) = s.newDays t := by
    unfold newDays
    simp only [decide_not]
  rw [hnew, hsize] at hsplit
  unfold commonDays
  omega

/-- **What a merge reports:** the days taken over and the days passed over. -/
theorem mergeReport_eq (s t : Series) :
    s.mergeReport t = ⟨(s.newDays t).length, (s.commonDays t).length⟩ := by
  have hadded := added_mergeReport s t
  have hlength := length_commonDays s t
  have hskipped : (s.mergeReport t).skipped = t.size - (s.mergeReport t).added := rfl
  rw [hadded] at hskipped
  have hcommon : (s.mergeReport t).skipped = (s.commonDays t).length := by omega
  rw [← hadded, ← hcommon]

theorem merge_again (s t : Series) : (s.merge t).merge t = s.merge t := by
  refine ext_get? fun d => ?_
  rw [get?_merge, get?_merge, Option.or_assoc, Option.or_self]

theorem merge_assoc (s t u : Series) : (s.merge t).merge u = s.merge (t.merge u) := by
  refine ext_get? fun d => ?_
  rw [get?_merge, get?_merge, get?_merge, get?_merge, Option.or_assoc]

/-- The second merge of a series has nothing to take over. -/
theorem mergeReport_again (s t : Series) : (s.merge t).mergeReport t = ⟨0, t.size⟩ := by
  have hnew : (s.merge t).newDays t = [] := by
    unfold newDays
    rw [List.filter_eq_nil_iff]
    intro d hd
    simpa using mem_dates_merge.2 (.inr hd)
  have hlength := length_commonDays (s.merge t) t
  rw [hnew, List.length_nil, Nat.zero_add] at hlength
  rw [mergeReport_eq, hnew, hlength]
  rfl

/-- **A series is a map from days to counts, kept in the order of days, and a merge is the union
    of two maps in which the first one wins.** -/
theorem sorted_map_and_union :
    (∀ ps : List Point, (∃ s, ofPoints ps = .ok s) ↔ ps.Pairwise fun p q => p.date < q.date)
      ∧ (∀ (ps : List Point) (s t : Series) (edits : List Edit), ofPoints ps = .ok s →
          s.editAll edits = .ok t →
          (t.points.Pairwise fun p q => p.date < q.date)
            ∧ (∀ d c, t.get? d = some c ↔ (⟨d, c⟩ : Point) ∈ t.points)
            ∧ t.amounts = edits.foldl Edit.effect s.amounts)
      ∧ ∀ s t : Series,
          (∀ d, (s.merge t).get? d = (s.get? d).or (t.get? d))
            ∧ (s.mergeReport t).added = (s.newDays t).length
            ∧ (s.mergeReport t).skipped = (s.commonDays t).length
            ∧ (s.mergeReport t).added + (s.mergeReport t).skipped = t.size
            ∧ (s.merge t).merge t = s.merge t
            ∧ (s.merge t).mergeReport t = ⟨0, t.size⟩
            ∧ ∀ u : Series, (s.merge t).merge u = s.merge (t.merge u) := by
  refine ⟨fun ps => exists_ofPoints_iff, fun ps s t edits _ hedits => ?_, fun s t => ?_⟩
  · exact ⟨t.ascending, fun d c => get?_eq_some_iff, amounts_editAll hedits⟩
  · rw [mergeReport_eq]
    exact ⟨get?_merge s t, rfl, rfl, length_commonDays s t, merge_again s t, mergeReport_again s t,
      merge_assoc s t⟩

namespace Sample

/-- The points of the first two days. -/
def start : List Point :=
  [⟨.ofDays 1, .wrap 4 1⟩, ⟨.ofDays 2, .wrap 3 0⟩]

/-- Another count of the second day, and one of the third. -/
def patch : Series :=
  ⟨[⟨.ofDays 2, .wrap 9 9⟩, ⟨.ofDays 3, .wrap 5 2⟩],
    List.pairwise_pair.2 (show Date.ofDays 2 < Date.ofDays 3 by decide)⟩

/-- The patch is merged in, the first day cut off, and the patch added to what is left. -/
def edits : List Edit :=
  [.merge patch, .clip ⟨.ofDays 2, .ofDays 7, by decide⟩, .accumulate patch]

/-- What the edits lead to. -/
def result : Series :=
  ⟨[⟨.ofDays 2, .wrap 12 9⟩, ⟨.ofDays 3, .wrap 10 4⟩],
    List.pairwise_pair.2 (show Date.ofDays 2 < Date.ofDays 3 by decide)⟩

end Sample

/-- A merge, a clip and a sum of two days, one of which was counted before. -/
theorem edited_start :
    ofPoints Sample.start = .ok ⟨Sample.start, ascending_of_fault? rfl⟩
      ∧ editAll ⟨Sample.start, ascending_of_fault? rfl⟩ Sample.edits = .ok Sample.result
      ∧ Sample.result.get? (.ofDays 2) = some (.wrap 12 9)
      ∧ Sample.result.amounts
        = Sample.edits.foldl Edit.effect (amounts ⟨Sample.start, ascending_of_fault? rfl⟩) := by
  have hread : ofPoints Sample.start = .ok ⟨Sample.start, ascending_of_fault? rfl⟩ :=
    ofPoints_eq_ok_iff.2 rfl
  have hedited : editAll ⟨Sample.start, ascending_of_fault? rfl⟩ Sample.edits
      = .ok Sample.result := by
    decide
  obtain ⟨_, hruns, _⟩ := sorted_map_and_union
  obtain ⟨_, hget, hamounts⟩ := hruns _ _ _ _ hread hedited
  exact ⟨hread, hedited, (hget _ _).2 (by decide), hamounts⟩

end MetricCube.Series
