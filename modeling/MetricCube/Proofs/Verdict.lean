/-
  MetricCube.Proofs.Verdict
  ─────────────────────────
  **The verdict on a family.**  A family is judged in four ways, told apart by
  three questions (`verdict_repeated`, `verdict_unsuitable`, `verdict_wanting`,
  `verdict_eq_sumVerdict`):

    • does a cell repeat?
    • does every key suit the members?
    • is anything lacking?

  `Judged` lists all verdicts with what they say of the family, and every verdict
  is one of these (`judged_verdict`): a fault is a repeated cell or a mixture of
  payloads that all cover the range, and a complete verdict comes with a full grid.
-/
import Mathlib
import MetricCube.Plan.Planner
import MetricCube.Proofs.Coverage
import MetricCube.Proofs.Partition
import MetricCube.Proofs.Truth

namespace MetricCube.Planner

variable {p : Planner} {range : DateRange}

/-! ## §1. What a payload shows. -/

/-- The payload shows all of the range. -/
def Covers (p : Planner) (range : DateRange) (payload : Payload) : Prop :=
  ((p.view range payload).payload? range).isSome = true

theorem view_daily_of_full {s : Series} (h : ∀ d ∈ range.days, d ∈ s.dates) :
    p.view range (.daily s) = .daily (s.clip range) := by
  simp only [view, Coverage.isFull_ofSeries.2 h, if_true]

theorem view_daily_of_gaps {s : Series} (h : ¬ ∀ d ∈ range.days, d ∈ s.dates) :
    p.view range (.daily s) = .gaps (Coverage.ofSeries s range).gaps := by
  have hnot : (Coverage.ofSeries s range).isFull = false :=
    Bool.eq_false_iff.2 fun hfull => h (Coverage.isFull_ofSeries.1 hfull)
  simp only [view, hnot, Bool.false_eq_true, if_false]

theorem covers_daily {s : Series} : p.Covers range (.daily s) ↔ ∀ d ∈ range.days, d ∈ s.dates := by
  by_cases h : ∀ d ∈ range.days, d ∈ s.dates
  · rw [Covers, view_daily_of_full h]
    exact ⟨fun _ => h, fun _ => rfl⟩
  · rw [Covers, view_daily_of_gaps h]
    constructor
    · intro hsome
      cases hsome
    · intro hfull
      exact absurd hfull h

/-- A window is whole, shared out, or beside the range. -/
theorem view_aggregate (p : Planner) (range : DateRange) (w : Window) :
    (w.range = range ∧ p.view range (.aggregate w) = .window w.counts)
      ∨ (∃ counts, p.view range (.aggregate w) = .share counts w.range)
      ∨ p.view range (.aggregate w) = .beside w.range := by
  unfold view Window.cover
  simp only
  split_ifs with hrange hshare
  · exact .inl ⟨hrange, rfl⟩
  · exact .inr (.inl ⟨_, rfl⟩)
  · exact .inr (.inr rfl)

theorem covers_aggregate {w : Window} : p.Covers range (.aggregate w)
    ↔ w.range = range
      ∨ p.settings.prorateAggregates = true ∧ w.range.containsRange range = true := by
  unfold Covers view Window.cover
  simp only
  split_ifs with hrange hshare
  · exact ⟨fun _ => .inl hrange, fun _ => rfl⟩
  · exact ⟨fun _ => .inr (Bool.and_eq_true_iff.1 hshare), fun _ => rfl⟩
  · constructor
    · intro hsome
      cases hsome
    · rintro (heq | hboth)
      · exact absurd heq hrange
      · exact absurd (Bool.and_eq_true_iff.2 hboth) hshare

/-- The wanted ranges of a daily payload are made up of its missing days. -/
theorem reaches_wanted_daily {s : Series} {d : Date} :
    Coverage.Reaches ((p.view range (.daily s)).wanted range) d
      ↔ range.contains d = true ∧ d ∉ s.dates := by
  by_cases h : ∀ d ∈ range.days, d ∈ s.dates
  · rw [view_daily_of_full h]
    constructor
    · rintro ⟨g, hg, _⟩
      cases hg
    · rintro ⟨hr, hnot⟩
      exact absurd (h d (DateRange.mem_days.2 hr)) hnot
  · rw [view_daily_of_gaps h]
    exact Coverage.mem_gaps_ofSeries

theorem wanted_eq_nil_iff {payload : Payload} :
    (p.view range payload).wanted range = [] ↔ p.Covers range payload := by
  cases payload with
  | daily s =>
    rw [covers_daily]
    constructor
    · intro hnil d hd
      by_contra hnot
      obtain ⟨g, hg, _⟩ := reaches_wanted_daily.2 ⟨DateRange.mem_days.1 hd, hnot⟩
      rw [hnil] at hg
      cases hg
    · intro hfull
      rw [view_daily_of_full hfull]
      rfl
  | aggregate w =>
    unfold Covers
    obtain ⟨_, hv⟩ | ⟨counts, hv⟩ | hv := view_aggregate p range w <;>
      simp [hv, View.wanted, View.payload?]

theorem within_of_wanted {payload : Payload} {r : DateRange}
    (h : r ∈ (p.view range payload).wanted range) : range.containsRange r = true := by
  cases payload with
  | daily s =>
    have hstart := (reaches_wanted_daily.1 (Coverage.start_of_mem h)).1
    have hstop := (reaches_wanted_daily.1 (Coverage.stop_of_mem h)).1
    exact DateRange.containsRange_iff.2 ⟨hstart, hstop⟩
  | aggregate w =>
    obtain ⟨_, hv⟩ | ⟨counts, hv⟩ | hv := view_aggregate p range w <;> rw [hv] at h
    · cases h
    · cases h
    · rw [List.mem_singleton.1 h]
      exact range.containsRange_self

theorem pairwise_wanted (p : Planner) (range : DateRange) (payload : Payload) :
    ((p.view range payload).wanted range).Pairwise DateRange.Before := by
  cases payload with
  | daily s =>
    by_cases h : ∀ d ∈ range.days, d ∈ s.dates
    · rw [view_daily_of_full h]
      exact List.Pairwise.nil
    · rw [view_daily_of_gaps h]
      exact Coverage.pairwise_gaps s range
  | aggregate w =>
    obtain ⟨_, hv⟩ | ⟨counts, hv⟩ | hv := view_aggregate p range w <;> rw [hv]
    · exact List.Pairwise.nil
    · exact List.Pairwise.nil
    · exact List.pairwise_singleton _ _

/-- What is shown is aligned with the range and of the same kind as the payload. -/
theorem aligned_of_payload? {payload shown : Payload}
    (h : (p.view range payload).payload? range = some shown) :
    shown.Aligned range ∧ (shown.IsDaily ↔ payload.IsDaily) := by
  cases payload with
  | daily s =>
    have hfull : ∀ d ∈ range.days, d ∈ s.dates := covers_daily.1 (by rw [Covers, h]; rfl)
    rw [view_daily_of_full hfull] at h
    cases h
    exact ⟨Series.dates_clip hfull, fun _ => ⟨s, rfl⟩, fun _ => ⟨_, rfl⟩⟩
  | aggregate w =>
    have hwindow : ∃ counts, shown = .aggregate ⟨range, counts⟩ := by
      obtain ⟨_, hv⟩ | ⟨counts, hv⟩ | hv := view_aggregate p range w
      · rw [hv] at h
        cases h
        exact ⟨_, rfl⟩
      · rw [hv] at h
        cases h
        exact ⟨counts, rfl⟩
      · rw [hv] at h
        cases h
    obtain ⟨counts, rfl⟩ := hwindow
    refine ⟨rfl, ?_, ?_⟩ <;> (rintro ⟨s, hs⟩; cases hs)

/-- What a truthful payload shows without sharing out a window is true. -/
theorem shows_of_payload? {T : Truth} {a : Assignment} {payload shown : Payload}
    (htrue : payload.TruthfulTo T a) (h : (p.view range payload).payload? range = some shown)
    (hwhole : (p.view range payload).disclosure? range = none) : shown.Shows range (T a) := by
  cases payload with
  | daily s =>
    have hfull : ∀ d ∈ range.days, d ∈ s.dates := covers_daily.1 (by rw [Covers, h]; rfl)
    rw [view_daily_of_full hfull] at h
    cases h
    exact Series.holds_of_dates (Series.dates_clip hfull)
      fun pt hpt => htrue pt (List.mem_filter.1 hpt).1
  | aggregate w =>
    obtain ⟨hrange, hv⟩ | ⟨counts, hv⟩ | hv := view_aggregate p range w
    · rw [hv] at h
      cases h
      subst hrange
      exact ⟨rfl, htrue⟩
    · rw [hv] at hwhole
      cases hwhole
    · rw [hv] at h
      cases h

/-! ## §2. The four ways of judging. -/

variable {req : Request} {family : Family Slice}

/-- The assignments of the members. -/
def assignmentsOf (family : Family Slice) : List Assignment :=
  family.members.map Slice.assignment

/-- No cell repeats. -/
def NoRepeat (family : Family Slice) : Prop :=
  ((assignmentsOf family).map fun a => a.project family.keys).Nodup

/-- Every key can be summed over. -/
def Suitable (p : Planner) (family : Family Slice) : Prop :=
  Grid.AllSuit p.registry (assignmentsOf family) family.keys

/-- The cells of the grid that no member holds. -/
def missingCells (p : Planner) (family : Family Slice) : List Assignment :=
  Grid.missingOf p.registry (assignmentsOf family) family.keys

/-- What the family lacks. -/
def lacking (p : Planner) (req : Request) (family : Family Slice) : List FetchItem :=
  p.lackingItems req (if p.settings.fetchMissingValues then p.missingCells family else [])
    family.members

theorem assess_family (hkeys : family.keys ≠ []) (hnodup : NoRepeat family)
    (hsuit : p.Suitable family) :
    Grid.assess p.registry (assignmentsOf family) family.keys
      = .ok ⟨(Grid.axesOf p.registry (assignmentsOf family) family.keys).map Grid.Axis.status, [],
          p.missingCells family⟩ := by
  rw [Grid.assess_of_allSuit hnodup hsuit, if_neg hkeys]
  rfl

theorem verdict_repeated (h : ¬ NoRepeat family) :
    ∃ cell, p.verdict req family = .faulted false (.ambiguous cell) := by
  unfold verdict
  split
  · rename_i cell _
    exact ⟨cell, rfl⟩
  · rename_i grid hgrid
    exact absurd (Grid.assess_eq_ok_iff.1 hgrid).1 h

/-- The cell that a verdict finds repeated is held twice. -/
theorem duplicate_of_ambiguous (h : ¬ NoRepeat family) {covered : Bool} {cell : Assignment}
    (hv : p.verdict req family = .faulted covered (.ambiguous cell)) :
    ((assignmentsOf family).map fun a => a.project family.keys).Duplicate cell := by
  unfold verdict at hv
  split at hv
  · rename_i found hfound
    cases hv
    exact Grid.duplicate_of_assess hfound
  · rename_i grid hgrid
    exact absurd (Grid.assess_eq_ok_iff.1 hgrid).1 h

theorem verdict_unsuitable (hnodup : NoRepeat family) (h : ¬ p.Suitable family) :
    ∃ failures, p.verdict req family = .unsuitable failures := by
  obtain ⟨grid, hgrid⟩ := @Grid.exists_assess p.registry _ _ hnodup
  have hfailures : grid.failures ≠ [] := by
    rw [(Grid.assess_eq_ok_iff.1 hgrid).2.2.1]
    exact fun hnil => h (Grid.failuresOf_eq_nil_iff.1 hnil)
  have hfail : (!grid.failures.isEmpty) = true := by simpa using hfailures
  unfold assignmentsOf at hgrid
  exact ⟨grid.failures, by simp only [verdict, hgrid, hfail, if_true]⟩

theorem verdict_wanting (hkeys : family.keys ≠ []) (hnodup : NoRepeat family)
    (hsuit : p.Suitable family) (h : p.lacking req family ≠ []) :
    ∃ cells gaps, p.verdict req family = .wanting cells gaps (p.lacking req family) := by
  have hgrid := assess_family hkeys hnodup hsuit
  have hitems : (p.lacking req family).isEmpty = false := by simpa using h
  unfold assignmentsOf at hgrid
  unfold lacking at hitems ⊢
  simp only [verdict, hgrid, List.isEmpty_nil, Bool.not_true, Bool.false_eq_true, if_false, hitems]
  exact ⟨_, _, rfl⟩

theorem verdict_eq_sumVerdict (hkeys : family.keys ≠ []) (hnodup : NoRepeat family)
    (hsuit : p.Suitable family) (h : p.lacking req family = []) :
    p.verdict req family = p.sumVerdict req family := by
  have hgrid := assess_family hkeys hnodup hsuit
  have hitems : (p.lacking req family).isEmpty = true := by simpa using h
  unfold assignmentsOf at hgrid
  unfold lacking at hitems
  simp only [verdict, hgrid, List.isEmpty_nil, Bool.not_true, Bool.false_eq_true, if_false, hitems,
    if_true]

/-- What a family lacks is for its missing cells, if they are to be fetched, and for what its
    members want. -/
theorem mem_lacking {i : FetchItem} : i ∈ p.lacking req family
    ↔ (p.settings.fetchMissingValues = true ∧ ∃ cell ∈ p.missingCells family,
          i = p.item req (req.assignment.merged cell) req.range)
      ∨ ∃ s ∈ family.members, ∃ r ∈ (p.view req.range s.payload).wanted req.range,
          i = p.item req s.assignment r := by
  simp only [lacking, lackingItems, List.mem_append, List.mem_map, List.mem_flatMap,
    @eq_comm _ _ i]
  refine or_congr ?_ Iff.rfl
  cases p.settings.fetchMissingValues <;> simp

theorem lacking_eq_nil_iff : p.lacking req family = []
    ↔ (p.settings.fetchMissingValues = true → p.missingCells family = [])
      ∧ ∀ s ∈ family.members, p.Covers req.range s.payload := by
  simp only [lacking, lackingItems, List.append_eq_nil_iff, List.map_eq_nil_iff,
    List.flatMap_eq_nil_iff, wanted_eq_nil_iff]
  cases p.settings.fetchMissingValues <;> simp

/-! ## §3. The sum of members that all cover the range. -/

/-- The slice with what it shows of the range. -/
def shownOf (p : Planner) (range : DateRange) (s : Slice) : Slice :=
  { s with payload := ((p.view range s.payload).payload? range).getD s.payload }

theorem filterMap_payload? {members : List Slice}
    (h : ∀ s ∈ members, p.Covers range s.payload) :
    ((members.map fun s => (s, p.view range s.payload)).filterMap fun e =>
        (e.2.payload? range).map fun payload => { e.1 with payload := payload })
      = members.map (p.shownOf range) := by
  rw [List.filterMap_map, ← List.filterMap_eq_map]
  refine List.filterMap_congr fun s hs => ?_
  obtain ⟨shown, hshown⟩ := Option.isSome_iff_exists.1 (h s hs)
  simp [shownOf, hshown]

theorem payload?_of_covers {s : Slice} (h : p.Covers range s.payload) :
    (p.view range s.payload).payload? range = some (p.shownOf range s).payload := by
  obtain ⟨shown, hshown⟩ := Option.isSome_iff_exists.1 h
  simp [shownOf, hshown]

/-- The members of a family, each with what it shows. -/
def shownMembers (p : Planner) (range : DateRange) (family : Family Slice) : List Slice :=
  family.members.map (p.shownOf range)

theorem reduce_shownMembers (hnodup : NoRepeat family) (hsuit : p.Suitable family) :
    reduce p.registry (p.shownMembers range family) family.keys
      = if 1 < family.keys.length ∧ p.missingCells family ≠ [] then
          .ok (.blocked [.incompleteGrid (p.missingCells family)])
        else (sumPayloads (p.shownMembers range family)).map fun payload =>
          .reduced ⟨payload,
            (Grid.axesOf p.registry (assignmentsOf family) family.keys).map Grid.Axis.status⟩ := by
  have hassign : assignmentsIn (p.shownMembers range family) = assignmentsOf family := by
    rw [assignmentsIn, shownMembers, List.map_map]
    rfl
  rw [reduce_eq (hassign ▸ hnodup) (hassign ▸ hsuit), hassign]
  rfl

/-- What is disclosed about shares of windows. -/
def sharesOf (p : Planner) (range : DateRange) (family : Family Slice) : List Disclosure :=
  (family.members.filterMap fun s => (p.view range s.payload).disclosure? range).eraseDups

/-- **The verdict on a sum.** -/
theorem sumVerdict_eq (hcovers : ∀ s ∈ family.members, p.Covers req.range s.payload) :
    p.sumVerdict req family
      = match reduce p.registry (p.shownMembers req.range family) family.keys with
        | .error (.ambiguous cell) => .faulted true (.ambiguous cell)
        | .error (.failed failure) => .faulted true (.unsummable failure)
        | .error (.overflow _) => .overflow none
        | .ok (.blocked obstacles) => .blocked obstacles
        | .ok (.reduced r) =>
          match answerOf req.range r.payload with
          | .error _ => .overflow (some r.isComplete)
          | .ok answer =>
            if r.isComplete then .complete answer (p.sharesOf req.range family)
            else .incomplete answer (incompleteDisclosure r :: p.sharesOf req.range family) := by
  have hshares : ((family.members.map fun s => (s, p.view req.range s.payload)).filterMap fun e =>
      e.2.disclosure? req.range).eraseDups = p.sharesOf req.range family := by
    rw [List.filterMap_map]
    rfl
  unfold sumVerdict
  simp only [filterMap_payload? hcovers, hshares]
  rfl

/-! ## §4. Payloads that cannot be summed. -/

theorem aligned_shownMembers (hcovers : ∀ s ∈ family.members, p.Covers range s.payload) :
    ∀ s ∈ p.shownMembers range family, s.payload.Aligned range := by
  intro s hs
  obtain ⟨t, ht, rfl⟩ := List.mem_map.1 hs
  exact (aligned_of_payload? (payload?_of_covers (hcovers t ht))).1

/-- Members whose payloads cannot be summed. -/
structure MixedCover (p : Planner) (range : DateRange) (members : List Slice) : Prop where
  covers : ∀ s ∈ members, p.Covers range s.payload
  daily : ∃ s ∈ members, s.payload.IsDaily
  window : ∃ s ∈ members, s.payload.IsWindow

theorem mixedCover_of_error {e : ReduceError} (hne : family.members ≠ [])
    (hcovers : ∀ s ∈ family.members, p.Covers range s.payload)
    (h : sumPayloads (p.shownMembers range family) = .error e) :
    (∃ o, e = .overflow o)
      ∨ e = .failed .mixedPayloads ∧ p.MixedCover range family.members := by
  have hne' : p.shownMembers range family ≠ [] := by
    rw [shownMembers]
    exact fun hnil => hne (List.map_eq_nil_iff.1 hnil)
  have haligned := aligned_shownMembers hcovers
  rcases error_sumPayloads hne' (fun s hs t ht => (haligned s hs).agrees (haligned t ht)) h with
    ho | ⟨he, hd, hw⟩
  · exact .inl ho
  · refine .inr ⟨he, hcovers, ?_, ?_⟩
    · obtain ⟨s, hs, hdaily⟩ := hd
      obtain ⟨t, ht, rfl⟩ := List.mem_map.1 hs
      exact ⟨t, ht, (aligned_of_payload? (payload?_of_covers (hcovers t ht))).2.1 hdaily⟩
    · obtain ⟨s, hs, hwindow⟩ := hw
      obtain ⟨t, ht, rfl⟩ := List.mem_map.1 hs
      refine ⟨t, ht, t.payload.isDaily_or_isWindow.resolve_left fun hdaily => ?_⟩
      exact ((aligned_of_payload? (payload?_of_covers (hcovers t ht))).2.2 hdaily).not_isWindow
        hwindow

/-- A mixture cannot be summed. -/
theorem MixedCover.not_ok {payload : Payload} (h : p.MixedCover range family.members) :
    sumPayloads (p.shownMembers range family) ≠ .ok payload := by
  intro hsum
  have hkind : ∀ s ∈ family.members, (p.shownOf range s).payload.IsDaily ↔ s.payload.IsDaily :=
    fun s hs => (aligned_of_payload? (payload?_of_covers (h.covers s hs))).2
  obtain ⟨s, hs, hdaily⟩ := h.daily
  obtain ⟨t, ht, hwindow⟩ := h.window
  rcases (Uniform.of_sumOf (sumOf_of_sumPayloads hsum)).kind with hall | hall
  · exact ((hkind t ht).1 (hall _ (List.mem_map_of_mem ht))).not_isWindow hwindow
  · exact ((hkind s hs).2 hdaily).not_isWindow (hall _ (List.mem_map_of_mem hs))

/-! ## §5. Grids without missing cells. -/

theorem missingCells_eq_nil_iff : p.missingCells family = []
    ↔ ∀ cell ∈ Grid.product (Grid.axesOf p.registry (assignmentsOf family) family.keys),
        ∃ a ∈ assignmentsOf family, a.project family.keys = cell :=
  Grid.missingOf_eq_nil_iff

theorem not_held_of_missing {cell : Assignment} (h : cell ∈ p.missingCells family) :
    ∀ a ∈ assignmentsOf family, a.project family.keys ≠ cell := by
  intro a ha heq
  have hnot := (List.mem_filter.1 h).2
  rw [Bool.not_eq_true', List.contains_eq_mem, decide_eq_false_iff_not] at hnot
  exact hnot (heq ▸ List.mem_map_of_mem ha)

/-- The members fill their grid. -/
def Filled (p : Planner) (family : Family Slice) : Prop :=
  Grid.Full p.registry (assignmentsOf family) family.keys

/-! ## §6. All verdicts. -/

/-- Nothing keeps the members from being summed but their payloads. -/
structure Settled (p : Planner) (req : Request) (family : Family Slice) : Prop where
  nodup : NoRepeat family
  suits : p.Suitable family
  nothing : p.lacking req family = []

theorem Settled.covers (h : p.Settled req family) :
    ∀ s ∈ family.members, p.Covers req.range s.payload :=
  (lacking_eq_nil_iff.1 h.nothing).2

/-- The reduction that a summed payload leads to. -/
def reductionOf (p : Planner) (family : Family Slice) (payload : Payload) : Reduction :=
  ⟨payload, (Grid.axesOf p.registry (assignmentsOf family) family.keys).map Grid.Axis.status⟩

theorem isComplete_reductionOf {payload : Payload} :
    (p.reductionOf family payload).isComplete = true
      ↔ ∀ ax ∈ Grid.axesOf p.registry (assignmentsOf family) family.keys,
          ax.status.status.isComplete = true :=
  isComplete_iff rfl

/-- **What each verdict on a family says.** -/
inductive Judged (p : Planner) (req : Request) (family : Family Slice) : Verdict → Prop where
  | repeated (cell : Assignment) : ¬ NoRepeat family →
      Judged p req family (.faulted false (.ambiguous cell))
  | unsuitable (failures : List DimensionFailure) : NoRepeat family → ¬ p.Suitable family →
      Judged p req family (.unsuitable failures)
  | wanting (cells gaps : Nat) : NoRepeat family → p.Suitable family → p.lacking req family ≠ [] →
      Judged p req family (.wanting cells gaps (p.lacking req family))
  | blocked (obstacles : List Obstacle) : p.Settled req family → 1 < family.keys.length →
      p.missingCells family ≠ [] → Judged p req family (.blocked obstacles)
  | mixed : p.Settled req family → p.MixedCover req.range family.members →
      Judged p req family (.faulted true (.unsummable .mixedPayloads))
  | overflow (cause : Overflow) : p.Settled req family →
      sumPayloads (p.shownMembers req.range family) = .error (.overflow cause) →
      Judged p req family (.overflow none)
  | largeTotal (payload : Payload) (cause : Overflow) (complete : Bool) : p.Settled req family →
      sumPayloads (p.shownMembers req.range family) = .ok payload →
      answerOf req.range payload = .error cause →
      Judged p req family (.overflow (some complete))
  | complete (payload : Payload) (answer : Answer) : p.Settled req family → p.Filled family →
      sumPayloads (p.shownMembers req.range family) = .ok payload →
      answerOf req.range payload = .ok answer →
      Judged p req family (.complete answer (p.sharesOf req.range family))
  | incomplete (payload : Payload) (answer : Answer) : p.Settled req family →
      (p.reductionOf family payload).isComplete = false →
      sumPayloads (p.shownMembers req.range family) = .ok payload →
      answerOf req.range payload = .ok answer →
      Judged p req family (.incomplete answer
        (incompleteDisclosure (p.reductionOf family payload) :: p.sharesOf req.range family))

/-- The members of a family, seen from the query that it belongs to. -/
structure Belongs (query : Assignment) (family : Family Slice) : Prop where
  kin : Grid.Kin query family.keys (assignmentsOf family)
  keys : family.keys ≠ []
  members : family.members ≠ []

theorem Belongs.assignments {query : Assignment} (h : Belongs query family) :
    assignmentsOf family ≠ [] :=
  fun hnil => h.members (List.map_eq_nil_iff.1 hnil)

/-- Without missing cells, the members show all that an exhaustive key is expected to have. -/
theorem shown_of_missingCells {query : Assignment} (hb : Belongs query family)
    (hmade : p.registry.Made) (hsuit : p.Suitable family) (hnone : p.missingCells family = [])
    {key : String} (hkey : key ∈ family.keys) {d : Definition}
    (hd : Grid.Suits p.registry (assignmentsOf family) key d)
    (hexh : d.policy.isExhaustive = true) :
    ∀ v ∈ d.expected, v ∈ Grid.shown (assignmentsOf family) key := by
  intro v hv
  have hax := Grid.mem_axesOf.2 ⟨key, hkey, d, hd, rfl⟩
  have hvalue : v ∈ (Grid.axisOf (assignmentsOf family) key d).values := by
    rw [Grid.values_axisOf hexh]
    exact hv
  -- Put the value into the cell of some member: a member holds that cell, and shows it.
  obtain ⟨a, ha⟩ := List.exists_mem_of_ne_nil _ hb.assignments
  obtain ⟨b, hbmem, hcell⟩ := missingCells_eq_nil_iff.1 hnone _
    (Grid.insert_mem_product (hb.kin.proper hb.assignments hsuit)
      (hb.kin.project_mem_product hsuit ha) hax hvalue)
  refine Grid.mem_shown.2 ⟨b, hbmem, ?_⟩
  obtain ⟨value, hget⟩ := hd.carried a ha
  have hget' := congrArg (fun c => c.get? key) hcell
  simp only [Grid.axisOf, Assignment.get?_project, if_pos hkey, Assignment.get?_insert,
    (Assignment.folded_of_get? hget).1, if_true] at hget'
  rw [hget', (hmade key d hd.defined).trim_expected v hv]

/-- Complete keys fill the grid, if two or more keys leave no cell missing. -/
theorem filled_of_complete {query : Assignment} (hb : Belongs query family)
    (hsuit : p.Suitable family)
    (hgrid : ¬ (1 < family.keys.length ∧ p.missingCells family ≠ []))
    (hcomplete : ∀ ax ∈ Grid.axesOf p.registry (assignmentsOf family) family.keys,
      ax.status.status.isComplete = true) : p.Filled family :=
  Grid.full_of_complete (hb.kin.nodup hb.assignments) hb.assignments hsuit hgrid hcomplete

theorem judged_sumVerdict {query : Assignment} (hb : Belongs query family)
    (h : p.Settled req family) : p.Judged req family (p.sumVerdict req family) := by
  rw [sumVerdict_eq h.covers, reduce_shownMembers h.nodup h.suits]
  -- The steps of summing, in their order: the grid, the sum, its total, the axes.
  split_ifs with hgrid
  · exact .blocked _ h hgrid.1 hgrid.2
  · cases hsum : sumPayloads (p.shownMembers req.range family) with
    | error e =>
      rcases mixedCover_of_error hb.members h.covers hsum with ⟨o, rfl⟩ | ⟨rfl, hmixed⟩
      · exact .overflow o h hsum
      · exact .mixed h hmixed
    | ok payload =>
      show p.Judged req family (match answerOf req.range payload with
        | .error _ => .overflow (some (p.reductionOf family payload).isComplete)
        | .ok answer =>
          if (p.reductionOf family payload).isComplete then
            .complete answer (p.sharesOf req.range family)
          else .incomplete answer (incompleteDisclosure (p.reductionOf family payload)
            :: p.sharesOf req.range family))
      cases hanswer : answerOf req.range payload with
      | error o => exact .largeTotal payload o _ h hsum hanswer
      | ok answer =>
        by_cases hcomplete : (p.reductionOf family payload).isComplete = true
        · simp only [hcomplete, if_true]
          exact .complete payload answer h
            (filled_of_complete hb h.suits hgrid (isComplete_reductionOf.1 hcomplete)) hsum hanswer
        · simp only [hcomplete, Bool.false_eq_true, if_false]
          exact .incomplete payload answer h (Bool.eq_false_iff.2 hcomplete) hsum hanswer

/-- **Every verdict is one of these.** -/
theorem judged_verdict {query : Assignment} (hb : Belongs query family) :
    p.Judged req family (p.verdict req family) := by
  -- The cases follow the order of the checks.
  by_cases hnodup : NoRepeat family
  · by_cases hsuit : p.Suitable family
    · by_cases hitems : p.lacking req family = []
      · rw [verdict_eq_sumVerdict hb.keys hnodup hsuit hitems]
        exact judged_sumVerdict hb ⟨hnodup, hsuit, hitems⟩
      · obtain ⟨cells, gaps, hv⟩ := verdict_wanting hb.keys hnodup hsuit hitems
        rw [hv]
        exact .wanting cells gaps hnodup hsuit hitems
    · obtain ⟨failures, hv⟩ := @verdict_unsuitable p req family hnodup hsuit
      rw [hv]
      exact .unsuitable failures hnodup hsuit
  · obtain ⟨cell, hv⟩ := @verdict_repeated p req family hnodup
    rw [hv]
    exact .repeated cell hnodup

/-- Members that fill their grid and add up to an answer make a complete family. -/
theorem verdict_complete {payload : Payload} {answer : Answer} (hkeys : family.keys ≠ [])
    (hnodup : NoRepeat family) (hfull : p.Filled family)
    (hcovers : ∀ s ∈ family.members, p.Covers req.range s.payload)
    (hsum : sumPayloads (p.shownMembers req.range family) = .ok payload)
    (hanswer : answerOf req.range payload = .ok answer) :
    p.verdict req family = .complete answer (p.sharesOf req.range family) := by
  have hmissing : p.missingCells family = [] := missingCells_eq_nil_iff.2 hfull.held
  have hitems : p.lacking req family = [] := lacking_eq_nil_iff.2 ⟨fun _ => hmissing, hcovers⟩
  have hcomplete : (p.reductionOf family payload).isComplete = true :=
    isComplete_reductionOf.2 hfull.complete
  unfold reductionOf at hcomplete
  rw [verdict_eq_sumVerdict hkeys hnodup hfull.suits hitems, sumVerdict_eq hcovers,
    reduce_shownMembers hnodup hfull.suits, if_neg fun hgrid => hgrid.2 hmissing, hsum]
  simp only [Except.map, hanswer, hcomplete, if_true]

end MetricCube.Planner
