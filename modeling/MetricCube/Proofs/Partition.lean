/-
  MetricCube.Proofs.Partition
  ───────────────────────────
  **When slices make up a whole.**  Slices partition a cube over some keys when no
  two of them share a cell, when every choice of expected values is the choice of
  one of them and no other choice is, and when their payloads are of one kind.

      reduce gives a complete sum  ↔  the slices partition the cube

  unless a sum of theirs is too large.  The judgement that `reduce` goes by takes the
  keys one by one, and looks for missing cells under two or more keys only;
  `reduce_complete_iff` shows that this is enough for any number of keys.
-/
import Mathlib
import MetricCube.Proofs.Grid
import MetricCube.Proofs.Reduction

namespace MetricCube

variable {registry : Registry} {slices : List Slice} {keys : List String}

/-! ## §1. When a sum is made. -/

/-- The assignments of the slices. -/
abbrev assignmentsIn (slices : List Slice) : List Assignment :=
  slices.map Slice.assignment

/-- **What slices are reduced to,** if no cell repeats and every key suits them. -/
theorem reduce_eq (hnodup : ((assignmentsIn slices).map fun a => a.project keys).Nodup)
    (hsuit : Grid.AllSuit registry (assignmentsIn slices) keys) :
    reduce registry slices keys
      = if 1 < keys.length ∧ Grid.missingOf registry (assignmentsIn slices) keys ≠ [] then
          .ok (.blocked [.incompleteGrid (Grid.missingOf registry (assignmentsIn slices) keys)])
        else (sumPayloads slices).map fun payload =>
          .reduced ⟨payload,
            (Grid.axesOf registry (assignmentsIn slices) keys).map Grid.Axis.status⟩ := by
  simp only [reduce, Grid.assess_of_allSuit hnodup hsuit, List.isEmpty_nil, Bool.not_true,
    Bool.false_eq_true, if_false, List.length_map, Grid.length_axesOf hsuit]
  -- Missing cells count under two or more keys only.
  by_cases hone : 1 < keys.length
  · have hkeys : keys ≠ [] := List.length_pos_iff.1 (by omega)
    simp only [hone, hkeys, if_false, decide_true, Bool.true_and, Bool.not_eq_true',
      List.isEmpty_eq_false_iff, true_and]
  · simp only [hone, decide_false, Bool.false_and, Bool.false_eq_true, if_false, false_and]

/-- **When a sum is made, and of what.** -/
theorem reduce_eq_reduced_iff {r : Reduction} : reduce registry slices keys = .ok (.reduced r)
    ↔ ((assignmentsIn slices).map fun a => a.project keys).Nodup
      ∧ Grid.AllSuit registry (assignmentsIn slices) keys
      ∧ ¬ (1 < keys.length ∧ Grid.missingOf registry (assignmentsIn slices) keys ≠ [])
      ∧ sumPayloads slices = .ok r.payload
      ∧ r.dimensions = (Grid.axesOf registry (assignmentsIn slices) keys).map Grid.Axis.status := by
  constructor
  · intro h
    have hallowed : ((assignmentsIn slices).map fun a => a.project keys).Nodup
        ∧ Grid.AllSuit registry (assignmentsIn slices) keys := by
      unfold reduce at h
      split at h
      · cases h
      · rename_i grid hgrid
        obtain ⟨hnodup, _, hfailures, _⟩ := Grid.assess_eq_ok_iff.1 hgrid
        split at h
        · cases h
        · rename_i hnone
          refine ⟨hnodup, Grid.failuresOf_eq_nil_iff.1 (hfailures ▸ ?_)⟩
          simpa using hnone
    obtain ⟨hnodup, hsuit⟩ := hallowed
    -- Past the checks, reducing is summing.
    rw [reduce_eq hnodup hsuit] at h
    by_cases hgrid : 1 < keys.length ∧ Grid.missingOf registry (assignmentsIn slices) keys ≠ []
    · rw [if_pos hgrid] at h
      cases h
    rw [if_neg hgrid] at h
    refine ⟨hnodup, hsuit, hgrid, ?_⟩
    cases hsum : sumPayloads slices with
    | error e => rw [hsum] at h; cases h
    | ok payload =>
      rw [hsum] at h
      cases h
      exact ⟨rfl, rfl⟩
  · intro h
    obtain ⟨hnodup, hsuit, hgrid, hsum, hdimensions⟩ := h
    rw [reduce_eq hnodup hsuit, if_neg hgrid, hsum, ← hdimensions]
    rfl

/-! ## §2. Complete sums. -/

theorem isComplete_iff {r : Reduction} {axes : List Grid.Axis}
    (h : r.dimensions = axes.map Grid.Axis.status) :
    r.isComplete = true ↔ ∀ ax ∈ axes, ax.status.status.isComplete = true := by
  rw [Reduction.isComplete, h, List.all_map, List.all_eq_true]
  rfl

/-- A complete sum is one over a full grid. -/
theorem reduce_eq_complete_iff (hkeys : keys.Nodup) {r : Reduction} :
    reduce registry slices keys = .ok (.reduced r) ∧ r.isComplete = true
      ↔ ((assignmentsIn slices).map fun a => a.project keys).Nodup
        ∧ Grid.Full registry (assignmentsIn slices) keys
        ∧ sumPayloads slices = .ok r.payload
        ∧ r.dimensions
          = (Grid.axesOf registry (assignmentsIn slices) keys).map Grid.Axis.status := by
  rw [reduce_eq_reduced_iff]
  constructor
  · intro h
    obtain ⟨⟨hnodup, hsuit, hgrid, hsum, hdimensions⟩, hcomplete⟩ := h
    have hne : assignmentsIn slices ≠ [] := by
      intro hnil
      rw [List.map_eq_nil_iff.1 hnil] at hsum
      cases hsum
    exact ⟨hnodup, Grid.full_of_complete hkeys hne hsuit hgrid
      ((isComplete_iff hdimensions).1 hcomplete), hsum, hdimensions⟩
  · intro h
    obtain ⟨hnodup, hfull, hsum, hdimensions⟩ := h
    refine ⟨⟨hnodup, hfull.suits, ?_, hsum, hdimensions⟩,
      (isComplete_iff hdimensions).2 hfull.complete⟩
    intro h
    obtain ⟨_, hmissing⟩ := h
    exact hmissing (Grid.missingOf_eq_nil_iff.2 hfull.held)

/-! ## §3. Partitions. -/

/-- The slices partition the cube over the keys. -/
structure Partitions (registry : Registry) (slices : List Slice) (keys : List String) : Prop where
  /-- No two slices share a cell. -/
  distinct : (slices.map fun s => s.assignment.project keys).Nodup
  /-- Every slice carries every key, and every key has an exhaustive definition. -/
  exhaustive : Grid.Exhaustive registry (assignmentsIn slices) keys
  /-- The slices make every choice of expected values, and no other. -/
  full : Grid.points (assignmentsIn slices) keys
    = Set.pi {key | key ∈ keys} registry.expectedAt
  nonempty : slices ≠ []
  uniform : Uniform slices

theorem Partitions.full_grid (h : Partitions registry slices keys) (hkeys : keys.Nodup) :
    ((assignmentsIn slices).map fun a => a.project keys).Nodup
      ∧ Grid.Full registry (assignmentsIn slices) keys := by
  refine ⟨?_, Grid.full_of_points h.exhaustive h.full hkeys ?_⟩
  · rw [List.map_map]
    exact h.distinct
  · intro hnil
    exact h.nonempty (List.map_eq_nil_iff.1 hnil)

theorem partitions_of_complete (hkeys : keys.Nodup) {r : Reduction}
    (h : reduce registry slices keys = .ok (.reduced r)) (hcomplete : r.isComplete = true) :
    Partitions registry slices keys := by
  obtain ⟨hnodup, hfull, hsum, _⟩ := (reduce_eq_complete_iff hkeys).1 ⟨h, hcomplete⟩
  have hne : slices ≠ [] := by
    intro hnil
    rw [hnil] at hsum
    cases hsum
  obtain ⟨hexhaustive, hpoints⟩ := (Grid.full_iff hkeys (mt List.map_eq_nil_iff.1 hne)).1 hfull
  rw [List.map_map] at hnodup
  exact ⟨hnodup, hexhaustive, hpoints, hne, Uniform.of_sumOf (sumOf_of_sumPayloads hsum)⟩

/-- Slices that partition the cube have a complete sum, or one that is too large. -/
theorem Partitions.reduced_or_overflow (h : Partitions registry slices keys)
    (hkeys : keys.Nodup) :
    (∃ r, reduce registry slices keys = .ok (.reduced r) ∧ r.isComplete = true)
      ∨ ¬ SumsFit slices ∧ ∃ cause, reduce registry slices keys = .error (.overflow cause) := by
  obtain ⟨hnodup, hfull⟩ := h.full_grid hkeys
  cases hsum : sumPayloads slices with
  | ok payload =>
    exact .inl ⟨⟨payload, _⟩, (reduce_eq_complete_iff hkeys).2 ⟨hnodup, hfull, hsum, rfl⟩⟩
  | error e =>
    obtain ⟨cause, rfl⟩ := h.uniform.overflow h.nonempty hsum
    refine .inr ⟨fun hfits => ?_, cause, ?_⟩
    · obtain ⟨payload, hok⟩ := h.uniform.exists_sum h.nonempty hfits
      rw [hsum] at hok
      cases hok
    · have hgrid : ¬ (1 < keys.length
          ∧ Grid.missingOf registry (assignmentsIn slices) keys ≠ []) :=
        fun hmissing => hmissing.2 (Grid.missingOf_eq_nil_iff.2 hfull.held)
      rw [reduce_eq hnodup hfull.suits, if_neg hgrid, hsum]
      rfl

/-- **A reduction is complete exactly for slices that partition the cube,** unless a sum is too
    large.  It then has their days, or their window, with the sums of their counts; and where the
    true sums are counts, none is too large. -/
theorem reduce_complete_iff (hkeys : keys.Nodup) :
    ((∀ cause, reduce registry slices keys ≠ .error (.overflow cause)) →
        ((∃ r, reduce registry slices keys = .ok (.reduced r) ∧ r.isComplete = true)
          ↔ Partitions registry slices keys))
      ∧ (∀ r, reduce registry slices keys = .ok (.reduced r) → r.isComplete = true →
          SumOf slices r.payload)
      ∧ (Partitions registry slices keys → SumsFit slices →
          ∀ cause, reduce registry slices keys ≠ .error (.overflow cause)) := by
  refine ⟨fun hsums => ⟨?_, ?_⟩, ?_, ?_⟩
  · intro h
    obtain ⟨r, hr, hcomplete⟩ := h
    exact partitions_of_complete hkeys hr hcomplete
  · intro h
    refine (h.reduced_or_overflow hkeys).resolve_right ?_
    intro hlarge
    obtain ⟨_, cause, hcause⟩ := hlarge
    exact hsums cause hcause
  · intro r hr _
    exact sumOf_of_sumPayloads (reduce_eq_reduced_iff.1 hr).2.2.2.1
  · intro h hfits cause hcause
    rcases h.reduced_or_overflow hkeys with ⟨r, hr, _⟩ | ⟨hlarge, _⟩
    · rw [hcause] at hr
      cases hr
    · exact hlarge hfits

namespace Quarters

/-- Two plans, and one region with a catch-all for the others. -/
def dimensions : Registry :=
  .ofList [.make "plan" ["free", "pro"] .closed, .make "region" ["eu"] .explicitOther]

/-- Counts on two days. -/
def twoDays (first second : Count) : Series :=
  ⟨[⟨.ofDays 1, first⟩, ⟨.ofDays 2, second⟩],
    List.pairwise_pair.2 (show Date.ofDays 1 < Date.ofDays 2 by decide)⟩

/-- The counts of one plan in one region. -/
def quarter (plan region : String) (first second : Count) : Slice :=
  ⟨.ofPairs [("plan", plan), ("region", region)], .daily (twoDays first second), .legacy "v0"⟩

/-- The four cells of the grid. -/
def all : List Slice :=
  [quarter "free" "eu" (.wrap 4 1) (.wrap 3 0), quarter "pro" "eu" (.wrap 2 2) (.wrap 5 1),
    quarter "free" "other" (.wrap 1 0) (.wrap 1 1), quarter "pro" "other" (.wrap 6 3) .zero]

end Quarters

/-- The four quarters partition the cube and add up; three of them do not partition it. -/
theorem partitions_quarters :
    Partitions Quarters.dimensions Quarters.all ["plan", "region"]
      ∧ SumOf Quarters.all (.daily (Quarters.twoDays (.wrap 13 6) (.wrap 9 2)))
      ∧ ¬ Partitions Quarters.dimensions (Quarters.all.take 3) ["plan", "region"] := by
  have hkeys : ["plan", "region"].Nodup := by decide
  have hall : reduce Quarters.dimensions Quarters.all ["plan", "region"]
      = .ok (.reduced ⟨.daily (Quarters.twoDays (.wrap 13 6) (.wrap 9 2)),
          [⟨"plan", .closed, .complete⟩, ⟨"region", .explicitOther, .complete⟩]⟩) := by
    decide +kernel
  have hthree : reduce Quarters.dimensions (Quarters.all.take 3) ["plan", "region"]
      = .ok (.blocked [.incompleteGrid [.ofPairs [("plan", "pro"), ("region", "other")]]]) := by
    decide +kernel
  obtain ⟨hiff, hsum, _⟩ := @reduce_complete_iff Quarters.dimensions Quarters.all _ hkeys
  obtain ⟨hthreeIff, _⟩ :=
    @reduce_complete_iff Quarters.dimensions (Quarters.all.take 3) _ hkeys
  have hsums : ∀ cause, reduce Quarters.dimensions Quarters.all ["plan", "region"]
      ≠ .error (.overflow cause) := by
    intro cause hcause
    rw [hall] at hcause
    cases hcause
  have hthreeSums : ∀ cause, reduce Quarters.dimensions (Quarters.all.take 3) ["plan", "region"]
      ≠ .error (.overflow cause) := by
    intro cause hcause
    rw [hthree] at hcause
    cases hcause
  -- Three quarters are blocked, so they are no partition.
  refine ⟨(hiff hsums).1 ⟨_, hall, rfl⟩, hsum _ hall rfl, ?_⟩
  intro h
  obtain ⟨r, hr, _⟩ := (hthreeIff hthreeSums).2 h
  rw [hthree] at hr
  cases hr

end MetricCube
