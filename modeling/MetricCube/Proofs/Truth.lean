/-
  MetricCube.Proofs.Truth
  ───────────────────────
  **True amounts.**  A `Truth` gives the true amount of every assignment on every
  day.  It is additive over a registry when each exhaustive dimension splits it:
  the amount of an assignment that leaves the dimension open is the sum over the
  expected values.

  By induction over the axes, the cells of a product then add up to the query
  (`sum_product`), and so do members together with the cells that they leave
  missing (`sum_members_add_missing`); members that fill their grid leave none
  (`sum_members`).
-/
import Mathlib
import MetricCube.Proofs.Grid
import MetricCube.Proofs.Series
import MetricCube.Slice

namespace MetricCube

/-- The true amount of each assignment on each day. -/
abbrev Truth := Assignment → Date → Amount

namespace Truth

/-- The true amount over all days of a range. -/
def total (T : Truth) (a : Assignment) (r : DateRange) : Amount :=
  (r.days.map (T a)).sum

/-- Every exhaustive dimension that an assignment leaves open splits its amount. -/
def Additive (T : Truth) (registry : Registry) : Prop :=
  ∀ key d, registry.find? key = some d → d.policy.isExhaustive = true →
    ∀ a : Assignment, a.replaced? key = none →
      ∀ day, T a day = (d.expected.map fun v => T (a.insert key v) day).sum

end Truth

/-- Every day, or the whole window, has its true amount. -/
def Payload.TruthfulTo (T : Truth) (a : Assignment) : Payload → Prop
  | .daily s => ∀ p ∈ s.points, p.counts.amount = T a p.date
  | .aggregate w => w.counts.amount = T.total a w.range

/-- The slice holds true amounts of its assignment. -/
def Slice.TruthfulTo (T : Truth) (s : Slice) : Prop :=
  s.payload.TruthfulTo T s.assignment

namespace Grid

variable {registry : Registry} {T : Truth} {query : Assignment}

/-! ## §1. A product of axes. -/

/-- The values of the axis are all there is of its dimension, which the query leaves open. -/
structure Splits (registry : Registry) (query : Assignment) (ax : Axis) : Prop where
  free : query.get? ax.status.key = none
  exhaustive : ∃ d, registry.find? ax.status.key = some d ∧ d.policy.isExhaustive = true
    ∧ ax.values = d.expected

/-- **The cells of a product add up to the query.** -/
theorem sum_product {axes : List Axis} (hT : T.Additive registry) (hproper : Proper axes)
    (h : ∀ ax ∈ axes, Splits registry query ax) (day : Date) :
    ((product axes).map fun cell => T (query.merged cell) day).sum = T query day := by
  -- From the end, since the last axis is the one that every cell was extended by last.
  induction axes using List.reverseRecOn with
  | nil =>
    show (T (query.merged Assignment.empty) day) + 0 = _
    rw [Assignment.merged_empty, add_zero]
  | append_singleton axes ax ih =>
    obtain ⟨hfront, hfold, hnew⟩ := hproper.of_concat
    obtain ⟨hfree, d, hfind, hexh, hvalues⟩ := h ax (by simp)
    rw [← ih hfront fun b hb => h b (List.mem_append_left _ hb), product_concat, extend,
      List.map_flatMap, List.flatMap, List.sum_flatten, List.map_map]
    refine congrArg List.sum (List.map_congr_left fun cell hcell => ?_)
    -- The last axis splits each cell of the product of the others.
    have hopen : (query.merged cell).replaced? ax.status.key = none := by
      have hcell' := ((mem_product hfront).1 hcell).2 _ hnew
      rw [Assignment.replaced?, hfold, Assignment.get?_merged, hcell', hfree]
      rfl
    rw [hT _ d hfind hexh _ hopen day, hvalues, Function.comp_apply, List.map_map]
    refine congrArg List.sum (List.map_congr_left fun v _ => ?_)
    rw [Function.comp_apply, Assignment.merged_insert]

/-! ## §2. Members that fill their grid. -/

/-- Assignments that satisfy a query and have the given keys beyond it. -/
def Kin (query : Assignment) (keys : List String) (members : List Assignment) : Prop :=
  ∀ a ∈ members, a.satisfies query = true ∧ a.extraKeys query = keys

variable {keys : List String} {members : List Assignment}

theorem Kin.beside (h : Kin query keys members) (hne : members ≠ []) {key : String}
    (hkey : key ∈ keys) : query.get? key = none ∧ Text.foldKey key = key := by
  obtain ⟨a, ha⟩ := List.exists_mem_of_ne_nil _ hne
  have hkey' : key ∈ a.extraKeys query := (h a ha).2 ▸ hkey
  exact ⟨(Assignment.mem_extraKeys.1 hkey').2, Assignment.foldKey_of_mem_extraKeys hkey'⟩

theorem Kin.nodup (h : Kin query keys members) (hne : members ≠ []) : keys.Nodup := by
  obtain ⟨a, ha⟩ := List.exists_mem_of_ne_nil _ hne
  rw [← (h a ha).2]
  exact (a.ascending_extraKeys query).imp fun hlt => ne_of_lt hlt

/-- Different members hold different cells. -/
theorem Kin.nodup_cells (h : Kin query keys members) :
    (members.map fun a => a.project keys).Nodup ↔ members.Nodup := by
  constructor
  · exact List.Nodup.of_map _
  · intro hnodup
    refine List.Nodup.map_on ?_ hnodup
    intro a ha b hb heq
    exact Assignment.eq_of_project_eq (h a ha).1 (h b hb).1 (h a ha).2 (h b hb).2 heq

theorem Kin.proper (h : Kin query keys members) (hne : members ≠ [])
    (hsuit : AllSuit registry members keys) : Proper (axesOf registry members keys) :=
  hsuit.proper (h.nodup hne) hne

theorem nodup_values {ax : Axis} (h : ax ∈ axesOf registry members keys) : ax.values.Nodup :=
  (ascending_values h).imp fun hlt => ne_of_lt hlt

/-- Every member holds a cell of the product. -/
theorem Kin.project_mem_product (h : Kin query keys members)
    (hsuit : AllSuit registry members keys) {a : Assignment} (ha : a ∈ members) :
    a.project keys ∈ product (axesOf registry members keys) := by
  have hne : members ≠ [] := List.ne_nil_of_mem ha
  refine (mem_product (h.proper hne hsuit)).2 ⟨fun ax hax => ?_, fun key hkey => ?_⟩
  · obtain ⟨key, hkey, d, hd, rfl⟩ := mem_axesOf.1 hax
    obtain ⟨value, hvalue⟩ := hd.carried a ha
    have hshown : value ∈ shown members key := mem_shown.2 ⟨a, ha, hvalue⟩
    refine ⟨value, ?_, ?_⟩
    · show value ∈ if d.policy.isExhaustive then d.expected else shown members key
      split
      · exact hd.expected ‹_› value hshown
      · exact hshown
    · show (a.project keys).get? key = _
      rw [Assignment.get?_project, if_pos hkey, hvalue, (Assignment.folded_of_get? hvalue).2]
  · have hnot : key ∉ keys := by
      intro hmem
      obtain ⟨ax, hax, heq⟩ := (exists_axis_iff hsuit).2 hmem
      exact hkey ax hax heq
    rw [Assignment.get?_project, if_neg hnot]

theorem Full.splits (h : Kin query keys members) (hne : members ≠ [])
    (hfull : Full registry members keys) :
    ∀ ax ∈ axesOf registry members keys, Splits registry query ax := by
  intro ax hax
  have hcomplete := hfull.complete ax hax
  obtain ⟨key, hkey, d, hd, rfl⟩ := mem_axesOf.1 hax
  obtain ⟨hexh, _⟩ := isComplete_axisOf.1 hcomplete
  exact ⟨(h.beside hne hkey).1, d, hd.defined, hexh, values_axisOf hexh⟩

theorem Full.trimmed (hfull : Full registry members keys) :
    Trimmed (axesOf registry members keys) := by
  intro ax hax v hv
  have hcomplete := hfull.complete ax hax
  obtain ⟨key, _, d, _, rfl⟩ := mem_axesOf.1 hax
  obtain ⟨hexh, hall⟩ := isComplete_axisOf.1 hcomplete
  rw [values_axisOf hexh] at hv
  -- A complete dimension shows all its values, and what is shown is trimmed.
  obtain ⟨a, _, hget⟩ := mem_shown.1 (hall v hv)
  exact (Assignment.folded_of_get? hget).2

/-- The cells of the members and the missing cells make up the product, each cell once. -/
theorem perm_product (h : Kin query keys members) (hne : members ≠ []) (hnodup : members.Nodup)
    (hsuit : AllSuit registry members keys) (htrim : Trimmed (axesOf registry members keys)) :
    ((members.map fun a => a.project keys) ++ missingOf registry members keys).Perm
      (product (axesOf registry members keys)) := by
  have hproduct : (product (axesOf registry members keys)).Nodup :=
    nodup_product (h.proper hne hsuit) fun ax hax => ⟨nodup_values hax, htrim ax hax⟩
  have hmissing : ∀ {cell}, cell ∈ missingOf registry members keys
      ↔ cell ∈ product (axesOf registry members keys)
        ∧ cell ∉ members.map fun a => a.project keys := by
    intro cell
    rw [missingOf, List.mem_filter, Bool.not_eq_true', List.contains_eq_mem,
      decide_eq_false_iff_not]
  -- Neither list has a cell twice, so having the same cells they are the same up to order.
  refine (List.perm_ext_iff_of_nodup ?_ hproduct).2 fun cell => ?_
  · refine List.Nodup.append (h.nodup_cells.2 hnodup) (hproduct.filter _) ?_
    intro cell hcell hmem
    exact (hmissing.1 hmem).2 hcell
  · rw [List.mem_append, hmissing]
    constructor
    · rintro (hcell | hcell)
      · obtain ⟨a, ha, rfl⟩ := List.mem_map.1 hcell
        exact h.project_mem_product hsuit ha
      · exact hcell.1
    · intro hcell
      by_cases hheld : cell ∈ members.map fun a => a.project keys
      · exact .inl hheld
      · exact .inr ⟨hcell, hheld⟩

/-- **Members, each in a cell of its own, and missing cells add up to the query.** -/
theorem sum_members_add_missing (hT : T.Additive registry) (h : Kin query keys members)
    (hne : members ≠ []) (hnodup : members.Nodup) (hsuit : AllSuit registry members keys)
    (htrim : Trimmed (axesOf registry members keys))
    (hsplits : ∀ ax ∈ axesOf registry members keys, Splits registry query ax) (day : Date) :
    (members.map fun a => T a day).sum
        + ((missingOf registry members keys).map fun cell => T (query.merged cell) day).sum
      = T query day := by
  have hmembers : (members.map fun a => T a day).sum
      = ((members.map fun a => a.project keys).map fun cell => T (query.merged cell) day).sum := by
    rw [List.map_map]
    refine congrArg List.sum (List.map_congr_left fun a ha => ?_)
    rw [Function.comp_apply, ← (h a ha).2, Assignment.merged_project (h a ha).1]
  calc _ = (((members.map fun a => a.project keys) ++ missingOf registry members keys).map
        fun cell => T (query.merged cell) day).sum := by
        rw [hmembers, List.map_append, List.sum_append]
    _ = ((product (axesOf registry members keys)).map fun cell => T (query.merged cell) day).sum :=
        ((perm_product h hne hnodup hsuit htrim).map _).sum_eq
    _ = T query day := sum_product hT (h.proper hne hsuit) hsplits day

/-- **Members that fill their grid, each cell once, add up to the query.** -/
theorem sum_members (hT : T.Additive registry) (h : Kin query keys members) (hne : members ≠ [])
    (hnodup : members.Nodup) (hfull : Full registry members keys) (day : Date) :
    (members.map fun a => T a day).sum = T query day := by
  have hsum := sum_members_add_missing hT h hne hnodup hfull.suits hfull.trimmed
    (hfull.splits h hne) day
  rwa [missingOf_eq_nil_iff.2 hfull.held, List.map_nil, List.sum_nil, add_zero] at hsum

end Grid

end MetricCube
