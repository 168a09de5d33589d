/-
  MetricCube.Proofs.Cells
  ───────────────────────
  **Missing cells are the holes of the grid.**  A combination picks, for each key, one
  of the values that the key ranges over: the expected ones, or for an open-ended key
  the observed ones.  The product of the axes lists the combinations

    • all of them and nothing else (`mem_product_axesOf`),
    • in lexicographic order, taking the keys as they are listed (`ascending_product`),

  so that the missing cells are, in this order, the combinations that no member holds
  (`missing_are_holes`).  The judgement fails as a whole if two members share a cell,
  and for a key by itself exactly if the key is unfit to be summed over.
-/
import Mathlib
import MetricCube.Proofs.Grid

namespace MetricCube.Grid

variable {registry : Registry} {members : List Assignment} {keys : List String}

/-! ## §1. Unfit keys. -/

/-- A member lacks the key, or it is not defined, or it has a definition with an exhaustive policy
    and a member shows a value that is not expected. -/
def Unfit (registry : Registry) (members : List Assignment) (key : String) : Prop :=
  (∃ a ∈ members, a.get? key = none) ∨ registry.find? key = none
    ∨ ∃ d, registry.find? key = some d ∧ d.policy.isExhaustive = true
      ∧ ∃ a ∈ members, ∃ value, a.get? key = some value ∧ value ∉ d.expected

/-- A key is unfit if it does not suit the members. -/
theorem unfit_iff {key : String} :
    Unfit registry members key ↔ ¬ ∃ d, Suits registry members key d := by
  constructor
  · rintro (⟨a, ha, hnone⟩ | hnone | ⟨d, hfind, hexh, a, ha, value, hget, hnot⟩) ⟨e, he⟩
    · obtain ⟨value, hvalue⟩ := he.carried a ha
      rw [hnone] at hvalue
      cases hvalue
    · rw [he.defined] at hnone
      cases hnone
    · obtain rfl : d = e := Option.some.inj (hfind.symm.trans he.defined)
      exact hnot (he.expected hexh value (mem_shown.2 ⟨a, ha, hget⟩))
  · intro hnot
    -- A key that is not unfit in any of the three ways suits the members.
    by_contra hfit
    unfold Unfit at hfit
    push Not at hfit
    obtain ⟨hcarried, hdefined, hexpected⟩ := hfit
    obtain ⟨d, hd⟩ := Option.ne_none_iff_exists'.1 hdefined
    refine hnot ⟨d, fun a ha => Option.ne_none_iff_exists'.1 (hcarried a ha), hd, ?_⟩
    intro hexh value hvalue
    obtain ⟨a, ha, hget⟩ := mem_shown.1 hvalue
    exact hexpected d hd hexh a ha value hget

theorem key_of_axis_eq_error {key : String} {f : DimensionFailure}
    (h : axis registry members key = .error f) : f.key = key := by
  unfold axis at h
  simp only at h
  split at h
  · cases h
    rfl
  · split at h
    · cases h
      rfl
    · split at h <;> cases h
      rfl

/-- **The failing keys are the unfit ones.** -/
theorem exists_failure_iff {key : String} :
    (∃ f ∈ failuresOf registry members keys, f.key = key)
      ↔ key ∈ keys ∧ Unfit registry members key := by
  rw [unfit_iff]
  unfold failuresOf
  simp only [List.mem_filterMap, List.mem_map, exists_exists_and_eq_and]
  constructor
  · rintro ⟨f, ⟨k, hk, hf⟩, rfl⟩
    cases hax : axis registry members k with
    | ok ax =>
      rw [hax] at hf
      cases hf
    | error g =>
      rw [hax] at hf
      cases hf
      obtain rfl := key_of_axis_eq_error hax
      refine ⟨hk, fun ⟨d, hd⟩ => ?_⟩
      rw [axis_eq_ok_iff.2 ⟨d, hd, rfl⟩] at hax
      cases hax
  · rintro ⟨hkey, hnot⟩
    cases hax : axis registry members key with
    | ok ax =>
      obtain ⟨d, hd, _⟩ := axis_eq_ok_iff.1 hax
      exact absurd ⟨d, hd⟩ hnot
    | error f => exact ⟨f, ⟨key, hkey, by rw [hax]⟩, key_of_axis_eq_error hax⟩

/-! ## §2. Shared cells. -/

/-- Two members, at different positions, hold the cell. -/
def Shared (members : List Assignment) (keys : List String) (cell : Assignment) : Prop :=
  ∃ (i j : ℕ) (a b : Assignment), i < j ∧ members[i]? = some a ∧ members[j]? = some b
    ∧ a.project keys = cell ∧ b.project keys = cell

theorem shared_iff {cell : Assignment} :
    Shared members keys cell ↔ (members.map fun a => a.project keys).Duplicate cell := by
  rw [List.duplicate_iff_exists_distinct_get]
  constructor
  · rintro ⟨i, j, a, b, hij, ha, hb, hcellA, hcellB⟩
    obtain ⟨hi, rfl⟩ := List.getElem?_eq_some_iff.1 ha
    obtain ⟨hj, rfl⟩ := List.getElem?_eq_some_iff.1 hb
    refine ⟨⟨i, by simpa using hi⟩, ⟨j, by simpa using hj⟩, hij, ?_, ?_⟩
    · simpa using hcellA.symm
    · simpa using hcellB.symm
  · rintro ⟨⟨i, hi⟩, ⟨j, hj⟩, hij, hcellA, hcellB⟩
    rw [List.length_map] at hi hj
    refine ⟨i, j, _, _, hij, List.getElem?_eq_getElem hi, List.getElem?_eq_getElem hj, ?_, ?_⟩
    · simpa using hcellA.symm
    · simpa using hcellB.symm

/-- **The judgement fails exactly if a cell is shared,** and on such a cell. -/
theorem exists_assess_error_iff : (∃ cell, assess registry members keys = .error cell)
    ↔ ∃ cell, Shared members keys cell := by
  constructor
  · rintro ⟨cell, h⟩
    exact ⟨cell, shared_iff.2 (duplicate_of_assess h)⟩
  · rintro ⟨cell, h⟩
    cases hassess : assess registry members keys with
    | error cell => exact ⟨cell, rfl⟩
    | ok g => exact absurd (assess_eq_ok_iff.1 hassess).1 (shared_iff.1 h).not_nodup

/-! ## §3. Combinations. -/

/-- The values that a key ranges over. -/
def valuesAt (registry : Registry) (members : List Assignment) (key : String) : Set String :=
  {value | ∃ d, registry.find? key = some d
    ∧ if d.policy.isExhaustive then value ∈ d.expected else ∃ a ∈ members, a.get? key = some value}

/-- A choice of one value for each key, and of nothing else. -/
structure Combination (registry : Registry) (members : List Assignment) (keys : List String)
    (cell : Assignment) : Prop where
  chosen : ∀ key ∈ keys, ∃ value ∈ valuesAt registry members key, cell.get? key = some value
  bare : ∀ key, key ∉ keys → cell.get? key = none

/-- The values of a cell in the order of the keys. -/
def valuesUnder (keys : List String) (cell : Assignment) : List String :=
  keys.map fun key => (cell.get? key).getD ""

theorem mem_values_axisOf {key value : String} {d : Definition}
    (hd : registry.find? key = some d) :
    value ∈ (axisOf members key d).values ↔ value ∈ valuesAt registry members key := by
  unfold axisOf valuesAt
  simp only [hd, Option.some.injEq, Set.mem_ofPred_eq, exists_eq_left']
  split
  · rfl
  · exact mem_shown

/-- **The product lists the combinations.** -/
theorem mem_product_axesOf (hmade : registry.Made) (hsuit : AllSuit registry members keys)
    (hproper : Proper (axesOf registry members keys)) {cell : Assignment} :
    cell ∈ product (axesOf registry members keys) ↔ Combination registry members keys cell := by
  rw [mem_product hproper]
  -- The axes are those of the keys, in their order, and their values are trimmed.
  constructor
  · rintro ⟨hin, hout⟩
    constructor
    · intro key hkey
      obtain ⟨d, hd⟩ := hsuit key hkey
      have hax := mem_axesOf.2 ⟨key, hkey, d, hd, rfl⟩
      obtain ⟨value, hvalue, hget⟩ := hin _ hax
      rw [trimmed_axesOf hmade _ hax value hvalue] at hget
      exact ⟨value, (mem_values_axisOf hd.defined).1 hvalue, hget⟩
    · intro key hkey
      exact hout key fun ax hax heq => hkey ((exists_axis_iff hsuit).1 ⟨ax, hax, heq⟩)
  · rintro ⟨hchosen, hbare⟩
    constructor
    · intro ax hax
      have haxis := hax
      obtain ⟨key, hkey, d, hd, rfl⟩ := mem_axesOf.1 hax
      obtain ⟨value, hvalue, hget⟩ := hchosen key hkey
      have hmem := (mem_values_axisOf hd.defined).2 hvalue
      refine ⟨value, hmem, ?_⟩
      rw [trimmed_axesOf hmade _ haxis value hmem]
      exact hget
    · intro key hkey
      apply hbare
      intro hmem
      obtain ⟨ax, hax, heq⟩ := (exists_axis_iff hsuit).2 hmem
      exact hkey ax hax heq

/-- Members whose keys all suit hold combinations. -/
theorem combination_project (hsuit : AllSuit registry members keys) {a : Assignment}
    (ha : a ∈ members) : Combination registry members keys (a.project keys) := by
  constructor
  · intro key hkey
    obtain ⟨d, hd⟩ := hsuit key hkey
    obtain ⟨value, hvalue⟩ := hd.carried a ha
    refine ⟨value, ⟨d, hd.defined, ?_⟩, ?_⟩
    · split
      · rename_i hexh
        exact hd.expected hexh value (mem_shown.2 ⟨a, ha, hvalue⟩)
      · exact ⟨a, ha, hvalue⟩
    · rw [Assignment.get?_project, if_pos hkey, hvalue]
  · intro key hkey
    rw [Assignment.get?_project, if_neg hkey]

/-! ## §4. The order of combinations. -/

/-- What follows lists of one length does not change how they compare. -/
theorem append_lt_append {as bs : List String} (h : as < bs) (hlength : as.length = bs.length)
    (cs ds : List String) : as ++ cs < bs ++ ds := by
  induction h with
  | nil => cases hlength
  | rel hlt => exact .rel hlt
  | cons _ ih => exact .cons (ih (Nat.succ.inj hlength))

/-- A cell with one more value lists it behind the others. -/
theorem valuesUnder_insert {keys : List String} {key value : String} {cell : Assignment}
    (hfold : Text.foldKey key = key) (hnew : key ∉ keys) (htrim : Text.trim value = value) :
    valuesUnder (keys ++ [key]) (cell.insert key value) = valuesUnder keys cell ++ [value] := by
  have hfront : ∀ k ∈ keys, ((cell.insert key value).get? k).getD "" = (cell.get? k).getD "" := by
    intro k hk
    have hne : k ≠ key := fun heq => hnew (heq ▸ hk)
    rw [Assignment.get?_insert, hfold, if_neg hne]
  have hlast : ((cell.insert key value).get? key).getD "" = value := by
    rw [Assignment.get?_insert, hfold, if_pos rfl, htrim, Option.getD_some]
  unfold valuesUnder
  rw [List.map_append, List.map_congr_left hfront, List.map_singleton, hlast]

/-- **A product of axes ascends,** the first key counting most. -/
theorem ascending_product {axes : List Axis} (h : Proper axes)
    (hvalues : ∀ ax ∈ axes, ax.values.Pairwise (· < ·)) (htrim : Trimmed axes) :
    (product axes).Pairwise fun c e =>
      valuesUnder (axes.map fun ax => ax.status.key) c
        < valuesUnder (axes.map fun ax => ax.status.key) e := by
  -- From the end, since the last axis varies fastest.
  induction axes using List.reverseRecOn with
  | nil => exact List.pairwise_singleton _ _
  | append_singleton axes ax ih =>
    obtain ⟨hfront, hfold, hnew⟩ := h.of_concat
    have hbefore := ih hfront (fun b hb => hvalues b (List.mem_append_left _ hb))
      fun b hb => htrim b (List.mem_append_left _ hb)
    have hlast : ax ∈ axes ++ [ax] := List.mem_append_right _ List.mem_cons_self
    have hkey : ax.status.key ∉ axes.map fun b => b.status.key := by
      intro hmem
      obtain ⟨b, hb, heq⟩ := List.mem_map.1 hmem
      exact hnew b hb heq
    have hunder : ∀ cell, ∀ v ∈ ax.values,
        valuesUnder ((axes ++ [ax]).map fun b => b.status.key) (cell.insert ax.status.key v)
          = valuesUnder (axes.map fun b => b.status.key) cell ++ [v] := by
      intro cell v hv
      rw [List.map_append, List.map_singleton]
      exact valuesUnder_insert hfold hkey (htrim ax hlast v hv)
    rw [product_concat, extend, List.pairwise_flatMap]
    constructor
    · intro cell _
      rw [List.pairwise_map]
      refine List.Pairwise.imp_of_mem ?_ (hvalues ax hlast)
      intro v w hv hw hlt
      rw [hunder cell v hv, hunder cell w hw]
      exact List.Lex.append_left _ (.rel hlt) _
    · refine hbefore.imp ?_
      intro c e hlt x hx y hy
      obtain ⟨v, hv, rfl⟩ := List.mem_map.1 hx
      obtain ⟨w, hw, rfl⟩ := List.mem_map.1 hy
      rw [hunder c v hv, hunder e w hw]
      refine append_lt_append hlt ?_ _ _
      simp only [valuesUnder, List.length_map]

/-! ## §5. Missing cells. -/

/-- **Missing cells are exactly the holes of the grid.**  The judgement fails exactly if two
    members share a cell.  Otherwise the failing keys are the unfit ones; and if there are keys and
    none fails, every member holds a combination, and the missing cells are those that no member
    holds, each once and in lexicographic order. -/
theorem missing_are_holes (hmade : registry.Made) (hkeys : keys.Nodup)
    (hfold : ∀ key ∈ keys, Text.foldKey key = key) :
    ((∃ cell, assess registry members keys = .error cell) ↔ ∃ cell, Shared members keys cell)
      ∧ (∀ cell, assess registry members keys = .error cell → Shared members keys cell)
      ∧ ∀ g, assess registry members keys = .ok g →
          (∀ key, (∃ f ∈ g.failures, f.key = key) ↔ key ∈ keys ∧ Unfit registry members key)
            ∧ (g.failures = [] → keys ≠ [] →
                (∀ cell, cell ∈ g.missing ↔ Combination registry members keys cell
                    ∧ ∀ a ∈ members, a.project keys ≠ cell)
                  ∧ g.missing.Nodup
                  ∧ (g.missing.Pairwise fun c e => valuesUnder keys c < valuesUnder keys e)
                  ∧ ∀ a ∈ members, Combination registry members keys (a.project keys)) := by
  refine ⟨exists_assess_error_iff, fun cell h => shared_iff.2 (duplicate_of_assess h), ?_⟩
  intro g hg
  obtain ⟨_, _, hfailures, hmissing⟩ := assess_eq_ok_iff.1 hg
  refine ⟨fun key => hfailures ▸ exists_failure_iff, fun hnone hne => ?_⟩
  have hsuit : AllSuit registry members keys := failuresOf_eq_nil_iff.1 (hfailures ▸ hnone)
  have hproper := hsuit.proper_of_folded hkeys hfold
  have haxes : axesOf registry members keys ≠ [] := by
    rw [← List.length_pos_iff, length_axesOf hsuit]
    exact List.length_pos_iff.2 hne
  rw [if_pos ⟨hnone, haxes⟩] at hmissing
  -- The product ascends, and what is missing is a part of it.
  have hascending : g.missing.Pairwise fun c e => valuesUnder keys c < valuesUnder keys e := by
    rw [hmissing]
    have hproduct := ascending_product hproper (fun ax hax => ascending_values hax)
      (trimmed_axesOf hmade)
    rw [keys_axesOf hsuit] at hproduct
    exact hproduct.filter _
  refine ⟨fun cell => ?_, ?_, hascending, fun a ha => combination_project hsuit ha⟩
  · rw [hmissing, missingOf, List.mem_filter, mem_product_axesOf hmade hsuit hproper]
    simp
  · refine hascending.imp ?_
    rintro c _ hlt rfl
    exact lt_irrefl _ hlt

namespace Lopsided

/-- Two plans, and regions with no end. -/
def dimensions : Registry :=
  .ofList [.make "plan" ["pro", "free"] .closed, .make "region" ["eu"] .openEnded]

/-- The cell of a plan in a region. -/
def cell (plan region : String) : Assignment :=
  .ofPairs [("plan", plan), ("region", region)]

/-- Both plans in three regions, with three holes. -/
def held : List Assignment :=
  [cell "pro" "us", cell "free" "eu", cell "free" "uk"]

theorem made_dimensions : dimensions.Made := by
  apply Registry.made_ofList
  intro d hd
  rcases List.mem_pair.1 hd with rfl | rfl
  · exact ⟨"plan", ["pro", "free"], .closed, .inl rfl⟩
  · exact ⟨"region", ["eu"], .openEnded, .inl rfl⟩

end Lopsided

/-- Three cells of two plans in the three regions seen leave three holes, plan by plan; the second
    one is a combination that nothing holds. -/
theorem holes_of_lopsided :
    Lopsided.dimensions.Made ∧ ["plan", "region"].Nodup
      ∧ (∀ key ∈ ["plan", "region"], Text.foldKey key = key)
      ∧ (∃ g, assess Lopsided.dimensions Lopsided.held ["plan", "region"] = .ok g
          ∧ g.missing = [Lopsided.cell "free" "us", Lopsided.cell "pro" "eu",
              Lopsided.cell "pro" "uk"])
      ∧ Combination Lopsided.dimensions Lopsided.held ["plan", "region"]
          (Lopsided.cell "pro" "eu")
      ∧ ∀ a ∈ Lopsided.held, a.project ["plan", "region"] ≠ Lopsided.cell "pro" "eu" := by
  have hkeys : ["plan", "region"].Nodup := by decide
  have hfold : ∀ key ∈ ["plan", "region"], Text.foldKey key = key := by decide +kernel
  have hassess : assess Lopsided.dimensions Lopsided.held ["plan", "region"]
      = .ok ⟨[⟨"plan", .closed, .complete⟩, ⟨"region", .openEnded, .lacking []⟩], [],
          [Lopsided.cell "free" "us", Lopsided.cell "pro" "eu", Lopsided.cell "pro" "uk"]⟩ := by
    decide +kernel
  obtain ⟨_, _, hok⟩ := @missing_are_holes Lopsided.dimensions Lopsided.held ["plan", "region"]
    Lopsided.made_dimensions hkeys hfold
  obtain ⟨_, hholes⟩ := hok _ hassess
  obtain ⟨hmem, _, _, _⟩ := hholes rfl (List.cons_ne_nil _ _)
  obtain ⟨hcombination, hfree⟩ := (hmem (Lopsided.cell "pro" "eu")).1 (by simp)
  exact ⟨Lopsided.made_dimensions, hkeys, hfold, ⟨_, hassess, rfl⟩, hcombination, hfree⟩

end MetricCube.Grid
