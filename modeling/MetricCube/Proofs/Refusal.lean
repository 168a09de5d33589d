/-
  MetricCube.Proofs.Refusal
  ─────────────────────────
  **Why a plan is refused.**  Families are cut out by their keys, so none of them is
  found to have several sets of keys; the payloads of a family are summed only when
  each covers the range, and are then clipped to it, so neither their days nor their
  windows differ.  Two faults are left (`fault_of_refused`):

    • `ambiguous cell`: two places of the cache hold usable slices of the assignment
      that the cell makes up with the request,
    • `unsummable mixedPayloads`: one family has both a daily slice and a window, and
      each of them covers the range.
-/
import Mathlib
import MetricCube.Proofs.Screening

namespace MetricCube

theorem Assignment.merged_self (a : Assignment) : a.merged a = a := by
  apply ext_get?
  intro key
  rw [get?_merged]
  cases a.get? key <;> rfl

namespace Planner

variable {p : Planner} {req : Request} {slices : List Slice}

/-! ## §1. Two slices of one assignment. -/

/-- Two places of the list hold usable slices of the assignment. -/
def Crowded (p : Planner) (req : Request) (slices : List Slice) (a : Assignment) : Prop :=
  ∃ i j : Nat, ∃ s t, i < j ∧ slices[i]? = some s ∧ slices[j]? = some t
    ∧ p.Usable req s ∧ p.Usable req t ∧ s.assignment = a ∧ t.assignment = a

/-- Two slices, one after the other among the usable ones, have two places in the list. -/
theorem crowded_of_sublist {s t : Slice} {a : Assignment}
    (h : [s, t].Sublist (p.compatible slices req)) (hs : s.assignment = a)
    (ht : t.assignment = a) : p.Crowded req slices a := by
  have husable : ∀ u ∈ [s, t], p.Usable req u := fun u hu =>
    (mem_compatible.1 (h.subset hu)).2
  obtain ⟨place, hplace⟩ := List.sublist_iff_exists_orderEmbedding_getElem?_eq.1
    (h.trans (compatible_sublist p slices req))
  refine ⟨place 0, place 1, s, t, place.lt_iff_lt.2 Nat.zero_lt_one, ?_, ?_,
    husable s (by simp), husable t (by simp), hs, ht⟩
  · exact (hplace 0).symm
  · exact (hplace 1).symm

/-- An ambiguous choice is one between two or more exact slices. -/
theorem crowded_of_exactChoice (h : p.exactChoice (p.compatible slices req) req = .ambiguous) :
    p.Crowded req slices req.assignment := by
  have hexact : ∀ u ∈ Family.exact Slice.assignment (p.compatible slices req) req.assignment,
      u.assignment = req.assignment := by
    intro u hu
    simpa using (List.mem_filter.1 hu).2
  have hsub : (Family.exact Slice.assignment (p.compatible slices req) req.assignment).Sublist
      (p.compatible slices req) := List.filter_sublist
  unfold exactChoice at h
  match hfound : Family.exact Slice.assignment (p.compatible slices req) req.assignment with
  | [] => rw [hfound] at h; cases h
  | [s] => rw [hfound] at h; cases h
  | s :: t :: rest =>
    rw [hfound] at hexact hsub
    refine crowded_of_sublist (List.Sublist.trans ?_ hsub) (hexact s (by simp)) (hexact t (by simp))
    exact (List.nil_sublist rest).cons_cons t |>.cons_cons s

/-- A cell that occurs twice is held by two members of the family. -/
theorem crowded_of_duplicate {keys : List String} {cell : Assignment}
    (hb : Belongs req.assignment (familyAt req (p.compatible slices req) keys))
    (h : ((assignmentsOf (familyAt req (p.compatible slices req) keys)).map fun a =>
      a.project keys).Duplicate cell) : p.Crowded req slices (req.assignment.merged cell) := by
  rw [List.duplicate_iff_sublist, assignmentsOf, List.map_map, List.sublist_map_iff] at h
  obtain ⟨found, hfound, hcells⟩ := h
  obtain ⟨s, rest, rfl, hs, hrest⟩ := List.map_eq_cons_iff.1 hcells.symm
  obtain ⟨t, rest, rfl, ht, hnil⟩ := List.map_eq_cons_iff.1 hrest
  obtain rfl := List.map_eq_nil_iff.1 hnil
  -- A member is the request together with the cell that it holds.
  have hmember : ∀ u ∈ [s, t], u.assignment.project keys = cell →
      u.assignment = req.assignment.merged cell := by
    intro u hu hcell
    obtain ⟨hsat, hext⟩ := hb.kin u.assignment (List.mem_map_of_mem (hfound.subset hu))
    rw [← Assignment.merged_project hsat, hext]
    exact congrArg req.assignment.merged hcell
  exact crowded_of_sublist (hfound.trans List.filter_sublist) (hmember s (by simp) hs)
    (hmember t (by simp) ht)

/-! ## §2. Two kinds of payload. -/

/-- Among the usable slices with some set of keys beyond the request, one has every day of the
    range and one is a window that answers for the range. -/
def Mixture (p : Planner) (req : Request) (slices : List Slice) : Prop :=
  ∃ keys ≠ [],
    (∃ s ∈ slices, p.Usable req s ∧ s.assignment.extraKeys req.assignment = keys
      ∧ ∃ series, s.payload = .daily series ∧ ∀ d ∈ req.range.days, d ∈ series.dates)
    ∧ ∃ t ∈ slices, p.Usable req t ∧ t.assignment.extraKeys req.assignment = keys
      ∧ ∃ w, t.payload = .aggregate w ∧ (w.range = req.range
        ∨ p.settings.prorateAggregates = true ∧ w.range.containsRange req.range = true)

theorem mixture_of_mixedCover {keys : List String} (hne : keys ≠ [])
    (h : p.MixedCover req.range (familyAt req (p.compatible slices req) keys).members) :
    p.Mixture req slices := by
  have hmember : ∀ u ∈ (familyAt req (p.compatible slices req) keys).members,
      u ∈ slices ∧ p.Usable req u ∧ u.assignment.extraKeys req.assignment = keys := by
    intro u hu
    obtain ⟨hu, hext⟩ := mem_familyAt.1 hu
    obtain ⟨hmem, husable⟩ := mem_compatible.1 hu
    exact ⟨hmem, husable, hext⟩
  obtain ⟨s, hs, series, hseries⟩ := h.daily
  obtain ⟨t, ht, w, hw⟩ := h.window
  have hscovers := h.covers s hs
  have htcovers := h.covers t ht
  rw [hseries, covers_daily] at hscovers
  rw [hw, covers_aggregate] at htcovers
  obtain ⟨hsmem, hsusable, hsext⟩ := hmember s hs
  obtain ⟨htmem, htusable, htext⟩ := hmember t ht
  exact ⟨keys, hne, ⟨s, hsmem, hsusable, hsext, series, hseries, hscovers⟩,
    t, htmem, htusable, htext, w, hw, htcovers⟩

/-! ## §3. The faults of a plan. -/

/-- **A plan is refused for an ambiguous cell or for mixed payloads, and for nothing else.** -/
theorem fault_of_refused {fault : PlanFault}
    (h : p.outcomeOf slices req = .ok (.refused fault)) :
    (∃ cell, fault = .ambiguous cell ∧ p.Crowded req slices (req.assignment.merged cell))
      ∨ fault = .unsummable .mixedPayloads ∧ p.Mixture req slices := by
  have hall := @allSatisfy_compatible p req slices
  have hp := planned_outcome p hall
  rw [← outcomeOf_eq, h] at hp
  cases hp with
  | ambiguous hchoice =>
    refine .inl ⟨req.assignment, rfl, ?_⟩
    rw [Assignment.merged_self]
    exact crowded_of_exactChoice hchoice
  | halted lacking keys covered fault hlacks hkeys hv =>
    have hb := belongs_familyAt hall hkeys
    have hj : p.Judged req _ (p.verdictAt req (p.compatible slices req) keys) := judged_verdict hb
    rw [hv] at hj
    cases hj with
    | repeated cell hrepeat =>
      exact .inl ⟨cell, rfl, crowded_of_duplicate hb (duplicate_of_ambiguous hrepeat hv)⟩
    | mixed hsettled hmixed =>
      exact .inr ⟨rfl, mixture_of_mixedCover hb.keys hmixed⟩

namespace Sample

/-- One channel twice, the second time under a signature that records a former dimension, too. -/
def twice : List Slice :=
  [slice "ads" days, slice "mail" days,
    ⟨only "ads", .daily (constant days (daily "ads")),
      .make "core" [("channel", channel.hash), ("region", "dropped")]⟩]

/-- One channel by days and the other one as a window. -/
def mixture : List Slice :=
  [slice "ads" days,
    ⟨only "mail", .aggregate ⟨days, .wrap 3 0⟩, planner.signatureFor "core" (only "mail")⟩]

end Sample

/-- Both faults occur. -/
theorem crowded_twice_and_mixture :
    Sample.planner.Crowded Sample.request Sample.twice (Sample.only "ads")
      ∧ Sample.planner.Mixture Sample.request Sample.mixture := by
  have htwice : Sample.planner.outcomeOf Sample.twice Sample.request
      = .ok (.refused (.ambiguous (Sample.only "ads"))) := by
    decide +kernel
  have hmixture : Sample.planner.outcomeOf Sample.mixture Sample.request
      = .ok (.refused (.unsummable .mixedPayloads)) := by
    decide +kernel
  constructor
  · rcases fault_of_refused htwice with ⟨cell, hcell, hcrowded⟩ | ⟨hfault, _⟩
    · cases hcell
      exact hcrowded
    · cases hfault
  · rcases fault_of_refused hmixture with ⟨cell, hcell, _⟩ | ⟨_, hmixed⟩
    · cases hcell
    · exact hmixed

end Planner

end MetricCube
