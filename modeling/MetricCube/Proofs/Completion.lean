/-
  MetricCube.Proofs.Completion
  ────────────────────────────
  **A family after everything it lacked was delivered.**  If slices have current
  signatures, at most one for each assignment, and every item that a family lacks
  was delivered with all its days, then the family

    • has each cell once (`Current.noRepeat`) and suits its keys as before
      (`FamilyServed.suitable`);
    • misses no cell that was to be fetched (`FamilyServed.missingCells_eq_nil`);
    • covers the range with every member (`FamilyServed.covers`).

  Members are told apart by their assignments: each was a member before, or it is
  a cell that was missing (`FamilyServed.assignment_cases`).
-/
import Mathlib
import MetricCube.Proofs.Serving

namespace MetricCube

namespace Planner

variable {p : Planner} {req : Request} {usable : List Slice} {ds : List Delivery}
  {keys : List String}

/-! ## §1. Slices under current signatures. -/

/-- Slices for the request under current signatures, at most one for each assignment. -/
structure Current (p : Planner) (req : Request) (usable : List Slice) : Prop where
  satisfy : AllSatisfy req usable
  current : ∀ s ∈ usable, s.signature = p.signatureFor req.core s.assignment
  nodup : (usable.map Slice.assignment).Nodup

theorem nodup_slots (h : (usable.map Slice.assignment).Nodup) :
    (usable.map Slice.slot).Nodup := by
  have hfst : (usable.map Slice.slot).map Prod.fst = usable.map Slice.assignment := by
    rw [List.map_map]
    rfl
  exact (hfst ▸ h).of_map _

namespace Current

/-- It is enough that all slices are so, the usable ones are some of them. -/
theorem of_slices {slices : List Slice}
    (hcurrent : ∀ s ∈ slices, s.signature = p.signatureFor req.core s.assignment)
    (hnodup : (slices.map Slice.assignment).Nodup) :
    p.Current req (p.compatible slices req) where
  satisfy := allSatisfy_compatible slices
  current := fun s hs => hcurrent s ((p.compatible_sublist slices req).subset hs)
  nodup := hnodup.sublist ((p.compatible_sublist slices req).map Slice.assignment)

/-- Slices with the same assignment are one slice. -/
theorem eq_of_assignment (h : p.Current req usable) {s t : Slice} (hs : s ∈ usable)
    (ht : t ∈ usable) (ha : s.assignment = t.assignment) : s = t :=
  List.inj_on_of_nodup_map h.nodup hs ht ha

theorem slot_eq (h : p.Current req usable) {s : Slice} (hs : s ∈ usable) :
    s.slot = (s.assignment, p.signatureFor req.core s.assignment) :=
  Prod.ext rfl (h.current s hs)

/-- **What is delivered for issued items is written under current signatures.** -/
theorem deliver (h : p.Current req usable) (hds : p.AllIssued req ds) :
    p.Current req (Store.deliver ds usable) := by
  have hcurrent : ∀ s ∈ Store.deliver ds usable,
      s.signature = p.signatureFor req.core s.assignment := by
    intro s hs
    rcases Store.mem_deliver hs with hs | ⟨⟨d, hd, hslot⟩, _⟩
    · exact h.current s hs
    · rw [← show d.item.assignment = s.assignment from congrArg Prod.fst hslot,
        ← show d.item.signature = s.signature from congrArg Prod.snd hslot]
      exact (hds d hd).signature_eq
  have hslots := @Store.nodup_deliver usable ds (nodup_slots h.nodup)
  refine ⟨allSatisfy_deliver h.satisfy hds, hcurrent, List.Nodup.map_on ?_ (hslots.of_map _)⟩
  intro s hs t ht ha
  refine List.inj_on_of_nodup_map hslots hs ht (Prod.ext ha ?_)
  show s.signature = t.signature
  rw [hcurrent s hs, hcurrent t ht, ha]

theorem noRepeat (h : p.Current req usable) (hkeys : keys ∈ keySets req usable) :
    NoRepeat (familyAt req usable keys) := by
  refine (belongs_familyAt h.satisfy hkeys).kin.nodup_cells.2 (List.Nodup.map_on ?_
    (h.nodup.of_map _ |>.filter _))
  intro s hs t ht ha
  exact h.eq_of_assignment (mem_familyAt.1 hs).1 (mem_familyAt.1 ht).1 ha

/-- With one slice for each assignment, the exact slice is not ambiguous. -/
theorem exactChoice_ne_ambiguous (h : p.Current req usable) :
    p.exactChoice usable req ≠ .ambiguous := by
  have hone : ∀ s ∈ Family.exact Slice.assignment usable req.assignment,
      ∀ t ∈ Family.exact Slice.assignment usable req.assignment, s = t := by
    intro s hs t ht
    obtain ⟨hsu, hsa⟩ := List.mem_filter.1 hs
    obtain ⟨htu, hta⟩ := List.mem_filter.1 ht
    exact h.eq_of_assignment hsu htu
      ((of_decide_eq_true hsa).trans (of_decide_eq_true hta).symm)
  have hnodup : (Family.exact Slice.assignment usable req.assignment).Nodup :=
    (h.nodup.of_map _).filter _
  unfold exactChoice
  split
  · simp
  · simp
  · rename_i hnil hsingle
    -- Two exact slices would be equal, and no slice is there twice.
    match hexact : Family.exact Slice.assignment usable req.assignment with
    | [] => exact absurd hexact hnil
    | [s] => exact absurd hexact (hsingle s)
    | s :: t :: rest =>
      rw [hexact] at hone hnodup
      have hst : s = t := hone s List.mem_cons_self t (List.mem_cons_of_mem _ List.mem_cons_self)
      rw [hst] at hnodup
      simp at hnodup

/-- A slice covers the range if its slot has the days. -/
theorem covers_of_hasDays (h : p.Current req usable) {s : Slice} {σ : Slot} (hs : s ∈ usable)
    (ha : s.assignment = σ.1)
    (hdays : ∀ day ∈ req.range.days, Store.HasDays usable σ fun d => d = day) :
    p.Covers req.range s.payload := by
  have hmem : ∀ day ∈ req.range.days, ∃ u, s.payload = .daily u ∧ day ∈ u.dates := by
    intro day hday
    obtain ⟨t, ht, hslot, u, hu, hall⟩ := hdays day hday
    have hts : s = t := h.eq_of_assignment hs ht (ha.trans (congrArg Prod.fst hslot).symm)
    exact ⟨u, hts ▸ hu, hall day rfl⟩
  obtain ⟨u, hu, _⟩ := hmem _ req.range.start_mem_days
  rw [hu, covers_daily]
  intro day hday
  obtain ⟨v, hv, hmemv⟩ := hmem day hday
  rw [hu] at hv
  cases hv
  exact hmemv

end Current

/-- The slot of an item has the days that were delivered for it. -/
theorem hasDays_of_item {d : Delivery} {a : Assignment} {r : DateRange} (hd : d ∈ ds)
    (hitem : d.item = p.item req a r) (hfull : d.IsFull) {day : Date}
    (hday : r.contains day = true) :
    Store.HasDays (Store.deliver ds usable) (a, p.signatureFor req.core a) fun e => e = day := by
  have hslot : d.slot = (a, p.signatureFor req.core a) := by
    rw [Delivery.slot, hitem]
    rfl
  obtain ⟨s, hs, hsslot, u, hu, hall⟩ := @Store.hasDays_deliver usable ds d hd
  refine ⟨s, hs, hsslot.trans hslot, u, hu, fun e he => ?_⟩
  rw [he]
  refine hall day (hfull day (DateRange.mem_days.2 ?_))
  rw [hitem]
  exact hday

/-- A slice that did not cover the range has its days once everything it wanted is delivered. -/
theorem Current.hasDays_of_wanted (h : p.Current req usable) {t : Slice} (ht : t ∈ usable)
    (hnot : ¬ p.Covers req.range t.payload)
    (hserved : ∀ r ∈ (p.view req.range t.payload).wanted req.range,
      ∃ d ∈ ds, d.item = p.item req t.assignment r ∧ d.IsFull) {day : Date}
    (hday : day ∈ req.range.days) :
    Store.HasDays (Store.deliver ds usable)
      (t.assignment, p.signatureFor req.core t.assignment) fun e => e = day := by
  have hin := DateRange.mem_days.1 hday
  -- A day was held before, or is in a gap; a window that does not cover the range is asked for whole.
  cases hpayload : t.payload with
  | daily u =>
    by_cases hheld : day ∈ u.dates
    · rw [← h.slot_eq ht]
      refine Store.HasDays.deliver ⟨t, ht, rfl, u, hpayload, fun e he => ?_⟩
      rw [he]
      exact hheld
    · obtain ⟨r, hr, hrday⟩ := (@reaches_wanted_daily p _ u day).2 ⟨hin, hheld⟩
      rw [← hpayload] at hr
      obtain ⟨d, hd, hitem, hfull⟩ := hserved r hr
      exact hasDays_of_item hd hitem hfull hrday
  | aggregate w =>
    have hwanted : req.range ∈ (p.view req.range t.payload).wanted req.range := by
      rw [hpayload, Covers] at hnot
      rw [hpayload]
      obtain ⟨_, hv⟩ | ⟨counts, hv⟩ | hv := view_aggregate p req.range w
      · rw [hv] at hnot
        exact absurd rfl hnot
      · rw [hv] at hnot
        exact absurd rfl hnot
      · rw [hv]
        exact List.mem_singleton.2 rfl
    obtain ⟨d, hd, hitem, hfull⟩ := hserved req.range hwanted
    exact hasDays_of_item hd hitem hfull hin

/-- Everything that the family of some keys lacks was delivered. -/
structure FamilyServed (p : Planner) (req : Request) (usable : List Slice) (ds : List Delivery)
    (keys : List String) : Prop extends Current p req usable where
  mem : keys ∈ keySets req usable
  suits : p.Suitable (familyAt req usable keys)
  sound : ∀ d ∈ ds, d.item ∈ p.lacking req (familyAt req usable keys)
  complete : ∀ i ∈ p.lacking req (familyAt req usable keys), ∃ d ∈ ds, d.item = i
  full : ∀ d ∈ ds, d.IsFull

namespace FamilyServed

/-! ## §2. The members. -/

theorem belongs (h : p.FamilyServed req usable ds keys) :
    Belongs req.assignment (familyAt req usable keys) :=
  belongs_familyAt h.satisfy h.mem

theorem issued (h : p.FamilyServed req usable ds keys) : p.AllIssued req ds := fun d hd =>
  (issued_of_lacking h.belongs h.suits (h.sound d hd)).1

theorem extraKeys_eq (h : p.FamilyServed req usable ds keys) :
    ∀ d ∈ ds, d.item.assignment.extraKeys req.assignment = keys := fun d hd =>
  (issued_of_lacking h.belongs h.suits (h.sound d hd)).2

theorem after (h : p.FamilyServed req usable ds keys) :
    p.Current req (Store.deliver ds usable) :=
  h.toCurrent.deliver h.issued

theorem mem_after (h : p.FamilyServed req usable ds keys) :
    keys ∈ keySets req (Store.deliver ds usable) :=
  (mem_keySets_deliver h.satisfy h.issued).2 (.inl h.mem)

theorem belongs_after (h : p.FamilyServed req usable ds keys) :
    Belongs req.assignment (familyAt req (Store.deliver ds usable) keys) :=
  belongs_familyAt h.after.satisfy h.mem_after

/-- A delivery is for a missing cell or for what a member lacks. -/
theorem delivery_cases (h : p.FamilyServed req usable ds keys) {d : Delivery} (hd : d ∈ ds) :
    (∃ cell ∈ p.missingCells (familyAt req usable keys), p.settings.fetchMissingValues = true
        ∧ d.item.assignment = req.assignment.merged cell)
      ∨ ∃ s ∈ (familyAt req usable keys).members, d.item.assignment = s.assignment
        ∧ d.item.range ∈ (p.view req.range s.payload).wanted req.range := by
  rcases mem_lacking.1 (h.sound d hd) with ⟨hfetch, cell, hcell, heq⟩ | ⟨s, hs, r, hr, heq⟩
  · exact .inl ⟨cell, hcell, hfetch, by rw [heq]; rfl⟩
  · refine .inr ⟨s, hs, by rw [heq]; rfl, ?_⟩
    rw [heq]
    exact hr

/-- The assignments after delivery: those of members, and those of cells that were missing. -/
theorem assignment_cases (h : p.FamilyServed req usable ds keys) {a : Assignment}
    (ha : a ∈ assignmentsOf (familyAt req (Store.deliver ds usable) keys)) :
    a ∈ assignmentsOf (familyAt req usable keys)
      ∨ ∃ cell ∈ p.missingCells (familyAt req usable keys),
          p.settings.fetchMissingValues = true ∧ a = req.assignment.merged cell := by
  obtain ⟨s, hs, rfl⟩ := List.mem_map.1 ha
  obtain ⟨hs, hkeys⟩ := mem_familyAt.1 hs
  rcases Store.mem_deliver hs with hold | ⟨⟨d, hd, hslot⟩, _⟩
  · exact .inl (List.mem_map_of_mem (mem_familyAt.2 ⟨hold, hkeys⟩))
  · have hda : d.item.assignment = s.assignment := congrArg Prod.fst hslot
    rcases h.delivery_cases hd with ⟨cell, hcell, hfetch, heq⟩ | ⟨t, ht, heq, _⟩
    · exact .inr ⟨cell, hcell, hfetch, hda ▸ heq⟩
    · refine .inl ?_
      rw [← hda, heq]
      exact List.mem_map_of_mem ht

/-- A slot before or a delivery gives a member after. -/
theorem exists_member {σ : Slot} (hσ : σ.1.extraKeys req.assignment = keys)
    (h : σ ∈ usable.map Slice.slot ∨ ∃ d ∈ ds, d.slot = σ) :
    ∃ s ∈ (familyAt req (Store.deliver ds usable) keys).members, s.slot = σ := by
  obtain ⟨s, hs, rfl⟩ := List.mem_map.1 (Store.mem_slots_deliver.2 h)
  exact ⟨s, mem_familyAt.2 ⟨hs, hσ⟩, rfl⟩

theorem mem_assignments_of_mem {a : Assignment}
    (ha : a ∈ assignmentsOf (familyAt req usable keys)) :
    a ∈ assignmentsOf (familyAt req (Store.deliver ds usable) keys) := by
  obtain ⟨s, hs, rfl⟩ := List.mem_map.1 ha
  obtain ⟨hsu, hkeys⟩ := mem_familyAt.1 hs
  obtain ⟨t, ht, hslot⟩ :=
    @exists_member req usable ds keys s.slot hkeys (.inl (List.mem_map_of_mem hsu))
  rw [← show t.assignment = s.assignment from congrArg Prod.fst hslot]
  exact List.mem_map_of_mem ht

/-- What a missing cell lacks was delivered. -/
theorem delivered_of_missing (h : p.FamilyServed req usable ds keys)
    (hfetch : p.settings.fetchMissingValues = true) {cell : Assignment}
    (hcell : cell ∈ p.missingCells (familyAt req usable keys)) :
    ∃ d ∈ ds, d.item = p.item req (req.assignment.merged cell) req.range := by
  exact h.complete _ (mem_lacking.2 (.inl ⟨hfetch, cell, hcell, rfl⟩))

theorem mem_assignments_of_missing (h : p.FamilyServed req usable ds keys)
    (hfetch : p.settings.fetchMissingValues = true) {cell : Assignment}
    (hcell : cell ∈ p.missingCells (familyAt req usable keys)) :
    req.assignment.merged cell
      ∈ assignmentsOf (familyAt req (Store.deliver ds usable) keys) := by
  obtain ⟨d, hd, hitem⟩ := h.delivered_of_missing hfetch hcell
  have hext : d.slot.1.extraKeys req.assignment = keys := h.extraKeys_eq d hd
  obtain ⟨s, hs, hslot⟩ := @exists_member req usable ds keys d.slot hext (.inr ⟨d, hd, rfl⟩)
  have ha : s.assignment = req.assignment.merged cell :=
    (congrArg Prod.fst hslot).trans (by rw [Delivery.slot, hitem]; rfl)
  rw [← ha]
  exact List.mem_map_of_mem hs

/-! ## §3. The grid. -/

/-- Under each key, only values of the former axis are shown. -/
theorem value_mem (h : p.FamilyServed req usable ds keys) (hmade : p.registry.Made) {key : String}
    (hkey : key ∈ keys) {d : Definition}
    (hd : Grid.Suits p.registry (assignmentsOf (familyAt req usable keys)) key d) {a : Assignment}
    (ha : a ∈ assignmentsOf (familyAt req (Store.deliver ds usable) keys)) {value : String}
    (hget : a.get? key = some value) :
    value ∈ (Grid.axisOf (assignmentsOf (familyAt req usable keys)) key d).values := by
  show value ∈ if d.policy.isExhaustive then d.expected
    else Grid.shown (assignmentsOf (familyAt req usable keys)) key
  rcases h.assignment_cases ha with hold | ⟨cell, hcell, _, rfl⟩
  · have hshown := Grid.mem_shown.2 ⟨a, hold, hget⟩
    split
    · exact hd.expected ‹_› value hshown
    · exact hshown
  · -- A missing cell has values of the axes, and these are trimmed.
    have hproper := h.belongs.kin.proper h.belongs.assignments h.suits
    have hax : Grid.axisOf (assignmentsOf (familyAt req usable keys)) key d
        ∈ Grid.axesOf p.registry (assignmentsOf (familyAt req usable keys)) keys :=
      Grid.mem_axesOf.2 ⟨key, hkey, d, hd, rfl⟩
    obtain ⟨v, hv, hcellget⟩ :=
      ((Grid.mem_product hproper).1 (List.mem_filter.1 hcell).1).1 _ hax
    have hvalue : value = Text.trim v := by
      have hcellget' : cell.get? key = some (Text.trim v) := hcellget
      rw [Assignment.get?_merged, hcellget', Option.some_or] at hget
      exact (Option.some.inj hget).symm
    change v ∈ (if d.policy.isExhaustive then d.expected
      else Grid.shown (assignmentsOf (familyAt req usable keys)) key) at hv
    split at hv
    · rename_i hexh
      rw [if_pos hexh, hvalue, (hmade key d hd.defined).trim_expected v hv]
      exact hv
    · rename_i hexh
      obtain ⟨b, _, hb⟩ := Grid.mem_shown.1 hv
      rw [if_neg hexh, hvalue, (Assignment.folded_of_get? hb).2]
      exact hv

theorem suits_after (h : p.FamilyServed req usable ds keys) (hmade : p.registry.Made)
    {key : String} (hkey : key ∈ keys) {d : Definition}
    (hd : Grid.Suits p.registry (assignmentsOf (familyAt req usable keys)) key d) :
    Grid.Suits p.registry (assignmentsOf (familyAt req (Store.deliver ds usable) keys)) key d := by
  refine ⟨fun a ha => ?_, hd.defined, fun hexh value hvalue => ?_⟩
  · have hext := (h.belongs_after.kin a ha).2
    have hmem : key ∈ a.extraKeys req.assignment := by
      rw [hext]
      exact hkey
    exact (Assignment.mem_extraKeys.1 hmem).1
  · obtain ⟨a, ha, hget⟩ := Grid.mem_shown.1 hvalue
    have hmem : value ∈ if d.policy.isExhaustive then d.expected else _ :=
      h.value_mem hmade hkey hd ha hget
    rwa [if_pos hexh] at hmem

theorem suitable (h : p.FamilyServed req usable ds keys) (hmade : p.registry.Made) :
    p.Suitable (familyAt req (Store.deliver ds usable) keys) := by
  intro key hkey
  obtain ⟨d, hd⟩ := h.suits key hkey
  exact ⟨d, h.suits_after hmade hkey hd⟩

/-- The grid has no new cells. -/
theorem mem_product_before (h : p.FamilyServed req usable ds keys) (hmade : p.registry.Made)
    {cell : Assignment} (hcell : cell ∈ Grid.product (Grid.axesOf p.registry
      (assignmentsOf (familyAt req (Store.deliver ds usable) keys)) keys)) :
    cell ∈ Grid.product (Grid.axesOf p.registry (assignmentsOf (familyAt req usable keys)) keys) := by
  have hproper := h.belongs.kin.proper h.belongs.assignments h.suits
  have hsuit := h.suitable hmade
  have hproper' := h.belongs_after.kin.proper h.belongs_after.assignments hsuit
  obtain ⟨hin, hout⟩ := (Grid.mem_product hproper').1 hcell
  -- Axes of exhaustive keys are the same, the others have grown by no value.
  refine (Grid.mem_product hproper).2 ⟨fun ax hax => ?_, fun key hkey => hout key fun ax hax heq => ?_⟩
  · obtain ⟨key, hkey, d, hd, rfl⟩ := Grid.mem_axesOf.1 hax
    obtain ⟨v, hv, hget⟩ := hin _
      (Grid.mem_axesOf.2 ⟨key, hkey, d, h.suits_after hmade hkey hd, rfl⟩)
    refine ⟨v, ?_, hget⟩
    change v ∈ (if d.policy.isExhaustive then d.expected else Grid.shown _ key) at hv
    split at hv
    · rename_i hexh
      show v ∈ if d.policy.isExhaustive then d.expected else _
      rwa [if_pos hexh]
    · obtain ⟨a, ha, hshown⟩ := Grid.mem_shown.1 hv
      exact h.value_mem hmade hkey hd ha hshown
  · obtain ⟨ax', hax', heq'⟩ :=
      (Grid.exists_axis_iff h.suits).2 ((Grid.exists_axis_iff hsuit).1 ⟨ax, hax, heq⟩)
    exact hkey ax' hax' heq'

/-- **No cell that was to be fetched is missing.** -/
theorem missingCells_eq_nil (h : p.FamilyServed req usable ds keys) (hmade : p.registry.Made)
    (hfetch : p.settings.fetchMissingValues = true) :
    p.missingCells (familyAt req (Store.deliver ds usable) keys) = [] := by
  rw [missingCells_eq_nil_iff]
  intro cell hcell
  have hcell' := h.mem_product_before hmade hcell
  by_cases hmissing : cell ∈ p.missingCells (familyAt req usable keys)
  · exact ⟨_, h.mem_assignments_of_missing hfetch hmissing,
      (merged_missingCell h.belongs h.suits hmissing).2.2⟩
  · have hheld : cell ∈ (assignmentsOf (familyAt req usable keys)).map fun a => a.project keys := by
      by_contra hnot
      refine hmissing (List.mem_filter.2 ⟨hcell', ?_⟩)
      rw [Bool.not_eq_true', List.contains_eq_mem, decide_eq_false_iff_not]
      exact hnot
    obtain ⟨a, ha, rfl⟩ := List.mem_map.1 hheld
    exact ⟨a, mem_assignments_of_mem ha, rfl⟩

/-! ## §4. The days. -/

/-- A member that covered the range is left alone. -/
theorem not_delivered_of_covers (h : p.FamilyServed req usable ds keys) {s : Slice}
    (hs : s ∈ (familyAt req usable keys).members) (hcovers : p.Covers req.range s.payload) :
    ∀ d ∈ ds, d.slot ≠ s.slot := by
  intro d hd hslot
  have hda : d.item.assignment = s.assignment := congrArg Prod.fst hslot
  rcases h.delivery_cases hd with ⟨cell, hcell, _, heq⟩ | ⟨t, ht, heq, hwanted⟩
  · -- The cell of a member is not missing.
    have hproj := (merged_missingCell h.belongs h.suits hcell).2.2
    rw [← heq, hda] at hproj
    exact not_held_of_missing hcell _ (List.mem_map_of_mem hs) hproj
  · have hts : t = s := List.inj_on_of_nodup_map h.nodup (mem_familyAt.1 ht).1 (mem_familyAt.1 hs).1
      (heq.symm.trans hda)
    rw [hts, wanted_eq_nil_iff.2 hcovers] at hwanted
    cases hwanted

/-- What a member lacked, it has now. -/
theorem covers_of_wanting (h : p.FamilyServed req usable ds keys) {s t : Slice}
    (ht : t ∈ (familyAt req usable keys).members) (hnot : ¬ p.Covers req.range t.payload)
    (hs : s ∈ Store.deliver ds usable) (ha : s.assignment = t.assignment) :
    p.Covers req.range s.payload := by
  refine @Current.covers_of_hasDays _ _ _ h.after s
    (t.assignment, p.signatureFor req.core t.assignment) hs ha fun day hday => ?_
  refine h.toCurrent.hasDays_of_wanted (mem_familyAt.1 ht).1 hnot (fun r hr => ?_) hday
  obtain ⟨d, hd, hitem⟩ := h.complete _ (mem_lacking.2 (.inr ⟨t, ht, r, hr, rfl⟩))
  exact ⟨d, hd, hitem, h.full d hd⟩

/-- **Every member covers the range.** -/
theorem covers (h : p.FamilyServed req usable ds keys) :
    ∀ s ∈ (familyAt req (Store.deliver ds usable) keys).members, p.Covers req.range s.payload := by
  intro s hs
  have hsu := (mem_familyAt.1 hs).1
  rcases h.assignment_cases (List.mem_map_of_mem hs) with hold | ⟨cell, hcell, hfetch, heq⟩
  · obtain ⟨t, ht, ha⟩ := List.mem_map.1 hold
    by_cases hcovers : p.Covers req.range t.payload
    · have hkept : t ∈ Store.deliver ds usable :=
        Store.mem_deliver_of_ne (mem_familyAt.1 ht).1 (h.not_delivered_of_covers ht hcovers)
      rw [h.after.eq_of_assignment hsu hkept ha.symm]
      exact hcovers
    · exact h.covers_of_wanting ht hcovers hsu ha.symm
  · refine @Current.covers_of_hasDays _ _ _ h.after s
      (req.assignment.merged cell, p.signatureFor req.core (req.assignment.merged cell)) hsu heq
      fun day hday => ?_
    obtain ⟨d, hd, hitem⟩ := h.delivered_of_missing hfetch hcell
    exact hasDays_of_item hd hitem (h.full d hd) (DateRange.mem_days.1 hday)

/-- **Nothing is lacking any more.** -/
theorem settled (h : p.FamilyServed req usable ds keys) (hmade : p.registry.Made) :
    p.Settled req (familyAt req (Store.deliver ds usable) keys) :=
  ⟨h.after.noRepeat h.mem_after, h.suitable hmade,
    lacking_eq_nil_iff.2 ⟨h.missingCells_eq_nil hmade, h.covers⟩⟩

end FamilyServed

/-! ## §5. Families that a plan asks for. -/

/-- No two items with different assignments or ranges have one id. -/
def CollisionFree (items : List FetchItem) : Prop :=
  ∀ i ∈ items, ∀ j ∈ items, i.id = j.id → i.assignment = j.assignment ∧ i.range = j.range

/-- Items without collisions are served although repeated ids are dropped. -/
theorem served_of_planned (hserves : Serves ds (dropRepeatedIds [] (p.plannedItems req usable)))
    (hissued : ∀ i ∈ p.plannedItems req usable, p.Issued req i)
    (hids : CollisionFree (p.plannedItems req usable)) :
    ∀ i ∈ p.plannedItems req usable, ∃ d ∈ ds, d.item = i := by
  intro i hi
  obtain ⟨j, hj, hid⟩ := @exists_id_dropRepeatedIds i _ [] hi (by simp)
  have hj' := mem_of_dropRepeatedIds hj
  obtain ⟨ha, hr⟩ := hids j hj' i hi hid
  have hij : j = i := by rw [(hissued j hj').2, (hissued i hi).2, ha, hr]
  exact hij ▸ hserves.complete j hj

/-- A family that a plan asks for is served by what is fetched for the plan. -/
theorem Current.familyServed (h : p.Current req usable) (hkeys : keys ∈ keySets req usable)
    (hsuit : p.Suitable (familyAt req usable keys))
    (hitems : p.plannedItems req usable = p.lacking req (familyAt req usable keys))
    (hserves : Serves ds (dropRepeatedIds [] (p.plannedItems req usable)))
    (hids : CollisionFree (p.plannedItems req usable)) (hfull : ∀ d ∈ ds, d.IsFull) :
    p.FamilyServed req usable ds keys := by
  refine ⟨h, hkeys, hsuit, fun d hd => ?_, ?_, hfull⟩
  · rw [← hitems]
    exact mem_of_dropRepeatedIds (hserves.sound d hd)
  · rw [← hitems]
    refine served_of_planned hserves (fun i hi => ?_) hids
    rw [hitems] at hi
    exact (issued_of_lacking (belongs_familyAt h.satisfy hkeys) hsuit hi).1

end Planner

end MetricCube
