/-
  MetricCube.Proofs.Delivery
  ──────────────────────────
  **Merging fetched days.**  A merge reads the payload of its slot and puts another
  one there (`mergeSlices_eq`).  A delivery is an item with the series that was fetched
  for it.  Merging a daily patch never fails (`mergeSlices_daily`), so that a list
  of deliveries turns slices into slices (`deliver`, `mergeAll_deliveries`):

    • slots that nothing is delivered to stay as they are (`filter_deliver_of_not`);
    • a slot that is delivered to has every delivered day, and those it had before
      (`hasDays_deliver`, `HasDays.deliver`);
    • true slices stay true (`truthful_deliver`).

  Each is a fact about one merge, carried over the list of deliveries.
-/
import Mathlib
import MetricCube.Plan.Item
import MetricCube.Proofs.Reduction
import MetricCube.Proofs.Truth
import MetricCube.Store

namespace MetricCube

/-- Where a slice is stored: under its assignment and signature. -/
abbrev Slot := Assignment × Signature

/-- The slot of a slice. -/
def Slice.slot (s : Slice) : Slot :=
  (s.assignment, s.signature)

/-- An item with the series that was fetched for it. -/
structure Delivery where
  item : FetchItem
  series : Series

namespace Delivery

/-- The slot that is delivered to. -/
def slot (d : Delivery) : Slot :=
  (d.item.assignment, d.item.signature)

/-- The patch that is merged. -/
def patch (d : Delivery) : Slice :=
  ⟨d.item.assignment, .daily d.series, d.item.signature⟩

/-- Every day that was asked for is there. -/
def IsFull (d : Delivery) : Prop :=
  ∀ day ∈ d.item.range.days, day ∈ d.series.dates

end Delivery

namespace Store

/-! ## §1. One patch. -/

/-- What the first slice in a slot holds. -/
def payloadIn (slot : Slot) (slices : List Slice) : Option Payload :=
  (slices.find? fun s => s.slot = slot).map Slice.payload

/-- The slices with a payload put into a slot: into the first slice there, or into a new one at
    the end. -/
def put (slot : Slot) (p : Payload) : List Slice → List Slice
  | [] => [⟨slot.1, p, slot.2⟩]
  | s :: rest => if s.slot = slot then { s with payload := p } :: rest else s :: put slot p rest

/-- What a patch makes of what its slot holds. -/
def mergeHeld (owner : Assignment) (held : Option Payload) (patch : Payload) :
    Except InternalFault (Series.MergeReport × Payload) :=
  match held with
  | none => .ok (⟨newPoints patch, 0⟩, patch)
  | some held => mergePayload owner held patch

/-- **A merge reads and writes the slot of its patch, and nothing else.** -/
theorem mergeSlices_eq (patch : Slice) (slices : List Slice) :
    mergeSlices patch slices
      = (mergeHeld patch.assignment (payloadIn patch.slot slices) patch.payload).map
          fun r => (r.1, put patch.slot r.2 slices) := by
  induction slices with
  | nil => rfl
  | cons s rest ih =>
    have hslot : sameSlot s patch = true ↔ s.slot = patch.slot := by
      simp [sameSlot, Slice.slot]
    rw [mergeSlices]
    by_cases h : s.slot = patch.slot
    · have ha : s.assignment = patch.assignment := congrArg Prod.fst h
      have hheld : payloadIn patch.slot (s :: rest) = some s.payload := by simp [payloadIn, h]
      rw [if_pos (hslot.2 h), hheld, ha]
      simp only [put, if_pos h, mergeHeld, ha]
    · have hheld : payloadIn patch.slot (s :: rest) = payloadIn patch.slot rest := by
        simp [payloadIn, h]
      rw [if_neg (fun hs => h (hslot.1 hs)), ih, hheld]
      simp only [put, if_neg h]
      cases mergeHeld patch.assignment (payloadIn patch.slot rest) patch.payload <;> rfl

section Put

variable {slot : Slot} {p : Payload} {slices : List Slice}

theorem payloadIn_put (σ : Slot) :
    payloadIn σ (put slot p slices) = if σ = slot then some p else payloadIn σ slices := by
  induction slices with
  | nil =>
    by_cases hσ : σ = slot
    · simp [payloadIn, put, Slice.slot, hσ]
    · simp [payloadIn, put, Slice.slot, hσ, Ne.symm hσ]
  | cons s rest ih =>
    rw [put]
    by_cases hs : s.slot = slot
    · -- The slice that is written is the first in its slot, and in no other.
      have hwritten : ({ s with payload := p } : Slice).slot = slot := hs
      by_cases hσ : σ = slot
      · simp [payloadIn, hs, hwritten, hσ]
      · simp [payloadIn, hs, hwritten, hσ, Ne.symm hσ]
    · rw [if_neg hs]
      by_cases hsσ : s.slot = σ
      · have hσ : σ ≠ slot := fun h => hs (hsσ.trans h)
        simp [payloadIn, hsσ, hσ]
      · have hskip : ∀ slices', payloadIn σ (s :: slices') = payloadIn σ slices' := by
          simp [payloadIn, hsσ]
        rw [hskip, hskip, ih]

/-- Putting back what is held changes nothing. -/
theorem put_of_payloadIn (h : payloadIn slot slices = some p) : put slot p slices = slices := by
  induction slices with
  | nil => cases h
  | cons s rest ih =>
    rw [put]
    by_cases hs : s.slot = slot
    · have hp : s.payload = p := by simpa [payloadIn, hs] using h
      rw [if_pos hs, ← hp]
    · rw [if_neg hs, ih (by simpa [payloadIn, hs] using h)]

theorem map_slot_put :
    (put slot p slices).map Slice.slot
      = if slot ∈ slices.map Slice.slot then slices.map Slice.slot
        else slices.map Slice.slot ++ [slot] := by
  induction slices with
  | nil => rfl
  | cons r rest ih =>
    rw [put]
    by_cases hr : r.slot = slot
    · rw [if_pos hr, if_pos (by simp [hr])]
      rfl
    · rw [if_neg hr, List.map_cons, ih]
      simp only [List.map_cons, List.mem_cons, Ne.symm hr, false_or]
      split <;> rfl

theorem nodup_put (h : (slices.map Slice.slot).Nodup) :
    ((put slot p slices).map Slice.slot).Nodup := by
  rw [map_slot_put]
  split
  · exact h
  · rename_i hnew
    exact List.nodup_append.2 ⟨h, List.nodup_singleton _, fun a ha b hb =>
      fun heq => hnew (List.mem_singleton.1 hb ▸ heq ▸ ha)⟩

/-- A filter on slots that leaves out the written one does not notice the write. -/
theorem filter_put_of_not {Q : Slot → Bool} (hQ : Q slot = false) :
    ((put slot p slices).filter fun s => Q s.slot) = slices.filter fun s => Q s.slot := by
  induction slices with
  | nil => simp [put, Slice.slot, hQ]
  | cons r rest ih =>
    rw [put]
    split
    · rename_i hslot
      have hwritten : Q ({ r with payload := p } : Slice).slot = false := by
        rw [← hQ, ← hslot]
        rfl
      rw [List.filter_cons_of_neg (by simp [hwritten]),
        List.filter_cons_of_neg (by simp [hslot, hQ])]
    · rw [List.filter_cons, List.filter_cons, ih]

end Put

/-! ## §2. One daily patch. -/

/-- The payload after a daily patch. -/
def absorb (t : Series) : Payload → Payload
  | .daily s => .daily (s.merge t)
  | .aggregate _ => .daily t

/-- The slices after a daily patch to a slot. -/
def mergeDaily (slot : Slot) (t : Series) : List Slice → List Slice
  | [] => [⟨slot.1, .daily t, slot.2⟩]
  | s :: rest =>
    if s.slot = slot then { s with payload := absorb t s.payload } :: rest
    else s :: mergeDaily slot t rest

/-- What a slot holds after a daily patch, given what it held. -/
def absorbed (t : Series) : Option Payload → Payload
  | none => .daily t
  | some p => absorb t p

theorem mergeDaily_eq (slot : Slot) (t : Series) (slices : List Slice) :
    mergeDaily slot t slices = put slot (absorbed t (payloadIn slot slices)) slices := by
  induction slices with
  | nil => rfl
  | cons s rest ih =>
    rw [mergeDaily, put]
    by_cases h : s.slot = slot
    · rw [if_pos h, if_pos h]
      simp [payloadIn, h, absorbed]
    · rw [if_neg h, if_neg h, ih]
      simp [payloadIn, h]

/-- A daily patch is merged into whatever its slot holds. -/
theorem mergeHeld_daily (owner : Assignment) (held : Option Payload) (t : Series) :
    ∃ report, mergeHeld owner held (.daily t) = .ok (report, absorbed t held) := by
  match held with
  | none => exact ⟨_, rfl⟩
  | some (.daily s) => exact ⟨_, rfl⟩
  | some (.aggregate w) => exact ⟨_, rfl⟩

/-- **A daily patch is always merged.** -/
theorem mergeSlices_daily (a : Assignment) (signature : Signature) (t : Series)
    (slices : List Slice) : ∃ report,
      mergeSlices ⟨a, .daily t, signature⟩ slices
        = .ok (report, mergeDaily (a, signature) t slices) := by
  obtain ⟨report, hmerge⟩ := mergeHeld_daily a (payloadIn (a, signature) slices) t
  refine ⟨report, ?_⟩
  rw [mergeSlices_eq, mergeDaily_eq]
  show (mergeHeld a (payloadIn (a, signature) slices) (.daily t)).map _ = _
  rw [hmerge]
  rfl

variable {slot : Slot} {t : Series} {slices : List Slice}

theorem mem_mergeDaily {s : Slice} (h : s ∈ mergeDaily slot t slices) :
    s ∈ slices ∨ s.slot = slot ∧ s.payload.IsDaily := by
  induction slices with
  | nil =>
    rw [mergeDaily, List.mem_singleton] at h
    exact .inr ⟨h ▸ rfl, t, h ▸ rfl⟩
  | cons r rest ih =>
    rw [mergeDaily] at h
    split at h
    · rename_i hslot
      rcases List.mem_cons.1 h with rfl | h
      · refine .inr ⟨hslot, ?_⟩
        cases r.payload <;> exact ⟨_, rfl⟩
      · exact .inl (List.mem_cons_of_mem _ h)
    · rcases List.mem_cons.1 h with rfl | h
      · exact .inl List.mem_cons_self
      · exact (ih h).imp (List.mem_cons_of_mem _) id

theorem mem_mergeDaily_of_ne {s : Slice} (hs : s ∈ slices) (hne : s.slot ≠ slot) :
    s ∈ mergeDaily slot t slices := by
  induction slices with
  | nil => cases hs
  | cons r rest ih =>
    rw [mergeDaily]
    rcases List.mem_cons.1 hs with rfl | hs
    · rw [if_neg hne]
      exact List.mem_cons_self
    · split
      · exact List.mem_cons_of_mem _ hs
      · exact List.mem_cons_of_mem _ (ih hs)

theorem map_slot_mergeDaily :
    (mergeDaily slot t slices).map Slice.slot
      = if slot ∈ slices.map Slice.slot then slices.map Slice.slot
        else slices.map Slice.slot ++ [slot] := by
  rw [mergeDaily_eq, map_slot_put]

theorem nodup_mergeDaily (h : (slices.map Slice.slot).Nodup) :
    ((mergeDaily slot t slices).map Slice.slot).Nodup := by
  rw [mergeDaily_eq]
  exact nodup_put h

/-- A slice after a daily patch to a slot. -/
def written (slot : Slot) (t : Series) (s : Slice) : Slice :=
  if s.slot = slot then { s with payload := absorb t s.payload } else s

theorem assignment_written (slot : Slot) (t : Series) (s : Slice) :
    (written slot t s).assignment = s.assignment := by
  unfold written
  split <;> rfl

/-- A patch to a slot that some slice is in, and no two, is written to that slice. -/
theorem mergeDaily_eq_map (hnodup : (slices.map Slice.slot).Nodup)
    (hmem : slot ∈ slices.map Slice.slot) :
    mergeDaily slot t slices = slices.map (written slot t) := by
  induction slices with
  | nil => cases hmem
  | cons r rest ih =>
    rw [List.map_cons, List.nodup_cons] at hnodup
    rw [mergeDaily, List.map_cons, written]
    by_cases hr : r.slot = slot
    · have hrest : rest.map (written slot t) = rest := by
        refine (List.map_congr_left fun s hs => ?_).trans (List.map_id _)
        have hne : s.slot ≠ slot := fun h => hnodup.1 (hr ▸ h ▸ List.mem_map_of_mem hs)
        rw [written, if_neg hne, id]
      rw [if_pos hr, if_pos hr, hrest]
    · have hlater : slot ∈ rest.map Slice.slot :=
        (List.mem_cons.1 hmem).resolve_left (Ne.symm hr)
      rw [if_neg hr, if_neg hr, ih hnodup.2 hlater]

/-- A filter on slots that leaves out the patched one does not notice the patch. -/
theorem filter_mergeDaily_of_not {Q : Slot → Bool} (hQ : Q slot = false) :
    ((mergeDaily slot t slices).filter fun s => Q s.slot) = slices.filter fun s => Q s.slot := by
  rw [mergeDaily_eq, filter_put_of_not hQ]

/-- A filter on slots that keeps the patched one can be applied before. -/
theorem filter_mergeDaily {Q : Slot → Bool} (hQ : Q slot = true) :
    ((mergeDaily slot t slices).filter fun s => Q s.slot)
      = mergeDaily slot t (slices.filter fun s => Q s.slot) := by
  induction slices with
  | nil => simp [mergeDaily, Slice.slot, hQ]
  | cons r rest ih =>
    rw [mergeDaily]
    split
    · rename_i hslot
      have hpatched : Q ({ r with payload := absorb t r.payload } : Slice).slot = true := by
        rw [← hQ, ← hslot]
        rfl
      rw [List.filter_cons_of_pos (by simp [hpatched]),
        List.filter_cons_of_pos (by simp [hslot, hQ]), mergeDaily, if_pos hslot]
    · rename_i hslot
      rw [List.filter_cons, List.filter_cons, ih]
      split
      · rw [mergeDaily, if_neg hslot]
      · rfl

/-! ## §3. Days of a slot. -/

/-- The slot has a daily slice with all of the given days. -/
def HasDays (slices : List Slice) (slot : Slot) (days : Date → Prop) : Prop :=
  ∃ s ∈ slices, s.slot = slot ∧ ∃ u, s.payload = .daily u ∧ ∀ day, days day → day ∈ u.dates

theorem hasDays_mergeDaily : HasDays (mergeDaily slot t slices) slot fun day => day ∈ t.dates := by
  induction slices with
  | nil => exact ⟨_, List.mem_singleton.2 rfl, rfl, t, rfl, fun _ h => h⟩
  | cons r rest ih =>
    rw [mergeDaily]
    split
    · rename_i hslot
      refine ⟨_, List.mem_cons_self, hslot, ?_⟩
      cases r.payload with
      | daily u => exact ⟨u.merge t, rfl, fun day h => Series.mem_dates_merge.2 (.inr h)⟩
      | aggregate w => exact ⟨t, rfl, fun _ h => h⟩
    · obtain ⟨s, hs, hrest⟩ := ih
      exact ⟨s, List.mem_cons_of_mem _ hs, hrest⟩

theorem HasDays.mergeDaily {slot' : Slot} {days : Date → Prop} (h : HasDays slices slot' days) :
    HasDays (mergeDaily slot t slices) slot' days := by
  induction slices with
  | nil =>
    obtain ⟨s, hs, _⟩ := h
    cases hs
  | cons r rest ih =>
    rw [Store.mergeDaily]
    obtain ⟨s, hs, hslot', u, hu, hdays⟩ := h
    rcases List.mem_cons.1 hs with rfl | hs
    · split
      · refine ⟨_, List.mem_cons_self, hslot', u.merge t, ?_, fun day hd => ?_⟩
        · rw [hu]
          rfl
        · exact Series.mem_dates_merge.2 (.inl (hdays day hd))
      · exact ⟨s, List.mem_cons_self, hslot', u, hu, hdays⟩
    · split
      · exact ⟨s, List.mem_cons_of_mem _ hs, hslot', u, hu, hdays⟩
      · obtain ⟨s', hs', hrest⟩ := ih ⟨s, hs, hslot', u, hu, hdays⟩
        exact ⟨s', List.mem_cons_of_mem _ hs', hrest⟩

/-- A true patch leaves true slices true. -/
theorem truthful_mergeDaily {T : Truth} (hslices : ∀ s ∈ slices, s.TruthfulTo T)
    (ht : (Payload.daily t).TruthfulTo T slot.1) :
    ∀ s ∈ mergeDaily slot t slices, s.TruthfulTo T := by
  induction slices with
  | nil =>
    intro s hs
    rw [mergeDaily, List.mem_singleton] at hs
    exact hs ▸ ht
  | cons r rest ih =>
    have hrest : ∀ s ∈ rest, s.TruthfulTo T := fun s hs => hslices s (List.mem_cons_of_mem _ hs)
    have hr : r.payload.TruthfulTo T r.assignment := hslices r List.mem_cons_self
    intro s hs
    rw [mergeDaily] at hs
    split at hs
    · rename_i hslot
      rcases List.mem_cons.1 hs with rfl | hs
      · -- Whichever series a merged day comes from, it is true.
        show (absorb t r.payload).TruthfulTo T r.assignment
        have ha : r.assignment = slot.1 := congrArg Prod.fst hslot
        rw [ha] at hr ⊢
        cases hp : r.payload with
        | aggregate w => exact ht
        | daily u =>
          rw [hp] at hr
          intro pt hpt
          rcases Series.mem_merge_iff.1 hpt with hpt | ⟨hpt, _⟩
          · exact hr pt hpt
          · exact ht pt hpt
      · exact hrest s hs
    · rcases List.mem_cons.1 hs with rfl | hs
      · exact hr
      · exact ih hrest s hs

/-! ## §4. All deliveries. -/

/-- The slices after deliveries, one after another. -/
def deliver (ds : List Delivery) (slices : List Slice) : List Slice :=
  ds.foldl (fun slices d => mergeDaily d.slot d.series slices) slices

/-- Merges patches one after another. -/
def mergeAll (s : Store) (metric : String) : List Slice → Except InternalFault Store
  | [] => .ok s
  | patch :: rest =>
    match s.merge metric patch with
    | .ok r => r.2.mergeAll metric rest
    | .error fault => .error fault

theorem slices_insert (s : Store) (metric : String) (slices : List Slice) :
    (⟨s.metrics.insert metric slices⟩ : Store).slices metric = slices := by
  simp [Store.slices]

/-- **A delivery is always merged.** -/
theorem merge_delivery (s : Store) (metric : String) (d : Delivery) : ∃ report s',
    s.merge metric d.patch = .ok (report, s')
      ∧ s'.slices metric = mergeDaily d.slot d.series (s.slices metric) := by
  obtain ⟨report, hmerge⟩ :=
    mergeSlices_daily d.item.assignment d.item.signature d.series (s.slices metric)
  refine ⟨report, ⟨s.metrics.insert metric (mergeDaily d.slot d.series (s.slices metric))⟩, ?_,
    slices_insert ..⟩
  simp only [merge, Delivery.patch, hmerge, Except.map]
  rfl

/-- **So are many, one after another.** -/
theorem mergeAll_deliveries (metric : String) (ds : List Delivery) : ∀ s : Store,
    ∃ s', s.mergeAll metric (ds.map Delivery.patch) = .ok s'
      ∧ s'.slices metric = deliver ds (s.slices metric) := by
  induction ds with
  | nil => intro s; exact ⟨s, rfl, rfl⟩
  | cons d ds ih =>
    intro s
    obtain ⟨report, t, hmerge, ht⟩ := s.merge_delivery metric d
    obtain ⟨s', hs', hslices⟩ := ih t
    refine ⟨s', ?_, ?_⟩
    · rw [List.map_cons, mergeAll]
      simp only [hmerge]
      exact hs'
    · rw [hslices, ht]
      rfl

theorem deliver_concat (ds : List Delivery) (d : Delivery) (slices : List Slice) :
    deliver (ds ++ [d]) slices = mergeDaily d.slot d.series (deliver ds slices) := by
  rw [deliver, List.foldl_append]
  rfl

variable {ds : List Delivery}

theorem filter_deliver_of_not {Q : Slot → Bool} (h : ∀ d ∈ ds, Q d.slot = false) :
    ((deliver ds slices).filter fun s => Q s.slot) = slices.filter fun s => Q s.slot := by
  induction ds generalizing slices with
  | nil => rfl
  | cons d ds ih =>
    show ((deliver ds (mergeDaily d.slot d.series slices)).filter fun s => Q s.slot) = _
    rw [ih fun e he => h e (List.mem_cons_of_mem _ he),
      filter_mergeDaily_of_not (h d List.mem_cons_self)]

theorem filter_deliver {Q : Slot → Bool} (h : ∀ d ∈ ds, Q d.slot = true) :
    ((deliver ds slices).filter fun s => Q s.slot)
      = deliver ds (slices.filter fun s => Q s.slot) := by
  induction ds generalizing slices with
  | nil => rfl
  | cons d ds ih =>
    show ((deliver ds (mergeDaily d.slot d.series slices)).filter fun s => Q s.slot) = _
    rw [ih fun e he => h e (List.mem_cons_of_mem _ he),
      filter_mergeDaily (h d List.mem_cons_self)]
    rfl

theorem nodup_deliver (h : (slices.map Slice.slot).Nodup) :
    ((deliver ds slices).map Slice.slot).Nodup := by
  induction ds generalizing slices with
  | nil => exact h
  | cons d ds ih => exact ih (nodup_mergeDaily h)

/-- The slots after deliveries: the old ones, and those that were delivered to. -/
theorem mem_slots_deliver {σ : Slot} : σ ∈ (deliver ds slices).map Slice.slot
    ↔ σ ∈ slices.map Slice.slot ∨ ∃ d ∈ ds, d.slot = σ := by
  induction ds generalizing slices with
  | nil => simp [deliver]
  | cons d ds ih =>
    show σ ∈ (deliver ds (mergeDaily d.slot d.series slices)).map Slice.slot ↔ _
    rw [ih, map_slot_mergeDaily]
    -- A delivery keeps the slots if its own is among them, and else it adds that one.
    split
    · rename_i hold
      constructor
      · rintro (h | ⟨e, he, rfl⟩)
        · exact .inl h
        · exact .inr ⟨e, List.mem_cons_of_mem _ he, rfl⟩
      · rintro (h | ⟨e, he, rfl⟩)
        · exact .inl h
        · rcases List.mem_cons.1 he with rfl | he
          · exact .inl hold
          · exact .inr ⟨e, he, rfl⟩
    · rw [List.mem_append, List.mem_singleton]
      constructor
      · rintro ((h | rfl) | ⟨e, he, rfl⟩)
        · exact .inl h
        · exact .inr ⟨d, List.mem_cons_self, rfl⟩
        · exact .inr ⟨e, List.mem_cons_of_mem _ he, rfl⟩
      · rintro (h | ⟨e, he, rfl⟩)
        · exact .inl (.inl h)
        · rcases List.mem_cons.1 he with rfl | he
          · exact .inl (.inr rfl)
          · exact .inr ⟨e, he, rfl⟩

/-- After deliveries a slice is an old one, or a daily one that was delivered to. -/
theorem mem_deliver {s : Slice} (h : s ∈ deliver ds slices) :
    s ∈ slices ∨ (∃ d ∈ ds, d.slot = s.slot) ∧ s.payload.IsDaily := by
  induction ds generalizing slices with
  | nil => exact .inl h
  | cons d ds ih =>
    rcases ih h with h | ⟨⟨e, he, hslot⟩, hdaily⟩
    · rcases mem_mergeDaily h with h | ⟨hslot, hdaily⟩
      · exact .inl h
      · exact .inr ⟨⟨d, List.mem_cons_self, hslot.symm⟩, hdaily⟩
    · exact .inr ⟨⟨e, List.mem_cons_of_mem _ he, hslot⟩, hdaily⟩

theorem mem_deliver_of_ne {s : Slice} (hs : s ∈ slices) (hne : ∀ d ∈ ds, d.slot ≠ s.slot) :
    s ∈ deliver ds slices := by
  induction ds generalizing slices with
  | nil => exact hs
  | cons d ds ih =>
    exact ih (mem_mergeDaily_of_ne hs (hne d List.mem_cons_self).symm)
      fun e he => hne e (List.mem_cons_of_mem _ he)

theorem HasDays.deliver {slot : Slot} {days : Date → Prop} (h : HasDays slices slot days) :
    HasDays (deliver ds slices) slot days := by
  induction ds generalizing slices with
  | nil => exact h
  | cons d ds ih => exact ih h.mergeDaily

/-- A slot that is delivered to has the delivered days. -/
theorem hasDays_deliver {d : Delivery} (hd : d ∈ ds) :
    HasDays (deliver ds slices) d.slot fun day => day ∈ d.series.dates := by
  induction ds generalizing slices with
  | nil => cases hd
  | cons e ds ih =>
    rcases List.mem_cons.1 hd with rfl | hd
    · show HasDays (deliver ds (mergeDaily d.slot d.series slices)) _ _
      exact HasDays.deliver hasDays_mergeDaily
    · exact ih hd

theorem truthful_deliver {T : Truth} (hslices : ∀ s ∈ slices, s.TruthfulTo T)
    (hds : ∀ d ∈ ds, (Payload.daily d.series).TruthfulTo T d.item.assignment) :
    ∀ s ∈ deliver ds slices, s.TruthfulTo T := by
  induction ds generalizing slices with
  | nil => exact hslices
  | cons d ds ih =>
    exact ih (truthful_mergeDaily hslices (hds d List.mem_cons_self))
      fun e he => hds e (List.mem_cons_of_mem _ he)

end Store

end MetricCube
