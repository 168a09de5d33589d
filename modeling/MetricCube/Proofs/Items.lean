/-
  MetricCube.Proofs.Items
  ───────────────────────
  **What a plan asks for.**  Items come from the exact slice, from the members of a
  family, from its missing cells, or stand for the whole request.  Each is one of
  two kinds:

    • a range that a usable slice wants (`warranted_of_wanted`),
    • the whole range, for an assignment that no usable slice has
      (`warranted_of_absent`).

  Either way the item asks for nothing that is held.  Ranges that one slice wants
  are apart, and items of two sources have different assignments unless they are the
  same item (`pairwise_lacking`); dropping repeated ids leaves one of these.
-/
import Mathlib
import MetricCube.Proofs.Serving

namespace MetricCube.Planner

variable {p : Planner} {req : Request} {usable : List Slice}

/-! ## §1. Single items. -/

/-- If exactly one usable slice has the item's assignment and is daily, it holds no day that the
    item asks for. -/
def Unheld (usable : List Slice) (i : FetchItem) : Prop :=
  ∀ s series, (usable.filter fun t => t.assignment = i.assignment) = [s] →
    s.payload = .daily series → ∀ d ∈ i.range.days, d ∉ series.dates

/-- The item is a new one of the request, within its range, and asks for nothing that is held. -/
structure Warranted (p : Planner) (req : Request) (usable : List Slice) (i : FetchItem) :
    Prop where
  metric : i.metric = req.metric
  needed : i.status = .needed
  satisfies : i.assignment.satisfies req.assignment = true
  within : req.range.containsRange i.range = true
  signature : i.signature = p.signatureFor req.core i.assignment
  unheld : Unheld usable i

/-- What a usable slice wants is not held. -/
theorem warranted_of_wanted (hall : AllSatisfy req usable) {s : Slice} (hs : s ∈ usable)
    {r : DateRange} (hr : r ∈ (p.view req.range s.payload).wanted req.range) :
    p.Warranted req usable (p.item req s.assignment r) := by
  refine ⟨rfl, rfl, hall s hs, within_of_wanted hr, rfl, ?_⟩
  intro t series honly hpayload d hd hheld
  -- The slice itself has the assignment, so it is the only one that does.
  have hmem : s ∈ usable.filter fun t => t.assignment = s.assignment :=
    List.mem_filter.2 ⟨hs, by simp⟩
  have honly' : (usable.filter fun t => t.assignment = s.assignment) = [t] := honly
  rw [honly', List.mem_singleton] at hmem
  subst hmem
  rw [hpayload] at hr
  have hlacked : Coverage.Reaches ((p.view req.range (.daily series)).wanted req.range) d :=
    ⟨r, hr, DateRange.mem_days.1 hd⟩
  exact (reaches_wanted_daily.1 hlacked).2 hheld

/-- Of an assignment that no usable slice has, nothing is held. -/
theorem warranted_of_absent {a : Assignment} (hsat : a.satisfies req.assignment = true)
    (hnone : ∀ t ∈ usable, t.assignment ≠ a) :
    p.Warranted req usable (p.item req a req.range) := by
  refine ⟨rfl, rfl, hsat, req.range.containsRange_self, rfl, ?_⟩
  intro s series honly
  have hmem : s ∈ usable.filter fun t => t.assignment = a := by
    have honly' : (usable.filter fun t => t.assignment = a) = [s] := honly
    rw [honly']
    exact List.mem_singleton_self s
  obtain ⟨hs, heq⟩ := List.mem_filter.1 hmem
  exact absurd (by simpa using heq) (hnone s hs)

theorem absent_of_exactChoice (h : p.exactChoice usable req = .absent) :
    ∀ t ∈ usable, t.assignment ≠ req.assignment := by
  intro t ht heq
  have hmem : t ∈ Family.exact Slice.assignment usable req.assignment :=
    List.mem_filter.2 ⟨ht, by simpa using heq⟩
  unfold exactChoice at h
  split at h
  · rename_i hnil
    rw [hnil] at hmem
    cases hmem
  · cases h
  · split at h <;> cases h

/-! ## §2. The items of a family. -/

variable {keys : List String}

/-- No usable slice has the assignment of a missing cell. -/
theorem absent_of_missing (hb : Belongs req.assignment (familyAt req usable keys))
    (hsuit : p.Suitable (familyAt req usable keys)) {cell : Assignment}
    (hcell : cell ∈ p.missingCells (familyAt req usable keys)) :
    ∀ t ∈ usable, t.assignment ≠ req.assignment.merged cell := by
  intro t ht heq
  obtain ⟨_, hext, hproject⟩ := merged_missingCell hb hsuit hcell
  rw [← heq] at hext hproject
  -- It would be a member, and hold the cell.
  have hmember : t ∈ (familyAt req usable keys).members := mem_familyAt.2 ⟨ht, hext⟩
  exact not_held_of_missing hcell _ (List.mem_map_of_mem hmember) hproject

theorem warranted_of_lacking (hall : AllSatisfy req usable) (hkeys : keys ∈ keySets req usable)
    (hsuit : p.Suitable (familyAt req usable keys)) {i : FetchItem}
    (hi : i ∈ p.lacking req (familyAt req usable keys)) : p.Warranted req usable i := by
  have hb := belongs_familyAt hall hkeys
  rcases mem_lacking.1 hi with ⟨_, cell, hcell, rfl⟩ | ⟨s, hs, r, hr, rfl⟩
  · exact warranted_of_absent (merged_missingCell hb hsuit hcell).1
      (absent_of_missing hb hsuit hcell)
  · exact warranted_of_wanted hall (mem_familyAt.1 hs).1 hr

/-- Items of one assignment are for ranges that are apart. -/
def Clear (i j : FetchItem) : Prop :=
  i.assignment = j.assignment → i.range.Apart j.range

theorem pairwise_items_of_wanted (p : Planner) (req : Request) (s : Slice) :
    (((p.view req.range s.payload).wanted req.range).map (p.item req s.assignment)).Pairwise
      Clear := by
  rw [List.pairwise_map]
  exact (pairwise_wanted p req.range s.payload).imp fun hbefore _ => .inl hbefore

/-- **Two items that a family lacks are apart, or the same.** -/
theorem pairwise_lacking (hb : Belongs req.assignment (familyAt req usable keys))
    (hsuit : p.Suitable (familyAt req usable keys)) (hnodup : NoRepeat (familyAt req usable keys)) :
    (p.lacking req (familyAt req usable keys)).Pairwise fun i j => i = j ∨ Clear i j := by
  rw [lacking, lackingItems, List.pairwise_append]
  refine ⟨?_, ?_, ?_⟩
  · -- Items for cells are for the whole range: those of one assignment are the same.
    rw [List.pairwise_map]
    refine List.pairwise_of_forall fun cell other => ?_
    by_cases heq : req.assignment.merged cell = req.assignment.merged other
    · exact .inl (by rw [heq])
    · exact .inr fun hsame => absurd hsame heq
  · rw [List.pairwise_flatMap]
    constructor
    · intro s _
      exact (pairwise_items_of_wanted p req s).imp .inr
    · -- Members hold different cells, so they have different assignments.
      unfold NoRepeat assignmentsOf at hnodup
      rw [List.map_map] at hnodup
      refine (List.pairwise_map.1 hnodup).imp ?_
      intro s t hne i hi j hj
      obtain ⟨_, _, rfl⟩ := List.mem_map.1 hi
      obtain ⟨_, _, rfl⟩ := List.mem_map.1 hj
      exact .inr fun hsame => absurd (congrArg (fun a => a.project keys) hsame) hne
  · intro i hi j hj
    obtain ⟨cell, hcell, rfl⟩ := List.mem_map.1 hi
    obtain ⟨s, hs, hj⟩ := List.mem_flatMap.1 hj
    obtain ⟨_, _, rfl⟩ := List.mem_map.1 hj
    have hmissing : cell ∈ p.missingCells (familyAt req usable keys) := by
      split at hcell
      · exact hcell
      · cases hcell
    refine .inr fun hsame => ?_
    exact absurd hsame.symm (absent_of_missing hb hsuit hmissing s (mem_familyAt.1 hs).1)

/-! ## §3. The items of a plan. -/

theorem pairwise_ids_dropRepeatedIds (items : List FetchItem) : ∀ seen : List UInt64,
    (dropRepeatedIds seen items).Pairwise (fun i j => i.id ≠ j.id)
      ∧ ∀ i ∈ dropRepeatedIds seen items, i.id ∉ seen := by
  -- The ids seen so far grow along the list, and what is kept later avoids all of them.
  induction items with
  | nil =>
    intro seen
    exact ⟨List.Pairwise.nil, fun i hi => nomatch hi⟩
  | cons i items ih =>
    intro seen
    rw [dropRepeatedIds]
    by_cases hseen : seen.contains i.id = true
    · rw [if_pos hseen]
      exact ih seen
    · rw [if_neg hseen]
      obtain ⟨hids, hnew⟩ := ih (i.id :: seen)
      constructor
      · refine List.Pairwise.cons ?_ hids
        intro j hj heq
        exact hnew j hj (heq ▸ List.mem_cons_self)
      · intro j hj
        rcases List.mem_cons.1 hj with rfl | hj
        · simpa using hseen
        · exact fun hmem => hnew j hj (List.mem_cons_of_mem _ hmem)

/-- Once repeated ids are dropped, items that were apart or the same are apart. -/
theorem pairwise_dropRepeatedIds {items : List FetchItem}
    (h : items.Pairwise fun i j => i = j ∨ Clear i j) :
    (dropRepeatedIds [] items).Pairwise Clear := by
  have hkept := h.sublist (dropRepeatedIds_sublist items [])
  refine (hkept.and (pairwise_ids_dropRepeatedIds items []).1).imp ?_
  rintro i j ⟨hsame | hclear, hids⟩
  · exact absurd (congrArg FetchItem.id hsame) hids
  · exact hclear

/-- What a plan asks for is warranted, and apart but for repeated items. -/
theorem Asks.warranted {items : List FetchItem} (hall : AllSatisfy req usable)
    (h : p.Asks req usable items) :
    (∀ i ∈ items, p.Warranted req usable i) ∧ items.Pairwise Clear := by
  -- It is enough to speak of the planned items, where repeated ids are still there.
  suffices hplanned : (∀ i ∈ p.plannedItems req usable, p.Warranted req usable i)
      ∧ (p.plannedItems req usable).Pairwise fun i j => i = j ∨ Clear i j by
    cases h with
    | exact | family | whole =>
      exact ⟨fun i hi => hplanned.1 i (mem_of_dropRepeatedIds hi),
        pairwise_dropRepeatedIds hplanned.2⟩
  cases h with
  | exact s older hchoice _ _ hitems =>
    obtain ⟨hs, _⟩ := mem_of_chosen hchoice
    rw [hitems]
    refine ⟨fun i hi => ?_, (pairwise_items_of_wanted p req s).imp .inr⟩
    obtain ⟨r, hr, rfl⟩ := List.mem_map.1 hi
    exact warranted_of_wanted hall hs hr
  | family keys _ _ hkeys hnodup hsuit _ hitems =>
    rw [hitems]
    exact ⟨fun i hi => warranted_of_lacking hall hkeys hsuit hi,
      pairwise_lacking (belongs_familyAt hall hkeys) hsuit hnodup⟩
  | whole habsent _ _ hitems =>
    rw [hitems]
    refine ⟨fun i hi => ?_, List.pairwise_singleton _ _⟩
    rw [List.mem_singleton.1 hi]
    exact warranted_of_absent (Assignment.satisfies_refl _) (absent_of_exactChoice habsent)

/-- **A plan that asks for items asks for some, each of them new, within the request and not held,
    and for no assignment asks for ranges that overlap or touch.** -/
theorem items_of_needsFetch {slices : List Slice} {items : List FetchItem}
    (h : p.outcomeOf slices req = .ok (.needsFetch items)) :
    items ≠ [] ∧ (∀ i ∈ items, p.Warranted req (p.compatible slices req) i)
      ∧ items.Pairwise fun i j => i.assignment = j.assignment → i.range.Apart j.range := by
  have hall := @allSatisfy_compatible p req slices
  rw [outcomeOf_eq] at h
  have hasks := asks_of_outcome hall h
  exact ⟨(hasks.cases hall).1, hasks.warranted hall⟩

namespace Sample

/-- One channel on the second of three days. -/
def middleDay : List Slice :=
  [slice "ads" (.single (.ofDays 2))]

/-- The days around it, and all days of the other channel. -/
def aroundMiddle : List FetchItem :=
  [planner.item request (only "mail") days,
    planner.item request (only "ads") (.single (.ofDays 1)),
    planner.item request (only "ads") (.single (.ofDays 3))]

end Sample

/-- Around a day that is held, the plan asks for the other days and for the other channel. -/
theorem items_aroundMiddle :
    Sample.planner.outcomeOf Sample.middleDay Sample.request = .ok (.needsFetch Sample.aroundMiddle)
      ∧ (∀ i ∈ Sample.aroundMiddle, Sample.planner.Warranted Sample.request
          (Sample.planner.compatible Sample.middleDay Sample.request) i)
      ∧ Sample.aroundMiddle.Pairwise fun i j =>
          i.assignment = j.assignment → i.range.Apart j.range := by
  have h : Sample.planner.outcomeOf Sample.middleDay Sample.request
      = .ok (.needsFetch Sample.aroundMiddle) := by
    decide +kernel
  exact ⟨h, (items_of_needsFetch h).2⟩

end MetricCube.Planner
