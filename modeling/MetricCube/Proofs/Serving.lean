/-
  MetricCube.Proofs.Serving
  ─────────────────────────
  **Serving a plan.**  The items of a plan are written under current signatures, so
  what is delivered for them is usable (`isUsable_current`).  All items of a plan
  are for the request's own assignment or all are for one family (`Asks.cases`);
  whatever is delivered for them leaves the other families and, in the second
  case, the exact slice as they are (`findingAt_deliver`, `exactChoice_served`).

  So a plan over what was delivered can be refused only for the family that was
  served (`refused_of_served`).
-/
import Mathlib
import MetricCube.Proofs.Delivery
import MetricCube.Proofs.Screening

namespace MetricCube.Planner

variable {p : Planner} {req : Request} {usable : List Slice}

/-! ## §1. The items of a plan. -/

theorem dropRepeatedIds_sublist (items : List FetchItem) : ∀ seen : List UInt64,
    (dropRepeatedIds seen items).Sublist items := by
  induction items with
  | nil => intro seen; exact List.Sublist.slnil
  | cons i items ih =>
    intro seen
    rw [dropRepeatedIds]
    split
    · exact (ih seen).cons i
    · exact (ih _).cons_cons i

theorem mem_of_dropRepeatedIds {i : FetchItem} {items : List FetchItem} {seen : List UInt64}
    (h : i ∈ dropRepeatedIds seen items) : i ∈ items :=
  (dropRepeatedIds_sublist items seen).subset h

/-- Every item keeps a representative of its id. -/
theorem exists_id_dropRepeatedIds {i : FetchItem} {items : List FetchItem} :
    ∀ {seen : List UInt64}, i ∈ items → i.id ∉ seen →
      ∃ j ∈ dropRepeatedIds seen items, j.id = i.id := by
  induction items with
  | nil => intro seen h; cases h
  | cons j items ih =>
    intro seen hi hnew
    rw [dropRepeatedIds]
    -- `j` is dropped, or it is kept for its id, or it is kept and the item comes later.
    by_cases hj : seen.contains j.id = true
    · rw [if_pos hj]
      rcases List.mem_cons.1 hi with rfl | hi
      · exact absurd (List.contains_iff_mem.1 hj) hnew
      · exact ih hi hnew
    · rw [if_neg hj]
      by_cases hid : j.id = i.id
      · exact ⟨j, List.mem_cons_self, hid⟩
      · have hi' : i ∈ items := (List.mem_cons.1 hi).resolve_left fun heq => hid (heq ▸ rfl)
        obtain ⟨k, hk, hkid⟩ := @ih (j.id :: seen) hi' (by simp [Ne.symm hid, hnew])
        exact ⟨k, List.mem_cons_of_mem _ hk, hkid⟩

/-- The item is one that the request's planner makes for an assignment that satisfies it. -/
def Issued (p : Planner) (req : Request) (i : FetchItem) : Prop :=
  i.assignment.satisfies req.assignment = true ∧ i = p.item req i.assignment i.range

theorem Issued.signature_eq {i : FetchItem} (h : p.Issued req i) :
    i.signature = p.signatureFor req.core i.assignment := by
  rw [h.2]
  rfl

theorem issued_item {a : Assignment} (h : a.satisfies req.assignment = true) (r : DateRange) :
    p.Issued req (p.item req a r) :=
  ⟨h, rfl⟩

/-- A missing cell makes up an assignment of the family with the request. -/
theorem merged_missingCell {family : Family Slice} (hb : Belongs req.assignment family)
    (hsuit : p.Suitable family) {cell : Assignment} (hcell : cell ∈ p.missingCells family) :
    (req.assignment.merged cell).satisfies req.assignment = true
      ∧ (req.assignment.merged cell).extraKeys req.assignment = family.keys
      ∧ (req.assignment.merged cell).project family.keys = cell := by
  have hproper := hb.kin.proper hb.assignments hsuit
  obtain ⟨hin, hout⟩ := (Grid.mem_product hproper).1 (List.mem_filter.1 hcell).1
  -- A cell of the product carries exactly the keys of the family, none of the request's.
  have hkey : ∀ key, key ∈ family.keys ↔ ∃ value, cell.get? key = some value := by
    intro key
    rw [← Grid.exists_axis_iff hsuit]
    constructor
    · rintro ⟨ax, hax, rfl⟩
      obtain ⟨value, _, hget⟩ := hin ax hax
      exact ⟨_, hget⟩
    · rintro ⟨value, hget⟩
      by_contra hnot
      rw [hout key fun ax hax heq => hnot ⟨ax, hax, heq⟩] at hget
      cases hget
  have hbeside : cell.Beside req.assignment := fun key value hget =>
    (hb.kin.beside hb.assignments ((hkey key).2 ⟨value, hget⟩)).1
  have hkeys : cell.keys = family.keys := by
    obtain ⟨a, ha⟩ := List.exists_mem_of_ne_nil _ hb.assignments
    have hasc : family.keys.Pairwise (· < ·) :=
      (hb.kin a ha).2 ▸ a.ascending_extraKeys req.assignment
    refine List.Pairwise.eq_of_mem_iff (Table.ascending_keys cell.cells) hasc fun key => ?_
    rw [hkey]
    exact Assignment.mem_keys
  refine ⟨Assignment.satisfies_merged hbeside, ?_, ?_⟩
  · rw [Assignment.extraKeys_merged hbeside, hkeys]
  · rw [← hkeys, Assignment.project_merged]

theorem issued_of_lacking {family : Family Slice} (hb : Belongs req.assignment family)
    (hsuit : p.Suitable family) {i : FetchItem} (hi : i ∈ p.lacking req family) :
    p.Issued req i ∧ i.assignment.extraKeys req.assignment = family.keys := by
  rcases mem_lacking.1 hi with ⟨_, cell, hcell, rfl⟩ | ⟨s, hs, r, _, rfl⟩
  · obtain ⟨hsat, hext, _⟩ := merged_missingCell hb hsuit hcell
    exact ⟨issued_item hsat _, hext⟩
  · obtain ⟨hsat, hext⟩ := hb.kin s.assignment (List.mem_map_of_mem hs)
    exact ⟨issued_item hsat r, hext⟩

theorem issued_of_exactFinding {s : Slice} {items : List FetchItem}
    (h : p.exactFinding req s = .wanting items) :
    items = ((p.view req.range s.payload).wanted req.range).map (p.item req s.assignment)
      ∧ ¬ p.Covers req.range s.payload := by
  unfold exactFinding at h
  simp only at h
  unfold Covers
  split at h
  · split at h <;> cases h
  · cases h
  · cases h
  · rename_i missing hv
    cases h
    rw [hv]
    exact ⟨rfl, fun hsome => nomatch hsome⟩
  · rename_i cached hv
    cases h
    rw [hv]
    exact ⟨rfl, fun hsome => nomatch hsome⟩

/-! ## §2. What deliveries leave as it is. -/

variable {ds : List Delivery}

/-- Everything that is delivered was issued. -/
def AllIssued (p : Planner) (req : Request) (ds : List Delivery) : Prop :=
  ∀ d ∈ ds, p.Issued req d.item

theorem allSatisfy_deliver (hall : AllSatisfy req usable) (hds : p.AllIssued req ds) :
    AllSatisfy req (Store.deliver ds usable) := by
  intro s hs
  rcases Store.mem_deliver hs with hs | ⟨⟨d, hd, hslot⟩, _⟩
  · exact hall s hs
  · have ha : d.item.assignment = s.assignment := congrArg Prod.fst hslot
    exact ha ▸ (hds d hd).1

/-- Whether slices of a slot are usable. -/
def usableAt (p : Planner) (req : Request) (slot : Slot) : Bool :=
  p.isUsable req ⟨slot.1, .daily .empty, slot.2⟩

/-- Whether a slice is usable is decided by its slot alone. -/
theorem compatible_eq_filter_slot (slices : List Slice) :
    p.compatible slices req = slices.filter fun s => p.usableAt req s.slot := by
  rw [compatible_eq_filter]
  exact List.filter_congr fun s _ => isUsable_congr rfl rfl

/-- **What is delivered for issued items is usable, next to what was usable before.** -/
theorem compatible_deliver {slices : List Slice} (hcore : req.core ≠ "")
    (hds : p.AllIssued req ds) :
    p.compatible (Store.deliver ds slices) req = Store.deliver ds (p.compatible slices req) := by
  rw [compatible_eq_filter_slot, compatible_eq_filter_slot]
  refine Store.filter_deliver fun d hd => ?_
  exact isUsable_current hcore (hds d hd).1 (hds d hd).signature_eq

theorem familyAt_deliver {keys : List String}
    (h : ∀ d ∈ ds, d.item.assignment.extraKeys req.assignment ≠ keys) :
    familyAt req (Store.deliver ds usable) keys = familyAt req usable keys := by
  let Q : Slot → Bool := fun σ => decide (σ.1.extraKeys req.assignment = keys)
  exact congrArg (Family.mk keys)
    (@Store.filter_deliver_of_not usable ds Q fun d hd => decide_eq_false (h d hd))

theorem exactChoice_deliver (h : ∀ d ∈ ds, d.item.assignment ≠ req.assignment) :
    p.exactChoice (Store.deliver ds usable) req = p.exactChoice usable req := by
  let Q : Slot → Bool := fun σ => decide (σ.1 = req.assignment)
  have hexact : Family.exact Slice.assignment (Store.deliver ds usable) req.assignment
      = Family.exact Slice.assignment usable req.assignment :=
    @Store.filter_deliver_of_not usable ds Q fun d hd => decide_eq_false (h d hd)
  unfold exactChoice
  rw [hexact]

theorem mem_keySets_deliver (hall : AllSatisfy req usable) (hds : p.AllIssued req ds)
    {keys : List String} : keys ∈ keySets req (Store.deliver ds usable)
      ↔ keys ∈ keySets req usable
        ∨ keys ≠ [] ∧ ∃ d ∈ ds, d.item.assignment.extraKeys req.assignment = keys := by
  have hslots : ∀ slices : List Slice,
      (∃ s ∈ slices, s.assignment.extraKeys req.assignment = keys)
        ↔ ∃ σ ∈ slices.map Slice.slot, σ.1.extraKeys req.assignment = keys := by
    intro slices
    simp only [List.mem_map, exists_exists_and_eq_and]
    rfl
  rw [mem_keySets (allSatisfy_deliver hall hds), mem_keySets hall, hslots, hslots, ← and_or_left]
  refine and_congr_right fun _ => ?_
  simp only [Store.mem_slots_deliver]
  constructor
  · rintro ⟨σ, hσ | ⟨d, hd, rfl⟩, hkeys⟩
    · exact .inl ⟨σ, hσ, hkeys⟩
    · exact .inr ⟨d, hd, hkeys⟩
  · rintro (⟨σ, hσ, hkeys⟩ | ⟨d, hd, hkeys⟩)
    · exact ⟨σ, .inl hσ, hkeys⟩
    · exact ⟨d.slot, .inr ⟨d, hd, rfl⟩, hkeys⟩

/-- Deliveries to one family leave the exact slice as it is. -/
theorem exactChoice_served {keys : List String} (hkeys : keys ≠ [])
    (h : ∀ d ∈ ds, d.item.assignment.extraKeys req.assignment = keys) :
    p.exactChoice (Store.deliver ds usable) req = p.exactChoice usable req := by
  refine exactChoice_deliver fun d hd heq => hkeys ?_
  rw [← h d hd, heq, Assignment.extraKeys_self]

/-- A family that nothing is delivered to is judged as before. -/
theorem findingAt_deliver {keys : List String} (hall : AllSatisfy req usable)
    (hds : p.AllIssued req ds)
    (h : ∀ d ∈ ds, d.item.assignment.extraKeys req.assignment ≠ keys)
    (hkeys : keys ∈ keySets req (Store.deliver ds usable)) :
    keys ∈ keySets req usable
      ∧ p.findingAt req (Store.deliver ds usable) keys = p.findingAt req usable keys := by
  refine ⟨?_, by rw [findingAt, findingAt, verdictAt, verdictAt, familyAt_deliver h]⟩
  rcases (mem_keySets_deliver hall hds).1 hkeys with hold | ⟨_, d, hd, heq⟩
  · exact hold
  · exact absurd heq (h d hd)

/-- The only exact slice under the current signature is chosen. -/
theorem exactChoice_current {s : Slice} (hnodup : (usable.map Slice.slot).Nodup) (hs : s ∈ usable)
    (hslot : s.slot = (req.assignment, p.querySignature req)) :
    ∃ older, p.exactChoice usable req = .chosen s older := by
  have ha : s.assignment = req.assignment := congrArg Prod.fst hslot
  have hsig : s.signature = p.querySignature req := congrArg Prod.snd hslot
  have hmem : s ∈ Family.exact Slice.assignment usable req.assignment :=
    List.mem_filter.2 ⟨hs, by simpa using ha⟩
  -- Slots are not shared, so the tie-break leaves one slice.
  have hcurrent : ((Family.exact Slice.assignment usable req.assignment).filter fun t =>
      t.signature = p.querySignature req) = [s] := by
    rw [← List.perm_singleton]
    refine (List.perm_ext_iff_of_nodup ((hnodup.of_map _).filter _ |>.filter _)
      (List.nodup_singleton s)).2 fun t => ?_
    simp only [List.mem_filter, decide_eq_true_eq, List.mem_singleton]
    constructor
    · rintro ⟨⟨ht, hta⟩, htsig⟩
      refine List.inj_on_of_nodup_map hnodup ht hs ?_
      rw [hslot]
      exact Prod.ext hta htsig
    · rintro rfl
      exact ⟨⟨hs, ha⟩, hsig⟩
  unfold exactChoice
  split
  · rename_i hnil
    rw [hnil] at hmem
    cases hmem
  · rename_i t hone
    rw [hone, List.mem_singleton] at hmem
    exact ⟨0, by rw [hmem]⟩
  · rw [hcurrent]
    exact ⟨_, rfl⟩

/-! ## §3. What a plan asks for. -/

/-- **What a plan that needs fetches asks for.** -/
inductive Asks (p : Planner) (req : Request) (usable : List Slice) : List FetchItem → Prop where
  /-- What the exact slice lacks. -/
  | exact (s : Slice) (older : Nat) : p.exactChoice usable req = .chosen s older →
      ¬ p.Covers req.range s.payload → p.Undecided req usable →
      p.plannedItems req usable
        = ((p.view req.range s.payload).wanted req.range).map (p.item req s.assignment) →
      Asks p req usable (dropRepeatedIds [] (p.plannedItems req usable))
  /-- What a family lacks. -/
  | family (keys : List String) : p.exactChoice usable req = .absent → p.Undecided req usable →
      keys ∈ keySets req usable → NoRepeat (familyAt req usable keys) →
      p.Suitable (familyAt req usable keys) → p.lacking req (familyAt req usable keys) ≠ [] →
      p.plannedItems req usable = p.lacking req (familyAt req usable keys) →
      Asks p req usable (dropRepeatedIds [] (p.plannedItems req usable))
  /-- The request itself. -/
  | whole : p.exactChoice usable req = .absent → p.Undecided req usable →
      p.NoneWanting req usable →
      p.plannedItems req usable = [p.item req req.assignment req.range] →
      Asks p req usable (dropRepeatedIds [] (p.plannedItems req usable))

theorem asks_of_outcome {items : List FetchItem} (hall : AllSatisfy req usable)
    (h : p.outcome req usable = .ok (.needsFetch items)) : p.Asks req usable items := by
  have hp := planned_outcome p hall
  rw [h] at hp
  generalize hresult : (Except.ok (Outcome.needsFetch items) : Except Overflow Outcome) = result at hp
  -- Only three of the ends of planning ask for items.
  cases hp with
  | ambiguous | exact | exactOverflow | halted | overflow | complete | incomplete => cases hresult
  | fetchExact s older found hchoice hfinding hundecided hitems =>
    obtain ⟨hfound, hnot⟩ := issued_of_exactFinding hfinding
    cases hresult
    rw [← hitems]
    exact .exact s older hchoice hnot hundecided (hitems.trans hfound)
  | fetchFamily keys cells gaps found habsent hundecided hkeys hv hitems =>
    have hj : p.Judged req _ (p.verdictAt req usable keys) :=
      judged_verdict (belongs_familyAt hall hkeys)
    rw [hv] at hj
    cases hj with
    | wanting _ _ hnodup hsuit hlacking =>
      cases hresult
      rw [← hitems]
      exact .family keys habsent hundecided hkeys hnodup hsuit hlacking hitems
  | fetchWhole habsent hundecided hnone hitems =>
    cases hresult
    rw [← hitems]
    exact .whole habsent hundecided hnone hitems

theorem dropRepeatedIds_ne_nil {items : List FetchItem} (h : items ≠ []) :
    dropRepeatedIds [] items ≠ [] := by
  obtain ⟨i, hi⟩ := List.exists_mem_of_ne_nil _ h
  obtain ⟨j, hj, _⟩ := @exists_id_dropRepeatedIds i items [] hi (by simp)
  exact List.ne_nil_of_mem hj

/-- A plan asks for something, for the request's own assignment or for one family. -/
theorem Asks.cases {items : List FetchItem} (hall : AllSatisfy req usable)
    (h : p.Asks req usable items) : items ≠ [] ∧ (∀ i ∈ items, p.Issued req i)
      ∧ p.Undecided req usable
      ∧ ((∀ i ∈ items, i.assignment = req.assignment)
        ∨ ∃ keys ∈ keySets req usable, p.exactChoice usable req = .absent
          ∧ NoRepeat (familyAt req usable keys)
          ∧ ∀ i ∈ items, i.assignment.extraKeys req.assignment = keys) := by
  -- Dropping repeated ids adds nothing, so every item is one of those planned.
  cases h with
  | exact s older hchoice hnot hundecided hitems =>
    have ha := (mem_of_chosen hchoice).2
    have hown : ∀ i ∈ dropRepeatedIds [] (p.plannedItems req usable),
        ∃ r, i = p.item req req.assignment r := by
      intro i hi
      have hi' := mem_of_dropRepeatedIds hi
      rw [hitems, List.mem_map] at hi'
      obtain ⟨r, _, rfl⟩ := hi'
      exact ⟨r, by rw [ha]⟩
    refine ⟨dropRepeatedIds_ne_nil ?_, fun i hi => ?_, hundecided, .inl fun i hi => ?_⟩
    · rw [hitems, ne_eq, List.map_eq_nil_iff, wanted_eq_nil_iff]
      exact hnot
    · obtain ⟨r, rfl⟩ := hown i hi
      exact issued_item (Assignment.satisfies_refl _) r
    · obtain ⟨r, rfl⟩ := hown i hi
      rfl
  | family keys habsent hundecided hkeys hnodup hsuit hlacking hitems =>
    have hissued : ∀ i ∈ dropRepeatedIds [] (p.plannedItems req usable),
        p.Issued req i ∧ i.assignment.extraKeys req.assignment = keys := by
      intro i hi
      have hi' := mem_of_dropRepeatedIds hi
      rw [hitems] at hi'
      exact issued_of_lacking (belongs_familyAt hall hkeys) hsuit hi'
    refine ⟨dropRepeatedIds_ne_nil (hitems ▸ hlacking), fun i hi => (hissued i hi).1, hundecided,
      .inr ⟨keys, hkeys, habsent, hnodup, fun i hi => (hissued i hi).2⟩⟩
  | whole habsent hundecided _ hitems =>
    have hown : ∀ i ∈ dropRepeatedIds [] (p.plannedItems req usable),
        i = p.item req req.assignment req.range := by
      intro i hi
      have hi' := mem_of_dropRepeatedIds hi
      rw [hitems] at hi'
      exact List.mem_singleton.1 hi'
    refine ⟨dropRepeatedIds_ne_nil (by rw [hitems]; simp), fun i hi => ?_, hundecided,
      .inl fun i hi => ?_⟩
    · rw [hown i hi]
      exact issued_item (Assignment.satisfies_refl _) _
    · rw [hown i hi]
      rfl

/-! ## §4. Planning again. -/

/-- The deliveries are for the items, all of them and no others. -/
structure Serves (ds : List Delivery) (items : List FetchItem) : Prop where
  sound : ∀ d ∈ ds, d.item ∈ items
  complete : ∀ i ∈ items, ∃ d ∈ ds, d.item = i

theorem serves_of_perm {items : List FetchItem} (h : (ds.map Delivery.item).Perm items) :
    Serves ds items := by
  refine ⟨fun d hd => h.subset (List.mem_map_of_mem hd), fun i hi => ?_⟩
  obtain ⟨d, hd, rfl⟩ := List.mem_map.1 (h.symm.subset hi)
  exact ⟨d, hd, rfl⟩

/-- **If the family that was served ends planning, so does the plan over what was delivered.** -/
theorem outcome_of_halt {keys : List String} {cause : Except Overflow PlanFault}
    (hall : AllSatisfy req usable) (hds : p.AllIssued req ds) (hundecided : p.Undecided req usable)
    (habsent : p.exactChoice usable req = .absent) (hkeys : keys ∈ keySets req usable)
    (hdsKeys : ∀ d ∈ ds, d.item.assignment.extraKeys req.assignment = keys)
    (hhalt : (p.findingAt req (Store.deliver ds usable) keys).halt? = some cause) :
    p.outcome req (Store.deliver ds usable) = cause.map Outcome.refused := by
  have hall' := allSatisfy_deliver hall hds
  have hkeys' := (mem_keySets_deliver hall hds).2 (.inl hkeys)
  have habsent' : p.exactChoice (Store.deliver ds usable) req = .absent :=
    (exactChoice_served ((mem_keySets hall).1 hkeys).1 hdsKeys).trans habsent
  have hnot : ¬ p.NoHalt req (Store.deliver ds usable) := by
    intro hnohalt
    rw [hnohalt keys hkeys'] at hhalt
    cases hhalt
  -- Any other family ends planning only if it did before.
  have honly : ∀ others ∈ keySets req (Store.deliver ds usable), ∀ found,
      (p.findingAt req (Store.deliver ds usable) others).halt? = some found → found = cause := by
    intro others hothers found hfound
    by_cases heq : others = keys
    · rw [heq, hhalt] at hfound
      exact (Option.some.inj hfound).symm
    · obtain ⟨hold, hsame⟩ := findingAt_deliver hall hds
        (fun d hd hd' => heq (hd'.symm.trans (hdsKeys d hd))) hothers
      rw [hsame, hundecided.1 others hold] at hfound
      cases hfound
  have hp := planned_outcome p hall'
  generalize p.outcome req (Store.deliver ds usable) = result at hp
  cases hp with
  | ambiguous hchoice | exact _ _ _ _ hchoice | exactOverflow _ _ hchoice
  | fetchExact _ _ _ hchoice =>
    rw [habsent'] at hchoice
    cases hchoice
  | halted _ others covered fault _ hothers hv =>
    rw [← honly others hothers (.ok fault) (by rw [Finding.halt?, findingAt, hv])]
    rfl
  | overflow _ others complete _ hothers hv =>
    rw [← honly others hothers (.error .counts) (by rw [Finding.halt?, findingAt, hv])]
    rfl
  | complete _ _ _ _ _ _ hnohalt => exact absurd hnohalt hnot
  | fetchFamily _ _ _ _ _ hundecided' | incomplete _ _ _ _ hundecided'
  | fetchWhole _ hundecided' =>
    exact absurd hundecided'.1 hnot

/-- Where no family was at fault before, one is at fault only if something was delivered to it. -/
theorem exists_delivered_of_faulted {keys : List String} {covered : Bool} {fault : PlanFault}
    (hall : AllSatisfy req usable) (hds : p.AllIssued req ds) (hundecided : p.Undecided req usable)
    (hkeys : keys ∈ keySets req (Store.deliver ds usable))
    (hv : p.verdictAt req (Store.deliver ds usable) keys = .faulted covered fault) :
    ∃ d ∈ ds, d.item.assignment.extraKeys req.assignment = keys := by
  by_contra hnone
  have hothers : ∀ d ∈ ds, d.item.assignment.extraKeys req.assignment ≠ keys :=
    fun d hd heq => hnone ⟨d, hd, heq⟩
  obtain ⟨hold, hsame⟩ := findingAt_deliver hall hds hothers hkeys
  have hhalt := hundecided.1 keys hold
  rw [← hsame, Finding.halt?, findingAt, hv] at hhalt
  cases hhalt

/-- Once something is delivered for the request's own assignment, there is a slice of it under
    the current signature, and that one is chosen. -/
theorem exactChoice_own (hnodup : (usable.map Slice.slot).Nodup) {d : Delivery} (hd : d ∈ ds)
    (hissued : p.Issued req d.item) (hown : d.item.assignment = req.assignment) :
    ∃ s older, p.exactChoice (Store.deliver ds usable) req = .chosen s older := by
  have hslot : d.slot = (req.assignment, p.querySignature req) := by
    refine Prod.ext hown ?_
    show d.item.signature = _
    rw [hissued.signature_eq, hown]
    rfl
  obtain ⟨s, hs, hsslot⟩ := List.mem_map.1
    ((@Store.mem_slots_deliver usable ds d.slot).2 (.inr ⟨d, hd, rfl⟩))
  exact ⟨s, @exactChoice_current p req _ s (Store.nodup_deliver hnodup) hs (hsslot.trans hslot)⟩

/-- **A plan over what was delivered is refused only for the family that was served.** -/
theorem refused_of_served {items : List FetchItem} {fault : PlanFault}
    (hall : AllSatisfy req usable) (hnodup : (usable.map Slice.slot).Nodup)
    (hplan : p.outcome req usable = .ok (.needsFetch items)) (hserves : Serves ds items)
    (hrefused : p.outcome req (Store.deliver ds usable) = .ok (.refused fault)) :
    ∃ keys ∈ keySets req usable, NoRepeat (familyAt req usable keys)
      ∧ (∀ d ∈ ds, d.item.assignment.extraKeys req.assignment = keys)
      ∧ ∃ covered, p.verdictAt req (Store.deliver ds usable) keys = .faulted covered fault := by
  obtain ⟨hne, hissued, hundecided, hcase⟩ := (asks_of_outcome hall hplan).cases hall
  have hds : p.AllIssued req ds := fun d hd => hissued _ (hserves.sound d hd)
  have hall' := allSatisfy_deliver hall hds
  have hp := planned_outcome p hall'
  rw [hrefused] at hp
  rcases hcase with hown | ⟨keys, hkeys, habsent, hfamily, hkeysOf⟩
  · -- Nothing was delivered to a family, and the exact choice is no longer open.
    obtain ⟨i, hi⟩ := List.exists_mem_of_ne_nil _ hne
    obtain ⟨d, hd, rfl⟩ := hserves.complete i hi
    obtain ⟨s, older, hchosen⟩ := exactChoice_own hnodup hd (hissued _ hi) (hown _ hi)
    cases hp with
    | ambiguous hambiguous =>
      rw [hchosen] at hambiguous
      cases hambiguous
    | halted lacking keys covered _ _ hkeys hv =>
      obtain ⟨e, he, heq⟩ := exists_delivered_of_faulted hall hds hundecided hkeys hv
      rw [hown _ (hserves.sound e he), Assignment.extraKeys_self] at heq
      exact absurd heq.symm ((mem_keySets hall').1 hkeys).1
  · -- The exact choice is as before, and the family at fault is the one of the deliveries.
    have hdsKeys : ∀ d ∈ ds, d.item.assignment.extraKeys req.assignment = keys := fun d hd =>
      hkeysOf _ (hserves.sound d hd)
    cases hp with
    | ambiguous hambiguous =>
      rw [exactChoice_served ((mem_keySets hall).1 hkeys).1 hdsKeys, habsent] at hambiguous
      cases hambiguous
    | halted lacking others covered _ _ hothers hv =>
      obtain ⟨d, hd, hd'⟩ := exists_delivered_of_faulted hall hds hundecided hothers hv
      obtain rfl : others = keys := hd'.symm.trans (hdsKeys d hd)
      exact ⟨others, hkeys, hfamily, hdsKeys, covered, hv⟩

end MetricCube.Planner
