/-
  MetricCube.Proofs.Replanning
  ────────────────────────────
  **Does serving a plan break the request?**  Planning again over what was fetched
  for a plan is refused in two situations only.

    • A slice with an older, still compatible signature has gaps.  They are written
      under the current signature, so that its assignment has two slices, and a
      family has no way to choose between them (`refused_iff_older`).  The exact
      slice has: there the current signature is preferred.
    • A family has a member whose window covers the range, next to members that are
      fetched day by day (`refused_by_window`).
-/
import Mathlib
import MetricCube.Proofs.Completion

namespace MetricCube.Planner

variable {p : Planner} {req : Request} {usable : List Slice} {ds : List Delivery}
  {items : List FetchItem}

/-! ## §1. Repeated cells. -/

/-- Two slices of one family with the same assignment. -/
theorem exists_twins {keys : List String} (hnodup : (usable.map Slice.slot).Nodup)
    (hkin : Grid.Kin req.assignment keys (assignmentsOf (familyAt req usable keys)))
    (h : ¬ NoRepeat (familyAt req usable keys)) :
    ∃ s ∈ usable, ∃ t ∈ usable, s ≠ t ∧ s.assignment = t.assignment
      ∧ s.assignment.extraKeys req.assignment = keys := by
  by_contra hnone
  refine h (hkin.nodup_cells.2 (List.Nodup.map_on ?_ ((hnodup.of_map _).filter _)))
  intro s hs t ht heq
  by_contra hne
  obtain ⟨hsu, hsk⟩ := mem_familyAt.1 hs
  exact hnone ⟨s, hsu, t, (mem_familyAt.1 ht).1, hne, heq, hsk⟩

theorem not_noRepeat_of_twins {keys : List String} {s t : Slice} (hs : s ∈ usable)
    (ht : t ∈ usable) (hne : s ≠ t) (ha : s.assignment = t.assignment)
    (hkeys : s.assignment.extraKeys req.assignment = keys) :
    ¬ NoRepeat (familyAt req usable keys) := by
  intro hnodup
  have hassign : (assignmentsOf (familyAt req usable keys)).Nodup := hnodup.of_map _
  exact hne (List.inj_on_of_nodup_map hassign (mem_familyAt.2 ⟨hs, hkeys⟩)
    (mem_familyAt.2 ⟨ht, ha ▸ hkeys⟩) ha)

/-! ## §2. Older signatures. -/

/-- Something is fetched for a slice of a family that another signature has, too. -/
def FetchesBeside (req : Request) (usable : List Slice) (items : List FetchItem) : Prop :=
  ∃ i ∈ items, i.assignment ≠ req.assignment
    ∧ ∃ s ∈ usable, s.assignment = i.assignment ∧ s.signature ≠ i.signature

/-- Of two slices with one assignment, the delivered one gives the item and the other is the one
    under another signature. -/
theorem fetchesBeside_of_delivered {s t : Slice} (hnodup : (usable.map Slice.slot).Nodup)
    (hserves : Serves ds items) (hs : s ∈ usable) (hs' : s ∈ Store.deliver ds usable)
    (ht : t ∈ Store.deliver ds usable) (hnew : ∃ d ∈ ds, d.slot = t.slot) (hne : s ≠ t)
    (ha : s.assignment = t.assignment) (hown : t.assignment ≠ req.assignment) :
    FetchesBeside req usable items := by
  obtain ⟨d, hd, hslot⟩ := hnew
  have hda : d.item.assignment = t.assignment := congrArg Prod.fst hslot
  have hdsig : d.item.signature = t.signature := congrArg Prod.snd hslot
  refine ⟨d.item, hserves.sound d hd, hda ▸ hown, s, hs, ha.trans hda.symm, fun hsig => ?_⟩
  exact hne (List.inj_on_of_nodup_map (Store.nodup_deliver hnodup) hs' ht
    (Prod.ext ha (hsig.trans hdsig)))

/-- A repeated cell of the served family comes from an older signature. -/
theorem fetchesBeside_of_repeat {keys : List String} (hall : AllSatisfy req usable)
    (hnodup : (usable.map Slice.slot).Nodup) (hserves : Serves ds items)
    (hds : p.AllIssued req ds) (hkeys : keys ∈ keySets req usable)
    (hbefore : NoRepeat (familyAt req usable keys))
    (hafter : ¬ NoRepeat (familyAt req (Store.deliver ds usable) keys)) :
    FetchesBeside req usable items := by
  have hall' := allSatisfy_deliver hall hds
  have hkeys' := (mem_keySets_deliver hall hds).2 (.inl hkeys)
  obtain ⟨s, hs, t, ht, hne, ha, hext⟩ :=
    exists_twins (Store.nodup_deliver hnodup) (belongs_familyAt hall' hkeys').kin hafter
  have hown : s.assignment ≠ req.assignment := ne_of_mem_keySets hall hkeys hext
  -- Both were there before, one of them was, or neither.
  rcases Store.mem_deliver hs with hsold | ⟨hsnew, _⟩
  · rcases Store.mem_deliver ht with htold | ⟨htnew, _⟩
    · exact absurd hbefore (not_noRepeat_of_twins hsold htold hne ha hext)
    · exact fetchesBeside_of_delivered hnodup hserves hsold hs ht htnew hne ha (ha ▸ hown)
  · rcases Store.mem_deliver ht with htold | ⟨htnew, _⟩
    · exact fetchesBeside_of_delivered hnodup hserves htold ht hs hsnew hne.symm ha.symm hown
    · -- What is delivered for one assignment goes to one slot.
      obtain ⟨d, hd, hdslot⟩ := hsnew
      obtain ⟨e, he, heslot⟩ := htnew
      refine absurd (List.inj_on_of_nodup_map (Store.nodup_deliver hnodup) hs ht ?_) hne
      have hda : d.item.assignment = s.assignment := congrArg Prod.fst hdslot
      have hea : e.item.assignment = t.assignment := congrArg Prod.fst heslot
      rw [← hdslot, ← heslot]
      refine Prod.ext (hda.trans (ha.trans hea.symm)) ?_
      show d.item.signature = e.item.signature
      rw [(hds d hd).signature_eq, (hds e he).signature_eq, hda, hea, ha]

/-- Fetching beside an older signature makes the next plan refuse. -/
theorem refused_of_fetchesBeside (hall : AllSatisfy req usable)
    (hplan : p.outcome req usable = .ok (.needsFetch items)) (hserves : Serves ds items)
    (h : FetchesBeside req usable items) :
    ∃ fault, p.outcome req (Store.deliver ds usable) = .ok (.refused fault) := by
  obtain ⟨_, hissued, hundecided, hcase⟩ := (asks_of_outcome hall hplan).cases hall
  have hds : p.AllIssued req ds := fun d hd => hissued _ (hserves.sound d hd)
  obtain ⟨i, hi, hne, s, hs, hsa, hsig⟩ := h
  obtain ⟨keys, hkeys, habsent, _, hkeysOf⟩ := hcase.resolve_left fun hown => hne (hown i hi)
  -- The served family has a slice under each of the two signatures.
  obtain ⟨d, hd, hdi⟩ := hserves.complete i hi
  obtain ⟨u, hu, huslot⟩ := List.mem_map.1
    ((@Store.mem_slots_deliver usable ds d.slot).2 (.inr ⟨d, hd, rfl⟩))
  obtain ⟨v, hv, hvslot⟩ := List.mem_map.1
    ((@Store.mem_slots_deliver usable ds s.slot).2 (.inl (List.mem_map_of_mem hs)))
  have hua : u.assignment = i.assignment := (congrArg Prod.fst huslot).trans (by rw [← hdi]; rfl)
  have hva : v.assignment = i.assignment := (congrArg Prod.fst hvslot).trans hsa
  have huv : u ≠ v := by
    rintro rfl
    have := congrArg Prod.snd (hvslot.symm.trans huslot)
    exact hsig (this.trans (by rw [← hdi]; rfl))
  have hrepeat : ¬ NoRepeat (familyAt req (Store.deliver ds usable) keys) :=
    not_noRepeat_of_twins hu hv huv (hua.trans hva.symm) (hua ▸ hkeysOf i hi)
  obtain ⟨cell, hverdict⟩ := @verdict_repeated p req _ hrepeat
  have hhalt : (p.findingAt req (Store.deliver ds usable) keys).halt?
      = some (.ok (.ambiguous cell)) := by
    rw [Finding.halt?, findingAt, verdictAt, hverdict]
  exact ⟨.ambiguous cell, outcome_of_halt hall hds hundecided habsent hkeys
    (fun d hd => hkeysOf _ (hserves.sound d hd)) hhalt⟩

/-- **With daily slices only, serving a plan leads to a refusal exactly when something is fetched
    for a family beside an older signature.** -/
theorem refused_iff_older {store : Store} (hcore : req.core ≠ "")
    (hnodup : ((store.slices req.metric).map Slice.slot).Nodup)
    (hdaily : ∀ s ∈ store.slices req.metric, s.payload.IsDaily)
    (hplan : p.outcomeOf (store.slices req.metric) req = .ok (.needsFetch items))
    (hserved : (ds.map Delivery.item).Perm items) :
    ∃ store', store.mergeAll req.metric (ds.map Delivery.patch) = .ok store'
      ∧ ((∃ fault, p.outcomeOf (store'.slices req.metric) req = .ok (.refused fault))
        ↔ FetchesBeside req (p.compatible (store.slices req.metric) req) items) := by
  obtain ⟨store', hmerge, hslices⟩ := Store.mergeAll_deliveries req.metric ds store
  have hall := @allSatisfy_compatible p req (store.slices req.metric)
  have hserves := serves_of_perm hserved
  rw [outcomeOf_eq] at hplan
  obtain ⟨_, hissued, _, _⟩ := (asks_of_outcome hall hplan).cases hall
  have hds : p.AllIssued req ds := fun d hd => hissued _ (hserves.sound d hd)
  have hsub := p.compatible_sublist (store.slices req.metric) req
  have hnodup' := hnodup.sublist (hsub.map Slice.slot)
  refine ⟨store', hmerge, ?_⟩
  rw [outcomeOf_eq, hslices, compatible_deliver hcore hds]
  constructor
  · rintro ⟨fault, hrefused⟩
    obtain ⟨keys, hkeys, hbefore, _, covered, hv⟩ :=
      refused_of_served hall hnodup' hplan hserves hrefused
    have hj : p.Judged req _ (p.verdictAt req _ keys) := judged_verdict
      (belongs_familyAt (allSatisfy_deliver hall hds) ((mem_keySets_deliver hall hds).2 (.inl hkeys)))
    rw [hv] at hj
    cases hj with
    | repeated cell hrepeat =>
      exact fetchesBeside_of_repeat hall hnodup' hserves hds hkeys hbefore hrepeat
    | mixed _ hmixed =>
      -- Daily patches to daily slices leave no window to mix with.
      obtain ⟨s, hs, hwindow⟩ := hmixed.window
      have hsdaily : s.payload.IsDaily := by
        rcases Store.mem_deliver (mem_familyAt.1 hs).1 with hold | ⟨_, hnew⟩
        · exact hdaily s (hsub.subset hold)
        · exact hnew
      exact absurd hwindow hsdaily.not_isWindow
  · exact refused_of_fetchesBeside hall hplan hserves

namespace Sample

theorem full_constant {i : FetchItem} {c : Count} : Delivery.IsFull ⟨i, constant i.range c⟩ := by
  intro day hday
  rw [dates_constant]
  exact hday

/-- A signature that records one more dimension, as one that was dropped since would be. -/
def older : Signature :=
  .make "core" [("channel", channel.hash), ("region", "dropped")]

/-- One channel under the older signature on the first day, the other one on all days. -/
def olderStore : Store :=
  (Store.empty.insert "signups"
    ⟨only "ads", .daily (constant ⟨.ofDays 1, .ofDays 1, by decide⟩ (daily "ads")), older⟩).insert
    "signups" (slice "mail" days)

/-- The days that the first channel lacks. -/
def olderDelivery : Delivery :=
  ⟨planner.item request (only "ads") ⟨.ofDays 2, .ofDays 3, by decide⟩,
    constant ⟨.ofDays 2, .ofDays 3, by decide⟩ (daily "ads")⟩

/-- What the older signature leads to, before and after it is served. -/
theorem run_olderStore : ((olderStore.slices request.metric).map Slice.slot).Nodup
    ∧ planner.outcomeOf (olderStore.slices request.metric) request
      = .ok (.needsFetch [olderDelivery.item])
    ∧ planner.outcomeOf (Store.deliver [olderDelivery] (olderStore.slices request.metric)) request
      = .ok (.refused (.ambiguous (only "ads"))) := by
  decide +kernel

theorem daily_olderStore : ∀ s ∈ olderStore.slices request.metric, s.payload.IsDaily := by
  intro s hs
  have hs' : s ∈ [_, _] := hs
  rcases List.mem_cons.1 hs' with rfl | hs'
  · exact ⟨_, rfl⟩
  · rw [List.mem_singleton.1 hs']
    exact ⟨_, rfl⟩

end Sample

/-- Serving a plan over daily slices can lead to a refusal. -/
theorem not_served_older :
    ¬ ∀ (p : Planner) (req : Request) (store : Store) (items : List FetchItem)
      (ds : List Delivery), req.core ≠ "" → ((store.slices req.metric).map Slice.slot).Nodup →
      (∀ s ∈ store.slices req.metric, s.payload.IsDaily) →
      p.outcomeOf (store.slices req.metric) req = .ok (.needsFetch items) →
      (ds.map Delivery.item).Perm items → (∀ d ∈ ds, d.IsFull) →
      ∃ store', store.mergeAll req.metric (ds.map Delivery.patch) = .ok store'
        ∧ ∀ fault, p.outcomeOf (store'.slices req.metric) req ≠ .ok (.refused fault) := by
  intro h
  obtain ⟨hnodup, hplan, hrefused⟩ := Sample.run_olderStore
  obtain ⟨store', hmerge, hnot⟩ := h Sample.planner Sample.request Sample.olderStore _
    [Sample.olderDelivery] (by decide) hnodup Sample.daily_olderStore hplan (List.Perm.refl _) (by
      intro d hd
      rw [List.mem_singleton.1 hd]
      exact Sample.full_constant)
  obtain ⟨store'', hmerge', hslices⟩ :=
    Store.mergeAll_deliveries Sample.request.metric [Sample.olderDelivery] Sample.olderStore
  rw [hmerge] at hmerge'
  cases hmerge'
  rw [← hslices] at hrefused
  exact hnot _ hrefused

/-- The sample with an older signature is refused after it was served, since it fetches beside
    that signature. -/
theorem refused_older_sample :
    ∃ store', Sample.olderStore.mergeAll Sample.request.metric
        ([Sample.olderDelivery].map Delivery.patch) = .ok store'
      ∧ Sample.planner.outcomeOf (store'.slices Sample.request.metric) Sample.request
        = .ok (.refused (.ambiguous (Sample.only "ads")))
      ∧ FetchesBeside Sample.request
        (Sample.planner.compatible (Sample.olderStore.slices Sample.request.metric) Sample.request)
        [Sample.olderDelivery.item] := by
  obtain ⟨hnodup, hplan, hrefused⟩ := Sample.run_olderStore
  obtain ⟨store', hmerge, hiff⟩ := @refused_iff_older Sample.planner Sample.request
    [Sample.olderDelivery] _ Sample.olderStore (by decide) hnodup Sample.daily_olderStore hplan
    (List.Perm.refl _)
  obtain ⟨store'', hmerge', hslices⟩ :=
    Store.mergeAll_deliveries Sample.request.metric [Sample.olderDelivery] Sample.olderStore
  rw [hmerge] at hmerge'
  cases hmerge'
  rw [← hslices] at hrefused
  exact ⟨store', hmerge, hrefused, hiff.1 ⟨_, hrefused⟩⟩

/-! ## §3. Windows beside fetched days. -/

/-- Something is fetched for a family with a window that covers the range. -/
def KeepsWindow (p : Planner) (req : Request) (usable : List Slice) (items : List FetchItem) :
    Prop :=
  ∃ i ∈ items, i.assignment ≠ req.assignment ∧ ∃ s ∈ usable,
    s.assignment.extraKeys req.assignment = i.assignment.extraKeys req.assignment
      ∧ s.payload.IsWindow ∧ p.Covers req.range s.payload

/-- A window that covers the range is still there after deliveries for its family. -/
theorem mixed_of_window {keys : List String} (h : p.FamilyServed req usable ds keys)
    (hne : ds ≠ []) {s : Slice} (hs : s ∈ (familyAt req usable keys).members)
    (hwindow : s.payload.IsWindow) (hcovers : p.Covers req.range s.payload) :
    p.MixedCover req.range (familyAt req (Store.deliver ds usable) keys).members := by
  refine ⟨h.covers, ?_, s, mem_familyAt.2 ⟨?_, (mem_familyAt.1 hs).2⟩, hwindow⟩
  · obtain ⟨d, hd⟩ := List.exists_mem_of_ne_nil _ hne
    obtain ⟨t, ht, hslot, u, hu, _⟩ := @Store.hasDays_deliver usable ds d hd
    refine ⟨t, mem_familyAt.2 ⟨ht, ?_⟩, u, hu⟩
    rw [show t.assignment = d.item.assignment from congrArg Prod.fst hslot, h.extraKeys_eq d hd]
  · exact Store.mem_deliver_of_ne (mem_familyAt.1 hs).1 (h.not_delivered_of_covers hs hcovers)

/-- A family that lacks nothing but has both kinds of payloads ends planning. -/
theorem verdict_of_mixed {family : Family Slice} (hb : Belongs req.assignment family)
    (hsettled : p.Settled req family) (hmixed : p.MixedCover req.range family.members)
    (hgrid : ¬ (1 < family.keys.length ∧ p.missingCells family ≠ [])) :
    p.verdict req family = .faulted true (.unsummable .mixedPayloads)
      ∨ p.verdict req family = .overflow none := by
  have hj : p.Judged req family (p.verdict req family) := judged_verdict hb
  generalize p.verdict req family = verdict at hj
  cases hj with
  | repeated _ hrepeat => exact absurd hsettled.nodup hrepeat
  | unsuitable _ _ hnot => exact absurd hsettled.suits hnot
  | wanting _ _ _ _ hlacking => exact absurd hsettled.nothing hlacking
  | blocked _ _ htwo hmissing => exact absurd ⟨htwo, hmissing⟩ hgrid
  | mixed => exact .inl rfl
  | overflow => exact .inr rfl
  | largeTotal _ _ _ _ hsum | complete _ _ _ _ hsum | incomplete _ _ _ _ hsum =>
    exact absurd hsum hmixed.not_ok

/-- Fetching beside a window that covers the range makes the next plan fail. -/
theorem refused_of_keepsWindow (hc : p.Current req usable) (hmade : p.registry.Made)
    (hplan : p.outcome req usable = .ok (.needsFetch items)) (hserves : Serves ds items)
    (hfull : ∀ d ∈ ds, d.IsFull) (hids : CollisionFree (p.plannedItems req usable))
    (hgrid : p.settings.fetchMissingValues = true
      ∨ ∀ i ∈ items, (i.assignment.extraKeys req.assignment).length ≤ 1)
    (h : p.KeepsWindow req usable items) :
    p.outcome req (Store.deliver ds usable) = .ok (.refused (.unsummable .mixedPayloads))
      ∨ p.outcome req (Store.deliver ds usable) = .error .counts := by
  obtain ⟨i, hi, hne, s, hs, hext, hwindow, hcovers⟩ := h
  obtain ⟨d, hd, hdi⟩ := hserves.complete i hi
  have hasks := asks_of_outcome hc.satisfy hplan
  obtain ⟨_, _, hundecided, _⟩ := hasks.cases hc.satisfy
  cases hasks with
  -- Only a plan for a family has items beside the request's own assignment.
  | exact t older hchoice _ _ hitems =>
    have hi' := mem_of_dropRepeatedIds hi
    rw [hitems] at hi'
    obtain ⟨r, _, rfl⟩ := List.mem_map.1 hi'
    exact absurd (mem_of_chosen hchoice).2 hne
  | whole _ _ _ hitems =>
    have hi' := mem_of_dropRepeatedIds hi
    rw [hitems] at hi'
    rw [List.mem_singleton.1 hi'] at hne
    exact absurd rfl hne
  | family keys habsent _ hkeys _ hsuit _ hitems =>
    have hserved := hc.familyServed hkeys hsuit hitems hserves hids hfull
    have hikeys : i.assignment.extraKeys req.assignment = keys := hdi ▸ hserved.extraKeys_eq d hd
    have hmixed := mixed_of_window hserved (List.ne_nil_of_mem hd)
      (mem_familyAt.2 ⟨hs, hext.trans hikeys⟩) hwindow hcovers
    have hnoGrid : ¬ (1 < keys.length
        ∧ p.missingCells (familyAt req (Store.deliver ds usable) keys) ≠ []) := by
      intro hblocked
      rcases hgrid with hfetch | hone
      · exact hblocked.2 (hserved.missingCells_eq_nil hmade hfetch)
      · exact absurd hblocked.1 (Nat.not_lt.2 (hikeys ▸ hone i hi))
    have hhalt : ∀ cause, (p.findingAt req (Store.deliver ds usable) keys).halt? = some cause →
        p.outcome req (Store.deliver ds usable) = cause.map Outcome.refused := fun _ =>
      outcome_of_halt hc.satisfy hserved.issued hundecided habsent hkeys hserved.extraKeys_eq
    rcases verdict_of_mixed hserved.belongs_after (hserved.settled hmade) hmixed hnoGrid with hv | hv
    · exact .inl (hhalt (.ok _) (by rw [Finding.halt?, findingAt, verdictAt, hv]))
    · exact .inr (hhalt (.error _) (by rw [Finding.halt?, findingAt, verdictAt, hv]))

/-- A window among what was delivered for a family was there before. -/
theorem keepsWindow_of_mixed {keys : List String} (hall : AllSatisfy req usable)
    (hkeys : keys ∈ keySets req usable) (hne : items ≠ []) (hserves : Serves ds items)
    (hdsKeys : ∀ d ∈ ds, d.item.assignment.extraKeys req.assignment = keys)
    (hmixed : p.MixedCover req.range (familyAt req (Store.deliver ds usable) keys).members) :
    p.KeepsWindow req usable items := by
  obtain ⟨s, hs, hwindow⟩ := hmixed.window
  obtain ⟨hsafter, hskeys⟩ := mem_familyAt.1 hs
  have hsold := (Store.mem_deliver hsafter).resolve_right fun hnew =>
    hnew.2.not_isWindow hwindow
  obtain ⟨i, hi⟩ := List.exists_mem_of_ne_nil _ hne
  obtain ⟨d, hd, rfl⟩ := hserves.complete i hi
  exact ⟨d.item, hi, ne_of_mem_keySets hall hkeys (hdsKeys d hd), s, hsold,
    hskeys.trans (hdsKeys d hd).symm, hwindow, hmixed.covers s hs⟩

/-- **Serving a plan leads to a refusal only for a window beside fetched days,** and there it
    leads to nothing else, unless counts overflow first. -/
theorem refused_by_window {store : Store} (hmade : p.registry.Made) (hcore : req.core ≠ "")
    (hcurrent : ∀ s ∈ store.slices req.metric,
      s.signature = p.signatureFor req.core s.assignment)
    (hnodup : ((store.slices req.metric).map Slice.assignment).Nodup)
    (hplan : p.outcomeOf (store.slices req.metric) req = .ok (.needsFetch items))
    (hserved : (ds.map Delivery.item).Perm items) (hfull : ∀ d ∈ ds, d.IsFull) :
    ∃ store', store.mergeAll req.metric (ds.map Delivery.patch) = .ok store'
      ∧ (∀ fault, p.outcomeOf (store'.slices req.metric) req = .ok (.refused fault) →
        fault = .unsummable .mixedPayloads
          ∧ p.KeepsWindow req (p.compatible (store.slices req.metric) req) items)
      ∧ (p.KeepsWindow req (p.compatible (store.slices req.metric) req) items →
        CollisionFree (p.plannedItems req (p.compatible (store.slices req.metric) req)) →
        (p.settings.fetchMissingValues = true
          ∨ ∀ i ∈ items, (i.assignment.extraKeys req.assignment).length ≤ 1) →
        p.outcomeOf (store'.slices req.metric) req = .ok (.refused (.unsummable .mixedPayloads))
          ∨ p.outcomeOf (store'.slices req.metric) req = .error .counts) := by
  obtain ⟨store', hmerge, hslices⟩ := Store.mergeAll_deliveries req.metric ds store
  have hall := @allSatisfy_compatible p req (store.slices req.metric)
  have hserves := serves_of_perm hserved
  rw [outcomeOf_eq] at hplan
  have hc := @Current.of_slices p req _ hcurrent hnodup
  obtain ⟨hne, hissued, _, _⟩ := (asks_of_outcome hall hplan).cases hall
  have hds : p.AllIssued req ds := fun d hd => hissued _ (hserves.sound d hd)
  refine ⟨store', hmerge, ?_⟩
  rw [outcomeOf_eq, hslices, compatible_deliver hcore hds]
  refine ⟨fun fault hrefused => ?_, fun hkeeps hids hgrid => ?_⟩
  · obtain ⟨keys, hkeys, hbefore, hdsKeys, covered, hv⟩ :=
      refused_of_served hall (nodup_slots hc.nodup) hplan hserves hrefused
    have hj : p.Judged req _ (p.verdictAt req _ keys) := judged_verdict
      (belongs_familyAt (allSatisfy_deliver hall hds) ((mem_keySets_deliver hall hds).2 (.inl hkeys)))
    rw [hv] at hj
    cases hj with
    | repeated cell hrepeat =>
      -- There are no older signatures that a cell could repeat under.
      obtain ⟨i, hi, _, s, hs, ha, hsig⟩ :=
        fetchesBeside_of_repeat hall (nodup_slots hc.nodup) hserves hds hkeys hbefore hrepeat
      rw [hc.current s hs, (hissued i hi).signature_eq, ha] at hsig
      exact absurd rfl hsig
    | mixed _ hmixed =>
      exact ⟨rfl, keepsWindow_of_mixed hall hkeys hne hserves hdsKeys hmixed⟩
  · exact refused_of_keepsWindow hc hmade hplan hserves hfull hids hgrid hkeeps

namespace Sample

/-- One channel as a count over the whole range, the other one not at all. -/
def windowStore : Store :=
  Store.empty.insert "signups"
    ⟨only "ads", .aggregate ⟨days, .wrap 6 3⟩, planner.signatureFor "core" (only "ads")⟩

/-- The days of the second channel. -/
def windowDelivery : Delivery :=
  ⟨planner.item request (only "mail") days, constant days (daily "mail")⟩

/-- What the window leads to, before and after it is served. -/
theorem run_windowStore : ((windowStore.slices request.metric).map Slice.assignment).Nodup
    ∧ planner.outcomeOf (windowStore.slices request.metric) request
      = .ok (.needsFetch [windowDelivery.item])
    ∧ planner.outcomeOf (Store.deliver [windowDelivery] (windowStore.slices request.metric)) request
      = .ok (.refused (.unsummable .mixedPayloads)) := by
  decide +kernel

theorem current_windowStore : ∀ s ∈ windowStore.slices request.metric,
    s.signature = planner.signatureFor request.core s.assignment := by
  intro s hs
  have hs' : s ∈ [_] := hs
  rw [List.mem_singleton.1 hs']
  rfl

end Sample

/-- Serving a plan over slices with current signatures can lead to a refusal. -/
theorem not_served_window :
    ¬ ∀ (p : Planner) (req : Request) (store : Store) (items : List FetchItem)
      (ds : List Delivery), p.registry.Made → req.core ≠ "" →
      (∀ s ∈ store.slices req.metric, s.signature = p.signatureFor req.core s.assignment) →
      ((store.slices req.metric).map Slice.assignment).Nodup →
      p.outcomeOf (store.slices req.metric) req = .ok (.needsFetch items) →
      (ds.map Delivery.item).Perm items → (∀ d ∈ ds, d.IsFull) →
      ∃ store', store.mergeAll req.metric (ds.map Delivery.patch) = .ok store'
        ∧ ∀ fault, p.outcomeOf (store'.slices req.metric) req ≠ .ok (.refused fault) := by
  intro h
  obtain ⟨hnodup, hplan, hrefused⟩ := Sample.run_windowStore
  obtain ⟨store', hmerge, hnot⟩ := h Sample.planner Sample.request Sample.windowStore _
    [Sample.windowDelivery] Sample.made_planner (by decide) Sample.current_windowStore hnodup hplan
    (List.Perm.refl _) (by
      intro d hd
      rw [List.mem_singleton.1 hd]
      exact Sample.full_constant)
  obtain ⟨store'', hmerge', hslices⟩ :=
    Store.mergeAll_deliveries Sample.request.metric [Sample.windowDelivery] Sample.windowStore
  rw [hmerge] at hmerge'
  cases hmerge'
  rw [← hslices] at hrefused
  exact hnot _ hrefused

/-- The sample with a window is refused after it was served, since it keeps that window. -/
theorem refused_window_sample :
    ∃ store', Sample.windowStore.mergeAll Sample.request.metric
        ([Sample.windowDelivery].map Delivery.patch) = .ok store'
      ∧ Sample.planner.outcomeOf (store'.slices Sample.request.metric) Sample.request
        = .ok (.refused (.unsummable .mixedPayloads))
      ∧ Sample.planner.KeepsWindow Sample.request
        (Sample.planner.compatible (Sample.windowStore.slices Sample.request.metric) Sample.request)
        [Sample.windowDelivery.item] := by
  obtain ⟨hnodup, hplan, hrefused⟩ := Sample.run_windowStore
  obtain ⟨store', hmerge, honly, _⟩ := @refused_by_window Sample.planner Sample.request
    [Sample.windowDelivery] _ Sample.windowStore Sample.made_planner (by decide)
    Sample.current_windowStore hnodup hplan (List.Perm.refl _) (by
      intro d hd
      rw [List.mem_singleton.1 hd]
      exact Sample.full_constant)
  obtain ⟨store'', hmerge', hslices⟩ :=
    Store.mergeAll_deliveries Sample.request.metric [Sample.windowDelivery] Sample.windowStore
  rw [hmerge] at hmerge'
  cases hmerge'
  rw [← hslices] at hrefused
  exact ⟨store', hmerge, hrefused, (honly _ hrefused).2⟩

end MetricCube.Planner
