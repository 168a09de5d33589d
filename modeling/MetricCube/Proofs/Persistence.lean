/-
  MetricCube.Proofs.Persistence
  ─────────────────────────────
  **A full answer stays.**  Call slices clean for a core question if those that were made
  for it, under the dimensions as they are defined now, are daily, under current
  signatures, and at most one for each assignment.  Then a full answer, from the exact
  slice or from a complete family, is still there after further daily patches:

    • what answers in full is one fact about the usable slices (`HasAnswer`): the exact
      slice covers the range, or some family is complete;
    • a patch does not touch a slice within a range that it covers, and a complete
      family has no room for a new member, as long as the values of the patch are
      recognised (`mem_of_recognised`), so that the fact is kept
      (`DailyCache.hasAnswer_deliver`);
    • wherever the fact holds, the plan is a full answer, unless a sum leaves the range
      of the counters (`DailyCache.outcome_of_hasAnswer`).

  Other slices compete with the answer: a new exact slice may lack days, another family
  may want items.  Neither ends planning, and a complete family goes before both.

  Main result: `full_answer_stays`, for any list of patches.
-/
import Mathlib
import MetricCube.Proofs.Confluence
import MetricCube.Proofs.Convergence
import MetricCube.Proofs.Disclosure
import MetricCube.Proofs.Screening

namespace MetricCube

namespace Planner

variable {p : Planner} {req : Request} {usable : List Slice} {keys : List String}

/-! ## §1. Clean slices. -/

/-- The slice was made for the core question, and records every defined dimension of its
    assignment as it is defined now. -/
structure Fresh (p : Planner) (core : String) (s : Slice) : Prop where
  asked : s.signature.core? = some core
  recorded : ∀ key ∈ s.assignment.keys, ∀ d, p.registry.find? key = some d →
    s.signature.dimension? key = some d.hash

/-- Fresh slices are daily, stored under the signature of their assignment, and no two of them have
    the same assignment. -/
structure Clean (p : Planner) (core : String) (slices : List Slice) : Prop where
  daily : ∀ s ∈ slices, p.Fresh core s → s.payload.IsDaily
  current : ∀ s ∈ slices, p.Fresh core s → s.signature = p.signatureFor core s.assignment
  unique : slices.Pairwise fun s t => p.Fresh core s → p.Fresh core t → s.assignment ≠ t.assignment

/-- Daily slices for the request under current signatures, at most one for each assignment. -/
structure DailyCache (p : Planner) (req : Request) (usable : List Slice) : Prop
    extends Current p req usable where
  daily : ∀ s ∈ usable, s.payload.IsDaily

theorem Usable.fresh {s : Slice} (h : p.Usable req s) : p.Fresh req.core s :=
  ⟨h.core, h.current⟩

/-- The usable ones of clean slices. -/
theorem Clean.dailyCache {slices : List Slice} (h : p.Clean req.core slices) :
    p.DailyCache req (p.compatible slices req) where
  satisfy := allSatisfy_compatible slices
  current := by
    intro s hs
    obtain ⟨hmem, husable⟩ := mem_compatible.1 hs
    exact h.current s hmem husable.fresh
  nodup := by
    refine List.pairwise_map.2 ((h.unique.sublist (p.compatible_sublist slices req)).imp_of_mem ?_)
    intro s t hs ht hne
    exact hne (mem_compatible.1 hs).2.fresh (mem_compatible.1 ht).2.fresh
  daily := by
    intro s hs
    obtain ⟨hmem, husable⟩ := mem_compatible.1 hs
    exact h.daily s hmem husable.fresh

/-! ## §2. Full answers. -/

/-- The outcome is an answer from the exact slice, or from a complete family. -/
def InFull (outcome : Outcome) : Prop :=
  ∃ answer first rest, outcome = .satisfied answer (first :: rest)
    ∧ (first = .exact ∨ ∃ keys others, first = .complete keys others)

/-- The exact slice covers the range, or some family is complete. -/
def HasAnswer (p : Planner) (req : Request) (usable : List Slice) : Prop :=
  (∃ s ∈ usable, s.assignment = req.assignment ∧ p.Covers req.range s.payload)
    ∨ ∃ keys ∈ keySets req usable, ∃ answer shares,
        p.verdictAt req usable keys = .complete answer shares

/-- What slices count over a range, without a bound. -/
def amountOver (range : DateRange) (slices : List Slice) : Amount :=
  (range.days.map fun d => (slices.map fun s => s.payload.on d).sum).sum

/-- Some usable slices that cover the range count more over it than counters hold. -/
def TooLarge (p : Planner) (req : Request) (usable : List Slice) : Prop :=
  ∃ members, members.Sublist usable ∧ (∀ s ∈ members, p.Covers req.range s.payload)
    ∧ ¬ (amountOver req.range members).Fits

namespace DailyCache

/-- What a daily slice shows of a range that it covers. -/
theorem view_of_covers (h : p.DailyCache req usable) {s : Slice} (hs : s ∈ usable)
    (hcovers : p.Covers req.range s.payload) : ∃ u, s.payload = .daily u
      ∧ p.view req.range s.payload = .daily (u.clip req.range)
      ∧ (u.clip req.range).Holds req.range.days fun d => s.payload.on d := by
  obtain ⟨u, hu⟩ := h.daily s hs
  rw [hu] at hcovers ⊢
  have hfull := covers_daily.1 hcovers
  refine ⟨u, rfl, view_daily_of_full hfull, Series.holds_of_dates (Series.dates_clip hfull) ?_⟩
  intro pt hpt
  obtain ⟨hmem, hin⟩ := List.mem_filter.1 hpt
  rw [(u.clip req.range).holds_amountOn.amount_eq pt hpt, Series.amountOn_clip hin]
  rfl

/-- The exact slice answers, or it counts too much, or it does not cover the range. -/
theorem exactFinding_cases (h : p.DailyCache req usable) {s : Slice} (hs : s ∈ usable) :
    (p.Covers req.range s.payload ∧ ∃ answer, p.exactFinding req s = .answered answer .exact)
      ∨ (p.Covers req.range s.payload ∧ p.exactFinding req s = .overflow
          ∧ ¬ (amountOver req.range [s]).Fits)
      ∨ (¬ p.Covers req.range s.payload ∧ ∃ items, p.exactFinding req s = .wanting items) := by
  by_cases hcovers : p.Covers req.range s.payload
  · obtain ⟨u, _, hview, hholds⟩ := h.view_of_covers hs hcovers
    cases htotal : (u.clip req.range).total with
    | ok total => exact .inl ⟨hcovers, _, by simp only [exactFinding, hview, htotal]; rfl⟩
    | error e =>
      refine .inr (.inl ⟨hcovers, by simp only [exactFinding, hview, htotal], fun hfits => ?_⟩)
      obtain ⟨c, hc⟩ := Count.exists_of_fits hfits
      simp only [amountOver, List.map_cons, List.map_nil, List.sum_cons, List.sum_nil,
        add_zero] at hc
      rw [hholds.total_eq_ok_iff.2 hc] at htotal
      cases htotal
  · obtain ⟨u, hu⟩ := h.daily s hs
    refine .inr (.inr ⟨hcovers,
      ((p.view req.range s.payload).wanted req.range).map (p.item req s.assignment), ?_⟩)
    rw [hu, covers_daily] at hcovers
    simp only [exactFinding, hu, view_daily_of_gaps hcovers]

/-- Members that cover the range add up to an answer, unless they count too much. -/
theorem exists_answerOf (h : p.DailyCache req usable) (hkeys : keys ∈ keySets req usable)
    (hcovers : ∀ s ∈ (familyAt req usable keys).members, p.Covers req.range s.payload)
    (hfits : (amountOver req.range (familyAt req usable keys).members).Fits) :
    ∃ payload answer, sumPayloads (p.shownMembers req.range (familyAt req usable keys)) = .ok payload
      ∧ answerOf req.range payload = .ok answer := by
  have hshown : ∀ s ∈ p.shownMembers req.range (familyAt req usable keys),
      ∃ series, s.payload = .daily series
        ∧ series.Holds req.range.days fun d => s.payload.on d := by
    intro s hs
    obtain ⟨t, ht, rfl⟩ := List.mem_map.1 hs
    obtain ⟨u, hu, hview, hholds⟩ := h.view_of_covers (mem_familyAt.1 ht).1 (hcovers t ht)
    refine ⟨u.clip req.range, by rw [shownOf, hview]; rfl, ?_⟩
    have hpayload : (p.shownOf req.range t).payload = .daily (u.clip req.range) := by
      rw [shownOf, hview]
      rfl
    rw [hpayload, ← hholds.dates_eq]
    exact (u.clip req.range).holds_amountOn
  -- On the days of the range, what is shown is what is held.
  have hsums : ∀ d ∈ req.range.days,
      ((p.shownMembers req.range (familyAt req usable keys)).map fun s => s.payload.on d).sum
        = ((familyAt req usable keys).members.map fun s => s.payload.on d).sum := by
    intro d hd
    rw [shownMembers, List.map_map]
    refine congrArg List.sum (List.map_congr_left fun t ht => ?_)
    obtain ⟨u, hu, hview, _⟩ := h.view_of_covers (mem_familyAt.1 ht).1 (hcovers t ht)
    rw [Function.comp_apply, shownOf, hview, hu]
    exact Series.amountOn_clip (DateRange.mem_days.1 hd)
  have hne : p.shownMembers req.range (familyAt req usable keys) ≠ [] := by
    rw [shownMembers]
    exact fun hnil => (belongs_familyAt h.satisfy hkeys).members (List.map_eq_nil_iff.1 hnil)
  obtain ⟨series, hsum⟩ := exists_sumPayloads hne hshown fun d hd => by
    rw [hsums d hd]
    exact Amount.Fits.of_mem_sum hfits hd
  have hholds : series.Holds req.range.days fun d =>
      ((p.shownMembers req.range (familyAt req usable keys)).map fun s => s.payload.on d).sum := by
    refine shows_sumPayloads (g := fun s d => s.payload.on d) (fun s hs => ?_) hsum
    obtain ⟨u, hu, hholds⟩ := hshown s hs
    rw [hu] at hholds ⊢
    exact hholds
  obtain ⟨c, hc⟩ := Count.exists_of_fits hfits
  have htotal : series.total = .ok c := by
    rw [hholds.total_eq_ok_iff, hc, amountOver]
    exact congrArg List.sum (List.map_congr_left fun d hd => (hsums d hd).symm)
  exact ⟨.daily series, ⟨req.range, some series, c⟩, hsum, by rw [answerOf, htotal]; rfl⟩

/-- A family never ends planning but by counting too much. -/
theorem tooLarge_of_overflow (h : p.DailyCache req usable) (hkeys : keys ∈ keySets req usable)
    {complete : Option Bool} (hv : p.verdictAt req usable keys = .overflow complete) :
    p.TooLarge req usable := by
  have hj : p.Judged req _ (p.verdictAt req usable keys) :=
    judged_verdict (belongs_familyAt h.satisfy hkeys)
  -- The members cover the range, so only counts that are too large keep them from an answer.
  have hlarge : p.Settled req (familyAt req usable keys) →
      (∀ payload answer,
        sumPayloads (p.shownMembers req.range (familyAt req usable keys)) = .ok payload →
          answerOf req.range payload ≠ .ok answer) → p.TooLarge req usable := by
    intro hsettled hno
    refine ⟨(familyAt req usable keys).members, List.filter_sublist, hsettled.covers, ?_⟩
    intro hfits
    obtain ⟨payload, answer, hsum, hanswer⟩ := h.exists_answerOf hkeys hsettled.covers hfits
    exact hno payload answer hsum hanswer
  rw [hv] at hj
  cases hj with
  | overflow cause hsettled hsum =>
    refine hlarge hsettled fun payload answer hok => ?_
    rw [hsum] at hok
    cases hok
  | largeTotal payload cause complete hsettled hsum hanswer =>
    refine hlarge hsettled fun payload' answer hok hanswer' => ?_
    rw [hsum] at hok
    cases hok
    rw [hanswer] at hanswer'
    cases hanswer'

/-- No family is at fault. -/
theorem not_faulted (h : p.DailyCache req usable) (hkeys : keys ∈ keySets req usable)
    {covered : Bool} {fault : PlanFault} :
    p.verdictAt req usable keys ≠ .faulted covered fault := by
  intro hv
  have hj : p.Judged req _ (p.verdictAt req usable keys) :=
    judged_verdict (belongs_familyAt h.satisfy hkeys)
  rw [hv] at hj
  cases hj with
  | repeated cell hrepeat => exact hrepeat (h.toCurrent.noRepeat hkeys)
  | mixed _ hmixed =>
    obtain ⟨s, hs, hwindow⟩ := hmixed.window
    exact (h.daily s (mem_familyAt.1 hs).1).not_isWindow hwindow

/-- A plan that answers in full has an answer. -/
theorem hasAnswer_of_outcome (h : p.DailyCache req usable) {outcome : Outcome}
    (houtcome : p.outcome req usable = .ok outcome) (hfull : InFull outcome) :
    p.HasAnswer req usable := by
  obtain ⟨answer, first, rest, rfl, hfirst⟩ := hfull
  have hp := planned_outcome p h.satisfy
  rw [houtcome] at hp
  generalize hresult : (Except.ok (Outcome.satisfied answer (first :: rest))
    : Except Overflow Outcome) = result at hp
  cases hp with
  | exact s older answer' disclosure hchoice hfinding =>
    obtain ⟨hs, ha⟩ := mem_of_chosen hchoice
    refine .inl ⟨s, hs, ha, ?_⟩
    rcases h.exactFinding_cases hs with ⟨hcovers, _⟩ | ⟨hcovers, _⟩ | ⟨_, items, hwanting⟩
    · exact hcovers
    · exact hcovers
    · rw [hfinding] at hwanting
      cases hwanting
  | complete _ keys answer' shares others _ _ hkeys hv =>
    exact .inr ⟨keys, hkeys, answer', shares, hv⟩
  | incomplete keys answer' disclosures _ _ _ hkeys hv =>
    -- An incomplete family says so first.
    have hj : p.Judged req _ (p.verdictAt req usable keys) :=
      judged_verdict (belongs_familyAt h.satisfy hkeys)
    rw [hv] at hj
    cases hj
    cases hresult
    rcases hfirst with hfirst | ⟨_, _, hfirst⟩ <;> cases hfirst
  | ambiguous | exactOverflow | halted | overflow | fetchExact | fetchFamily | fetchWhole =>
    cases hresult

/-- **Where there is an answer, the plan is a full answer, unless a sum is too large.** -/
theorem outcome_of_hasAnswer (h : p.DailyCache req usable) (hanswer : p.HasAnswer req usable) :
    (∃ outcome, p.outcome req usable = .ok outcome ∧ InFull outcome)
      ∨ (p.outcome req usable = .error .counts ∧ p.TooLarge req usable) := by
  have hp := planned_outcome p h.satisfy
  generalize p.outcome req usable = result at hp
  -- A plan that is undecided has neither an exact slice that covers the range nor a complete family.
  have hexact : p.Undecided req usable →
      ∃ s ∈ usable, s.assignment = req.assignment ∧ p.Covers req.range s.payload := by
    intro hundecided
    rcases hanswer with hexact | ⟨keys, hkeys, answer, shares, hv⟩
    · exact hexact
    · have hnone := hundecided.2 keys hkeys
      rw [Finding.complete?, findingAt, hv] at hnone
      cases hnone
  have hpresent : p.Undecided req usable → p.exactChoice usable req ≠ .absent := by
    intro hundecided habsent
    obtain ⟨s, hs, ha, _⟩ := hexact hundecided
    exact absent_of_exactChoice habsent s hs ha
  cases hp with
  | ambiguous hambiguous => exact absurd hambiguous h.toCurrent.exactChoice_ne_ambiguous
  | exact s older answer disclosure hchoice hfinding =>
    rcases h.exactFinding_cases (mem_of_chosen hchoice).1 with ⟨_, _, h'⟩ | ⟨_, h', _⟩ | ⟨_, _, h'⟩
    · rw [hfinding] at h'
      cases h'
      exact .inl ⟨_, rfl, answer, .exact, [], rfl, .inl rfl⟩
    · rw [hfinding] at h'
      cases h'
    · rw [hfinding] at h'
      cases h'
  | exactOverflow s older hchoice hfinding =>
    have hs := (mem_of_chosen hchoice).1
    rcases h.exactFinding_cases hs with ⟨_, _, h'⟩ | ⟨hcovers, _, hlarge⟩ | ⟨_, _, h'⟩
    · rw [hfinding] at h'
      cases h'
    · refine .inr ⟨rfl, [s], List.singleton_sublist.2 hs, fun t ht => ?_, hlarge⟩
      rw [List.mem_singleton.1 ht]
      exact hcovers
    · rw [hfinding] at h'
      cases h'
  | halted _ keys covered fault _ hkeys hv => exact absurd hv (h.not_faulted hkeys)
  | overflow _ keys complete _ hkeys hv => exact .inr ⟨rfl, h.tooLarge_of_overflow hkeys hv⟩
  | complete _ keys answer shares others _ _ hkeys hv =>
    exact .inl ⟨_, rfl, answer, _, shares, rfl, .inr ⟨keys, others, rfl⟩⟩
  | fetchExact s older items hchoice hfinding hundecided _ =>
    obtain ⟨t, ht, hta, hcovers⟩ := hexact hundecided
    obtain ⟨hs, hsa⟩ := mem_of_chosen hchoice
    rw [h.toCurrent.eq_of_assignment ht hs (hta.trans hsa.symm)] at hcovers
    exact absurd hcovers (issued_of_exactFinding hfinding).2
  | fetchFamily _ _ _ _ habsent hundecided => exact absurd habsent (hpresent hundecided)
  | incomplete _ _ _ habsent hundecided => exact absurd habsent (hpresent hundecided)
  | fetchWhole habsent hundecided => exact absurd habsent (hpresent hundecided)

end DailyCache

/-! ## §3. One patch. -/

variable {d : Delivery}

/-- Every value of a defined dimension that is not open is one of its values. -/
def Recognised (p : Planner) (a : Assignment) : Prop :=
  ∀ key value definition, a.get? key = some value → p.registry.find? key = some definition →
    definition.policy ≠ .openEnded → definition.recognises value = true

/-- **A family that fills its grid has no room for a new member,** if the values are recognised. -/
theorem mem_of_recognised {family : Family Slice} (hb : Belongs req.assignment family)
    (hfull : p.Filled family) {a : Assignment} (hsat : a.satisfies req.assignment = true)
    (hkeys : a.extraKeys req.assignment = family.keys) (hrec : p.Recognised a) :
    a ∈ assignmentsOf family := by
  have hcarried : ∀ key ∈ family.keys, ∃ value, a.get? key = some value := by
    intro key hkey
    rw [← hkeys] at hkey
    exact (Assignment.mem_extraKeys.1 hkey).1
  choose! choice hget using hcarried
  -- The values are a choice of expected ones, so that some member makes it.
  have hchoice : choice ∈ Grid.points (assignmentsOf family) family.keys := by
    rw [hfull.points_eq (hb.kin.nodup hb.assignments) hb.assignments]
    intro key hkey
    obtain ⟨definition, hfind, hexh⟩ := hfull.exhaustive.defined key hkey
    have hknown := hrec key _ definition (hget key hkey) hfind (Policy.isExhaustive_iff.1 hexh)
    exact ⟨definition, hfind, Definition.mem_expected_of_recognises hknown⟩
  obtain ⟨b, hbmem, hbget⟩ := hchoice
  have hsame : b.project family.keys = a.project family.keys := by
    refine Assignment.ext_get? fun key => ?_
    rw [Assignment.get?_project, Assignment.get?_project]
    by_cases hkey : key ∈ family.keys
    · rw [if_pos hkey, if_pos hkey, hbget key hkey, hget key hkey]
    · rw [if_neg hkey, if_neg hkey]
  obtain ⟨hbsat, hbkeys⟩ := hb.kin b hbmem
  exact Assignment.eq_of_project_eq hbsat hsat hbkeys hkeys hsame ▸ hbmem

namespace DailyCache

theorem deliver (h : p.DailyCache req usable) {ds : List Delivery} (hds : p.AllIssued req ds) :
    p.DailyCache req (Store.deliver ds usable) := by
  refine ⟨h.toCurrent.deliver hds, fun s hs => ?_⟩
  rcases Store.mem_deliver hs with hs | ⟨_, hdaily⟩
  · exact h.daily s hs
  · exact hdaily

/-- **A patch does not touch a slice within a range that it covers.** -/
theorem view_written (h : p.DailyCache req usable) {s : Slice} (hs : s ∈ usable)
    (hcovers : p.Covers req.range s.payload) (slot : Slot) (t : Series) :
    p.view req.range (Store.written slot t s).payload = p.view req.range s.payload := by
  unfold Store.written
  split
  · obtain ⟨u, hu, hview, _⟩ := h.view_of_covers hs hcovers
    rw [hu] at hcovers
    have hfull := covers_daily.1 hcovers
    rw [hview, hu]
    show p.view req.range (.daily (u.merge t)) = _
    rw [view_daily_of_full fun day hday => Series.mem_dates_merge.2 (.inl (hfull day hday)),
      Series.clip_merge hfull]
  · rfl

theorem shownOf_written (h : p.DailyCache req usable) {s : Slice} (hs : s ∈ usable)
    (hcovers : p.Covers req.range s.payload) (slot : Slot) (t : Series) :
    p.shownOf req.range (Store.written slot t s) = p.shownOf req.range s := by
  obtain ⟨shown, hshown⟩ := Option.isSome_iff_exists.1 hcovers
  rw [shownOf, shownOf, h.view_written hs hcovers, hshown]
  unfold Store.written
  split <;> rfl

/-- A slice that covers the range still does. -/
theorem covers_deliver (h : p.DailyCache req usable) {s : Slice} (hs : s ∈ usable)
    (hcovers : p.Covers req.range s.payload) (ds : List Delivery) :
    ∃ s' ∈ Store.deliver ds usable, s'.assignment = s.assignment
      ∧ p.Covers req.range s'.payload := by
  obtain ⟨u, hu⟩ := h.daily s hs
  rw [hu, covers_daily] at hcovers
  have hdays : Store.HasDays usable s.slot fun day => day ∈ u.dates := ⟨s, hs, rfl, u, hu, fun _ h => h⟩
  obtain ⟨s', hs', hslot, v, hv, huv⟩ := @Store.HasDays.deliver usable ds _ _ hdays
  refine ⟨s', hs', congrArg Prod.fst hslot, ?_⟩
  rw [hv, covers_daily]
  exact fun day hday => huv day (hcovers day hday)

/-- A patch for a family that fills its grid is written to one of its members. -/
theorem members_deliver (h : p.DailyCache req usable) (hissued : p.Issued req d.item)
    (hrec : p.Recognised d.item.assignment) (hkeys : keys ∈ keySets req usable)
    (hown : d.item.assignment.extraKeys req.assignment = keys)
    (hfilled : p.Filled (familyAt req usable keys)) :
    (familyAt req (Store.deliver [d] usable) keys).members
      = (familyAt req usable keys).members.map (Store.written d.slot d.series) := by
  obtain ⟨s, hs, ha⟩ := List.mem_map.1
    (mem_of_recognised (belongs_familyAt h.satisfy hkeys) hfilled hissued.1 hown hrec)
  -- The slot of the item is that of a member.
  have hslot : d.slot ∈ (familyAt req usable keys).members.map Slice.slot := by
    refine List.mem_map.2 ⟨s, hs, ?_⟩
    rw [h.toCurrent.slot_eq (mem_familyAt.1 hs).1, ha, Delivery.slot, hissued.signature_eq]
  have hnodup : ((familyAt req usable keys).members.map Slice.slot).Nodup :=
    (nodup_slots h.nodup).sublist (List.filter_sublist.map _)
  let Q : Slot → Bool := fun σ => decide (σ.1.extraKeys req.assignment = keys)
  have hQ : ∀ e ∈ [d], Q e.slot = true := by
    intro e he
    rw [List.mem_singleton.1 he]
    exact decide_eq_true hown
  rw [← Store.mergeDaily_eq_map hnodup hslot]
  exact @Store.filter_deliver usable [d] Q hQ

/-- **A complete family stays complete,** whatever is delivered to one of its members. -/
theorem complete_deliver (h : p.DailyCache req usable) (hissued : p.Issued req d.item)
    (hrec : p.Recognised d.item.assignment) (hkeys : keys ∈ keySets req usable)
    (hown : d.item.assignment.extraKeys req.assignment = keys) {answer : Answer}
    {shares : List Disclosure} (hv : p.verdictAt req usable keys = .complete answer shares) :
    ∃ shares', p.verdictAt req (Store.deliver [d] usable) keys = .complete answer shares' := by
  have hb := belongs_familyAt h.satisfy hkeys
  have hj : p.Judged req _ (p.verdictAt req usable keys) := judged_verdict hb
  rw [hv] at hj
  cases hj with
  | complete payload _ hsettled hfilled hsum hanswer =>
    have hds : p.AllIssued req [d] := fun e he => List.mem_singleton.1 he ▸ hissued
    have hmembers := h.members_deliver hissued hrec hkeys hown hfilled
    have hsu : ∀ s ∈ (familyAt req usable keys).members, s ∈ usable := fun s hs =>
      (mem_familyAt.1 hs).1
    -- The members keep their assignments and, within the range that they cover, what they show.
    have hassignments : assignmentsOf (familyAt req (Store.deliver [d] usable) keys)
        = assignmentsOf (familyAt req usable keys) := by
      rw [assignmentsOf, hmembers, List.map_map]
      exact List.map_congr_left fun s _ => Store.assignment_written ..
    have hcovers : ∀ s ∈ (familyAt req (Store.deliver [d] usable) keys).members,
        p.Covers req.range s.payload := by
      intro s hs
      rw [hmembers] at hs
      obtain ⟨t, ht, rfl⟩ := List.mem_map.1 hs
      rw [Covers, h.view_written (hsu t ht) (hsettled.covers t ht)]
      exact hsettled.covers t ht
    have hshown : p.shownMembers req.range (familyAt req (Store.deliver [d] usable) keys)
        = p.shownMembers req.range (familyAt req usable keys) := by
      rw [shownMembers, hmembers, List.map_map]
      exact List.map_congr_left fun t ht =>
        h.shownOf_written (hsu t ht) (hsettled.covers t ht) d.slot d.series
    have hafter : keys ∈ keySets req (Store.deliver [d] usable) :=
      (mem_keySets_deliver h.satisfy hds).2 (.inl hkeys)
    have hfilled' : p.Filled (familyAt req (Store.deliver [d] usable) keys) := by
      unfold Filled
      rw [hassignments]
      exact hfilled
    rw [← hshown] at hsum
    exact ⟨_, verdict_complete hb.keys ((h.deliver hds).toCurrent.noRepeat hafter) hfilled' hcovers
      hsum hanswer⟩

/-- **A patch leaves an answer where there is one.** -/
theorem hasAnswer_deliver (h : p.DailyCache req usable) (hanswer : p.HasAnswer req usable)
    (hissued : p.Issued req d.item) (hrec : p.Recognised d.item.assignment) :
    p.HasAnswer req (Store.deliver [d] usable) := by
  have hds : p.AllIssued req [d] := fun e he => List.mem_singleton.1 he ▸ hissued
  rcases hanswer with ⟨s, hs, ha, hcovers⟩ | ⟨keys, hkeys, answer, shares, hv⟩
  · obtain ⟨s', hs', ha', hcovers'⟩ := h.covers_deliver hs hcovers [d]
    exact .inl ⟨s', hs', ha'.trans ha, hcovers'⟩
  · have hafter : keys ∈ keySets req (Store.deliver [d] usable) :=
      (mem_keySets_deliver h.satisfy hds).2 (.inl hkeys)
    by_cases hown : d.item.assignment.extraKeys req.assignment = keys
    · obtain ⟨shares', hv'⟩ := h.complete_deliver hissued hrec hkeys hown hv
      exact .inr ⟨keys, hafter, answer, shares', hv'⟩
    · -- Another family, or the exact slice, is patched: this family is judged as before.
      have hother : ∀ e ∈ [d], e.item.assignment.extraKeys req.assignment ≠ keys := by
        intro e he
        rw [List.mem_singleton.1 he]
        exact hown
      refine .inr ⟨keys, hafter, answer, shares, ?_⟩
      rw [verdictAt, familyAt_deliver hother]
      exact hv

end DailyCache

/-! ## §4. Any list of patches. -/

/-- A daily patch of the core question, under the signature of its assignment, with values that
    are recognised. -/
structure Continues (p : Planner) (core : String) (x : Merging) : Prop where
  daily : x.patch.payload.IsDaily
  current : x.patch.signature = p.signatureFor core x.patch.assignment
  recognised : p.Recognised x.patch.assignment

/-- Daily slices with an answer among those that are usable. -/
structure Answering (p : Planner) (req : Request) (slices : List Slice) : Prop where
  cache : p.DailyCache req (p.compatible slices req)
  answer : p.HasAnswer req (p.compatible slices req)

/-- A patch for another part of the cube is not usable. -/
theorem compatible_mergeDaily_of_not {slot : Slot} {t : Series} {slices : List Slice}
    (h : slot.1.satisfies req.assignment = false) :
    p.compatible (Store.mergeDaily slot t slices) req = p.compatible slices req := by
  have hnot : p.usableAt req slot = false := by
    show (slot.1.satisfies req.assignment && _) = false
    rw [h, Bool.false_and]
  rw [compatible_eq_filter_slot, compatible_eq_filter_slot]
  exact Store.filter_mergeDaily_of_not hnot

/-- One patch. -/
theorem Answering.attempt {s : Store} {x : Merging} (hcore : req.core ≠ "")
    (h : p.Answering req (s.slices req.metric)) (hx : p.Continues req.core x) :
    p.Answering req ((s.attempt x).slices req.metric) := by
  obtain ⟨t, ht⟩ := hx.daily
  by_cases hmetric : req.metric = x.metric
  · rw [hmetric] at h ⊢
    rw [s.slices_attempt_daily ht]
    -- Only a patch whose assignment satisfies the request's is among the usable slices.
    by_cases hsat : x.patch.assignment.satisfies req.assignment = true
    · let d : Delivery := ⟨p.item req x.patch.assignment req.range, t⟩
      have hissued : p.Issued req d.item := issued_item hsat req.range
      have hds : p.AllIssued req [d] := fun e he => List.mem_singleton.1 he ▸ hissued
      have hslot : x.slot = d.slot := Prod.ext rfl hx.current
      have husable : p.compatible (Store.mergeDaily x.slot t (s.slices x.metric)) req
          = Store.deliver [d] (p.compatible (s.slices x.metric) req) := by
        rw [hslot]
        exact compatible_deliver hcore hds
      constructor
      · rw [husable]
        exact h.cache.deliver hds
      · rw [husable]
        exact h.cache.hasAnswer_deliver h.answer hissued hx.recognised
    · have husable := @compatible_mergeDaily_of_not p req x.slot t (s.slices x.metric)
        (Bool.eq_false_iff.2 hsat)
      exact ⟨husable ▸ h.cache, husable ▸ h.answer⟩
  · rw [s.slices_attempt_of_ne x hmetric]
    exact h

/-- Any number of patches. -/
theorem Answering.after (hcore : req.core ≠ "") {xs : List Merging} : ∀ {s : Store},
    p.Answering req (s.slices req.metric) → (∀ x ∈ xs, p.Continues req.core x) →
      p.Answering req ((s.after xs).slices req.metric) := by
  induction xs with
  | nil =>
    intro s h _
    exact h
  | cons x xs ih =>
    intro s h hxs
    exact ih (h.attempt hcore (hxs x List.mem_cons_self))
      fun y hy => hxs y (List.mem_cons_of_mem _ hy)

/-- **Over clean slices, a full answer stays after any daily patches of the core question whose
    values are recognised,** unless the slices count more over the range than counters hold. -/
theorem full_answer_stays {s : Store} {outcome : Outcome} {xs : List Merging}
    (hcore : req.core ≠ "") (hclean : p.Clean req.core (s.slices req.metric))
    (hplan : p.outcomeOf (s.slices req.metric) req = .ok outcome) (hfull : InFull outcome)
    (hxs : ∀ x ∈ xs, p.Continues req.core x) :
    (∃ reports, s.mergeEach xs = .ok (reports, s.after xs))
      ∧ ((∃ outcome', p.outcomeOf ((s.after xs).slices req.metric) req = .ok outcome'
            ∧ InFull outcome')
        ∨ (p.outcomeOf ((s.after xs).slices req.metric) req = .error .counts
          ∧ p.TooLarge req (p.compatible ((s.after xs).slices req.metric) req))) := by
  obtain ⟨reports, hmerge, _⟩ := Store.mergeEach_daily (fun x hx => (hxs x hx).daily) s
  have hcache := hclean.dailyCache
  rw [outcomeOf_eq] at hplan
  have hanswering : p.Answering req (s.slices req.metric) :=
    ⟨hcache, hcache.hasAnswer_of_outcome hplan hfull⟩
  have hafter := hanswering.after hcore hxs
  refine ⟨⟨reports, hmerge⟩, ?_⟩
  rw [outcomeOf_eq]
  exact hafter.cache.outcome_of_hasAnswer hafter.answer

namespace Sample

/-- Both channels, in full. -/
def fullStore : Store :=
  Store.empty.after (channels.map (Merging.mk "signups"))

/-- One day of all channels together, further days of a channel, a channel by region, and another
    metric. -/
def further : List Merging :=
  [⟨"signups", ⟨.empty, .daily (constant (.single (.ofDays 2)) (.wrap 3 1)),
      planner.signatureFor "core" .empty⟩⟩,
    ⟨"signups", slice "ads" ⟨.ofDays 2, .ofDays 5, by decide⟩⟩,
    ⟨"signups", ⟨(only "ads").insert "region" "north", .daily (constant days (.wrap 1 1)),
      planner.signatureFor "core" ((only "ads").insert "region" "north")⟩⟩,
    ⟨"visits", slice "mail" days⟩]

/-- The answer that the channels add up to. -/
def channelSum : Outcome :=
  .satisfied ⟨days, some (constant days (.wrap 3 1)), .wrap 9 3⟩ [.complete ["channel"] []]

theorem run_fullStore : fullStore.slices request.metric = channels
    ∧ planner.outcomeOf (fullStore.slices request.metric) request = .ok channelSum := by
  decide +kernel

theorem clean_fullStore : planner.Clean request.core (fullStore.slices request.metric) := by
  rw [run_fullStore.1]
  refine ⟨?_, ?_, ?_⟩
  · intro s hs _
    simp only [channels, List.mem_cons, List.not_mem_nil, or_false] at hs
    rcases hs with rfl | rfl <;> exact ⟨_, rfl⟩
  · intro s hs _
    simp only [channels, List.mem_cons, List.not_mem_nil, or_false] at hs
    rcases hs with rfl | rfl <;> rfl
  · have hne : only "ads" ≠ only "mail" := by decide
    exact List.pairwise_pair.2 fun _ _ => hne

theorem recognised_of_channel {a : Assignment}
    (h : ∀ value, a.get? "channel" = some value → channel.recognises value = true) :
    planner.Recognised a := by
  intro key value definition hget hfind _
  obtain ⟨hkey, rfl⟩ := find?_planner hfind
  rw [(Assignment.folded_of_get? hget).1] at hkey
  rw [hkey] at hget
  exact h value hget

theorem continues_further : ∀ x ∈ further, planner.Continues request.core x := by
  have hvalue : ∀ a : Assignment, (a.get? "channel").all channel.recognises = true →
      planner.Recognised a := by
    intro a h
    refine recognised_of_channel fun value hget => ?_
    rw [hget] at h
    exact h
  intro x hx
  simp only [further, List.mem_cons, List.not_mem_nil, or_false] at hx
  rcases hx with rfl | rfl | rfl | rfl <;>
    exact ⟨⟨_, rfl⟩, rfl, hvalue _ (by decide +kernel)⟩

end Sample

/-- A day of all channels, more days of one, and a channel by region do not take the answer away. -/
theorem full_answer_of_channels : Sample.request.core ≠ ""
    ∧ Sample.planner.Clean Sample.request.core (Sample.fullStore.slices Sample.request.metric)
    ∧ InFull Sample.channelSum
    ∧ (∀ x ∈ Sample.further, Sample.planner.Continues Sample.request.core x)
    ∧ (∃ reports, Sample.fullStore.mergeEach Sample.further
        = .ok (reports, Sample.fullStore.after Sample.further))
    ∧ ∃ outcome', Sample.planner.outcomeOf
          ((Sample.fullStore.after Sample.further).slices Sample.request.metric) Sample.request
        = .ok outcome' ∧ InFull outcome' := by
  have hfull : InFull Sample.channelSum := ⟨_, _, _, rfl, .inr ⟨_, _, rfl⟩⟩
  have hfits : Sample.planner.outcomeOf
      ((Sample.fullStore.after Sample.further).slices Sample.request.metric) Sample.request
        ≠ .error .counts := by
    decide +kernel
  obtain ⟨hmerge, hplan⟩ := full_answer_stays (by decide) Sample.clean_fullStore
    Sample.run_fullStore.2 hfull Sample.continues_further
  exact ⟨by decide, Sample.clean_fullStore, hfull, Sample.continues_further, hmerge,
    hplan.resolve_right fun h => hfits h.1⟩

end Planner

end MetricCube
