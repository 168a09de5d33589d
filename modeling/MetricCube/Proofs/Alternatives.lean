/-
  MetricCube.Proofs.Alternatives
  ──────────────────────────────
  **Alternatives of an answer.**  An answer that is summed over a complete family
  names the key sets of further ones.  Together they are the key sets of all families
  that make up the request, in ascending order, and the smallest one answers:

      keys ∈ dims :: alternatives  ↔  the slices with these keys make up the request

  Slices make up the request if each covers the range and together they partition
  the cube over their keys (`MakesUp`), which no run of the planner is needed to say.

  If the slices are true, then the total of each family is known up to the shares of
  longer windows that its members show (`Gives`):

      total + Σ true amounts of the sharing members
        = true amount of the request + Σ shares of the sharing members

  So families without shares have the same total, the true one.  With shares they need
  not: a share is rounded, and goes by days alone (`alternative_differs`).
-/
import Mathlib
import MetricCube.Proofs.Rearrangement

namespace MetricCube

/-! ## §1. What a payload counts altogether. -/

namespace Payload

/-- The amount of all days, or of the window. -/
def overall : Payload → Amount
  | .daily s => (s.points.map fun pt => pt.counts.amount).sum
  | .aggregate w => w.counts.amount

theorem overall_of_shows {range : DateRange} {f : Date → Amount} {payload : Payload}
    (h : payload.Shows range f) : payload.overall = (range.days.map f).sum := by
  cases payload with
  | daily s => exact congrArg List.sum (Series.Holds.amounts_eq h)
  | aggregate w => exact h.2

/-- A daily payload counts what it counts on its days. -/
theorem overall_daily {s : Series} {dates : List Date} (h : s.dates = dates) :
    (Payload.daily s).overall = (dates.map fun d => (Payload.daily s).on d).sum := by
  subst h
  exact congrArg List.sum s.holds_amountOn.amounts_eq

end Payload

/-- A sum of payloads counts what the slices count altogether. -/
theorem SumOf.overall {slices : List Slice} {payload : Payload} (h : SumOf slices payload) :
    payload.overall = (slices.map fun s => s.payload.overall).sum := by
  cases payload with
  | daily sum =>
    obtain ⟨hall, hon⟩ := h
    -- The sum is taken day by day, and each slice has the same days.
    have hslices : slices.map (fun s => s.payload.overall)
        = slices.map fun s => (sum.dates.map fun d => s.payload.on d).sum := by
      refine List.map_congr_left fun s hs => ?_
      obtain ⟨series, hpayload, hdates⟩ := hall s hs
      rw [hpayload]
      exact Payload.overall_daily hdates
    rw [hslices, sum_sum_comm slices, Payload.overall_daily rfl]
    exact congrArg List.sum (List.map_congr_left fun d _ => hon d)
  | aggregate sum =>
    obtain ⟨hall, htotal⟩ := h
    show sum.counts.amount = _
    rw [htotal]
    refine congrArg List.sum (List.map_congr_left fun s hs => ?_)
    obtain ⟨w, hpayload, _⟩ := hall s hs
    rw [hpayload]
    rfl

namespace Planner

variable {p : Planner} {req : Request} {usable : List Slice} {T : Truth}

theorem overall_of_answerOf {range : DateRange} {payload : Payload} {answer : Answer}
    (h : answerOf range payload = .ok answer) : answer.total.amount = payload.overall := by
  cases payload with
  | daily s =>
    simp only [answerOf] at h
    cases htotal : s.total with
    | error e =>
      rw [htotal] at h
      cases h
    | ok total =>
      rw [htotal] at h
      cases h
      rw [Payload.overall_daily rfl]
      exact s.holds_amountOn.total_eq_ok_iff.1 htotal
  | aggregate w =>
    cases h
    rfl

/-! ## §2. Complete families. -/

/-- The usable slices with the given keys beyond the request make it up. -/
structure MakesUp (p : Planner) (req : Request) (usable : List Slice) (keys : List String) :
    Prop where
  /-- Some key is left open by the request. -/
  beyond : keys ≠ []
  covers : ∀ s ∈ (familyAt req usable keys).members, p.Covers req.range s.payload
  /-- What they show of the range is a partition of the cube over the keys. -/
  partitions : Partitions p.registry (p.shownMembers req.range (familyAt req usable keys)) keys

theorem assignmentsIn_shownMembers {range : DateRange} {family : Family Slice} :
    assignmentsIn (p.shownMembers range family) = assignmentsOf family := by
  rw [assignmentsIn, shownMembers, List.map_map]
  rfl

theorem MakesUp.mem_keySets {keys : List String} (hall : AllSatisfy req usable)
    (h : p.MakesUp req usable keys) : keys ∈ keySets req usable := by
  have hmembers : (familyAt req usable keys).members ≠ [] := by
    intro hnil
    refine h.partitions.nonempty ?_
    rw [shownMembers, hnil, List.map_nil]
  obtain ⟨s, hs⟩ := List.exists_mem_of_ne_nil _ hmembers
  exact (Planner.mem_keySets hall).2 ⟨h.beyond, s, mem_familyAt.1 hs⟩

/-- The slices of a complete verdict are reduced to a complete sum, which is the answer. -/
theorem reduced_of_complete {family : Family Slice} {answer : Answer} {shares : List Disclosure}
    (hb : Belongs req.assignment family) (h : p.verdict req family = .complete answer shares) :
    (∀ s ∈ family.members, p.Covers req.range s.payload)
      ∧ NoRepeat family ∧ p.Filled family
      ∧ ∃ r, reduce p.registry (p.shownMembers req.range family) family.keys = .ok (.reduced r)
        ∧ r.isComplete = true ∧ answerOf req.range r.payload = .ok answer
        ∧ SumOf (p.shownMembers req.range family) r.payload := by
  have hj : p.Judged req family (p.verdict req family) := judged_verdict hb
  rw [h] at hj
  cases hj with
  | complete payload _ hsettled hfilled hsum hanswer =>
    have hfull : ((assignmentsIn (p.shownMembers req.range family)).map fun a =>
          a.project family.keys).Nodup
        ∧ Grid.Full p.registry (assignmentsIn (p.shownMembers req.range family)) family.keys := by
      rw [assignmentsIn_shownMembers]
      exact ⟨hsettled.nodup, hfilled⟩
    have hdimensions : (p.reductionOf family payload).dimensions = (Grid.axesOf p.registry
        (assignmentsIn (p.shownMembers req.range family)) family.keys).map Grid.Axis.status := by
      rw [assignmentsIn_shownMembers]
      rfl
    obtain ⟨hr, hcomplete⟩ := (reduce_eq_complete_iff (hb.kin.nodup hb.assignments)).2
      ⟨hfull.1, hfull.2, hsum, hdimensions⟩
    exact ⟨hsettled.covers, hsettled.nodup, hfilled, _, hr, hcomplete, hanswer,
      sumOf_of_sumPayloads hsum⟩

/-- **A family is judged complete exactly if its slices make up the request,** unless some family
    ends planning. -/
theorem complete_iff_makesUp {keys : List String} (hall : AllSatisfy req usable)
    (hnohalt : p.NoHalt req usable) :
    (keys ∈ keySets req usable ∧ ∃ answer shares,
        p.verdictAt req usable keys = .complete answer shares)
      ↔ p.MakesUp req usable keys := by
  constructor
  · intro h
    obtain ⟨hkeys, answer, shares, hv⟩ := h
    have hb := belongs_familyAt hall hkeys
    obtain ⟨hcovers, _, _, r, hr, hcomplete, _⟩ := reduced_of_complete hb hv
    exact ⟨hb.keys, hcovers, partitions_of_complete (hb.kin.nodup hb.assignments) hr hcomplete⟩
  · intro h
    have hkeys := h.mem_keySets hall
    have hb := belongs_familyAt hall hkeys
    obtain ⟨hnodup, hfull⟩ := h.partitions.full_grid (hb.kin.nodup hb.assignments)
    rw [assignmentsIn_shownMembers] at hnodup hfull
    have hmissing : p.missingCells (familyAt req usable keys) = [] :=
      missingCells_eq_nil_iff.2 hfull.held
    have hj : p.Judged req _ (p.verdictAt req usable keys) := judged_verdict hb
    have hhalt := hnohalt keys hkeys
    unfold Finding.halt? findingAt at hhalt
    refine ⟨hkeys, ?_⟩
    generalize p.verdictAt req usable keys = v at hj hhalt ⊢
    -- A full grid leaves the verdicts that end planning, and the complete one.
    cases hj with
    | repeated | mixed | overflow | largeTotal => cases hhalt
    | unsuitable failures _ hsuit => exact absurd hfull.suits hsuit
    | wanting cells gaps _ _ hlacks =>
      exact absurd (lacking_eq_nil_iff.2 ⟨fun _ => hmissing, h.covers⟩) hlacks
    | blocked obstacles _ _ hgrid => exact absurd hmissing hgrid
    | complete payload answer => exact ⟨answer, _, rfl⟩
    | incomplete payload answer _ hpartial =>
      rw [isComplete_reductionOf.2 hfull.complete] at hpartial
      cases hpartial

/-! ## §3. The families that an answer names. -/

/-- The key sets of the families that are judged complete. -/
def completeKeys (p : Planner) (req : Request) (usable : List Slice) : List (List String) :=
  (keySets req usable).filter fun keys => (p.findingAt req usable keys).complete?.isSome

theorem mem_completeKeys {keys : List String} : keys ∈ p.completeKeys req usable
    ↔ keys ∈ keySets req usable ∧ ∃ answer shares,
        p.verdictAt req usable keys = .complete answer shares := by
  rw [completeKeys, List.mem_filter, Option.isSome_iff_exists]
  refine and_congr_right fun _ => ?_
  constructor
  · intro h
    obtain ⟨found, hfound⟩ := h
    exact ⟨_, _, (verdictAt_of_complete? hfound).2⟩
  · intro h
    obtain ⟨answer, shares, hv⟩ := h
    exact ⟨(keys, answer, shares), by simp only [Finding.complete?, findingAt, hv]⟩

/-- The findings that are complete are those on the complete families, in the same order. -/
theorem keys_of_complete_findings :
    (((keySets req usable).map (p.findingAt req usable)).filterMap Finding.complete?).map
        (fun found => found.1)
      = p.completeKeys req usable := by
  rw [List.filterMap_map, List.map_filterMap, completeKeys, ← List.filterMap_eq_filter]
  refine List.filterMap_congr fun keys _ => ?_
  rw [Function.comp_apply, Option.guard]
  cases hfound : (p.findingAt req usable keys).complete? with
  | none => rfl
  | some found =>
    rw [← (verdictAt_of_complete? hfound).1]
    rfl

/-- An exact slice answers as it is, or with a share of its window. -/
theorem disclosure_of_exactFinding {s : Slice} {answer : Answer} {disclosure : Disclosure}
    (h : p.exactFinding req s = .answered answer disclosure) :
    disclosure = .exact ∨ ∃ cached, disclosure = .prorated cached req.range := by
  obtain ⟨_, _, _, hdisclosure⟩ := answerOf_of_exactFinding h
  rw [← hdisclosure]
  cases p.view req.range s.payload with
  | share counts cached => exact .inr ⟨cached, rfl⟩
  | daily | window | gaps | beside => exact .inl rfl

/-- What an incomplete family discloses names no complete one. -/
theorem complete_not_mem_of_incomplete {keys : List String} {answer : Answer}
    {disclosures : List Disclosure} (hall : AllSatisfy req usable)
    (hkeys : keys ∈ keySets req usable)
    (h : p.verdictAt req usable keys = .incomplete answer disclosures) (dims : List String)
    (alternatives : List (List String)) : Disclosure.complete dims alternatives ∉ disclosures := by
  have hj : p.Judged req _ (p.verdictAt req usable keys) :=
    judged_verdict (belongs_familyAt hall hkeys)
  rw [h] at hj
  cases hj
  intro hmem
  rcases List.mem_cons.1 hmem with heq | hshare
  · cases heq
  · cases isProrated_of_mem_sharesOf hshare

/-- What a complete family discloses besides is shares. -/
theorem complete_not_mem_shares {keys : List String} {answer : Answer}
    {shares : List Disclosure} (hall : AllSatisfy req usable)
    (hkeys : keys ∈ keySets req usable)
    (h : p.verdictAt req usable keys = .complete answer shares) (dims : List String)
    (alternatives : List (List String)) : Disclosure.complete dims alternatives ∉ shares := by
  have hj : p.Judged req _ (p.verdictAt req usable keys) :=
    judged_verdict (belongs_familyAt hall hkeys)
  rw [h] at hj
  cases hj
  intro hmem
  cases isProrated_of_mem_sharesOf hmem

/-- An answer over a complete family is that of the first one, and names them all. -/
theorem completeKeys_of_outcome {answer : Answer} {disclosures : List Disclosure}
    {dims : List String} {alternatives : List (List String)} (hall : AllSatisfy req usable)
    (h : p.outcome req usable = .ok (.satisfied answer disclosures))
    (hmem : Disclosure.complete dims alternatives ∈ disclosures) :
    p.NoHalt req usable ∧ p.completeKeys req usable = dims :: alternatives
      ∧ ∃ shares, p.verdictAt req usable dims = .complete answer shares := by
  cases answers_of_outcome h with
  | exact s _ disclosure hfinding =>
    -- The only disclosure of an exact slice is of another kind.
    rw [List.mem_singleton] at hmem
    rcases disclosure_of_exactFinding hfinding with heq | ⟨cached, heq⟩
    · exact absurd (hmem.trans heq) (fun hsame => nomatch hsame)
    · exact absurd (hmem.trans heq) (fun hsame => nomatch hsame)
  | complete keys _ shares others hnohalt hkeys hv hlist =>
    rcases List.mem_cons.1 hmem with heq | hshare
    · cases heq
      exact ⟨hnohalt, keys_of_complete_findings.symm.trans hlist, shares, hv⟩
    · exact absurd hshare (complete_not_mem_shares hall hkeys hv dims alternatives)
  | incomplete keys _ _ hkeys hv =>
    exact absurd hmem (complete_not_mem_of_incomplete hall hkeys hv dims alternatives)

/-! ## §4. Totals. -/

/-- The members that show a share of a longer window. -/
def sharing (p : Planner) (range : DateRange) (family : Family Slice) : List Slice :=
  family.members.filter fun s => ((p.view range s.payload).disclosure? range).isSome

/-- The slice truly counts a longer window around the range, and shows it shared out by days. -/
def SharesOut (p : Planner) (T : Truth) (range : DateRange) (s : Slice) : Prop :=
  ∃ w, s.payload = .aggregate w ∧ w.range ≠ range ∧ w.range.containsRange range = true
    ∧ w.counts.amount = T.total s.assignment w.range ∧ p.settings.prorateAggregates = true
    ∧ (p.shownOf range s).payload
      = .aggregate ⟨range, w.counts.prorate range.lengthWord w.range.lengthWord⟩

theorem sharesOut_of_mem_sharing {range : DateRange} {family : Family Slice} {s : Slice}
    (htrue : s.TruthfulTo T) (h : s ∈ p.sharing range family) : p.SharesOut T range s := by
  obtain ⟨_, hshare⟩ := List.mem_filter.1 h
  unfold Slice.TruthfulTo at htrue
  unfold SharesOut shownOf
  cases hpayload : s.payload with
  | daily series =>
    -- Daily counts are shown as they are, or not at all.
    rw [hpayload] at hshare
    unfold view at hshare
    simp only at hshare
    split at hshare <;> cases hshare
  | aggregate w =>
    rw [hpayload] at hshare htrue
    unfold view Window.cover at hshare ⊢
    simp only at hshare ⊢
    split_ifs at hshare ⊢ with hrange hcontains
    · cases hshare
    · obtain ⟨hallowed, hinside⟩ := Bool.and_eq_true_iff.1 hcontains
      exact ⟨w, rfl, hrange, hinside, htrue, hallowed, rfl⟩
    · cases hshare

/-- What the slices truly count over the range. -/
def trueAmount (T : Truth) (range : DateRange) (slices : List Slice) : Amount :=
  (slices.map fun s => T.total s.assignment range).sum

/-- What is shown of the slices over the range. -/
def shownAmount (p : Planner) (range : DateRange) (slices : List Slice) : Amount :=
  (slices.map fun s => (p.shownOf range s).payload.overall).sum

/-- The family of the keys is reduced to a complete sum with the given answer, whose total is
    the true one but for what shares of windows differ from the truth. -/
structure Gives (p : Planner) (req : Request) (usable : List Slice) (T : Truth)
    (keys : List String) (answer : Answer) : Prop where
  reduced : ∃ r, reduce p.registry (p.shownMembers req.range (familyAt req usable keys)) keys
      = .ok (.reduced r) ∧ r.isComplete = true ∧ answerOf req.range r.payload = .ok answer
  shares : ∀ s ∈ p.sharing req.range (familyAt req usable keys), p.SharesOut T req.range s
  total : answer.total.amount
      + trueAmount T req.range (p.sharing req.range (familyAt req usable keys))
    = T.total req.assignment req.range
      + p.shownAmount req.range (p.sharing req.range (familyAt req usable keys))

/-- Two sums that differ in some terms only. -/
theorem sum_add_sum_filter {α : Type} {f g : α → Amount} {b : α → Bool} {as : List α}
    (h : ∀ a ∈ as, b a = false → f a = g a) :
    (as.map f).sum + ((as.filter b).map g).sum = (as.map g).sum + ((as.filter b).map f).sum := by
  induction as with
  | nil => rfl
  | cons a as ih =>
    have hrest := ih fun a ha => h a (List.mem_cons_of_mem _ ha)
    cases hb : b a with
    | true =>
      rw [List.filter_cons_of_pos hb]
      simp only [List.map_cons, List.sum_cons]
      calc f a + (as.map f).sum + (g a + ((as.filter b).map g).sum)
          = f a + g a + ((as.map f).sum + ((as.filter b).map g).sum) := by abel
        _ = f a + g a + ((as.map g).sum + ((as.filter b).map f).sum) := by rw [hrest]
        _ = g a + (as.map g).sum + (f a + ((as.filter b).map f).sum) := by abel
    | false =>
      rw [List.filter_cons_of_neg (by rw [hb]; exact Bool.false_ne_true)]
      simp only [List.map_cons, List.sum_cons]
      rw [add_assoc, hrest, h a List.mem_cons_self hb, add_assoc]

/-- A true member shows its true amount, unless it shows a share. -/
theorem overall_shownOf {range : DateRange} {s : Slice} (htrue : s.TruthfulTo T)
    (hcovers : p.Covers range s.payload)
    (hwhole : ((p.view range s.payload).disclosure? range).isSome = false) :
    (p.shownOf range s).payload.overall = T.total s.assignment range := by
  have hnone : (p.view range s.payload).disclosure? range = none := by
    rwa [← Option.not_isSome_iff_eq_none, Bool.not_eq_true]
  exact Payload.overall_of_shows (shows_of_payload? htrue (payload?_of_covers hcovers) hnone)

/-- The members of a family that fills its grid truly count what the request does. -/
theorem trueAmount_of_filled {family : Family Slice} (hT : T.Additive p.registry)
    (hb : Belongs req.assignment family) (hnodup : NoRepeat family) (hfilled : p.Filled family) :
    trueAmount T req.range family.members = T.total req.assignment req.range := by
  unfold trueAmount Truth.total
  rw [sum_sum_comm family.members]
  refine congrArg List.sum (List.map_congr_left fun day _ => ?_)
  rw [← sum_shownMembers hT hb hnodup hfilled day, shownMembers, List.map_map]
  rfl

/-- **A complete family gives the true total, up to the shares that its members show.** -/
theorem gives_of_complete {keys : List String} {answer : Answer} {shares : List Disclosure}
    (hall : AllSatisfy req usable) (hT : T.Additive p.registry)
    (htrue : ∀ s ∈ usable, s.TruthfulTo T) (hkeys : keys ∈ keySets req usable)
    (h : p.verdictAt req usable keys = .complete answer shares) :
    p.Gives req usable T keys answer := by
  have hb := belongs_familyAt hall hkeys
  obtain ⟨hcovers, hnodup, hfilled, r, hr, hcomplete, hanswer, hsum⟩ := reduced_of_complete hb h
  have htrueMember : ∀ s ∈ (familyAt req usable keys).members, s.TruthfulTo T := fun s hs =>
    htrue s (mem_familyAt.1 hs).1
  refine ⟨⟨r, hr, hcomplete, hanswer⟩, fun s hs =>
    sharesOut_of_mem_sharing (htrueMember s (List.mem_filter.1 hs).1) hs, ?_⟩
  have hshown : answer.total.amount
      = p.shownAmount req.range (familyAt req usable keys).members := by
    rw [overall_of_answerOf hanswer, hsum.overall, shownMembers, List.map_map]
    rfl
  rw [hshown, ← trueAmount_of_filled hT hb hnodup hfilled]
  refine sum_add_sum_filter fun s hs hwhole => ?_
  exact overall_shownOf (htrueMember s hs) (hcovers s hs) hwhole

/-- Two families without shares give the same total. -/
theorem Gives.total_eq {keys keys' : List String} {answer answer' : Answer}
    (h : p.Gives req usable T keys answer) (h' : p.Gives req usable T keys' answer')
    (hwhole : p.sharing req.range (familyAt req usable keys) = [])
    (hwhole' : p.sharing req.range (familyAt req usable keys') = []) :
    answer.total = answer'.total := by
  have htotal := h.total
  have htotal' := h'.total
  rw [hwhole] at htotal
  rw [hwhole', ← htotal] at htotal'
  simp only [trueAmount, List.map_nil, List.sum_nil, add_zero] at htotal'
  exact (Count.amount_injective htotal').symm

/-! ## §5. Alternatives. -/

/-- **What an answer over a complete family says of the others.**  Its key set is the smallest of
    those that make up the request, the alternatives are all others in ascending order, and each
    gives the true total up to the shares that its members show; without shares on either side, an
    alternative gives the total of the answer. -/
theorem total_of_alternatives {slices : List Slice} {answer : Answer}
    {disclosures : List Disclosure} {dims : List String} {alternatives : List (List String)}
    (hT : T.Additive p.registry) (htrue : ∀ s ∈ p.compatible slices req, s.TruthfulTo T)
    (h : p.outcomeOf slices req = .ok (.satisfied answer disclosures))
    (hmem : Disclosure.complete dims alternatives ∈ disclosures) :
    (dims :: alternatives).Pairwise (· < ·)
      ∧ (∀ keys, keys ∈ dims :: alternatives ↔ p.MakesUp req (p.compatible slices req) keys)
      ∧ p.Gives req (p.compatible slices req) T dims answer
      ∧ ∀ keys ∈ alternatives, ∃ other, p.Gives req (p.compatible slices req) T keys other
          ∧ (p.sharing req.range (familyAt req (p.compatible slices req) dims) = [] →
            p.sharing req.range (familyAt req (p.compatible slices req) keys) = [] →
            other.total = answer.total) := by
  have hall := @allSatisfy_compatible p req slices
  rw [outcomeOf_eq] at h
  obtain ⟨hnohalt, hlist, shares, hv⟩ := completeKeys_of_outcome hall h hmem
  have hmemOf : ∀ keys, keys ∈ dims :: alternatives
      ↔ keys ∈ keySets req (p.compatible slices req) ∧ ∃ answer shares,
        p.verdictAt req (p.compatible slices req) keys = .complete answer shares := by
    intro keys
    rw [← hlist]
    exact mem_completeKeys
  have hgives := gives_of_complete hall hT htrue ((hmemOf dims).1 List.mem_cons_self).1 hv
  refine ⟨?_, fun keys => (hmemOf keys).trans (complete_iff_makesUp hall hnohalt), hgives, ?_⟩
  · rw [← hlist]
    exact (Ordered.ascending_distinct _).filter _
  · intro keys hkeys
    obtain ⟨hset, other, _, hother⟩ := (hmemOf keys).1 (List.mem_cons_of_mem _ hkeys)
    have hgives' := gives_of_complete hall hT htrue hset hother
    exact ⟨other, hgives', fun hwhole hwhole' => hgives'.total_eq hgives hwhole' hwhole⟩

namespace Sample

/-- A second dimension. -/
def region : Definition :=
  .make "region" ["eu", "us"] .closed

/-- Two dimensions, by each of which counts can be summed. -/
def twoWays : Planner :=
  ⟨⟨true, true⟩, .ofList [channel, region]⟩

/-- Three trials on each of the first three days, then one a day. -/
def fading (day : Date) : Amount :=
  if day ≤ .ofDays 3 then (3, 0) else (1, 0)

/-- All trials are of one channel and of one region. -/
def focused : Truth := fun a day =>
  if (a.get? "channel").getD "ads" = "ads" ∧ (a.get? "region").getD "eu" = "eu" then fading day
  else 0

/-- The days of a channel, with the same count on each. -/
def byChannel (value : String) (c : Count) : Slice :=
  ⟨only value, .daily (constant days c), twoWays.signatureFor "core" (only value)⟩

/-- The window of a region. -/
def byRegion (value : String) (w : Window) : Slice :=
  ⟨.ofPairs [("region", value)], .aggregate w,
    twoWays.signatureFor "core" (.ofPairs [("region", value)])⟩

/-- Each day by channel, and the given window by region. -/
def bothWays (range : DateRange) (c : Count) : List Slice :=
  [byChannel "ads" (.wrap 3 0), byChannel "mail" .zero, byRegion "eu" ⟨range, c⟩,
    byRegion "us" ⟨range, .zero⟩]

theorem find?_twoWays {key : String} {d : Definition} (h : twoWays.registry.find? key = some d) :
    (Text.foldKey key = "channel" ∧ d = channel) ∨ (Text.foldKey key = "region" ∧ d = region) := by
  obtain ⟨hmem, hkey⟩ := Registry.mem_of_find?_ofList h
  rcases List.mem_pair.1 hmem with rfl | rfl
  · exact .inl ⟨hkey.symm, rfl⟩
  · exact .inr ⟨hkey.symm, rfl⟩

theorem made_twoWays : twoWays.registry.Made := by
  intro key d hfind
  rcases find?_twoWays hfind with ⟨_, rfl⟩ | ⟨_, rfl⟩
  · exact ⟨"channel", ["ads", "mail"], .closed, .inl rfl⟩
  · exact ⟨"region", ["eu", "us"], .closed, .inl rfl⟩

theorem additive_focused : focused.Additive twoWays.registry := by
  have htrim : Text.trim "ads" = "ads" ∧ Text.trim "mail" = "mail" ∧ Text.trim "eu" = "eu"
      ∧ Text.trim "us" = "us" := ⟨rfl, rfl, rfl, rfl⟩
  obtain ⟨hads, hmail, heu, hus⟩ := htrim
  intro key d hfind _ a hopen day
  rcases find?_twoWays hfind with ⟨hkey, rfl⟩ | ⟨hkey, rfl⟩
  · have hexpected : channel.expected = ["ads", "mail"] := rfl
    rw [Assignment.replaced?, hkey] at hopen
    simp [focused, hopen, hexpected, Assignment.get?_insert, hkey, hads, hmail]
  · have hexpected : region.expected = ["eu", "us"] := rfl
    rw [Assignment.replaced?, hkey] at hopen
    simp [focused, hopen, hexpected, Assignment.get?_insert, hkey, heu, hus]

theorem truthful_bothWays {range : DateRange} {c : Count}
    (hc : c.amount = (range.days.map fading).sum) :
    ∀ s ∈ bothWays range c, s.TruthfulTo focused := by
  have hads : ∀ pt ∈ (constant days (.wrap 3 0)).points,
      pt.counts.amount = focused (only "ads") pt.date := by
    decide +kernel
  have hmail : ∀ pt ∈ (constant days .zero).points,
      pt.counts.amount = focused (only "mail") pt.date := by
    decide +kernel
  have heu : focused (.ofPairs [("region", "eu")]) = fading := by
    funext day
    exact if_pos ⟨rfl, rfl⟩
  have hus : ∀ day, focused (.ofPairs [("region", "us")]) day = 0 := fun day =>
    if_neg (by decide +kernel)
  -- The daily slices are true day by day, the windows by their totals.
  intro s hs
  simp only [bothWays, List.mem_cons, List.not_mem_nil, or_false] at hs
  rcases hs with rfl | rfl | rfl | rfl
  · exact hads
  · exact hmail
  · show c.amount = (range.days.map (focused (.ofPairs [("region", "eu")]))).sum
    rw [heu, hc]
  · show (0 : Amount) = (range.days.map (focused (.ofPairs [("region", "us")]))).sum
    refine (List.sum_eq_zero (List.forall_mem_map.2 fun day _ => ?_)).symm
    exact hus day

/-- Four days, the last one after those of the request. -/
def longer : DateRange :=
  ⟨.ofDays 1, .ofDays 4, by decide⟩

/-- The answer by channel, which names the regions as a further way to sum. -/
def byChannels : Outcome :=
  .satisfied ⟨days, some (constant days (.wrap 3 0)), .wrap 9 0⟩
    [.complete ["channel"] [["region"]]]

theorem run_bothWays :
    twoWays.outcomeOf (bothWays days (.wrap 9 0)) request = .ok byChannels
      ∧ twoWays.outcomeOf (bothWays longer (.wrap 10 0)) request = .ok byChannels := by
  decide +kernel

end Sample

/-- Nine trials by region as well, if the windows are those of the request. -/
theorem total_of_both_ways : ∃ other,
    Sample.twoWays.Gives Sample.request (Sample.twoWays.compatible
        (Sample.bothWays Sample.days (.wrap 9 0)) Sample.request) Sample.focused ["region"] other
      ∧ other.total = .wrap 9 0 := by
  obtain ⟨hrun, _⟩ := Sample.run_bothWays
  have htrue : ∀ s ∈ Sample.twoWays.compatible (Sample.bothWays Sample.days (.wrap 9 0))
      Sample.request, s.TruthfulTo Sample.focused := fun s hs =>
    Sample.truthful_bothWays (by decide +kernel) s ((compatible_sublist _ _ _).subset hs)
  obtain ⟨_, _, _, hothers⟩ :=
    total_of_alternatives Sample.additive_focused htrue hrun List.mem_cons_self
  obtain ⟨other, hgives, htotal⟩ := hothers ["region"] List.mem_cons_self
  -- No window is longer than the range.
  exact ⟨other, hgives, htotal (by decide +kernel) (by decide +kernel)⟩

/-- An alternative can give another total than the answer: the share of a longer window goes by
    days, which need not be alike. -/
theorem alternative_differs :
    ¬ ∀ (p : Planner) (req : Request) (slices : List Slice) (T : Truth) (answer other : Answer)
      (disclosures : List Disclosure) (dims keys : List String)
      (alternatives : List (List String)) (r : Reduction), p.registry.Made →
      T.Additive p.registry → (∀ s ∈ p.compatible slices req, s.TruthfulTo T) →
      p.outcomeOf slices req = .ok (.satisfied answer disclosures) →
      .complete dims alternatives ∈ disclosures → keys ∈ alternatives →
      reduce p.registry (p.shownMembers req.range (familyAt req (p.compatible slices req) keys))
        keys = .ok (.reduced r) →
      answerOf req.range r.payload = .ok other → other.total = answer.total := by
  intro h
  obtain ⟨_, hrun⟩ := Sample.run_bothWays
  have htrue : ∀ s ∈ Sample.twoWays.compatible (Sample.bothWays Sample.longer (.wrap 10 0))
      Sample.request, s.TruthfulTo Sample.focused := fun s hs =>
    Sample.truthful_bothWays (by decide +kernel) s ((compatible_sublist _ _ _).subset hs)
  -- Three of four days are taken for three quarters of the ten trials, rounded up.
  have hreduce : reduce Sample.twoWays.registry (Sample.twoWays.shownMembers Sample.request.range
      (familyAt Sample.request (Sample.twoWays.compatible
        (Sample.bothWays Sample.longer (.wrap 10 0)) Sample.request) ["region"])) ["region"]
      = .ok (.reduced ⟨.aggregate ⟨Sample.days, .wrap 8 0⟩,
          [⟨"region", .closed, .complete⟩]⟩) := by
    decide +kernel
  have htotal := h _ _ _ _ _ _ _ _ _ _ _ Sample.made_twoWays Sample.additive_focused htrue hrun
    List.mem_cons_self List.mem_cons_self hreduce rfl
  exact absurd htotal (by decide)

end Planner

end MetricCube
