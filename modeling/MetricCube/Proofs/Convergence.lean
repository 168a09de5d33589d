/-
  MetricCube.Proofs.Convergence
  ─────────────────────────────
  **One round is enough.**  Over daily slices of true amounts, under current
  signatures and at most one for each assignment, with exhaustive definitions and a
  source that answers in full, resolving a request gives the true answer after at
  most one round (`resolve_of_true_source`).

    • A family that lacks nothing fills its grid (`filled_of_settled`), so a plan is
      the true answer or asks for fetches (`TrueCache.answered_or_asks`).
    • What was fetched for a plan keeps the slices true (`TrueCache.deliver`), and it
      is enough: a plan over it asks for nothing (`TrueCache.not_asks_after`).
-/
import Mathlib
import MetricCube.Fetch.Resolve
import MetricCube.Proofs.Completion
import MetricCube.Proofs.Schedule

namespace MetricCube

/-- Every definition knows all values of its dimension. -/
def Registry.Exhaustive (r : Registry) : Prop :=
  ∀ key d, r.find? key = some d → d.policy.isExhaustive = true

namespace Planner

variable {p : Planner} {req : Request} {usable : List Slice} {T : Truth} {ds : List Delivery}
  {keys : List String}

/-! ## §1. Families that lack nothing. -/

/-- **A family that lacks nothing fills its grid.** -/
theorem filled_of_settled {family : Family Slice} (hb : Belongs req.assignment family)
    (hmade : p.registry.Made) (hexh : p.registry.Exhaustive)
    (hfetch : p.settings.fetchMissingValues = true) (h : p.Settled req family) :
    p.Filled family := by
  have hnone : p.missingCells family = [] := (lacking_eq_nil_iff.1 h.nothing).1 hfetch
  refine ⟨h.suits, missingCells_eq_nil_iff.1 hnone, fun ax hax => ?_⟩
  obtain ⟨key, hkey, d, hd, rfl⟩ := Grid.mem_axesOf.1 hax
  have hall := hexh key d hd.defined
  exact Grid.isComplete_axisOf.2
    ⟨hall, shown_of_missingCells hb hmade h.suits hnone hkey hd hall⟩

/-! ## §2. Plans over true slices. -/

/-- All values are known and may be fetched, amounts add up over them, and the true total of
    the request is a count. -/
structure WellPosed (p : Planner) (req : Request) (T : Truth) : Prop where
  made : p.registry.Made
  exhaustive : p.registry.Exhaustive
  fetches : p.settings.fetchMissingValues = true
  additive : T.Additive p.registry
  fits : (T.total req.assignment req.range).Fits

/-- Daily slices of true amounts, under current signatures. -/
structure TrueCache (p : Planner) (req : Request) (T : Truth) (usable : List Slice) : Prop
    extends Current p req usable where
  daily : ∀ s ∈ usable, s.payload.IsDaily
  truthful : ∀ s ∈ usable, s.TruthfulTo T

/-- The answer has the true total, and the true amount of each day. -/
def HasTruth (T : Truth) (req : Request) (answer : Answer) : Prop :=
  answer.total.amount = T.total req.assignment req.range
    ∧ ∃ series, answer.daily = some series ∧ series.Holds req.range.days (T req.assignment)

/-- The outcome is the true answer, from the exact slice or from a complete family. -/
def IsAnswered (T : Truth) (req : Request) (outcome : Outcome) : Prop :=
  ∃ answer first rest, outcome = .satisfied answer (first :: rest)
    ∧ (first = .exact ∨ ∃ keys others, first = .complete keys others) ∧ HasTruth T req answer

theorem WellPosed.fits_day (h : p.WellPosed req T) {day : Date} (hday : day ∈ req.range.days) :
    (T req.assignment day).Fits :=
  Amount.Fits.of_mem_sum h.fits hday

/-- True days add up to a true answer. -/
theorem WellPosed.answerOf_daily (h : p.WellPosed req T) {series : Series}
    (hseries : series.Holds req.range.days (T req.assignment)) :
    ∃ answer, answerOf req.range (.daily series) = .ok answer ∧ HasTruth T req answer := by
  obtain ⟨total, htotal⟩ := Count.exists_of_fits h.fits
  have hok : series.total = .ok total := hseries.total_eq_ok_iff.2 htotal
  exact ⟨_, by rw [answerOf, hok]; rfl, htotal, series, rfl, hseries⟩

namespace TrueCache

theorem view_of_covers (h : p.TrueCache req T usable) {s : Slice} (hs : s ∈ usable)
    (hcovers : p.Covers req.range s.payload) : ∃ series,
      p.view req.range s.payload = .daily series
        ∧ series.Holds req.range.days (T s.assignment) := by
  obtain ⟨u, hu⟩ := h.daily s hs
  have htrue : s.payload.TruthfulTo T s.assignment := h.truthful s hs
  rw [hu] at hcovers htrue ⊢
  have hview := @view_daily_of_full p _ _ (covers_daily.1 hcovers)
  refine ⟨u.clip req.range, hview, ?_⟩
  have hshows := shows_of_payload? htrue (by rw [hview]; rfl) (by rw [hview]; rfl)
  exact hshows

/-- The exact slice gives the true answer, or it lacks something. -/
theorem exactFinding_cases (h : p.TrueCache req T usable) (hw : p.WellPosed req T)
    {s : Slice} {older : Nat} (hchoice : p.exactChoice usable req = .chosen s older) :
    (∃ answer, p.exactFinding req s = .answered answer .exact ∧ HasTruth T req answer)
      ∨ ∃ items, p.exactFinding req s = .wanting items := by
  obtain ⟨hs, ha⟩ := mem_of_chosen hchoice
  by_cases hcovers : p.Covers req.range s.payload
  · obtain ⟨series, hview, hholds⟩ := h.view_of_covers hs hcovers
    rw [ha] at hholds
    obtain ⟨total, htotal⟩ := Count.exists_of_fits hw.fits
    have hok : series.total = .ok total := hholds.total_eq_ok_iff.2 htotal
    exact .inl ⟨⟨req.range, some series, total⟩, by simp only [exactFinding, hview, hok], htotal,
      series, rfl, hholds⟩
  · obtain ⟨u, hu⟩ := h.daily s hs
    rw [hu, covers_daily] at hcovers
    refine .inr ⟨((p.view req.range s.payload).wanted req.range).map (p.item req s.assignment), ?_⟩
    simp only [exactFinding, hu, view_daily_of_gaps hcovers]

/-- Members that cover the range disclose nothing. -/
theorem disclosure?_of_settled (h : p.TrueCache req T usable)
    (hsettled : p.Settled req (familyAt req usable keys)) :
    ∀ s ∈ (familyAt req usable keys).members,
      (p.view req.range s.payload).disclosure? req.range = none := by
  intro s hs
  obtain ⟨series, hview, _⟩ := h.view_of_covers (mem_familyAt.1 hs).1 (hsettled.covers s hs)
  rw [hview]
  rfl

/-- The members of a family that lacks nothing add up to the true days of the request. -/
theorem sum_of_settled (h : p.TrueCache req T usable) (hw : p.WellPosed req T)
    (hkeys : keys ∈ keySets req usable) (hsettled : p.Settled req (familyAt req usable keys)) :
    ∃ series, sumPayloads (p.shownMembers req.range (familyAt req usable keys))
        = .ok (.daily series)
      ∧ series.Holds req.range.days (T req.assignment) := by
  have hb := belongs_familyAt h.satisfy hkeys
  have hfilled := filled_of_settled hb hw.made hw.exhaustive hw.fetches hsettled
  have hshown : ∀ s ∈ p.shownMembers req.range (familyAt req usable keys), ∃ series,
      s.payload = .daily series ∧ series.Holds req.range.days (T s.assignment) := by
    intro s hs
    obtain ⟨t, ht, rfl⟩ := List.mem_map.1 hs
    obtain ⟨series, hview, hholds⟩ :=
      h.view_of_covers (mem_familyAt.1 ht).1 (hsettled.covers t ht)
    exact ⟨series, by rw [shownOf, hview]; rfl, hholds⟩
  have hne : p.shownMembers req.range (familyAt req usable keys) ≠ [] := by
    rw [shownMembers]
    exact fun hnil => hb.members (List.map_eq_nil_iff.1 hnil)
  -- Every partial sum of a day is at most its true amount, which is a count.
  obtain ⟨series, hsum⟩ := exists_sumPayloads hne hshown fun day hday => by
    rw [sum_shownMembers hw.additive hb hsettled.nodup hfilled day]
    exact hw.fits_day hday
  exact ⟨series, hsum, shows_of_filled hw.additive hb hsettled.nodup hfilled
    (fun s hs => h.truthful s (mem_familyAt.1 hs).1) hsettled.covers
    (h.disclosure?_of_settled hsettled) hsum⟩

/-- A family that lacks nothing answers. -/
theorem verdict_of_settled (h : p.TrueCache req T usable) (hw : p.WellPosed req T)
    (hkeys : keys ∈ keySets req usable) (hsettled : p.Settled req (familyAt req usable keys)) :
    ∃ answer, p.verdictAt req usable keys = .complete answer [] ∧ HasTruth T req answer := by
  have hb := belongs_familyAt h.satisfy hkeys
  have hfilled := filled_of_settled hb hw.made hw.exhaustive hw.fetches hsettled
  obtain ⟨series, hsum, hholds⟩ := h.sum_of_settled hw hkeys hsettled
  obtain ⟨answer, hanswer, htrue⟩ := hw.answerOf_daily hholds
  have hshares : p.sharesOf req.range (familyAt req usable keys) = [] := by
    rw [sharesOf, List.filterMap_eq_nil_iff.2 (h.disclosure?_of_settled hsettled)]
    rfl
  refine ⟨answer, ?_, htrue⟩
  rw [verdictAt, verdict_complete hb.keys hsettled.nodup hfilled hsettled.covers hsum hanswer,
    hshares]

/-- **A family is unsuitable, or it lacks something, or it gives the true answer.** -/
theorem verdict_cases (h : p.TrueCache req T usable) (hw : p.WellPosed req T)
    (hkeys : keys ∈ keySets req usable) :
    (∃ failures, p.verdictAt req usable keys = .unsuitable failures)
      ∨ (∃ cells gaps items, p.verdictAt req usable keys = .wanting cells gaps items)
      ∨ ∃ answer, p.verdictAt req usable keys = .complete answer [] ∧ HasTruth T req answer := by
  have hnodup := h.toCurrent.noRepeat hkeys
  by_cases hsuit : p.Suitable (familyAt req usable keys)
  · by_cases hnothing : p.lacking req (familyAt req usable keys) = []
    · exact .inr (.inr (h.verdict_of_settled hw hkeys ⟨hnodup, hsuit, hnothing⟩))
    · obtain ⟨cells, gaps, hv⟩ :=
        verdict_wanting (belongs_familyAt h.satisfy hkeys).keys hnodup hsuit hnothing
      exact .inr (.inl ⟨cells, gaps, _, hv⟩)
  · exact .inl (verdict_unsuitable hnodup hsuit)

/-- **A plan is the true answer, or it asks for fetches.** -/
theorem answered_or_asks (h : p.TrueCache req T usable) (hw : p.WellPosed req T) :
    (∃ outcome, p.outcome req usable = .ok outcome ∧ IsAnswered T req outcome)
      ∨ ∃ items, p.outcome req usable = .ok (.needsFetch items) := by
  have hp := planned_outcome p h.satisfy
  generalize p.outcome req usable = result at hp
  -- Faults, overflows and incomplete families are no verdicts here (`verdict_cases`).
  cases hp with
  | ambiguous hchoice => exact absurd hchoice h.exactChoice_ne_ambiguous
  | exact s older answer disclosure hchoice hfinding =>
    rcases h.exactFinding_cases hw hchoice with ⟨_, h', htrue⟩ | ⟨_, h'⟩
    · rw [hfinding] at h'
      cases h'
      exact .inl ⟨_, rfl, answer, .exact, [], rfl, .inl rfl, htrue⟩
    · rw [hfinding] at h'
      cases h'
  | exactOverflow s older hchoice hfinding =>
    rcases h.exactFinding_cases hw hchoice with ⟨_, h', _⟩ | ⟨_, h'⟩ <;>
    · rw [hfinding] at h'
      cases h'
  | halted _ keys covered fault _ hkeys hv =>
    rcases h.verdict_cases hw hkeys with ⟨_, h'⟩ | ⟨_, _, _, h'⟩ | ⟨_, h', _⟩ <;>
    · rw [hv] at h'
      cases h'
  | overflow _ keys complete _ hkeys hv =>
    rcases h.verdict_cases hw hkeys with ⟨_, h'⟩ | ⟨_, _, _, h'⟩ | ⟨_, h', _⟩ <;>
    · rw [hv] at h'
      cases h'
  | complete _ keys answer shares others _ _ hkeys hv =>
    rcases h.verdict_cases hw hkeys with ⟨_, h'⟩ | ⟨_, _, _, h'⟩ | ⟨_, h', htrue⟩
    · rw [hv] at h'
      cases h'
    · rw [hv] at h'
      cases h'
    · rw [hv] at h'
      cases h'
      exact .inl ⟨_, rfl, answer, _, _, rfl, .inr ⟨keys, others, rfl⟩, htrue⟩
  | incomplete keys answer disclosures _ _ _ hkeys hv =>
    rcases h.verdict_cases hw hkeys with ⟨_, h'⟩ | ⟨_, _, _, h'⟩ | ⟨_, h', _⟩ <;>
    · rw [hv] at h'
      cases h'
  | fetchExact | fetchFamily | fetchWhole => exact .inr ⟨_, rfl⟩

/-! ## §3. Plans over what was fetched. -/

theorem deliver (h : p.TrueCache req T usable) (hds : p.AllIssued req ds)
    (htrue : ∀ d ∈ ds, d.series.Holds d.item.range.days (T d.item.assignment)) :
    p.TrueCache req T (Store.deliver ds usable) := by
  refine ⟨h.toCurrent.deliver hds, fun s hs => ?_, Store.truthful_deliver h.truthful
    fun d hd => (htrue d hd).amount_eq⟩
  rcases Store.mem_deliver hs with hs | ⟨_, hdaily⟩
  · exact h.daily s hs
  · exact hdaily

end TrueCache

/-- If the request's own slot has all days, there is nothing to ask for. -/
theorem Current.not_asks_of_hasDays (h : p.Current req usable) {items : List FetchItem}
    (hdays : ∀ day ∈ req.range.days, Store.HasDays usable
      (req.assignment, p.signatureFor req.core req.assignment) fun e => e = day) :
    ¬ p.Asks req usable items := by
  obtain ⟨s, hs, hslot, _⟩ := hdays _ req.range.start_mem_days
  have hcovers := h.covers_of_hasDays hs (congrArg Prod.fst hslot) hdays
  obtain ⟨older, hchosen⟩ := @exactChoice_current p req _ s (nodup_slots h.nodup) hs hslot
  intro hasks
  cases hasks with
  | exact t _ hchoice hnot =>
    rw [hchosen] at hchoice
    cases hchoice
    exact hnot hcovers
  | family _ habsent | whole habsent =>
    rw [hchosen] at habsent
    cases habsent

/-- If some family is complete, there is nothing to ask for. -/
theorem not_asks_of_complete {items : List FetchItem} {answer : Answer}
    {shares : List Disclosure} (hkeys : keys ∈ keySets req usable)
    (hv : p.verdictAt req usable keys = .complete answer shares) : ¬ p.Asks req usable items := by
  have hnot : ¬ p.Undecided req usable := by
    intro hundecided
    have hnone := hundecided.2 keys hkeys
    rw [Finding.complete?, findingAt, hv] at hnone
    cases hnone
  intro hasks
  cases hasks with
  | exact _ _ _ _ hundecided | family _ _ hundecided | whole _ hundecided => exact hnot hundecided

namespace TrueCache

/-- **What was fetched for a plan is enough for the next one.** -/
theorem not_asks_after (h : p.TrueCache req T usable) (hw : p.WellPosed req T)
    {items items' : List FetchItem} (hasks : p.Asks req usable items) (hserves : Serves ds items)
    (hids : CollisionFree (p.plannedItems req usable))
    (htrue : ∀ d ∈ ds, d.series.Holds d.item.range.days (T d.item.assignment)) :
    ¬ p.Asks req (Store.deliver ds usable) items' := by
  obtain ⟨_, hissued, _⟩ := hasks.cases h.satisfy
  have hafter := h.deliver (fun d hd => hissued _ (hserves.sound d hd)) htrue
  have hfull : ∀ d ∈ ds, d.IsFull := fun d hd day hday => (htrue d hd).dates_eq ▸ hday
  cases hasks with
  -- The exact slice and the whole request end up with an exact slice of all days, a family ends up
  -- complete.
  | exact s older hchoice hnot _ hitems =>
    obtain ⟨hs, ha⟩ := mem_of_chosen hchoice
    have hplanned : ∀ i ∈ p.plannedItems req usable, p.Issued req i := by
      intro i hi
      rw [hitems] at hi
      obtain ⟨r, _, rfl⟩ := List.mem_map.1 hi
      exact issued_item (h.satisfy s hs) r
    have hserved : ∀ r ∈ (p.view req.range s.payload).wanted req.range,
        ∃ d ∈ ds, d.item = p.item req s.assignment r ∧ d.IsFull := by
      intro r hr
      have hmem : p.item req s.assignment r ∈ p.plannedItems req usable := by
        rw [hitems]
        exact List.mem_map_of_mem hr
      obtain ⟨d, hd, hitem⟩ := served_of_planned hserves hplanned hids _ hmem
      exact ⟨d, hd, hitem, hfull d hd⟩
    refine hafter.toCurrent.not_asks_of_hasDays fun day hday => ?_
    rw [← ha]
    exact h.toCurrent.hasDays_of_wanted hs hnot hserved hday
  | family keys _ _ hkeys _ hsuit _ hitems =>
    have hserved := h.toCurrent.familyServed hkeys hsuit hitems hserves hids hfull
    obtain ⟨answer, hv, _⟩ :=
      hafter.verdict_of_settled hw hserved.mem_after (hserved.settled hw.made)
    exact not_asks_of_complete hserved.mem_after hv
  | whole _ _ _ hitems =>
    have hplanned : ∀ i ∈ p.plannedItems req usable, p.Issued req i := by
      intro i hi
      rw [hitems] at hi
      rw [List.mem_singleton.1 hi]
      exact issued_item (Assignment.satisfies_refl _) _
    have hmem : p.item req req.assignment req.range ∈ p.plannedItems req usable := by
      rw [hitems]
      exact List.mem_singleton.2 rfl
    obtain ⟨d, hd, hitem⟩ := served_of_planned hserves hplanned hids _ hmem
    refine hafter.toCurrent.not_asks_of_hasDays fun day hday => ?_
    exact hasDays_of_item hd hitem (hfull d hd) (DateRange.mem_days.1 hday)

/-- A plan over what was fetched is the true answer. -/
theorem answered_after (h : p.TrueCache req T usable) (hw : p.WellPosed req T)
    {items : List FetchItem} (hplan : p.outcome req usable = .ok (.needsFetch items))
    (hserves : Serves ds items) (hids : CollisionFree (p.plannedItems req usable))
    (htrue : ∀ d ∈ ds, d.series.Holds d.item.range.days (T d.item.assignment)) :
    ∃ outcome, p.outcome req (Store.deliver ds usable) = .ok outcome
      ∧ IsAnswered T req outcome := by
  have hasks := asks_of_outcome h.satisfy hplan
  obtain ⟨_, hissued, _⟩ := hasks.cases h.satisfy
  have hafter := h.deliver (fun d hd => hissued _ (hserves.sound d hd)) htrue
  rcases hafter.answered_or_asks hw with hanswered | ⟨items', hagain⟩
  · exact hanswered
  · exact absurd (asks_of_outcome hafter.satisfy hagain)
      (h.not_asks_after hw hasks hserves hids htrue)

end TrueCache

end Planner

namespace Fetch

variable {τ : Type} {p : Planner} {d : Dispatcher Store τ} {req : Request} {w : World Store τ}
  {T : Truth}

/-! ## §4. Resolving. -/

/-- Planning reads the store and leaves it, and the source, as they are. -/
theorem planStored_eq (hbackend : d.backend = Store.backend) (w : World Store τ) :
    planStored p d.backend req w
      = ((p.plan (w.store.slices req.metric) req).result.mapError .overflow,
        { w with events := w.events ++ (p.plan (w.store.slices req.metric) req).events }) := by
  rw [hbackend]
  rfl

theorem exists_planStored {outcome : Outcome} (hbackend : d.backend = Store.backend)
    (h : p.outcomeOf (w.store.slices req.metric) req = .ok outcome) :
    ∃ plan events, planStored p d.backend req w = (.ok plan, { w with events := events })
      ∧ plan.outcome = outcome := by
  rw [planStored_eq hbackend]
  unfold Planner.outcomeOf at h
  cases hresult : (p.plan (w.store.slices req.metric) req).result with
  | error e => rw [hresult] at h; cases h
  | ok plan =>
    rw [hresult] at h
    cases h
    exact ⟨plan, _, rfl, rfl⟩

section

variable {ω : Type} {s : Strategy ω} {v v₁ v₂ v₃ : ω}

theorem resolveWith_of_error {cause : ResolveError} (hplan : s.plan v = (.error cause, v₁))
    (left : Nat) : resolveWith s (left + 1) v = (.error cause, v₁) := by
  simp only [resolveWith, hplan]

/-- A plan that asks for nothing is the result, and so is any plan when everything is cancelled,
    whatever is left of the rounds. -/
theorem resolveWith_of_plan {plan : Plan} (hplan : s.plan v = (.ok plan, v₁))
    (h : ∀ items, plan.outcome = .needsFetch items → s.cancelled v₁ = true) (left : Nat) :
    resolveWith s left v = (.ok ⟨plan, []⟩, v₁) := by
  cases left with
  | zero => simp only [resolveWith, Strategy.conclude, hplan, Except.map]
  | succ left =>
    cases houtcome : plan.outcome with
    | needsFetch items => simp only [resolveWith, hplan, houtcome, h items houtcome, if_true]
    | satisfied | refused => simp only [resolveWith, hplan, houtcome]

/-- A plan that asks for items, and what is dispatched for them. -/
theorem resolveWith_of_dispatch {plan : Plan} {items : List FetchItem} {report : Report}
    (hplan : s.plan v = (.ok plan, v₁)) (houtcome : plan.outcome = .needsFetch items)
    (hrun : s.cancelled v₁ = false) (hdispatch : s.dispatch v₁ items = (.ok report, v₂))
    (left : Nat) : resolveWith s (left + 1) v
      = let result := if report.isStalled then s.conclude v₂ else resolveWith s left v₂
        (result.1.map (Resolution.after report), result.2) := by
  simp only [resolveWith, hplan, houtcome, hrun, hdispatch, Bool.false_eq_true, if_false]

/-- A plan that needs fetches, one round, and a plan that needs nothing. -/
theorem resolveWith_of_round {first last : Plan} {items : List FetchItem} {report : Report}
    (hfirst : s.plan v = (.ok first, v₁)) (hitems : first.outcome = .needsFetch items)
    (hrun : s.cancelled v₁ = false) (hdispatch : s.dispatch v₁ items = (.ok report, v₂))
    (hlast : s.plan v₂ = (.ok last, v₃)) (h : ∀ items, last.outcome ≠ .needsFetch items)
    (left : Nat) : resolveWith s (left + 1) v = (.ok ⟨last, [report]⟩, v₃) := by
  have hnext : ∀ left, resolveWith s left v₂ = (.ok ⟨last, []⟩, v₃) :=
    resolveWith_of_plan hlast fun items hitems => absurd hitems (h items)
  have hconclude : s.conclude v₂ = (.ok ⟨last, []⟩, v₃) := hnext 0
  rw [resolveWith_of_dispatch hfirst hitems hrun hdispatch]
  -- A stalled round is followed by a last plan, any other by the loop: here they are the same.
  simp only [hnext, hconclude, ite_self, Except.map, Resolution.after]

end

/-- **Items within the budget are all delivered.** -/
theorem execute_serves {items : List FetchItem} (hbackend : d.backend = Store.backend)
    (hrun : w.cancelled = false) (hissued : ∀ i ∈ items, p.Issued req i)
    (hbudget : items.length ≤ d.settings.requestBudget)
    (hanswers : AnswersInFull d.source T items) : ∃ report w' ds,
      d.execute w req.metric items = (.ok report, w')
        ∧ w'.store.slices req.metric = Store.deliver ds (w.store.slices req.metric)
        ∧ Planner.Serves ds items
        ∧ ∀ e ∈ ds, e.series.Holds e.item.range.days (T e.item.assignment) := by
  have hfresh : ∀ i ∈ items, i.metric = req.metric ∧ i.status = .needed := by
    intro i hi
    rw [(hissued i hi).2]
    exact ⟨rfl, rfl⟩
  -- Nothing is left over by the budget, so all items are dispatched.
  have hbudgeted : d.budgeted req.metric items = .ok (items, []) := by
    have hnone : (items.find? fun i => i.metric ≠ req.metric) = none := by
      rw [List.find?_eq_none]
      intro i hi
      simp [(hfresh i hi).1]
    simp only [Dispatcher.budgeted, hnone, List.splitAt_eq, List.take_of_length_le hbudget,
      List.drop_eq_nil_of_le hbudget]
  let round : Round τ := ⟨d, T, w.store, req.metric, items, hbackend, hfresh, hanswers⟩
  obtain ⟨ds, hstore, _, hsound, hcomplete⟩ := round.runTasks_serves w.memory
  refine ⟨.ofTasks (d.runTasks w.store w.memory w.cancelled items).machine.endedTasks [],
    Dispatcher.after w (d.runTasks w.store w.memory w.cancelled items) [], ds, ?_, ?_,
    ⟨fun e he => (hsound e he).1, hcomplete⟩, fun e he => (hsound e he).2⟩
  · simp only [Dispatcher.execute, hbudgeted]
  · rw [hrun]
    exact hstore

/-- **Resolving over true slices and a true source gives the true answer, after at most one
    round.** -/
theorem resolve_of_true_source (hbackend : d.backend = Store.backend) (hw : p.WellPosed req T)
    (hcore : req.core ≠ "")
    (hcache : p.TrueCache req T (p.compatible (w.store.slices req.metric) req))
    (hfirst : ∀ items, p.outcomeOf (w.store.slices req.metric) req = .ok (.needsFetch items) →
      items.length ≤ d.settings.requestBudget ∧ AnswersInFull d.source T items
        ∧ Planner.CollisionFree
          (p.plannedItems req (p.compatible (w.store.slices req.metric) req)))
    (hrounds : 1 ≤ d.settings.maxRounds) (hrun : w.cancelled = false) :
    ∃ resolution w', resolve p d req w = (.ok resolution, w') ∧ resolution.rounds.length ≤ 1
      ∧ ∃ answer first rest, resolution.plan.outcome = .satisfied answer (first :: rest)
        ∧ (first = .exact ∨ ∃ keys others, first = .complete keys others)
        ∧ answer.total.amount = T.total req.assignment req.range
        ∧ ∃ series, answer.daily = some series
          ∧ series.Holds req.range.days (T req.assignment) := by
  obtain ⟨left, hleft⟩ : ∃ left, d.settings.maxRounds = left + 1 :=
    ⟨_, (Nat.sub_add_cancel hrounds).symm⟩
  rcases hcache.answered_or_asks hw with ⟨outcome, hplan, hanswered⟩ | ⟨items, hplan⟩
  · -- The first plan is the answer, and nothing is dispatched.
    rw [← Planner.outcomeOf_eq] at hplan
    obtain ⟨plan, events, hstored, houtcome⟩ := exists_planStored hbackend hplan
    obtain ⟨answer, first, rest, rfl, hrest⟩ := hanswered
    refine ⟨⟨plan, []⟩, _, resolveWith_of_plan hstored (by simp [houtcome]) _, Nat.zero_le 1,
      answer, first, rest, houtcome, hrest⟩
  · -- One round delivers all items, and the plan after it is the answer.
    have hplan' := hplan
    rw [← Planner.outcomeOf_eq] at hplan'
    obtain ⟨hbudget, hanswers, hids⟩ := hfirst items hplan'
    obtain ⟨plan, events, hstored, houtcome⟩ := exists_planStored hbackend hplan'
    obtain ⟨_, hissued, _⟩ := (Planner.asks_of_outcome hcache.satisfy hplan).cases hcache.satisfy
    obtain ⟨report, w', ds, hexecute, hstore, hserves, htrue⟩ :=
      @execute_serves _ p d req { w with events := events } T items hbackend hrun hissued hbudget
        hanswers
    obtain ⟨outcome, hagain, answer, first, rest, rfl, hrest⟩ :=
      hcache.answered_after hw hplan hserves hids htrue
    have hds : p.AllIssued req ds := fun e he => hissued _ (hserves.sound e he)
    rw [← Planner.compatible_deliver hcore hds, ← Planner.outcomeOf_eq] at hagain
    change w'.store.slices req.metric = Store.deliver ds (w.store.slices req.metric) at hstore
    rw [← hstore] at hagain
    obtain ⟨plan', events', hstored', houtcome'⟩ := exists_planStored hbackend hagain
    have hdispatch : (strategy p d req).dispatch { w with events := events } items
        = (.ok report, w') := by
      simp only [strategy, hexecute]
      rfl
    refine ⟨⟨plan', [report]⟩, { w' with events := events' }, ?_, Nat.le_refl 1, answer, first, rest,
      houtcome', hrest⟩
    rw [resolve, hleft]
    exact resolveWith_of_round hstored houtcome hrun hdispatch hstored' (by simp [houtcome']) left

end Fetch

/-! ## §5. The sample cube, with a source. -/

namespace Planner.Sample

/-- One channel without its last day, the other one not at all. -/
def partialStore : Store :=
  Store.empty.insert "signups" (slice "ads" ⟨.ofDays 1, .ofDays 2, by decide⟩)

/-- A source that knows what each channel counts. -/
def source : Fetch.Source Unit := fun memory i =>
  (⟨false, some (.series (constant i.range (daily ((i.assignment.get? "channel").getD ""))))⟩,
    memory)

/-- One call at a time, two items, one round. -/
def dispatcher : Fetch.Dispatcher Store Unit :=
  ⟨⟨1, 2, 1⟩, Store.backend, source, 2⟩

/-- Nothing has happened yet. -/
def world : Fetch.World Store Unit :=
  ⟨partialStore, (), false, [], 0, 0, 0⟩

/-- What is left to be fetched. -/
def wanted : List FetchItem :=
  [planner.item request (only "mail") days,
    planner.item request (only "ads") ⟨.ofDays 3, .ofDays 3, by decide⟩]

/-- What is stored, and what is asked for. -/
theorem run_partialStore :
    planner.compatible (partialStore.slices request.metric) request
        = [slice "ads" ⟨.ofDays 1, .ofDays 2, by decide⟩]
      ∧ planner.outcomeOf (partialStore.slices request.metric) request = .ok (.needsFetch wanted)
      ∧ planner.plannedItems request
        (planner.compatible (partialStore.slices request.metric) request) = wanted
      ∧ (wanted.map FetchItem.id).Nodup := by
  decide +kernel

theorem wellPosed_request : planner.WellPosed request truth where
  made := made_planner
  exhaustive := by
    intro key d hfind
    rw [(find?_planner hfind).2]
    rfl
  fetches := rfl
  additive := additive_truth
  fits := ⟨by decide, by decide⟩

theorem trueCache_partialStore :
    planner.TrueCache request truth
      (planner.compatible (partialStore.slices request.metric) request) := by
  have hslices := run_partialStore.1
  refine ⟨⟨allSatisfy_compatible _, ?_, ?_⟩, ?_, ?_⟩
  · rw [hslices]
    intro s hs
    rw [List.mem_singleton.1 hs]
    rfl
  · rw [hslices]
    exact List.nodup_singleton _
  · rw [hslices]
    intro s hs
    rw [List.mem_singleton.1 hs]
    exact ⟨_, rfl⟩
  · rw [hslices]
    exact fun s hs => truthful_slices (List.mem_cons.2 (.inl (List.mem_singleton.1 hs)))

theorem answersInFull_source : Fetch.AnswersInFull source truth wanted := by
  have hvalue : ∀ value r, (only value).get? "channel" = some value → ∃ s,
      (source () (Fetch.underWay (planner.item request (only value) r))).1
          = ⟨false, some (.series s)⟩
        ∧ s.Holds r.days (truth (only value)) := by
    intro value r hget
    refine ⟨constant r (daily value), ?_, ?_⟩
    · show (⟨false, some (.series (constant r (daily (((only value).get? "channel").getD ""))))⟩
        : Fetch.Answer) = _
      rw [hget]
      rfl
    · refine Series.holds_of_dates (dates_constant ..) ?_
      exact truthful_constant (truth_only value hget)
  intro i hi memory
  simp only [wanted, List.mem_cons, List.not_mem_nil, or_false] at hi
  rcases hi with rfl | rfl
  · exact hvalue "mail" _ rfl
  · exact hvalue "ads" _ rfl

theorem collisionFree_wanted : CollisionFree
    (planner.plannedItems request
      (planner.compatible (partialStore.slices request.metric) request)) := by
  obtain ⟨_, _, hitems, hnodup⟩ := run_partialStore
  rw [hitems]
  intro i hi j hj hid
  rw [List.inj_on_of_nodup_map hnodup hi hj hid]
  exact ⟨rfl, rfl⟩

end Planner.Sample

/-- What the sample cube lacks is fetched in one round, and then it answers. -/
theorem Fetch.resolve_sample : ∃ resolution w',
    Fetch.resolve Planner.Sample.planner Planner.Sample.dispatcher Planner.Sample.request
        Planner.Sample.world = (.ok resolution, w')
      ∧ resolution.rounds.length ≤ 1
      ∧ ∃ answer first rest, resolution.plan.outcome = .satisfied answer (first :: rest)
        ∧ (first = .exact ∨ ∃ keys others, first = .complete keys others)
        ∧ answer.total.amount = (Count.wrap 9 3).amount := by
  obtain ⟨resolution, w', hresolve, hrounds, answer, first, rest, houtcome, hfirst, htotal, _⟩ :=
    @Fetch.resolve_of_true_source Unit Planner.Sample.planner Planner.Sample.dispatcher
      Planner.Sample.request Planner.Sample.world Planner.Sample.truth rfl
      Planner.Sample.wellPosed_request (by decide) Planner.Sample.trueCache_partialStore
      (fun items hitems => by
        have heq : (Except.ok (Outcome.needsFetch Planner.Sample.wanted) : Except Overflow Outcome)
            = .ok (.needsFetch items) := Planner.Sample.run_partialStore.2.1.symm.trans hitems
        cases heq
        exact ⟨Nat.le_refl 2, Planner.Sample.answersInFull_source,
          Planner.Sample.collisionFree_wanted⟩) (by decide) rfl
  refine ⟨resolution, w', hresolve, hrounds, answer, first, rest, houtcome, hfirst, ?_⟩
  rw [htotal]
  rfl

end MetricCube
