/-
  MetricCube.Proofs.Rounds
  ────────────────────────
  **What resolving comes to, whatever the source does.**  The loop plans and dispatches
  by a strategy.  A strategy is allowed if it plans over what is stored, and if each of
  its dispatches is some execution: any interleaving of the tasks, any reply to each
  call, and everything cancelled at any moment (`Strategy.Allowed`).  Dispatching by
  turns is one of these (`allowed_strategy`).

  The rounds of a resolution form a chain (`Rounds`): each dispatches exactly the items
  that a plan over the store of that moment asks for, so that no round follows a plan
  that answers or refuses, and a round calls the source within the budget
  (`Rounds.calls_le`).

  Main result: `resolves_in_rounds`.  The result is the plan over what is stored at the
  end.  If it still asks for items, then the rounds are used up, or everything is
  cancelled, or the last round has stalled.
-/
import Mathlib
import MetricCube.Proofs.Convergence
import MetricCube.Proofs.Execution

namespace MetricCube.Fetch

variable {τ : Type} {p : Planner} {d : Dispatcher Store τ} {req : Request}
  {w w' : World Store τ} {items : List FetchItem}

/-! ## §1. Strategies. -/

/-- The plan over what is stored. -/
def planned (p : Planner) (req : Request) (w : World Store τ) : Except Overflow Plan :=
  (p.plan (w.store.slices req.metric) req).result

/-- Nothing is stored and nothing is fetched; everything may have been cancelled. -/
def World.Rests (w w' : World Store τ) : Prop :=
  w'.store = w.store ∧ w'.calls = w.calls

theorem World.Rests.planned_eq (h : w.Rests w') : planned p req w' = planned p req w := by
  unfold planned
  rw [h.1]

/-- The world has the store of an execution, and counts its calls. -/
structure Execution.Leaves (e : Execution d w items) (w' : World Store τ) : Prop where
  store : w'.store = e.machine.store
  calls : w'.calls = w.calls + e.calls.length

/-- The strategy plans over what is stored, and each of its dispatches is an execution.  Which one,
    what the source replies and when everything is cancelled is left open. -/
structure Strategy.Allowed (s : Strategy (World Store τ)) (p : Planner) (d : Dispatcher Store τ)
    (req : Request) : Prop where
  cancelled : ∀ w, s.cancelled w = w.cancelled
  plan : ∀ w, ∃ w', s.plan w = ((planned p req w).mapError .overflow, w') ∧ w.Rests w'
  dispatch : ∀ w items, (∀ i ∈ items, i.metric = req.metric) →
    ∃ (e : Execution d w items) (w' : World Store τ),
      s.dispatch w items = (.ok e.report, w') ∧ e.Leaves w'

/-- **Dispatching by turns is allowed.** -/
theorem allowed_strategy (hbackend : d.backend = Store.backend) :
    (strategy p d req).Allowed p d req where
  cancelled := fun _ => rfl
  plan := fun w => ⟨_, planStored_eq hbackend w, rfl, rfl⟩
  dispatch := by
    intro w items hitems
    obtain ⟨e, w', hexecute, hends⟩ := d.execute_eq_execution w hitems
    refine ⟨e, w', ?_, hends.store, hends.calls⟩
    simp only [strategy, hexecute]
    rfl

/-- The items of a plan belong to the request's metric. -/
theorem metric_of_planned {plan : Plan} (h : planned p req w = .ok plan)
    (houtcome : plan.outcome = .needsFetch items) : ∀ i ∈ items, i.metric = req.metric := by
  let usable := p.compatible (w.store.slices req.metric) req
  have hall : Planner.AllSatisfy req usable := Planner.allSatisfy_compatible _
  have hplan : p.outcome req usable = .ok (.needsFetch items) := by
    rw [← Planner.outcomeOf_eq, Planner.outcomeOf, ← houtcome]
    exact congrArg (Except.map Plan.outcome) h
  obtain ⟨_, hissued, _⟩ := (Planner.asks_of_outcome hall hplan).cases hall
  intro i hi
  rw [(hissued i hi).2]
  rfl

/-! ## §2. Rounds. -/

/-- **The calls of an execution are within the budget.** -/
theorem Execution.length_calls_le (e : Execution d w items) :
    e.calls.length ≤ d.settings.requestBudget := by
  have hcalled := called_of_run e.ran
  -- Each call is for a task of its own.
  have hsubset : e.calls.map Prod.fst ⊆ List.range d.settings.requestBudget := by
    intro k hk
    obtain ⟨c, hc, rfl⟩ := List.mem_map.1 hk
    obtain ⟨item, hitem, _⟩ := hcalled.started c hc
    have hlt := (List.getElem?_eq_some_iff.1 hitem).1
    rw [Dispatcher.admitted, List.length_take] at hlt
    exact List.mem_range.2 (by omega)
  have hlength := (hcalled.nodup.subperm hsubset).length_le
  rwa [List.length_map, List.length_range] at hlength

/-- Rounds from one world to another, with their reports.  Each round dispatches what the plan over
    the store at its start asks for, and nothing is cancelled at that moment. -/
inductive Rounds (p : Planner) (d : Dispatcher Store τ) (req : Request) :
    World Store τ → List Report → World Store τ → Prop where
  | none {w w' : World Store τ} : w.Rests w' → Rounds p d req w [] w'
  | next {w w₁ w₂ w' : World Store τ} {plan : Plan} {items : List FetchItem}
      {rest : List Report} (e : Execution d w₁ items) :
      planned p req w = .ok plan → plan.outcome = .needsFetch items → w.Rests w₁ →
      w₁.cancelled = false → e.Leaves w₂ → Rounds p d req w₂ rest w' →
      Rounds p d req w (e.report :: rest) w'

theorem Rounds.calls_le {rounds : List Report} (h : Rounds p d req w rounds w') :
    w'.calls ≤ w.calls + rounds.length * d.settings.requestBudget := by
  induction h with
  | none hrests => rw [hrests.2]; simp
  | next e _ _ hrests _ hleaves _ ih =>
    have hcalls := hleaves.calls
    have hbudget := e.length_calls_le
    rw [hrests.2] at hcalls
    rw [List.length_cons, Nat.succ_mul]
    omega

/-! ## §3. How the loop ends. -/

/-- There was an internal fault, or nothing was added and no failure is worth another try. -/
def Report.Stalled (r : Report) : Prop :=
  r.hasInternalFailure = true ∨ (r.daysAdded = 0 ∧ r.retryable = [])

theorem Report.isStalled_iff {r : Report} : r.isStalled = true ↔ r.Stalled := by
  rw [isStalled, Stalled, Bool.or_eq_true, Bool.and_eq_true, decide_eq_true_eq,
    List.isEmpty_iff]

/-- Why no further round is made, of at most `n`: all are made, or everything is cancelled, or the
    last one has stalled. -/
def GivesUp (n : ℕ) (rounds : List Report) (w : World Store τ) : Prop :=
  rounds.length = n ∨ w.cancelled = true ∨ ∃ last, rounds.getLast? = some last ∧ last.Stalled

theorem GivesUp.cons {n : ℕ} {rounds : List Report} (h : GivesUp n rounds w) (r : Report) :
    GivesUp (n + 1) (r :: rounds) w := by
  rcases h with hall | hcancelled | ⟨last, hlast, hstalled⟩
  · exact .inl (congrArg Nat.succ hall)
  · exact .inr (.inl hcancelled)
  · refine .inr (.inr ⟨last, ?_, hstalled⟩)
    rw [List.getLast?_cons, hlast]
    rfl

/-- What a resolution of at most `n` rounds comes to.  Planning overflows over what is stored at
    the end, or the plan over it is the result; and there is a reason if it still asks for
    items. -/
def Resolves (p : Planner) (d : Dispatcher Store τ) (req : Request) (n : ℕ)
    (reason : List Report → World Store τ → Prop) (w : World Store τ)
    (result : Except ResolveError Resolution × World Store τ) : Prop :=
  ∃ rounds, Rounds p d req w rounds result.2 ∧ rounds.length ≤ n
    ∧ ((∃ cause, planned p req result.2 = .error cause ∧ result.1 = .error (.overflow cause))
      ∨ ∃ plan, planned p req result.2 = .ok plan ∧ result.1 = .ok ⟨plan, rounds⟩
          ∧ ∀ items, plan.outcome = .needsFetch items → reason rounds result.2)

variable {s : Strategy (World Store τ)} {n : ℕ} {reason : List Report → World Store τ → Prop}

/-- Planning for the last time. -/
theorem resolves_conclude (hs : s.Allowed p d req) (h : ∀ w', reason [] w') :
    Resolves p d req n reason w (s.conclude w) := by
  obtain ⟨w', hplan, hrests⟩ := hs.plan w
  have hconclude : s.conclude w
      = (((planned p req w).mapError .overflow).map fun plan => ⟨plan, []⟩, w') := by
    simp only [Strategy.conclude, hplan]
  rw [hconclude]
  refine ⟨[], .none hrests, Nat.zero_le n, ?_⟩
  rw [hrests.planned_eq]
  cases planned p req w with
  | error cause => exact .inl ⟨cause, rfl, rfl⟩
  | ok plan => exact .inr ⟨plan, rfl, rfl, fun _ _ => h w'⟩

/-- One more round in front. -/
theorem Resolves.next {w₁ w₂ : World Store τ} {plan : Plan} {e : Execution d w₁ items}
    {result : Except ResolveError Resolution × World Store τ}
    (hplan : planned p req w = .ok plan) (houtcome : plan.outcome = .needsFetch items)
    (hrests : w.Rests w₁) (hrun : w₁.cancelled = false) (hleaves : e.Leaves w₂)
    (h : Resolves p d req n (fun rounds => reason (e.report :: rounds)) w₂ result) :
    Resolves p d req (n + 1) reason w
      (result.1.map (Resolution.after e.report), result.2) := by
  obtain ⟨rounds, hrounds, hlength, hend⟩ := h
  refine ⟨e.report :: rounds, .next e hplan houtcome hrests hrun hleaves hrounds,
    Nat.succ_le_succ hlength, ?_⟩
  rcases hend with ⟨cause, hlast, hresult⟩ | ⟨last, hlast, hresult, hreason⟩
  · exact .inl ⟨cause, hlast, by rw [hresult]; rfl⟩
  · exact .inr ⟨last, hlast, by rw [hresult]; rfl, hreason⟩

theorem Resolves.imp {reason' : List Report → World Store τ → Prop}
    {result : Except ResolveError Resolution × World Store τ}
    (h : Resolves p d req n reason w result)
    (himp : ∀ rounds w', reason rounds w' → reason' rounds w') :
    Resolves p d req n reason' w result := by
  obtain ⟨rounds, hrounds, hlength, hend⟩ := h
  refine ⟨rounds, hrounds, hlength, hend.imp_right ?_⟩
  rintro ⟨last, hlast, hresult, hreason⟩
  exact ⟨last, hlast, hresult, fun items hitems => himp _ _ (hreason items hitems)⟩

/-- The plan is the result, without a round. -/
theorem resolves_plan {plan : Plan} (hrests : w.Rests w') (hplan : planned p req w = .ok plan)
    (h : ∀ items, plan.outcome = .needsFetch items → reason [] w') :
    Resolves p d req n reason w (.ok ⟨plan, []⟩, w') :=
  ⟨[], .none hrests, Nat.zero_le n, .inr ⟨plan, hrests.planned_eq.trans hplan, rfl, h⟩⟩

/-- **The loop, for every allowed strategy.** -/
theorem resolves_resolveWith (hs : s.Allowed p d req) : ∀ (n : ℕ) (w : World Store τ),
    Resolves p d req n (GivesUp n) w (resolveWith s n w) := by
  -- Each round starts in another world, so the world moves with the induction.
  intro n
  induction n with
  | zero =>
    intro w
    exact resolves_conclude hs fun _ => .inl rfl
  | succ n ih =>
    intro w
    obtain ⟨w₁, hplan, hrests⟩ := hs.plan w
    cases hplanned : planned p req w with
    | error cause =>
      rw [hplanned] at hplan
      rw [resolveWith_of_error hplan]
      exact ⟨[], .none hrests, Nat.zero_le _, .inl ⟨cause, hrests.planned_eq.trans hplanned, rfl⟩⟩
    | ok plan =>
      rw [hplanned] at hplan
      by_cases hgoesOn : ∃ items, plan.outcome = .needsFetch items ∧ w₁.cancelled = false
      · obtain ⟨items, houtcome, hrun⟩ := hgoesOn
        obtain ⟨e, w₂, hdispatch, hleaves⟩ :=
          hs.dispatch w₁ items (metric_of_planned hplanned houtcome)
        rw [resolveWith_of_dispatch hplan houtcome ((hs.cancelled w₁).trans hrun) hdispatch]
        refine Resolves.next hplanned houtcome hrests hrun hleaves ?_
        by_cases hstalled : e.report.isStalled = true
        · -- A stalled round is the last one, and this is the reason.
          rw [if_pos hstalled]
          exact resolves_conclude hs fun _ =>
            .inr (.inr ⟨e.report, rfl, Report.isStalled_iff.1 hstalled⟩)
        · rw [if_neg hstalled]
          exact (ih w₂).imp fun _ _ h => h.cons e.report
      · have hends : ∀ items, plan.outcome = .needsFetch items → w₁.cancelled = true := by
          intro items houtcome
          by_contra hrun
          exact hgoesOn ⟨items, houtcome, Bool.eq_false_iff.2 hrun⟩
        rw [resolveWith_of_plan hplan fun items h => (hs.cancelled w₁).trans (hends items h)]
        exact resolves_plan hrests hplanned fun items h => .inr (.inl (hends items h))

/-- The rounds and the calls are as many as the settings allow, or fewer. -/
structure WithinSettings (p : Planner) (d : Dispatcher Store τ) (req : Request)
    (w : World Store τ) (result : Except ResolveError Resolution × World Store τ) : Prop where
  resolves : Resolves p d req d.settings.maxRounds (GivesUp d.settings.maxRounds) w result
  calls : result.2.calls ≤ w.calls + d.settings.maxRounds * d.settings.requestBudget

theorem withinSettings_of_allowed (hs : s.Allowed p d req) (w : World Store τ) :
    WithinSettings p d req w (resolveWith s d.settings.maxRounds w) := by
  have hresolves := resolves_resolveWith hs d.settings.maxRounds w
  refine ⟨hresolves, ?_⟩
  obtain ⟨rounds, hrounds, hlength, _⟩ := hresolves
  have hcalls := hrounds.calls_le
  have hbudget := Nat.mul_le_mul_right d.settings.requestBudget hlength
  omega

/-- **Resolving makes no more rounds than it may, each of them for what a plan asks for, and calls
    the source within the budget of each round.  The result is the plan over what is stored in
    the end, and if this plan asks for items, then the rounds are used up, or everything is
    cancelled, or the last round has stalled.**  This holds for every allowed strategy, and so
    for resolving by turns. -/
theorem resolves_in_rounds (hbackend : d.backend = Store.backend) (w : World Store τ) :
    (∀ s : Strategy (World Store τ), s.Allowed p d req →
        WithinSettings p d req w (resolveWith s d.settings.maxRounds w))
      ∧ WithinSettings p d req w (resolve p d req w) :=
  ⟨fun _ hs => withinSettings_of_allowed hs w,
    withinSettings_of_allowed (allowed_strategy hbackend) w⟩

namespace Sample

open Planner.Sample (planner dispatcher request world)

/-- Resolving over the sample cube, by turns. -/
def resolved : Except ResolveError Resolution × World Store Unit :=
  resolveWith (strategy planner dispatcher request) 1 world

theorem resolved_counts :
    (resolved.1.map fun resolution => resolution.rounds.length).toOption = some 1
      ∧ resolved.2.calls = 2 := by
  decide +kernel

end Sample

/-- The sample cube allows one round of two calls, and takes both of them. -/
theorem resolves_one_round :
    Planner.Sample.dispatcher.backend = Store.backend
      ∧ (strategy Planner.Sample.planner Planner.Sample.dispatcher Planner.Sample.request).Allowed
          Planner.Sample.planner Planner.Sample.dispatcher Planner.Sample.request
      ∧ WithinSettings Planner.Sample.planner Planner.Sample.dispatcher Planner.Sample.request
          Planner.Sample.world Sample.resolved
      ∧ (Sample.resolved.1.map fun resolution => resolution.rounds.length).toOption = some 1
      ∧ Sample.resolved.2.calls = 2 :=
  ⟨rfl, allowed_strategy rfl,
    (resolves_in_rounds rfl Planner.Sample.world).1 _ (allowed_strategy rfl),
    Sample.resolved_counts⟩

end MetricCube.Fetch
