/-
  MetricCube.Proofs.Telemetry
  ───────────────────────────
  **Counters agree with what happened.**  Every event adds an amount to some counters
  (`Event.adds`).  A counter is the sum of the amounts that were added to it, or it stays at the
  largest number (`count_recordAll`); so do the counters of one metric (`count_own`).  As long as no
  counter is saturated, the counters of all metrics add up to those over all metrics
  (`sum_metrics`).

  What a call adds can be read off what it returns (`Call.adds`):

      a plan       one end, and the number of the items to be fetched
      a dispatch   one end for each item of its report, and the days that it added

  however the tasks of a dispatch are interleaved, and also when calls overlap.

  Main statement: `counters_agree`.
-/
import Mathlib
import MetricCube.Proofs.Accounting
import MetricCube.Proofs.Conservation
import MetricCube.Proofs.Reporting

namespace MetricCube.Telemetry

/-! ## §1. What an event adds. -/

/-- The counters that are kept for each metric. -/
inductive MetricCounter where
  | planCalls
  | planSatisfied
  | planNeedsFetch
  | planRefused
  | fetchesMerged
  | daysMerged

/-- The counters over all metrics. -/
inductive Counter where
  | ofMetric (k : MetricCounter)
  | signatureRejections
  | reductionsComplete
  | reductionsPartial
  | fetchItemsPlanned
  | fetchesStarted
  | fetchesFailed
  | fetchesCancelled
  | fetchesOverBudget

/-- What a counter of a metric stands at. -/
def MetricTotals.count (t : MetricTotals) : MetricCounter → Nat
  | .planCalls => t.planCalls
  | .planSatisfied => t.planSatisfied
  | .planNeedsFetch => t.planNeedsFetch
  | .planRefused => t.planRefused
  | .fetchesMerged => t.fetchesMerged
  | .daysMerged => t.daysMerged

/-- What a counter stands at. -/
def Totals.count (t : Totals) : Counter → Nat
  | .ofMetric .planCalls => t.planCalls
  | .ofMetric .planSatisfied => t.planSatisfied
  | .ofMetric .planNeedsFetch => t.planNeedsFetch
  | .ofMetric .planRefused => t.planRefused
  | .ofMetric .fetchesMerged => t.fetchesMerged
  | .ofMetric .daysMerged => t.daysMerged
  | .signatureRejections => t.signatureRejections
  | .reductionsComplete => t.reductionsComplete
  | .reductionsPartial => t.reductionsPartial
  | .fetchItemsPlanned => t.fetchItemsPlanned
  | .fetchesStarted => t.fetchesStarted
  | .fetchesFailed => t.fetchesFailed
  | .fetchesCancelled => t.fetchesCancelled
  | .fetchesOverBudget => t.fetchesOverBudget

/-- The amount that an event adds to a counter. -/
def Event.adds : Event → Counter → Nat
  | .planFinished _ _ _, .ofMetric .planCalls => 1
  | .planFinished _ .satisfied _, .ofMetric .planSatisfied => 1
  | .planFinished _ .needsFetch _, .ofMetric .planNeedsFetch => 1
  | .planFinished _ .refused _, .ofMetric .planRefused => 1
  | .planFinished _ _ items, .fetchItemsPlanned => items
  | .signatureRejected _, .signatureRejections => 1
  | .reduced _ true, .reductionsComplete => 1
  | .reduced _ false, .reductionsPartial => 1
  | .fetchStarted _, .fetchesStarted => 1
  | .fetchFinished _ .merged _, .ofMetric .fetchesMerged => 1
  | .fetchFinished _ .merged days, .ofMetric .daysMerged => days
  | .fetchFinished _ .failed _, .fetchesFailed => 1
  | .fetchFinished _ .cancelled _, .fetchesCancelled => 1
  | .fetchFinished _ .overBudget _, .fetchesOverBudget => 1
  | _, _ => 0

/-- The amount that an event adds to a counter of a metric. -/
def Event.addsTo (e : Event) (metric : String) (k : MetricCounter) : Nat :=
  if e.counted? = some metric then e.adds (.ofMetric k) else 0

/-- What events add to a counter. -/
def added (log : List Event) (k : Counter) : Nat :=
  (log.map fun e => e.adds k).sum

/-- What events add to a counter of a metric. -/
def addedTo (log : List Event) (metric : String) (k : MetricCounter) : Nat :=
  (log.map fun e => e.addsTo metric k).sum

variable {log log' : List Event} {e : Event} {k : Counter}

theorem added_append (log log' : List Event) (k : Counter) :
    added (log ++ log') k = added log k + added log' k := by
  rw [added, List.map_append, List.sum_append]
  rfl

theorem added_concat (log : List Event) (e : Event) (k : Counter) :
    added (log ++ [e]) k = added log k + e.adds k := by
  rw [added_append]
  exact congrArg (added log k + ·) (Nat.add_zero _)

theorem added_of_perm (h : log.Perm log') (k : Counter) : added log k = added log' k :=
  (h.map _).sum_eq

theorem addedTo_concat (log : List Event) (e : Event) (metric : String) (k : MetricCounter) :
    addedTo (log ++ [e]) metric k = addedTo log metric k + e.addsTo metric k := by
  rw [addedTo, List.map_append, List.sum_append]
  exact congrArg (addedTo log metric k + ·) (Nat.add_zero _)

/-- An event that is counted for no metric adds to no counter of a metric. -/
theorem adds_of_not_counted (h : e.counted? = none) (k : MetricCounter) :
    e.adds (.ofMetric k) = 0 := by
  cases e with
  | planFinished => cases h
  | fetchFinished m ending days =>
    cases ending with
    | merged => cases h
    | failed | cancelled | overBudget => cases k <;> rfl
  | signatureRejected | fetchStarted => cases k <;> rfl
  | reduced m complete => cases complete <;> cases k <;> rfl

theorem addedTo_le (log : List Event) (metric : String) (k : MetricCounter) :
    addedTo log metric k ≤ added log (.ofMetric k) := by
  refine List.sum_le_sum fun e _ => ?_
  unfold Event.addsTo
  split
  · exact Nat.le_refl _
  · exact Nat.zero_le _

/-! ## §2. Counters are sums, up to the largest number. -/

theorem bump_zero {c : Nat} (h : c < counterBound) : bump c 0 = c := by
  unfold bump
  omega

theorem bump_of_lt {c amount : Nat} (h : c + amount < counterBound) :
    bump c amount = c + amount := by
  unfold bump
  omega

/-- Adding to a sum that has been cut off and cutting off the sum come to the same. -/
theorem bump_min (sum amount : Nat) : bump (min sum (counterBound - 1)) amount
    = min (sum + amount) (counterBound - 1) := by
  unfold bump
  omega

theorem min_lt_counterBound (sum : Nat) : min sum (counterBound - 1) < counterBound := by
  unfold counterBound
  omega

/-- **An event moves the counters by what it adds.** -/
theorem count_record {t : Totals} (e : Event) (k : Counter) (h : t.count k < counterBound) :
    (t.record e).count k = bump (t.count k) (e.adds k) := by
  have hsame := (bump_zero h).symm
  -- A counter that the event does not move is bumped by nothing.
  cases e with
  | planFinished m ending items =>
    cases ending with
    | satisfied | needsFetch | refused =>
      cases k with
      | ofMetric k => cases k <;> first | rfl | exact hsame
      | _ => first | rfl | exact hsame
  | signatureRejected m | fetchStarted m =>
    cases k with
    | ofMetric k => cases k <;> exact hsame
    | _ => first | rfl | exact hsame
  | reduced m complete =>
    cases complete with
    | true | false =>
      cases k with
      | ofMetric k => cases k <;> exact hsame
      | _ => first | rfl | exact hsame
  | fetchFinished m ending days =>
    cases ending with
    | merged | failed | cancelled | overBudget =>
      cases k with
      | ofMetric k => cases k <;> first | rfl | exact hsame
      | _ => first | rfl | exact hsame

/-- An event moves the counters of its metric by what it adds. -/
theorem count_record_metric {t : MetricTotals} (e : Event) (k : MetricCounter)
    (h : t.count k < counterBound) :
    (t.record e).count k = bump (t.count k) (e.adds (.ofMetric k)) := by
  have hsame := (bump_zero h).symm
  cases e with
  | planFinished m ending items =>
    cases ending with
    | satisfied | needsFetch | refused => cases k <;> first | rfl | exact hsame
  | signatureRejected m | fetchStarted m => cases k <;> exact hsame
  | reduced m complete => cases complete <;> cases k <;> exact hsame
  | fetchFinished m ending days =>
    cases ending with
    | merged | failed | cancelled | overBudget => cases k <;> first | rfl | exact hsame

namespace Counters

/-- The counters of a metric. -/
def own (c : Counters) (metric : String) : MetricTotals :=
  (c.metrics.get? metric).getD .zero

theorem recordAll_concat (c : Counters) (log : List Event) (e : Event) :
    c.recordAll (log ++ [e]) = (c.recordAll log).record e :=
  List.foldl_concat ..

theorem totals_record (c : Counters) (e : Event) : (c.record e).totals = c.totals.record e := by
  unfold record
  split <;> rfl

theorem own_record (c : Counters) (e : Event) (metric : String) : (c.record e).own metric
    = if e.counted? = some metric then (c.own metric).record e else c.own metric := by
  unfold record own
  cases e.counted? with
  | none => rfl
  | some m =>
    simp only [Table.get?_insert, Option.some.injEq]
    by_cases hm : metric = m
    · rw [if_pos hm, if_pos hm.symm, hm]
      rfl
    · rw [if_neg hm, if_neg (Ne.symm hm)]

end Counters

open Counters

/-- **A counter is the sum of what was added to it, or the largest number.** -/
theorem count_recordAll (log : List Event) (k : Counter) :
    (Counters.zero.recordAll log).totals.count k = min (added log k) (counterBound - 1) := by
  induction log using List.reverseRecOn with
  | nil => cases k with
    | ofMetric k => cases k <;> rfl
    | _ => rfl
  | append_singleton log e ih =>
    have hlt := ih ▸ min_lt_counterBound (added log k)
    rw [recordAll_concat, totals_record, count_record e k hlt, ih, bump_min, added_concat]

/-- A counter of a metric is the sum of what was added to it, or the largest number. -/
theorem count_own (log : List Event) (metric : String) (k : MetricCounter) :
    ((Counters.zero.recordAll log).own metric).count k
      = min (addedTo log metric k) (counterBound - 1) := by
  induction log using List.reverseRecOn with
  | nil => cases k <;> rfl
  | append_singleton log e ih =>
    have hlt := ih ▸ min_lt_counterBound (addedTo log metric k)
    rw [recordAll_concat, own_record, addedTo_concat, Event.addsTo]
    split
    · rw [count_record_metric e k hlt, ih, bump_min]
    · rw [ih, Nat.add_zero]

/-- **No counter has saturated:** whenever an event came, what it added still fitted.  The counters
    of one metric are at most those over all metrics, and so have not saturated either. -/
def NoneSaturated (log : List Event) : Prop :=
  ∀ before e after, log = before ++ e :: after → ∀ k,
    (Counters.zero.recordAll before).totals.count k + e.adds k < counterBound

theorem noneSaturated_iff : NoneSaturated log ↔ ∀ k, added log k < counterBound := by
  constructor
  · intro h k
    induction log using List.reverseRecOn with
    | nil => exact Nat.lt_of_sub_eq_succ rfl
    | append_singleton log e ih =>
      have hlog : added log k < counterBound := ih fun before e' after heq =>
        h before e' (after ++ [e]) (by rw [heq, List.append_assoc, List.cons_append])
      have hfits := h log e [] rfl k
      rw [count_recordAll] at hfits
      rw [added_concat]
      omega
  · rintro h before e after rfl k
    have hsum := h k
    rw [List.append_cons, added_append, added_concat] at hsum
    rw [count_recordAll]
    omega

/-- Where the sum fits, a counter is the sum. -/
theorem count_of_lt (h : added log k < counterBound) :
    (Counters.zero.recordAll log).totals.count k = added log k := by
  rw [count_recordAll]
  omega

/-- One more event adds its amount to the counters of all metrics together. -/
theorem sum_record {c : Counters} (k : MetricCounter)
    (h : ∀ m, e.counted? = some m → (c.own m).count k + e.adds (.ofMetric k) < counterBound) :
    ((c.record e).metrics.entries.map fun x => x.2.count k).sum
      = (c.metrics.entries.map fun x => x.2.count k).sum + e.adds (.ofMetric k) := by
  unfold record
  cases hcounted : e.counted? with
  | none => rw [adds_of_not_counted hcounted, Nat.add_zero]
  | some m =>
    have hfits := h m hcounted
    have hnew : ((c.own m).record e).count k = (c.own m).count k + e.adds (.ofMetric k) := by
      rw [count_record_metric e k (Nat.lt_of_le_of_lt (Nat.le_add_right _ _) hfits),
        bump_of_lt hfits]
    have hheld : ((Table.find? m c.metrics.entries).map fun t => t.count k).getD 0
        = (c.own m).count k := by
      show ((c.metrics.get? m).map fun t => t.count k).getD 0
        = ((c.metrics.get? m).getD .zero).count k
      cases c.metrics.get? m with
      | none => cases k <;> rfl
      | some t => rfl
    -- The entry of the metric is replaced by one that is greater by the amount.
    have hsum := Table.sum_insertEntry (fun t : MetricTotals => t.count k) m ((c.own m).record e)
      c.metrics.ascending
    simp only [hheld, hnew] at hsum
    show ((Table.insertEntry m ((c.own m).record e) c.metrics.entries).map fun x => x.2.count k).sum
      = _
    omega

/-- **The counters of all metrics add up to the counter over all metrics.** -/
theorem sum_metrics (k : MetricCounter) (h : added log (.ofMetric k) < counterBound) :
    ((Counters.zero.recordAll log).metrics.entries.map fun x => x.2.count k).sum
      = added log (.ofMetric k) := by
  induction log using List.reverseRecOn with
  | nil => rfl
  | append_singleton log e ih =>
    rw [added_concat] at h ⊢
    rw [recordAll_concat, sum_record k, ih (Nat.lt_of_le_of_lt (Nat.le_add_right _ _) h)]
    -- A counter of one metric is at most that over all metrics.
    intro m _
    have hle := addedTo_le log m k
    rw [count_own]
    omega

/-! ## §3. The ends that planning reports. -/

/-- The end that is reported of a plan. -/
def planEnds (req : Request) : Except Overflow Plan → List Event
  | .ok plan => [Planner.endEvent req plan.outcome]
  | .error _ => []

theorem ends_finish (req : Request) (events : List Event) (result : Except Overflow Plan)
    (h : events.filter Event.isEnd = []) :
    (Planner.finish req events result).events.filter Event.isEnd = planEnds req result := by
  cases result with
  | error e => exact h
  | ok plan =>
    show (events ++ [Planner.endEvent req plan.outcome]).filter Event.isEnd = _
    rw [List.filter_append, h]
    cases hout : plan.outcome <;> simp [planEnds, Planner.endEvent, hout, Event.isEnd]

theorem ends_screenEvents (req : Request) (screened : List (Slice × Option Mismatch)) :
    (Planner.screenEvents req screened).filter Event.isEnd = [] := by
  refine List.filter_eq_nil_iff.2 fun e he => ?_
  obtain ⟨entry, _, hevent⟩ := List.mem_filterMap.1 he
  obtain ⟨_, _, rfl⟩ := Option.map_eq_some_iff.1 hevent
  exact Bool.false_ne_true

theorem ends_findings (metric : String) (findings : List Planner.Finding) :
    (findings.flatMap (Planner.Finding.events metric)).filter Event.isEnd = [] := by
  refine List.filter_eq_nil_iff.2 fun e he => ?_
  obtain ⟨finding, _, hevent⟩ := List.mem_flatMap.1 he
  unfold Planner.Finding.events at hevent
  split at hevent
  · rw [List.mem_singleton.1 hevent]
    exact Bool.false_ne_true
  · rw [List.mem_singleton.1 hevent]
    exact Bool.false_ne_true
  · rw [List.mem_singleton.1 hevent]
    exact Bool.false_ne_true
  · cases hevent

theorem ends_planFamilies (p : Planner) (req : Request) (usable : List Slice)
    (lacking : Option (List FetchItem)) (before : Trace) (events : List Event)
    (h : events.filter Event.isEnd = []) :
    (p.planFamilies req usable lacking before events).events.filter Event.isEnd
      = planEnds req (p.planFamilies req usable lacking before events).result := by
  unfold Planner.planFamilies
  simp only
  rw [Planner.finish_result]
  refine ends_finish _ _ _ ?_
  rw [List.filter_append, h, ends_findings, List.nil_append]

/-- **Planning reports one end, if it comes to a plan.** -/
theorem ends_plan (p : Planner) (slices : List Slice) (req : Request) :
    (p.plan slices req).events.filter Event.isEnd = planEnds req (p.plan slices req).result := by
  have hscreen := ends_screenEvents req (p.screen slices req)
  unfold Planner.plan
  simp only
  split
  · exact ends_finish _ _ _ hscreen
  · exact ends_planFamilies _ _ _ _ _ _ hscreen
  · split
    · exact ends_finish _ _ _ hscreen
    · exact ends_finish _ _ _ hscreen
    · exact ends_planFamilies _ _ _ _ _ _ hscreen

/-! ## §4. What a call adds. -/

open Fetch

/-- The counter is moved by the ends of plans and fetches. -/
def Counter.isOfEnds : Counter → Bool
  | .signatureRejections | .reductionsComplete | .reductionsPartial | .fetchesStarted => false
  | .ofMetric _ | .fetchItemsPlanned | .fetchesFailed | .fetchesCancelled
  | .fetchesOverBudget => true

theorem adds_of_not_end (hk : k.isOfEnds = true) (he : e.isEnd = false) : e.adds k = 0 := by
  cases e with
  | planFinished | fetchFinished => cases he
  | signatureRejected | fetchStarted =>
    cases k with
    | ofMetric k => cases k <;> rfl
    | signatureRejections | reductionsComplete | reductionsPartial | fetchesStarted => cases hk
    | fetchItemsPlanned | fetchesFailed | fetchesCancelled | fetchesOverBudget => rfl
  | reduced m complete =>
    cases complete <;> cases k with
    | ofMetric k => cases k <;> rfl
    | signatureRejections | reductionsComplete | reductionsPartial | fetchesStarted => cases hk
    | fetchItemsPlanned | fetchesFailed | fetchesCancelled | fetchesOverBudget => rfl

/-- Only ends matter to these counters. -/
theorem added_ends (hk : k.isOfEnds = true) (log : List Event) :
    added (log.filter Event.isEnd) k = added log k := by
  induction log with
  | nil => rfl
  | cons e rest ih =>
    have hcons : added (e :: rest) k = e.adds k + added rest k := List.sum_cons
    rw [hcons, List.filter_cons]
    split
    · exact congrArg (e.adds k + ·) ih
    · rename_i hend
      rw [adds_of_not_end hk (Bool.eq_false_iff.2 hend), Nat.zero_add, ih]

/-- What a report adds to a counter. -/
def reportAdds (r : Report) : Counter → Nat
  | .ofMetric .fetchesMerged => r.merged.length
  | .ofMetric .daysMerged => r.daysAdded
  | .fetchesFailed => r.failed.length + r.faulted.length
  | .fetchesCancelled => r.cancelled.length
  | .fetchesOverBudget => r.overBudget.length
  | _ => 0

theorem daysAdded_eq_sum (r : Report) : r.daysAdded = (r.merged.map MergedItem.days).sum :=
  List.sum_eq_foldl.symm

/-- The report of tasks and of items that were left out, before its lists are sorted. -/
def unsorted (tasks : List Task) (left : List FetchItem) : Report where
  merged := tasks.filterMap Task.merged?
  failed := tasks.filterMap Task.failed?
  faulted := tasks.filterMap Task.faulted?
  cancelled := tasks.filterMap Task.cancelled?
  overBudget := left

theorem reportAdds_ofTasks (tasks : List Task) (left : List FetchItem) (k : Counter) :
    reportAdds (.ofTasks tasks left) k = reportAdds (unsorted tasks left) k := by
  have hmerged := Ordered.perm_sortOn (fun m : MergedItem => m.id.toNat)
    (tasks.filterMap Task.merged?)
  cases k with
  | ofMetric k =>
    cases k with
    | fetchesMerged => exact hmerged.length_eq
    | daysMerged =>
      simp only [reportAdds, daysAdded_eq_sum]
      exact (hmerged.map _).sum_eq
    | planCalls | planSatisfied | planNeedsFetch | planRefused => rfl
  | fetchesFailed =>
    exact congrArg₂ (· + ·) (Ordered.perm_sortOn ..).length_eq (Ordered.perm_sortOn ..).length_eq
  | fetchesCancelled | fetchesOverBudget => exact (Ordered.perm_sortOn ..).length_eq
  | _ => rfl

/-- An item that is left out adds to one counter only. -/
theorem added_left (left : List FetchItem) (k : Counter) :
    added (Dispatcher.overBudgetEvents left) k = reportAdds (unsorted [] left) k := by
  induction left with
  | nil => cases k with
    | ofMetric k => cases k <;> rfl
    | _ => rfl
  | cons i rest ih =>
    have hcons : added (Dispatcher.overBudgetEvents (i :: rest)) k
        = (Event.fetchFinished i.metric .overBudget 0).adds k
          + added (Dispatcher.overBudgetEvents rest) k := List.sum_cons
    rw [hcons, ih]
    cases k with
    | ofMetric k => cases k <;> rfl
    | fetchesOverBudget => exact Nat.add_comm ..
    | _ => rfl

/-- One more task adds its end. -/
theorem reportAdds_cons (t : Task) (rest : List Task) (left : List FetchItem) (k : Counter) :
    reportAdds (unsorted (t :: rest) left) k
      = reportAdds (unsorted rest left) k + added t.end?.toList k := by
  simp only [unsorted, List.filterMap_cons, Task.merged?, Task.failed?, Task.faulted?,
    Task.cancelled?, Task.end?]
  cases t.ending? with
  | none => rfl
  | some e =>
    -- The end of the task decides to which list it is added.
    cases e with
    | merged | failed | faulted | cancelled =>
      cases k with
      | ofMetric k =>
        cases k with
        | daysMerged =>
          simp only [reportAdds, daysAdded_eq_sum, List.map_cons, List.sum_cons]
          first | rfl | exact Nat.add_comm ..
        | planCalls | planSatisfied | planNeedsFetch | planRefused | fetchesMerged => rfl
      | fetchesFailed =>
        first | rfl | exact Nat.add_right_comm ..
      | _ => rfl

/-- **The ends that are reported of items add what the report does.** -/
theorem added_report (tasks : List Task) (left : List FetchItem) (k : Counter) :
    added (Dispatcher.overBudgetEvents left ++ tasks.filterMap Task.end?) k
      = reportAdds (.ofTasks tasks left) k := by
  rw [reportAdds_ofTasks, added_append, added_left]
  induction tasks with
  | nil => rfl
  | cons t rest ih =>
    have hends : (t :: rest).filterMap Task.end? = t.end?.toList ++ rest.filterMap Task.end? := by
      cases hend : t.end? <;> simp [hend]
    rw [reportAdds_cons, ← ih, hends, added_append]
    omega

/-- What a call returned. -/
inductive Returned where
  | planned (req : Request) (result : Except Overflow Plan)
  | dispatched (result : Except DispatchError Report)

/-- The outcome of a plan. -/
def Returned.outcome? : Returned → Option Outcome
  | .planned _ (.ok plan) => some plan.outcome
  | _ => none

/-- The report of a dispatch. -/
def Returned.report? : Returned → Option Report
  | .dispatched (.ok report) => some report
  | _ => none

/-- What a call adds to a counter, by what it returned. -/
def Returned.adds (r : Returned) (k : Counter) : Nat :=
  match r with
  | .planned req result => added (planEnds req result) k
  | .dispatched (.ok report) => reportAdds report k
  | .dispatched (.error _) => 0

/-- **A call, by what it reports and what it returns:** a plan, a dispatch with the turns that it
    takes, and a dispatch in any other interleaving of its tasks. -/
inductive Call : List Event → Returned → Prop
  | plan (p : Planner) (slices : List Slice) (req : Request) :
      Call (p.plan slices req).events (.planned req (p.plan slices req).result)
  | execute {σ τ : Type} (d : Dispatcher σ τ) (w : World σ τ) (metric : String)
      (items : List FetchItem) (log : List Event) :
      (d.execute w metric items).2.events = w.events ++ log →
      Call log (.dispatched (d.execute w metric items).1)
  | interleave {σ τ : Type} {d : Dispatcher σ τ} {w : World σ τ} {items : List FetchItem}
      (e : Execution d w items) : Call e.log (.dispatched (.ok e.report))

theorem added_execution {σ τ : Type} {d : Dispatcher σ τ} {w : World σ τ} {items : List FetchItem}
    (e : Execution d w items) (hk : k.isOfEnds = true) : added e.log k = reportAdds e.report k := by
  rw [← added_ends hk, added_of_perm e.ends_log, added_report]
  rfl

/-- **What a call adds can be read off what it returns.** -/
theorem Call.adds {r : Returned} (h : Call log r) (hk : k.isOfEnds = true) :
    added log k = r.adds k := by
  cases h with
  | plan p slices req => rw [← added_ends hk, ends_plan, Returned.adds]
  | interleave e => exact added_execution e hk
  | execute d w metric items log hlog =>
    by_cases hforeign : ∃ i ∈ items, i.metric ≠ metric
    · -- Nothing happens to items of another metric.
      obtain ⟨i, hi, hmetric⟩ := hforeign
      obtain ⟨j, _, _, hexecute⟩ := d.execute_of_foreign w hi hmetric
      rw [hexecute] at hlog ⊢
      obtain rfl : log = [] := List.self_eq_append_right.1 hlog
      rfl
    · have hown : ∀ i ∈ items, i.metric = metric := by
        intro i hi
        by_contra hmetric
        exact hforeign ⟨i, hi, hmetric⟩
      obtain ⟨e, w', log', hexecute, hevents, hperm⟩ := d.execute_reports w hown
      rw [hexecute] at hlog ⊢
      obtain rfl : log' = log := List.append_cancel_left (hevents.symm.trans hlog)
      rw [added_of_perm hperm, added_execution e hk]
      rfl

/-- **A stretch of work:** calls one after the other, or overlapping, so that their events may come
    in any order. -/
inductive Session : List Event → List Returned → Prop
  | start : Session [] []
  | call {log events log' : List Event} {returned : List Returned} {r : Returned} :
      Session log returned → Call events r → log'.Perm (log ++ events) →
      Session log' (returned ++ [r])

theorem Session.adds {returned : List Returned} (h : Session log returned)
    (hk : k.isOfEnds = true) : added log k = (returned.map fun r => r.adds k).sum := by
  induction h with
  | start => rfl
  | call _ hcall hperm ih =>
    rw [added_of_perm hperm, added_append, ih, hcall.adds hk, List.map_append, List.sum_append,
      List.map_singleton, List.sum_singleton]

/-! ## §5. Counters agree with what happened. -/

variable {returned : List Returned}

/-- Plans are counted by how they ended. -/
theorem adds_plans (e : Event) : e.adds (.ofMetric .planCalls)
    = e.adds (.ofMetric .planSatisfied) + e.adds (.ofMetric .planNeedsFetch)
      + e.adds (.ofMetric .planRefused) := by
  cases e with
  | planFinished m ending items => cases ending <;> rfl
  | fetchFinished m ending days => cases ending <;> rfl
  | reduced m complete => cases complete <;> rfl
  | signatureRejected | fetchStarted => rfl

theorem added_plans (log : List Event) : added log (.ofMetric .planCalls)
    = added log (.ofMetric .planSatisfied) + added log (.ofMetric .planNeedsFetch)
      + added log (.ofMetric .planRefused) := by
  simp only [added, adds_plans, List.sum_map_add]

theorem addedTo_plans (log : List Event) (metric : String) : addedTo log metric .planCalls
    = addedTo log metric .planSatisfied + addedTo log metric .planNeedsFetch
      + addedTo log metric .planRefused := by
  have hadds : ∀ e : Event, e.addsTo metric .planCalls = e.addsTo metric .planSatisfied
      + e.addsTo metric .planNeedsFetch + e.addsTo metric .planRefused := by
    intro e
    unfold Event.addsTo
    split
    · exact adds_plans e
    · rfl
  simp only [addedTo, hadds, List.sum_map_add]

/-- The counter of plans that ended so. -/
def PlanEnd.counter : PlanEnd → MetricCounter
  | .satisfied => .planSatisfied
  | .needsFetch => .planNeedsFetch
  | .refused => .planRefused

/-- How planning ended that came to an outcome. -/
def planEnding : Outcome → PlanEnd
  | .satisfied _ _ => .satisfied
  | .needsFetch _ => .needsFetch
  | .refused _ => .refused

/-- **What counters agree with,** given what the calls returned since they were set to zero. -/
structure Counters.Agree (c : Counters) (returned : List Returned) : Prop where
  /-- Plans are counted by how they ended. -/
  ends : ∀ ending : PlanEnd, c.totals.count (.ofMetric ending.counter)
    = (returned.filterMap Returned.outcome?).countP fun o => planEnding o = ending
  plans : c.totals.planCalls
    = c.totals.planSatisfied + c.totals.planNeedsFetch + c.totals.planRefused
  metricPlans : ∀ x ∈ c.metrics.entries,
    x.2.planCalls = x.2.planSatisfied + x.2.planNeedsFetch + x.2.planRefused
  /-- Each counter that is kept for each metric adds up to the one over all metrics. -/
  sums : ∀ k : MetricCounter,
    c.totals.count (.ofMetric k) = (c.metrics.entries.map fun x => x.2.count k).sum
  items : c.totals.fetchItemsPlanned
    = ((returned.filterMap Returned.outcome?).map fun o => o.items.length).sum
  merged : c.totals.fetchesMerged
    = ((returned.filterMap Returned.report?).map fun r => r.merged.length).sum
  cancelled : c.totals.fetchesCancelled
    = ((returned.filterMap Returned.report?).map fun r => r.cancelled.length).sum
  overBudget : c.totals.fetchesOverBudget
    = ((returned.filterMap Returned.report?).map fun r => r.overBudget.length).sum
  failed : c.totals.fetchesFailed
    = ((returned.filterMap Returned.report?).map fun r => r.failed.length + r.faulted.length).sum
  days : c.totals.daysMerged
    = ((returned.filterMap Returned.report?).map Report.daysAdded).sum

/-- A counter that some results add to, and others do not. -/
theorem sum_adds {α : Type} {f : Returned → Option α} {g : α → Nat}
    (h : ∀ r, r.adds k = ((f r).map g).getD 0) (returned : List Returned) :
    (returned.map fun r => r.adds k).sum = ((returned.filterMap f).map g).sum := by
  induction returned with
  | nil => rfl
  | cons r rest ih =>
    rw [List.map_cons, List.sum_cons, ih, h r]
    cases hr : f r with
    | none => rw [List.filterMap_cons_none hr, Option.map_none, Option.getD_none, Nat.zero_add]
    | some a =>
      rw [List.filterMap_cons_some hr, List.map_cons, List.sum_cons, Option.map_some,
        Option.getD_some]

theorem adds_ending (ending : PlanEnd) (r : Returned) : r.adds (.ofMetric ending.counter)
    = (r.outcome?.map fun o => if planEnding o = ending then 1 else 0).getD 0 := by
  cases r with
  | planned req result =>
    cases result with
    | error e => cases ending <;> rfl
    | ok plan =>
      obtain ⟨outcome, trace⟩ := plan
      cases outcome <;> cases ending <;> rfl
  | dispatched result => cases result <;> cases ending <;> rfl

theorem sum_ending (ending : PlanEnd) (outcomes : List Outcome) :
    (outcomes.map fun o => if planEnding o = ending then 1 else 0).sum
      = outcomes.countP fun o => planEnding o = ending := by
  induction outcomes with
  | nil => rfl
  | cons o rest ih =>
    rw [List.map_cons, List.sum_cons, ih, List.countP_cons, Nat.add_comm]
    simp only [decide_eq_true_eq]

theorem adds_items (r : Returned) :
    r.adds .fetchItemsPlanned = (r.outcome?.map fun o => o.items.length).getD 0 := by
  cases r with
  | planned req result =>
    cases result with
    | error e => rfl
    | ok plan =>
      obtain ⟨outcome, trace⟩ := plan
      cases outcome <;> rfl
  | dispatched result => cases result <;> rfl

/-- The counter is moved by the ends of fetches only. -/
def Counter.isOfReports : Counter → Bool
  | .ofMetric .fetchesMerged | .ofMetric .daysMerged | .fetchesFailed | .fetchesCancelled
  | .fetchesOverBudget => true
  | _ => false

theorem isOfEnds_of_isOfReports (hk : k.isOfReports = true) : k.isOfEnds = true := by
  cases k <;> first | rfl | cases hk

theorem adds_reports (hk : k.isOfReports = true) (r : Returned) :
    r.adds k = (r.report?.map fun report => reportAdds report k).getD 0 := by
  cases r with
  | planned req result =>
    cases result with
    | error e => rfl
    | ok plan =>
      obtain ⟨outcome, trace⟩ := plan
      cases outcome <;> cases k with
      | ofMetric k => cases k <;> first | rfl | cases hk
      | _ => first | rfl | cases hk
  | dispatched result => cases result <;> rfl

theorem counters_recordAll {r : Recorder} (h : r.scope = none) (log : List Event) :
    (r.recordAll log).counters = r.counters.recordAll log := by
  induction log generalizing r with
  | nil => rfl
  | cons e rest ih =>
    have hrecord : r.record e = { r with counters := r.counters.record e } := by
      unfold Recorder.record
      rw [h]
    show ((r.record e).recordAll rest).counters = (r.counters.record e).recordAll rest
    rw [hrecord]
    exact ih h

/-- **Counters agree with what happened.**  After a reset, outside of scopes, and as long as no
    counter has saturated: plans are counted by how they ended, in total and for each metric; the
    counters of all metrics add up; and the counters say what plans and reports say together. -/
theorem counters_agree {r : Recorder} (hscope : r.scope = none) (h : Session log returned)
    (hfits : NoneSaturated log) : (r.reset.recordAll log).counters.Agree returned := by
  -- Nothing has saturated, so each counter is the number of what it counts.
  have hcounters : (r.reset.recordAll log).counters = Counters.zero.recordAll log :=
    counters_recordAll (r := r.reset) hscope log
  have hlt := noneSaturated_iff.1 hfits
  have hcount : ∀ k, (Counters.zero.recordAll log).totals.count k = added log k :=
    fun k => count_of_lt (hlt k)
  have hreports : ∀ k, k.isOfReports = true → (Counters.zero.recordAll log).totals.count k
      = ((returned.filterMap Returned.report?).map fun report => reportAdds report k).sum := by
    intro k hk
    rw [hcount, h.adds (isOfEnds_of_isOfReports hk), sum_adds (adds_reports hk)]
  rw [hcounters]
  exact {
    ends := fun ending => by
      rw [hcount, h.adds rfl, sum_adds (adds_ending ending), sum_ending]
    plans := by
      have hplans := added_plans log
      simp only [← hcount] at hplans
      exact hplans
    metricPlans := by
      intro x hx
      have hown : (Counters.zero.recordAll log).own x.1 = x.2 := by
        rw [own, Table.get?_eq_some_iff.2 hx]
        rfl
      have hsame : ∀ k, x.2.count k = addedTo log x.1 k := by
        intro k
        have hle := (addedTo_le log x.1 k).trans_lt (hlt _)
        rw [← hown, count_own]
        omega
      have hplans := addedTo_plans log x.1
      simp only [← hsame] at hplans
      exact hplans
    sums := fun k => by rw [hcount, sum_metrics k (hlt _)]
    items := by
      have hitems := hcount .fetchItemsPlanned
      rwa [h.adds rfl, sum_adds adds_items] at hitems
    merged := hreports (.ofMetric .fetchesMerged) rfl
    cancelled := hreports .fetchesCancelled rfl
    overBudget := hreports .fetchesOverBudget rfl
    failed := hreports .fetchesFailed rfl
    days := hreports (.ofMetric .daysMerged) rfl }

namespace Sample

/-- The source breaks down for one channel, has the days of the other one, and cancels everything
    when it is asked for the first one again. -/
def stage : World Store Script :=
  { Fetch.Sample.stage with
    memory := [(Planner.Sample.only "mail", ⟨false, .reply (.crash "no connection")⟩),
      (Planner.Sample.only "mail", ⟨true, .hang⟩)] }

/-- What a plan without slices and a dispatch with this source report. -/
theorem log_stage : (Planner.Sample.planner.plan [] Planner.Sample.request).events
      = [.planFinished "signups" .needsFetch 1]
    ∧ (Fetch.Sample.troubled.execute stage "signups" Fetch.Sample.repeated).2.events
      = [.fetchFinished "signups" .overBudget 0, .fetchStarted "signups", .fetchStarted "signups",
        .fetchFinished "signups" .merged 3, .fetchStarted "signups",
        .fetchFinished "signups" .failed 0, .fetchFinished "signups" .cancelled 0] := by
  decide +kernel

end Sample

/-- A plan that needs a fetch, and a dispatch with one item for each way to end. -/
theorem counters_agree_sample :
    let planning := Planner.Sample.planner.plan [] Planner.Sample.request
    let run := Fetch.Sample.troubled.execute Sample.stage "signups" Fetch.Sample.repeated
    let log := planning.events ++ run.2.events
    let returned := [Returned.planned Planner.Sample.request planning.result, .dispatched run.1]
    Session log returned ∧ NoneSaturated log
      ∧ (Recorder.zero.reset.recordAll log).counters.Agree returned := by
  intro planning run log returned
  have hsession : Session log returned :=
    .call (.call .start (.plan ..) (.refl _)) (.execute _ _ _ _ _ rfl) (.refl _)
  have hfits : NoneSaturated log := by
    obtain ⟨hplan, hrun⟩ := Sample.log_stage
    refine noneSaturated_iff.2 fun k => ?_
    show added (planning.events ++ run.2.events) k < counterBound
    rw [hplan, hrun]
    cases k with
    | ofMetric k => cases k <;> decide
    | _ => decide
  exact ⟨hsession, hfits, counters_agree (r := .zero) rfl hsession hfits⟩

end MetricCube.Telemetry
