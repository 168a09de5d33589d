/-
  MetricCube.Proofs.Accounting
  ────────────────────────────
  **Every item is accounted for once.**  A dispatch of needed items of one metric
  always comes to a report, and in whatever way it goes:

    • the lists of the report together have the ids of all items, each as often as
      it was submitted, and each list is in ascending order of ids;
    • the items after the budget are left out as they are;
    • the source is called once at most for each of the others;
    • an item that failed or was cancelled is marked as such.

  The status of an item follows the phase of its task (`Phase.Marks`), and the end
  of a task puts it in one list of the report (`ids_ofTasks`).
-/
import Mathlib
import MetricCube.Fetch.Script
import MetricCube.Proofs.Execution
import MetricCube.Proofs.Soundness
import MetricCube.Proofs.Table

namespace MetricCube.Fetch

open Machine

variable {σ τ : Type}

/-! ## §1. The status of an item and the phase of its task. -/

/-- The status of an item whose task came to an end. -/
def Ending.Marks : Ending → FetchStatus → Prop
  | .merged _, status | .faulted _, status => status = .inFlight
  | .failed e, status => status = .failed e.isRetryable
  | .cancelled, status => status = .needed ∨ status = .failed true

/-- The status of an item that was needed at first, by the phase of its task. -/
def Phase.Marks : Phase → FetchStatus → Prop
  | .waiting, status => status = .needed
  | .fetching, status | .fetched _, status | .handled _ _, status | .locked _ _, status
  | .crashed _, status => status = .inFlight
  -- What a merge comes to decides how the task ends.
  | .merged r _, status | .unlocked r _, status | .released r, status => (endingOf r).Marks status
  | .ended e, status => e.Marks status

theorem failedTask_eq {item : FetchItem} (h : item.status = .inFlight) (retryable : Bool)
    (e : Ending) : failedTask item retryable e
      = ⟨{ item with status := .failed retryable }, .ended e⟩ := by
  simp only [failedTask, FetchItem.fail, FetchItem.move_of_status h]

theorem startedTask_eq {item : FetchItem} (h : item.status = .needed) :
    startedTask item = ⟨{ item with status := .inFlight }, .fetching⟩ := by
  simp only [startedTask, FetchItem.start, FetchItem.move_of_status h]

theorem marks_mergeSeries (b : Backend σ) (m : Machine σ) {item : FetchItem}
    (h : item.status = .inFlight) (s : Series) :
    (endingOf (m.mergeSeries b item s).1).Marks (m.mergeSeries b item s).2.1.status := by
  unfold mergeSeries
  split
  · simp only [FetchItem.fail, FetchItem.move_of_status h]
    exact .inr rfl
  · split
    · exact h
    · split
      · exact h
      · exact h

/-- Changes mark the item by the phase of its task. -/
theorem Change.marks {b : Backend σ} {m : Machine σ} {i : Nat} {move : Move} {t t' : Task}
    {store : σ} (h : Change b m i move t t' store) (hmarks : t.phase.Marks t.item.status) :
    t'.phase.Marks t'.item.status := by
  cases h with
  | giveUp item _ => exact .inl hmarks
  | drop item _ =>
    rw [failedTask_eq hmarks]
    exact .inr rfl
  | start item _ =>
    rw [startedTask_eq hmarks]
    exact rfl
  | fail item e =>
    rw [failedTask_eq hmarks]
    exact rfl
  | stray item s e _ =>
    rw [failedTask_eq hmarks]
    exact rfl
  | merge item s l => exact marks_mergeSeries b m hmarks s
  | crash | take | handle | lock | unlock | release | finish => exact hmarks

/-- In every interleaving, needed items are marked by the phases of their tasks. -/
theorem marks_of_run {b : Backend σ} {store : σ} {limit : Nat} {cancelled : Bool}
    {items : List FetchItem} {moves : List Move} {m : Machine σ}
    (h : ∀ i ∈ items, i.status = .needed)
    (hrun : (Machine.initial store limit cancelled items).run b moves = some m) :
    Each (fun _ t => t.phase.Marks t.item.status) items m.tasks :=
  each_of_run (P := fun _ t => t.phase.Marks t.item.status) h
    (fun hchange => hchange.marks) hrun

/-! ## §2. The lists of a report. -/

/-- The ids of all items of the report. -/
def Report.ids (r : Report) : List UInt64 :=
  r.merged.map MergedItem.id ++ r.failed.map (fun f => f.item.id) ++ r.faulted.map FaultedItem.id
    ++ r.cancelled.map FetchItem.id ++ r.overBudget.map FetchItem.id

/-- Each list of the report is in ascending order of ids. -/
structure Report.IsSorted (r : Report) : Prop where
  merged : r.merged.Pairwise fun x y => x.id ≤ y.id
  failed : r.failed.Pairwise fun x y => x.item.id ≤ y.item.id
  faulted : r.faulted.Pairwise fun x y => x.id ≤ y.id
  cancelled : r.cancelled.Pairwise fun x y => x.id ≤ y.id
  overBudget : r.overBudget.Pairwise fun x y => x.id ≤ y.id

namespace Report

variable {tasks : List Task} {overBudget : List FetchItem}

theorem isSorted_ofTasks (tasks : List Task) (overBudget : List FetchItem) :
    (ofTasks tasks overBudget).IsSorted where
  merged := Ordered.ascending_sortOn (fun x : MergedItem => x.id.toNat) _
  failed := Ordered.ascending_sortOn (fun x : FailedItem => x.item.id.toNat) _
  faulted := Ordered.ascending_sortOn (fun x : FaultedItem => x.id.toNat) _
  cancelled := Ordered.ascending_sortOn (fun x : FetchItem => x.id.toNat) _
  overBudget := Ordered.ascending_sortOn (fun x : FetchItem => x.id.toNat) _

theorem exists_ending {t : Task} (h : t.phase.isOver = true) : ∃ e, t.ending? = some e := by
  obtain ⟨item, phase⟩ := t
  cases phase with
  | ended e => exact ⟨e, rfl⟩
  | crashed message => exact ⟨_, rfl⟩
  | waiting | fetching | fetched | handled | locked | merged | unlocked | released => cases h

/-- A task that is over is in one list. -/
theorem perm_endings (h : ∀ t ∈ tasks, t.phase.isOver = true) :
    ((tasks.filterMap Task.merged?).map MergedItem.id
      ++ (tasks.filterMap Task.failed?).map (fun f => f.item.id)
      ++ (tasks.filterMap Task.faulted?).map FaultedItem.id
      ++ (tasks.filterMap Task.cancelled?).map FetchItem.id).Perm
    (tasks.map fun t => t.item.id) := by
  induction tasks with
  | nil => exact List.Perm.refl _
  | cons t rest ih =>
    obtain ⟨e, he⟩ := exists_ending (h t List.mem_cons_self)
    have hrest := ih fun u hu => h u (List.mem_cons_of_mem t hu)
    rw [List.perm_iff_count] at hrest ⊢
    intro id
    have hcount := hrest id
    simp only [List.count_append] at hcount ⊢
    -- The end of the first task decides to which list its id is added.
    cases e with
    | merged | failed | faulted | cancelled =>
      simp only [List.filterMap_cons, Task.merged?, Task.failed?, Task.faulted?, Task.cancelled?,
        he, List.map_cons, List.count_cons] at hcount ⊢
      omega

/-- **The report of tasks that are over has each of them once.** -/
theorem ids_ofTasks (h : ∀ t ∈ tasks, t.phase.isOver = true) :
    (ofTasks tasks overBudget).ids.Perm
      (tasks.map (fun t => t.item.id) ++ overBudget.map FetchItem.id) := by
  have hmerged := (Ordered.perm_sortOn (fun x : MergedItem => x.id.toNat)
    (tasks.filterMap Task.merged?)).map MergedItem.id
  have hfailed := (Ordered.perm_sortOn (fun x : FailedItem => x.item.id.toNat)
    (tasks.filterMap Task.failed?)).map fun f => f.item.id
  have hfaulted := (Ordered.perm_sortOn (fun x : FaultedItem => x.id.toNat)
    (tasks.filterMap Task.faulted?)).map FaultedItem.id
  have hcancelled := (Ordered.perm_sortOn (fun x : FetchItem => x.id.toNat)
    (tasks.filterMap Task.cancelled?)).map FetchItem.id
  have hover := (Ordered.perm_sortOn (fun x : FetchItem => x.id.toNat) overBudget).map FetchItem.id
  exact (((hmerged.append hfailed).append hfaulted).append hcancelled).trans (perm_endings h)
    |>.append hover

theorem phase_of_ending {t : Task} {e : Ending} (h : t.ending? = some e)
    (hsound : ∀ fault, e ≠ .faulted fault) : t.phase = .ended e := by
  obtain ⟨item, phase⟩ := t
  cases phase with
  | ended e' =>
    cases h
    rfl
  | crashed message =>
    cases h
    exact absurd rfl (hsound _)
  | waiting | fetching | fetched | handled | locked | merged | unlocked | released => cases h

theorem mem_failed {f : FailedItem} (h : f ∈ (ofTasks tasks overBudget).failed) :
    ∃ t ∈ tasks, t.phase = .ended (.failed f.error) ∧ t.item = f.item := by
  obtain ⟨t, ht, hfailed⟩ := List.mem_filterMap.1 ((Ordered.perm_sortOn _ _).mem_iff.1 h)
  unfold Task.failed? at hfailed
  split at hfailed
  · rename_i e hending
    cases hfailed
    exact ⟨t, ht, phase_of_ending hending nofun, rfl⟩
  · cases hfailed

theorem mem_cancelled {i : FetchItem} (h : i ∈ (ofTasks tasks overBudget).cancelled) :
    ∃ t ∈ tasks, t.phase = .ended .cancelled ∧ t.item = i := by
  obtain ⟨t, ht, hcancelled⟩ := List.mem_filterMap.1 ((Ordered.perm_sortOn _ _).mem_iff.1 h)
  unfold Task.cancelled? at hcancelled
  split at hcancelled
  · rename_i hending
    cases hcancelled
    exact ⟨t, ht, phase_of_ending hending nofun, rfl⟩
  · cases hcancelled

end Report

/-! ## §3. Executions account for every item. -/

/-- **What a dispatch of needed items accounts for.** -/
structure Execution.Accounted {d : Dispatcher σ τ} {w : World σ τ} {items : List FetchItem}
    (e : Execution d w items) : Prop where
  ids : e.report.ids.Perm (items.map FetchItem.id)
  sorted : e.report.IsSorted
  overBudget : e.report.overBudget.Perm (items.drop d.settings.requestBudget)
  /-- Each call is for one of the items within the budget, which is put under way. -/
  called : ∀ c ∈ e.calls, ∃ item,
    (items.take d.settings.requestBudget)[c.1]? = some item ∧ item.start = .ok c.2
  calledOnce : (e.calls.map Prod.fst).Nodup
  calls : e.machine.calls = e.calls.length
  failed : ∀ f ∈ e.report.failed, f.item.status = .failed f.error.isRetryable
  cancelled : ∀ i ∈ e.report.cancelled, i.status = .needed ∨ i.status = .failed true

namespace Execution

variable {d : Dispatcher σ τ} {w : World σ τ} {items : List FetchItem}

theorem ids_joined (e : Execution d w items) :
    (e.joined.map fun t => t.item.id).Perm ((d.admitted items).map FetchItem.id) := by
  have hids : e.machine.tasks.map (fun t => t.item.id) = (d.admitted items).map FetchItem.id :=
    (unmarked_of_run e.ran).map_eq fun {item t} h => by
      rw [← FetchItem.id_unmarked t.item, h, FetchItem.id_unmarked]
  rw [← hids]
  exact e.joins.map _

theorem isOver_of_joined (e : Execution d w items) {t : Task} (ht : t ∈ e.joined) :
    t.phase.isOver = true :=
  List.all_eq_true.1 e.isOver t (e.joins.mem_iff.1 ht)

theorem marks_of_joined (e : Execution d w items) (h : ∀ i ∈ items, i.status = .needed) {t : Task}
    (ht : t ∈ e.joined) : t.phase.Marks t.item.status := by
  have hmarks := marks_of_run (fun i hi => h i (List.mem_of_mem_take hi)) e.ran
  obtain ⟨k, hk⟩ := List.mem_iff_getElem?.1 (e.joins.mem_iff.1 ht)
  obtain ⟨_, _, hmark⟩ := hmarks.exists_item hk
  exact hmark

theorem accounted (e : Execution d w items) (h : ∀ i ∈ items, i.status = .needed) :
    e.Accounted where
  ids := by
    have hids : e.report.ids.Perm _ := Report.ids_ofTasks fun _ ht => e.isOver_of_joined ht
    -- Who is not left out has a task.
    have hsplit : (d.admitted items).map FetchItem.id
        ++ (items.drop d.settings.requestBudget).map FetchItem.id = items.map FetchItem.id := by
      rw [← List.map_append, Dispatcher.admitted, List.take_append_drop]
    rw [← hsplit]
    exact hids.trans (e.ids_joined.append_right _)
  sorted := Report.isSorted_ofTasks ..
  overBudget := Ordered.perm_sortOn ..
  called := (called_of_run e.ran).started
  calledOnce := (called_of_run e.ran).nodup
  calls := (called_of_run e.ran).count
  failed f hf := by
    obtain ⟨t, ht, hphase, hitem⟩ := Report.mem_failed hf
    have hmarks := e.marks_of_joined h ht
    rwa [hphase, hitem] at hmarks
  cancelled i hi := by
    obtain ⟨t, ht, hphase, hitem⟩ := Report.mem_cancelled hi
    have hmarks := e.marks_of_joined h ht
    rwa [hphase, hitem] at hmarks

end Execution

/-- **Every item is accounted for once.**  A dispatch of needed items of one metric comes to a
    report, for every budget, source, store and moment of cancelling; every interleaving of its
    tasks makes at most eight moves for each, and is not stuck before all are over; and however
    the tasks are interleaved, the report accounts for every item. -/
theorem Dispatcher.accounts_for_every_item (d : Dispatcher σ τ) (w : World σ τ) {metric : String}
    {items : List FetchItem} (h : ∀ i ∈ items, i.metric = metric ∧ i.status = .needed) :
    (∃ (e : Execution d w items) (w' : World σ τ),
        d.execute w metric items = (.ok e.report, w') ∧ e.EndsIn w')
      ∧ (∀ moves m, (d.start w items).run d.backend moves = some m →
        (moves.filter Move.isOfTask).length ≤ 8 * (d.admitted items).length
          ∧ (m.isOver = false →
            ∃ move m', move.isOfTask = true ∧ m.step d.backend move = some m'))
      ∧ ∀ e : Execution d w items, e.Accounted := by
  refine ⟨d.execute_eq_execution w fun i hi => (h i hi).1, fun moves m hrun => ⟨?_, ?_⟩,
    fun e => e.accounted fun i hi => (h i hi).2⟩
  · exact (Nat.le_add_right _ _).trans (length_of_run hrun)
  · have hlimit : 0 < m.limit := by
      rw [limit_of_run hrun, Dispatcher.limit]
      omega
    exact exists_step hlimit

/-! ## §4. A source that breaks down. -/

namespace Sample

/-- The days of one channel. -/
def channelItem (value : String) : FetchItem :=
  Planner.Sample.planner.item Planner.Sample.request (Planner.Sample.only value)
    Planner.Sample.days

/-- One item twice, and more than the budget. -/
def repeated : List FetchItem :=
  [channelItem "mail", channelItem "ads", channelItem "mail", channelItem "ads"]

/-- Two calls at a time, and three items. -/
def troubled : Dispatcher Store Script :=
  ⟨⟨2, 3, 1⟩, Store.backend, Script.source fun i => Planner.Sample.constant i.range .zero, 1⟩

/-- The source breaks down, then it is busy, and then it cancels everything without an answer. -/
def stage : World Store Script where
  store := .empty
  memory := [(Planner.Sample.only "mail", ⟨false, .reply (.crash "no connection")⟩),
    (Planner.Sample.only "ads", ⟨false, .reply (.error (.retryable "busy"))⟩),
    (Planner.Sample.only "mail", ⟨true, .hang⟩)]
  cancelled := false
  events := []
  calls := 0
  peak := 0
  locksLeft := 0

end Sample

/-- Repeated items are accounted for, though none is merged. -/
theorem Dispatcher.accounts_for_repeated : ∃ report w',
    Sample.troubled.execute Sample.stage "signups" Sample.repeated = (.ok report, w')
      ∧ report.ids.Perm (Sample.repeated.map FetchItem.id)
      ∧ report.overBudget = [Sample.channelItem "ads"]
      ∧ ∀ f ∈ report.failed, f.item.status = .failed f.error.isRetryable := by
  have hneeded : ∀ i ∈ Sample.repeated, i.metric = "signups" ∧ i.status = .needed := by decide
  obtain ⟨⟨e, w', hexecute, _⟩, _, haccounted⟩ :=
    Dispatcher.accounts_for_every_item Sample.troubled Sample.stage hneeded
  obtain ⟨hids, _, hover, _, _, _, hfailed, _⟩ := haccounted e
  exact ⟨e.report, w', hexecute, hids, List.perm_singleton.1 hover, hfailed⟩

end MetricCube.Fetch
