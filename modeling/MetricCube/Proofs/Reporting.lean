/-
  MetricCube.Proofs.Reporting
  ───────────────────────────
  **What a dispatch reports.**  A task reports its start and its end, each as it comes to it
  (`events_of_moved`); a task that broke down reports nothing any more, and is reported when it is
  joined.  So however the tasks of a dispatch are interleaved and joined,

      the ends that are reported = one end for each item that was left out
                                   and one for each task, as it ended

  up to order (`Execution.ends_log`).  The turns that a dispatch takes report the same
  (`Dispatcher.execute_reports`): breakdowns are noticed in breaks, between moves, and the last of
  them after all tasks are over.  What a run keeps at every move and at every break is proved once,
  for all operations on runs (`Run.Invariant`).
-/
import Mathlib
import MetricCube.Proofs.Execution

namespace MetricCube

/-- The event is the end of a plan or of a fetch. -/
def Telemetry.Event.isEnd : Telemetry.Event → Bool
  | .planFinished _ _ _ | .fetchFinished _ _ _ => true
  | .signatureRejected _ | .reduced _ _ | .fetchStarted _ => false

namespace Fetch

open Machine

variable {σ τ : Type}

/-! ## §1. What a move reports. -/

/-- The end that a task reports itself. -/
def Task.ownEnd? (t : Task) : Option Telemetry.Event :=
  match t.phase with
  | .ended e => some (endEvent t.item.metric e)
  | _ => none

/-- The end that is reported of a task, by itself or by who joins it. -/
def Task.end? (t : Task) : Option Telemetry.Event :=
  t.ending?.map (endEvent t.item.metric)

namespace Machine

variable {b : Backend σ} {m m' : Machine σ} {move : Move} {i : Nat} {t t' : Task}

/-- **A move reports what its task comes to.** -/
theorem events_of_moved (hstep : m.step b move = some m') (hmoved : Moved b m move i t t' m') :
    m'.events = m.events ++ t'.reported := by
  obtain ⟨u, htasks, hevents⟩ := (hmoved.effect hstep).reports
  have hplace : (m.tasks.set i u)[i]? = some u :=
    List.getElem?_set_self (List.getElem?_eq_some_iff.1 hmoved.place).1
  rw [← htasks, hmoved.place_self] at hplace
  rw [hevents, Option.some.inj hplace]

end Machine

/-! ## §2. The ends that tasks report. -/

variable {b : Backend σ} {m m' : Machine σ} {move : Move} {moves : List Move} {i : Nat}
  {t t' : Task} {store : σ} {limit : Nat} {cancelled : Bool} {items : List FetchItem}

/-- A task that comes to its end is added to those that are over. -/
theorem Listed.endedTasks_moved (h : Listed m) (hmoved : Moved b m move i t t' m') :
    m'.endedTasks = m.endedTasks ++ if t'.phase.isOver then [t'] else [] := by
  have hbefore : (m.ended.filterMap fun k => m'.tasks[k]?) = m.endedTasks := by
    refine List.filterMap_congr fun k hk => hmoved.place_other ?_
    rintro rfl
    exact h.not_mem hmoved hk
  unfold endedTasks at hbefore ⊢
  rw [hmoved.ended]
  split
  · rw [List.filterMap_append, hbefore, List.filterMap_cons_some hmoved.place_self,
      List.filterMap_nil]
  · rw [hbefore, List.append_nil]

theorem ends_reported (t : Task) : t.reported.filter Telemetry.Event.isEnd
    = (if t.phase.isOver then [t] else []).filterMap Task.ownEnd? := by
  obtain ⟨item, phase⟩ := t
  cases phase with
  | ended e => cases e <;> rfl
  | waiting | fetching | fetched | handled | locked | merged | unlocked | released | crashed => rfl

/-- **In every interleaving, the ends that are reported are those of the tasks that are over,** in
    the order of their ends. -/
theorem ends_of_run
    (hrun : (Machine.initial store limit cancelled items).run b moves = some m) :
    m.events.filter Telemetry.Event.isEnd = m.endedTasks.filterMap Task.ownEnd? := by
  refine run_induction
    (P := fun _ m => m.events.filter Telemetry.Event.isEnd = m.endedTasks.filterMap Task.ownEnd?)
    rfl (fun moves m move m' hrun h hstep => ?_) moves m hrun
  rcases step_cases hstep with ⟨_, rfl⟩ | ⟨i, t, t', hmoved⟩
  · exact h
  · rw [events_of_moved hstep hmoved, (listed_of_run hrun).endedTasks_moved hmoved,
      List.filter_append, List.filterMap_append, h, ends_reported]

/-! ## §3. The log of an execution. -/

/-- A task that is over reports its end itself, or it broke down. -/
theorem perm_ends (tasks : List Task) :
    (tasks.filterMap Task.ownEnd? ++ tasks.filterMap Run.crashEvent?).Perm
      (tasks.filterMap Task.end?) := by
  induction tasks with
  | nil => exact List.Perm.refl _
  | cons t rest ih =>
    obtain ⟨item, phase⟩ := t
    cases phase with
    | ended e => exact ih.cons _
    | crashed message => exact List.perm_middle.trans (ih.cons _)
    | waiting | fetching | fetched | handled | locked | merged | unlocked | released => exact ih

theorem ends_overBudgetEvents (items : List FetchItem) :
    (Dispatcher.overBudgetEvents items).filter Telemetry.Event.isEnd
      = Dispatcher.overBudgetEvents items := by
  refine List.filter_eq_self.2 fun event hevent => ?_
  obtain ⟨item, _, rfl⟩ := List.mem_map.1 hevent
  rfl

theorem ends_crashes (tasks : List Task) :
    (tasks.filterMap Run.crashEvent?).filter Telemetry.Event.isEnd
      = tasks.filterMap Run.crashEvent? := by
  refine List.filter_eq_self.2 fun event hevent => ?_
  obtain ⟨t, _, hcrash⟩ := List.mem_filterMap.1 hevent
  unfold Run.crashEvent? at hcrash
  split at hcrash
  · cases hcrash
    rfl
  · cases hcrash

namespace Execution

variable {d : Dispatcher σ τ} {w : World σ τ}

/-- **What is reported in the course of an execution:** the items that are left out, what the tasks
    report, and the tasks that broke down. -/
def log (e : Execution d w items) : List Telemetry.Event :=
  Dispatcher.overBudgetEvents (items.drop d.settings.requestBudget) ++ e.machine.events
    ++ e.joined.filterMap Run.crashEvent?

/-- **One end is reported for each item:** those that are left out, and those whose tasks ended. -/
theorem ends_log (e : Execution d w items) : (e.log.filter Telemetry.Event.isEnd).Perm
    (Dispatcher.overBudgetEvents (items.drop d.settings.requestBudget)
      ++ e.joined.filterMap Task.end?) := by
  -- Whoever is over is joined, in whatever order.
  have hjoined : (e.machine.endedTasks.filterMap Task.ownEnd?).Perm
      (e.joined.filterMap Task.ownEnd?) :=
    ((perm_endedTasks (listed_of_run e.ran) e.isOver).trans e.joins.symm).filterMap _
  rw [log, List.filter_append, List.filter_append, ends_overBudgetEvents, ends_crashes,
    ends_of_run e.ran, List.append_assoc]
  exact ((hjoined.append_right _).trans (perm_ends e.joined)).append_left _

end Execution

/-! ## §4. What operations on runs keep. -/

/-- **A property of the machine and of the number of ends that have been noticed** which every move
    and every notice keeps. -/
structure Run.Invariant (d : Dispatcher σ τ) (P : Machine σ → Nat → Prop) : Prop where
  step : ∀ {m : Machine σ} {noticed : Nat} {move : Move} {m' : Machine σ}, P m noticed →
    m.step d.backend move = some m' → P m' noticed
  notice : ∀ {r : Run σ τ}, P r.machine r.noticed → P r.notice.machine r.notice.noticed

namespace Run.Invariant

variable {d : Dispatcher σ τ} {P : Machine σ → Nat → Prop} {r : Run σ τ} {noticed : Nat}

theorem attempt (h : Invariant d P) (hP : P m noticed) (move : Move) :
    P (m.attempt d.backend move) noticed :=
  attempt_elim (P := fun m => P m noticed) hP fun _ hstep => h.step hP hstep

theorem attempts (h : Invariant d P) {α : Type} (f : α → Move) (as : List α) :
    ∀ {m : Machine σ}, P m noticed →
      P (as.foldl (fun m a => m.attempt d.backend (f a)) m) noticed := by
  induction as with
  | nil => exact fun hP => hP
  | cons a rest ih => exact fun hP => ih (h.attempt hP (f a))

theorem complete (h : Invariant d P) (hP : P m noticed) (i : Nat) :
    P (d.complete m i) noticed := by
  unfold Dispatcher.complete
  exact h.attempts (fun _ => .advance i) (List.range 6) hP

theorem settle (h : Invariant d P) (hP : P r.machine r.noticed) (i : Nat) (a : Answer) :
    P (d.settle r i a).machine (d.settle r i a).noticed := by
  have hcancel : P (if a.cancels then r.machine.attempt d.backend .cancel else r.machine)
      r.noticed := by
    split
    · exact h.attempt hP .cancel
    · exact hP
  have hrouse : ∀ r' : Run σ τ, P r'.machine r'.noticed →
      P (if a.cancels then r'.rouse else r').machine (if a.cancels then r'.rouse else r').noticed := by
    intro r' hP'
    split <;> exact hP'
  unfold Dispatcher.settle
  refine hrouse _ ?_
  cases a.reply with
  | none => exact h.attempt hcancel (.abandon i)
  | some reply =>
    simp only
    exact h.complete (h.attempt hcancel (.answer i reply)) i

theorem proceed (h : Invariant d P) (hP : P r.machine r.noticed) (i : Nat) :
    P (d.proceed r i).machine (d.proceed r i).noticed := by
  unfold Dispatcher.proceed
  split
  · exact hP
  · split
    · exact h.attempt hP (.abandon i)
    · split
      · exact h.settle hP i _
      · exact hP

theorem begin (h : Invariant d P) (hP : P r.machine r.noticed) (i : Nat) :
    P (d.begin r i).machine (d.begin r i).noticed := by
  unfold Dispatcher.begin
  split
  · exact h.attempt hP (.abandon i)
  · cases hstep : r.machine.step d.backend (.start i) with
    | none => exact hP
    | some m =>
      have hm : P m r.noticed := h.step hP hstep
      simp only
      split
      · exact h.proceed hm i
      · exact hm

theorem turn (h : Invariant d P) (hP : P r.machine r.noticed) (i : Nat) :
    P (d.turn r i).machine (d.turn r i).noticed := by
  have hgrant : ∀ r' : Run σ τ, P r'.machine r'.noticed →
      P (if r'.isOver i then r'.grant else r').machine
        (if r'.isOver i then r'.grant else r').noticed := by
    intro r' hP'
    unfold Run.grant
    split
    · split <;> exact hP'
    · exact hP'
  unfold Dispatcher.turn
  refine hgrant _ ?_
  split
  · exact h.begin hP i
  · exact h.proceed hP i
  · exact hP

theorem takeTurns (h : Invariant d P) (fuel : Nat) : ∀ {r : Run σ τ}, P r.machine r.noticed →
    P (d.takeTurns fuel r).machine (d.takeTurns fuel r).noticed := by
  induction fuel with
  | zero => exact fun hP => hP
  | succ fuel ih =>
    intro r hP
    unfold Dispatcher.takeTurns
    split
    · split
      · exact hP
      · exact ih (h.notice hP)
    · rename_i i queue _
      split
      · exact ih (h.notice hP)
      · have hnext : P { r with queue := queue, turns := r.turns + 1 }.machine
            { r with queue := queue, turns := r.turns + 1 }.noticed := hP
        exact ih (h.turn hnext i)

theorem close (h : Invariant d P) (hP : P m noticed) : P (d.close m) noticed := by
  unfold Dispatcher.close
  refine h.attempts _ _ ?_
  split
  · exact hP
  · exact h.attempt hP .cancel

/-- **What a run starts with and what its operations keep holds when it is closed.** -/
theorem closed (h : Invariant d P) (memory : τ)
    (hP : P (Machine.initial store d.limit cancelled items) 0) :
    let r := d.takeTurns (d.fuelFor items.length)
      (.initial (Machine.initial store d.limit cancelled items) memory)
    P (d.close r.machine) r.noticed := by
  have hstart : P (Run.initial (Machine.initial store d.limit cancelled items) memory).machine
      (Run.initial (Machine.initial store d.limit cancelled items) memory).noticed := hP
  exact h.close (h.takeTurns (d.fuelFor items.length) hstart)

end Run.Invariant

/-! ## §5. Turns report what interleavings do. -/

theorem events_reports (events : List Telemetry.Event) : ∀ m : Machine σ,
    (events.foldl report m).events = m.events ++ events := by
  induction events with
  | nil => exact fun m => (List.append_nil _).symm
  | cons event rest ih =>
    intro m
    rw [List.foldl_cons, ih]
    exact List.append_assoc ..

/-- An interleaving leads to the machine, up to events, and reports the same but the breakdowns
    that have been noticed. -/
def Told (b : Backend σ) (start m : Machine σ) (noticed : Nat) : Prop :=
  ∃ moves n, start.run b moves = some n ∧ n.quiet = m.quiet ∧ noticed ≤ m.endedTasks.length
    ∧ m.events.Perm (n.events ++ (m.endedTasks.take noticed).filterMap Run.crashEvent?)

theorem Told.step {noticed : Nat}
    (h : Told b (Machine.initial store limit cancelled items) m noticed)
    (hstep : m.step b move = some m') :
    Told b (Machine.initial store limit cancelled items) m' noticed := by
  obtain ⟨moves, n, hrun, hquiet, hle, hevents⟩ := h
  obtain ⟨n', hstep', hquiet'⟩ := step_of_quiet hquiet.symm hstep
  refine ⟨moves ++ [move], n', ?_, hquiet', ?_⟩
  · rw [run_concat, hrun, Option.bind_some, hstep']
  rcases step_cases hstep with ⟨rfl, rfl⟩ | ⟨i, t, t', hmoved⟩
  · cases hstep'
    exact ⟨hle, hevents⟩
  · -- Both machines change one task in the same way, and so report the same.
    obtain ⟨u, u', hmoved'⟩ := moved_of_step hmoved.change.task?_eq hstep'
    obtain rfl : u' = t' := by
      have hplace := hmoved'.place_self
      rw [tasks_of_quiet hquiet', hmoved.place_self] at hplace
      exact (Option.some.inj hplace).symm
    have hlisted : Listed n := listed_of_run hrun
    have hended : m'.endedTasks = m.endedTasks ++ if u'.phase.isOver then [u'] else [] := by
      rw [← endedTasks_of_quiet hquiet', ← endedTasks_of_quiet hquiet]
      exact hlisted.endedTasks_moved hmoved'
    rw [hended, List.take_append_of_le_length hle, events_of_moved hstep hmoved,
      events_of_moved hstep' hmoved', List.length_append]
    refine ⟨Nat.le_add_right_of_le hle, (hevents.append_right _).trans ?_⟩
    rw [List.append_assoc, List.append_assoc]
    exact List.perm_append_comm.append_left _

theorem endedTasks_notice (r : Run σ τ) :
    r.notice.machine.endedTasks = r.machine.endedTasks :=
  endedTasks_of_quiet (quiet_reports ..)

/-- After a notice, every end has been noticed. -/
theorem noticed_notice {r : Run σ τ} (h : r.noticed ≤ r.machine.endedTasks.length) :
    r.notice.noticed = r.machine.endedTasks.length := by
  show r.noticed + (r.machine.endedTasks.drop r.noticed).length = _
  rw [List.length_drop]
  omega

theorem Told.notice {start : Machine σ} {r : Run σ τ} (h : Told b start r.machine r.noticed) :
    Told b start r.notice.machine r.notice.noticed := by
  obtain ⟨moves, n, hrun, hquiet, hle, hevents⟩ := h
  let crashes := (r.machine.endedTasks.drop r.noticed).filterMap Run.crashEvent?
  refine ⟨moves, n, hrun, hquiet.trans (quiet_reports crashes r.machine).symm, ?_, ?_⟩
  · rw [endedTasks_notice, noticed_notice hle]
  · have hnew : r.notice.machine.events = r.machine.events ++ crashes := events_reports crashes _
    have hsplit : r.machine.endedTasks.filterMap Run.crashEvent?
        = (r.machine.endedTasks.take r.noticed).filterMap Run.crashEvent? ++ crashes := by
      rw [← List.filterMap_append, List.take_append_drop]
    rw [endedTasks_notice, noticed_notice hle, List.take_length, hnew, hsplit, ← List.append_assoc]
    exact hevents.append_right _

theorem invariant_told (d : Dispatcher σ τ) : Run.Invariant d
    (Told d.backend (Machine.initial store limit cancelled items)) :=
  ⟨fun h hstep => h.step hstep, fun h => h.notice⟩

/-- **A dispatch reports what an execution does,** in some order. -/
theorem Dispatcher.execute_reports (d : Dispatcher σ τ) (w : World σ τ) {metric : String}
    (h : ∀ i ∈ items, i.metric = metric) :
    ∃ (e : Execution d w items) (w' : World σ τ) (log : List Telemetry.Event),
      d.execute w metric items = (.ok e.report, w') ∧ w'.events = w.events ++ log
        ∧ log.Perm e.log := by
  let start : Machine σ := Machine.initial w.store d.limit w.cancelled (d.admitted items)
  let r := d.takeTurns (d.fuelFor (d.admitted items).length) (.initial start w.memory)
  let closed : Run σ τ := { r with machine := d.close r.machine }
  have hstart : Told d.backend start start 0 := ⟨[], start, rfl, rfl, Nat.zero_le _, by rfl⟩
  have htold : Told d.backend start closed.machine closed.noticed :=
    (invariant_told d).closed w.memory hstart
  -- With the last notice nothing is left unreported.
  obtain ⟨moves, n, hrun, hquiet, _, hevents⟩ := htold.notice
  obtain ⟨_, _, _, _, hle, _⟩ := htold
  have hended : closed.notice.machine.endedTasks = n.endedTasks :=
    (endedTasks_of_quiet hquiet).symm
  rw [noticed_notice hle, ← endedTasks_notice, List.take_length, hended] at hevents
  have hover : n.isOver = true := by
    rw [isOver, tasks_of_quiet hquiet]
    exact (d.goesTo_runTasks w.store w.memory w.cancelled (d.admitted items)).2
  let e : Execution d w items :=
    ⟨moves, n, n.endedTasks, hrun, hover, perm_endedTasks (listed_of_run hrun) hover⟩
  have hexecute : d.execute w metric items
      = (.ok e.report, after w closed.notice (items.drop d.settings.requestBudget)) := by
    rw [d.execute_of_own w h]
    show (Except.ok (Report.ofTasks closed.notice.machine.endedTasks _), _) = _
    rw [hended]
    rfl
  refine ⟨e, _, overBudgetEvents (items.drop d.settings.requestBudget)
    ++ closed.notice.machine.events, hexecute, List.append_assoc .., ?_⟩
  rw [Execution.log, List.append_assoc]
  exact hevents.append_left _

end Fetch

end MetricCube
