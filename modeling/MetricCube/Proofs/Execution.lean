/-
  MetricCube.Proofs.Execution
  ───────────────────────────
  **Dispatches as interleavings.**  An `Execution` is one way in which a dispatch can
  go: an interleaving of the tasks of the items within the budget, up to the end of
  all of them, and an order in which the tasks are joined.  Its report sorts the
  joined tasks by their ends.

  The turns that a dispatch takes are one such interleaving
  (`execute_eq_execution`): every operation on a run makes moves of the machine,
  calls the source when the machine does, and takes no reply but the source's
  (`GoesTo`).  Between turns every task waits, is fetching or is over (`AtRest`), so
  that closing a dispatch ends what is left.
-/
import Mathlib
import MetricCube.Fetch.Dispatch
import MetricCube.Proofs.Interleaving

namespace MetricCube.Fetch

open Machine

variable {σ τ : Type}

/-! ## §1. Executions. -/

/-- The items that get a task. -/
def Dispatcher.admitted (d : Dispatcher σ τ) (items : List FetchItem) : List FetchItem :=
  items.take d.settings.requestBudget

/-- The machine that a dispatch starts with. -/
def Dispatcher.start (d : Dispatcher σ τ) (w : World σ τ) (items : List FetchItem) : Machine σ :=
  Machine.initial w.store d.limit w.cancelled (d.admitted items)

/-- **One way in which a dispatch can go.** -/
structure Execution (d : Dispatcher σ τ) (w : World σ τ) (items : List FetchItem) where
  moves : List Move
  machine : Machine σ
  /-- The tasks in the order in which their ends are noticed. -/
  joined : List Task
  ran : (d.start w items).run d.backend moves = some machine
  isOver : machine.isOver = true
  joins : joined.Perm machine.tasks

/-- The memory of a source, and what it answered to which task, the latest first. -/
abbrev Talk (τ : Type) := τ × List (Nat × Answer)

/-- The source is asked for an item, for a task. -/
def Dispatcher.ask (d : Dispatcher σ τ) (s : Talk τ) (c : Nat × FetchItem) : Talk τ :=
  ((d.source s.1 c.2).2, (c.1, (d.source s.1 c.2).1) :: s.2)

namespace Execution

variable {d : Dispatcher σ τ} {w : World σ τ} {items : List FetchItem}

/-- What the dispatch reports. -/
def report (e : Execution d w items) : Report :=
  .ofTasks e.joined (items.drop d.settings.requestBudget)

/-- The calls of the source: for which task, and the item as the source gets it. -/
def calls (e : Execution d w items) : List (Nat × FetchItem) :=
  (d.start w items).callsOf d.backend e.moves

/-- What the source has become and answered, if it is called as the execution says. -/
def talk (e : Execution d w items) : Talk τ :=
  e.calls.foldl d.ask (w.memory, [])

end Execution

/-! ## §2. Events do not matter. -/

namespace Machine

variable {b : Backend σ} {m m' n : Machine σ} {move : Move} {moves : List Move}

/-- The machine without its events. -/
def quiet (m : Machine σ) : Machine σ :=
  { m with events := [] }

/-- Reports change nothing but events. -/
theorem quiet_reports (events : List Telemetry.Event) : ∀ m : Machine σ,
    (events.foldl report m).quiet = m.quiet := by
  induction events with
  | nil => exact fun _ => rfl
  | cons event rest ih => exact fun m => ih (m.report event)

theorem quiet_finishFailed (m : Machine σ) (i : Nat) (item : FetchItem) (retryable : Bool)
    (e : Ending) : (m.finishFailed i item retryable e).quiet
      = (m.quiet.finishFailed i item retryable e).quiet := by
  unfold finishFailed
  cases item.fail retryable <;> rfl

theorem quiet_abandon? (m : Machine σ) (i : Nat) (t : Task) :
    (m.abandon? i t).map quiet = (m.quiet.abandon? i t).map quiet := by
  obtain ⟨item, phase⟩ := t
  have hcancelled : m.quiet.cancelled = m.cancelled := rfl
  simp only [abandon?, hcancelled]
  split
  · cases phase with
    | fetching => exact congrArg some (quiet_finishFailed ..)
    | waiting | fetched | handled | locked | merged | unlocked | released | ended | crashed => rfl
  · rfl

theorem quiet_start? (m : Machine σ) (i : Nat) (t : Task) :
    (m.start? i t).map quiet = (m.quiet.start? i t).map quiet := by
  obtain ⟨item, phase⟩ := t
  cases phase with
  | waiting =>
    have hbusy : m.quiet.inFlight = m.inFlight := rfl
    have hlimit : m.quiet.limit = m.limit := rfl
    simp only [start?, hbusy, hlimit]
    split
    · cases item.start <;> rfl
    · rfl
  | fetching | fetched | handled | locked | merged | unlocked | released | ended | crashed => rfl

theorem quiet_answer? (m : Machine σ) (i : Nat) (t : Task) (reply : Reply) :
    (m.answer? i t reply).map quiet = (m.quiet.answer? i t reply).map quiet := by
  obtain ⟨item, phase⟩ := t
  cases phase with
  | fetching =>
    cases reply with
    | crash message => rfl
    | error e => exact congrArg some (quiet_finishFailed ..)
    | series s =>
      simp only [answer?]
      cases withinRange item s with
      | error e => exact congrArg some (quiet_finishFailed ..)
      | ok s => rfl
  | waiting | fetched | handled | locked | merged | unlocked | released | ended | crashed => rfl

theorem quiet_advance? (b : Backend σ) (m : Machine σ) (i : Nat) (t : Task) :
    (advance? b m i t).map quiet = (advance? b m.quiet i t).map quiet := by
  obtain ⟨item, phase⟩ := t
  have hlock : m.quiet.lockOf? (mergeKey item) = m.lockOf? (mergeKey item) := rfl
  cases phase with
  | fetched s =>
    simp only [advance?, takeHandle, hlock]
    cases m.lockOf? (mergeKey item) <;> rfl
  | handled s l =>
    have hheld : m.quiet.isHeld l = m.isHeld l := rfl
    simp only [advance?, hheld]
    split <;> rfl
  | released result =>
    have hhandles : ∀ l, m.quiet.handles l = m.handles l := fun _ => rfl
    simp only [advance?, releaseLock, hlock, hhandles]
    split
    · split <;> rfl
    · rfl
  | waiting | fetching | locked | merged | unlocked | ended | crashed => rfl

/-- What a move does does not depend on the events so far. -/
theorem quiet_step (b : Backend σ) (m : Machine σ) (move : Move) :
    (m.step b move).map quiet = (m.quiet.step b move).map quiet := by
  -- No move reads the events; it only adds to them.
  cases move with
  | cancel => rfl
  | abandon i =>
    show (m.tasks[i]?.bind _).map quiet = (m.tasks[i]?.bind _).map quiet
    cases m.tasks[i]? with
    | none => rfl
    | some t => exact quiet_abandon? m i t
  | start i =>
    show (m.tasks[i]?.bind _).map quiet = (m.tasks[i]?.bind _).map quiet
    cases m.tasks[i]? with
    | none => rfl
    | some t => exact quiet_start? m i t
  | answer i reply =>
    show (m.tasks[i]?.bind _).map quiet = (m.tasks[i]?.bind _).map quiet
    cases m.tasks[i]? with
    | none => rfl
    | some t => exact quiet_answer? m i t reply
  | advance i =>
    show (m.tasks[i]?.bind _).map quiet = (m.tasks[i]?.bind _).map quiet
    cases m.tasks[i]? with
    | none => rfl
    | some t => exact quiet_advance? b m i t

theorem tasks_of_quiet (h : m.quiet = n.quiet) : m.tasks = n.tasks := by
  show m.quiet.tasks = n.quiet.tasks
  rw [h]

theorem endedTasks_of_quiet (h : m.quiet = n.quiet) : m.endedTasks = n.endedTasks := by
  show m.quiet.endedTasks = n.quiet.endedTasks
  rw [h]

theorem step_of_quiet (h : m.quiet = n.quiet) (hstep : m.step b move = some m') :
    ∃ n', n.step b move = some n' ∧ n'.quiet = m'.quiet := by
  have hmap : (n.step b move).map quiet = some m'.quiet := by
    rw [quiet_step, ← h, ← quiet_step, hstep]
    rfl
  obtain ⟨n', hn', hquiet⟩ := Option.map_eq_some_iff.1 hmap
  exact ⟨n', hn', hquiet⟩

theorem run_of_quiet : ∀ {m n : Machine σ}, m.quiet = n.quiet → m.run b moves = some m' →
    ∃ n', n.run b moves = some n' ∧ n'.quiet = m'.quiet
      ∧ n.callsOf b moves = m.callsOf b moves := by
  -- The machines differ in events only, and every move keeps it that way.
  induction moves with
  | nil =>
    intro m n h hrun
    cases hrun
    exact ⟨n, rfl, h.symm, rfl⟩
  | cons move rest ih =>
    intro m n h hrun
    obtain ⟨m₁, hstep, hrest⟩ := Option.bind_eq_some_iff.1 hrun
    obtain ⟨n₁, hstep', hquiet⟩ := step_of_quiet h hstep
    obtain ⟨n', hrest', hquiet', hcalls⟩ := ih hquiet.symm hrest
    refine ⟨n', by simp only [run, hstep', Option.bind_some, hrest'], hquiet', ?_⟩
    have hcall : n.call? move = m.call? move := by
      unfold call?
      rw [tasks_of_quiet h]
    simp only [callsOf, hstep, hstep', Option.map_some, Option.getD_some, hcalls, hcall]

end Machine

/-! ## §3. Operations on runs make moves. -/

/-- The task has got this reply from the source. -/
def Talk.HasReply (s : Talk τ) (k : Nat) (reply : Reply) : Prop :=
  ∃ a, (k, a) ∈ s.2 ∧ a.reply = some reply

/-- The source does not take back what it answered. -/
theorem Talk.HasReply.foldl_ask {d : Dispatcher σ τ} {k : Nat} {reply : Reply}
    (calls : List (Nat × FetchItem)) : ∀ {s : Talk τ}, s.HasReply k reply →
      Talk.HasReply (calls.foldl d.ask s) k reply := by
  induction calls with
  | nil => exact fun h => h
  | cons c rest ih =>
    rintro s ⟨a, ha, hreply⟩
    exact ih ⟨a, List.mem_cons_of_mem _ ha, hreply⟩

/-- Moves lead from one machine and one talk with the source to others, up to events: the source
    is called as the moves say, and what tasks take are its replies. -/
def GoesTo (d : Dispatcher σ τ) (m : Machine σ) (s : Talk τ) (m' : Machine σ) (s' : Talk τ) :
    Prop :=
  ∃ moves n, m.run d.backend moves = some n ∧ n.quiet = m'.quiet
    ∧ s' = (m.callsOf d.backend moves).foldl d.ask s
    ∧ ∀ k reply, .answer k reply ∈ moves → s'.HasReply k reply

namespace GoesTo

variable {d : Dispatcher σ τ} {m m' m'' : Machine σ} {s s' s'' : Talk τ}

theorem of_quiet (h : m.quiet = m'.quiet) : GoesTo d m s m' s :=
  ⟨[], m, rfl, h, rfl, fun _ _ hmem => absurd hmem List.not_mem_nil⟩

theorem trans (h : GoesTo d m s m' s') (h' : GoesTo d m' s' m'' s'') : GoesTo d m s m'' s'' := by
  obtain ⟨moves, n, hrun, hquiet, rfl, hanswers⟩ := h
  obtain ⟨moves', n', hrun', hquiet', rfl, hanswers'⟩ := h'
  -- The second list of moves starts from a machine that may have other events.
  obtain ⟨n'', hrun'', hsame, hcalls⟩ := run_of_quiet hquiet.symm hrun'
  refine ⟨moves ++ moves', n'', ?_, hsame.trans hquiet', ?_, fun k reply hmem => ?_⟩
  · rw [run_append, hrun, Option.bind_some, hrun'']
  · rw [callsOf_append moves' hrun, List.foldl_append, hcalls]
  · rcases List.mem_append.1 hmem with hmem | hmem
    · exact (hanswers k reply hmem).foldl_ask _
    · exact hanswers' k reply hmem

/-- One move that is possible. -/
theorem step {move : Move} (h : m.step d.backend move = some m')
    (hcall : (m.call? move).toList.foldl d.ask s = s')
    (hanswer : ∀ k reply, move = .answer k reply → s'.HasReply k reply) :
    GoesTo d m s m' s' := by
  refine ⟨[move], m', by simp only [run, h, Option.bind_some], rfl, ?_, fun k reply hmem =>
    hanswer k reply (List.mem_singleton.1 hmem).symm⟩
  simp only [callsOf, h, Option.map_some, Option.getD_some, List.append_nil, hcall]

/-- A move that does not call the source, if it is possible. -/
theorem attempt {move : Move} (h : m.call? move = none)
    (hanswer : ∀ k reply, move = .answer k reply → s.HasReply k reply) :
    GoesTo d m s (m.attempt d.backend move) s := by
  refine attempt_elim (P := fun n => GoesTo d m s n s) (of_quiet rfl) fun m' hstep => ?_
  exact step hstep (by rw [h]; rfl) hanswer

/-- A start that calls the source. -/
theorem call {i : Nat} {item : FetchItem} (h : m.step d.backend (.start i) = some m')
    (hitem : m'.tasks[i]? = some ⟨item, .fetching⟩) :
    GoesTo d m s m' (d.ask s (i, item)) := by
  refine step h ?_ nofun
  obtain ⟨t, t', hmoved⟩ := moved_of_step rfl h
  obtain rfl : t' = ⟨item, .fetching⟩ := Option.some.inj (hmoved.place_self.symm.trans hitem)
  rw [hmoved.change.call?_eq hmoved.place]
  rfl

/-- A start that does not get so far. -/
theorem noCall {i : Nat} (h : m.step d.backend (.start i) = some m')
    (hitem : ∀ item, m'.tasks[i]? ≠ some ⟨item, .fetching⟩) : GoesTo d m s m' s := by
  refine step h ?_ nofun
  obtain ⟨t, t', hmoved⟩ := moved_of_step rfl h
  have hfetching : ¬ t'.phase.isFetching = true := by
    intro hfetching
    obtain ⟨item, phase⟩ := t'
    cases phase with
    | fetching => exact hitem item hmoved.place_self
    | waiting | fetched | handled | locked | merged | unlocked | released | ended | crashed =>
      cases hfetching
  rw [hmoved.change.call?_eq hmoved.place, if_neg hfetching]
  rfl

/-- Moves that neither call the source nor take a reply, as far as they are possible. -/
theorem attempts {α : Type} {f : α → Move} (h : ∀ (m : Machine σ) (a : α), m.call? (f a) = none)
    (hanswer : ∀ a k reply, f a ≠ .answer k reply) (s : Talk τ) (as : List α) : ∀ m : Machine σ,
      GoesTo d m s (as.foldl (fun m a => m.attempt d.backend (f a)) m) s := by
  induction as with
  | nil => exact fun m => of_quiet rfl
  | cons a rest ih =>
    intro m
    exact (attempt (h m a) fun k reply heq => absurd heq (hanswer a k reply)).trans (ih _)

theorem complete (d : Dispatcher σ τ) (m : Machine σ) (s : Talk τ) (i : Nat) :
    GoesTo d m s (d.complete m i) s := by
  unfold Dispatcher.complete
  exact attempts (fun _ _ => rfl) nofun s (List.range 6) m

end GoesTo

/-! ## §4. Tasks at rest. -/

/-- How many steps a task that has its series makes on its own. -/
def Phase.pending : Phase → Nat
  | .fetched _ => 6
  | .handled _ _ => 5
  | .locked _ _ => 4
  | .merged _ _ => 3
  | .unlocked _ _ => 2
  | .released _ => 1
  | .waiting | .fetching | .ended _ | .crashed _ => 0

theorem Phase.pending_le (phase : Phase) : phase.pending ≤ 6 := by
  cases phase <;> simp [pending]

theorem Phase.pending_le_weight (phase : Phase) : phase.pending ≤ phase.weight := by
  cases phase <;> simp [pending, weight]

theorem Phase.pending_of_isOver {phase : Phase} (h : phase.isOver = true) : phase.pending = 0 := by
  cases phase <;> first | rfl | cases h

/-- A task that is not at rest has its series, and every change takes one of its steps. -/
theorem Phase.of_pending {phase : Phase} (h : phase.pending ≠ 0) :
    phase.weight < 7 ∧ phase.isOver = false ∧ phase.weight = phase.pending := by
  cases phase with
  | waiting | fetching | ended | crashed => exact absurd rfl h
  | fetched | handled | locked | merged | unlocked | released => simp [weight, isOver, pending]

namespace Machine

variable {b : Backend σ} {m m' : Machine σ} {move : Move} {i n : Nat} {t t' : Task}

/-- Every task waits, is fetching or is over, but task `i`, which has at most `n` steps to make. -/
def RestsBut (m : Machine σ) (i n : Nat) : Prop :=
  ∀ (k : Nat) (t : Task), m.tasks[k]? = some t → t.phase.pending ≤ if k = i then n else 0

/-- Every task waits, is fetching or is over. -/
def AtRest (m : Machine σ) : Prop :=
  ∀ (k : Nat) (t : Task), m.tasks[k]? = some t → t.phase.pending = 0

theorem AtRest.restsBut (h : m.AtRest) (i n : Nat) : m.RestsBut i n := by
  intro k t ht
  rw [h k t ht]
  exact Nat.zero_le _

theorem RestsBut.atRest (h : m.RestsBut i 0) : m.AtRest := by
  intro k t ht
  have hle := h k t ht
  rw [ite_self] at hle
  exact Nat.le_zero.1 hle

/-- A move of task `i` changes no other task. -/
theorem RestsBut.moved (h : m.RestsBut i n) (hmoved : Moved b m move i t t' m') :
    m'.RestsBut i t'.phase.pending := by
  intro k u hu
  by_cases hk : k = i
  · rw [hk, hmoved.place_self] at hu
    cases hu
    rw [if_pos hk]
  · rw [hmoved.place_other hk] at hu
    have hle := h k u hu
    rwa [if_neg hk] at hle ⊢

theorem RestsBut.mono {n' : Nat} (h : m.RestsBut i n) (hle : n ≤ n') : m.RestsBut i n' := by
  intro k t ht
  refine (h k t ht).trans ?_
  split
  · exact hle
  · exact Nat.le_refl 0

/-- Nobody holds a lock that a task waits for, while all others rest. -/
theorem RestsBut.isHeld_eq_false (h : m.RestsBut i n) (ht : m.tasks[i]? = some t) {s : Series}
    {l : Nat} (hphase : t.phase = .handled s l) : m.isHeld l = false := by
  rw [isHeld, List.any_eq_false]
  intro u hu hholds
  obtain ⟨k, hk⟩ := List.mem_iff_getElem?.1 hu
  by_cases hki : k = i
  · rw [hki, ht] at hk
    cases hk
    rw [hphase] at hholds
    cases hholds
  · have hpending := h k u hk
    rw [if_neg hki] at hpending
    obtain ⟨item, phase⟩ := u
    cases phase with
    | locked | merged => simp [Phase.pending] at hpending
    | waiting | fetching | fetched | handled | unlocked | released | ended | crashed =>
      cases hholds

/-- A task that is at rest has no step to make on its own. -/
theorem step_advance_eq_none (h : ∀ t, m.tasks[i]? = some t → t.phase.pending = 0) :
    m.step b (.advance i) = none := by
  show m.tasks[i]?.bind (advance? b m i) = none
  cases ht : m.tasks[i]? with
  | none => rfl
  | some t =>
    have hpending := h t ht
    obtain ⟨item, phase⟩ := t
    cases phase with
    | waiting | fetching | ended | crashed => rfl
    | fetched | handled | locked | merged | unlocked | released =>
      simp [Phase.pending] at hpending

/-- While all others rest, a task makes its next step. -/
theorem RestsBut.advance (h : m.RestsBut i (n + 1)) :
    (m.attempt b (.advance i)).RestsBut i n := by
  by_cases hrest : ∀ t, m.tasks[i]? = some t → t.phase.pending = 0
  · rw [attempt, step_advance_eq_none hrest, Option.getD_none]
    intro k t ht
    by_cases hk : k = i
    · rw [hrest t (hk ▸ ht)]
      exact Nat.zero_le _
    · have hle := h k t ht
      rwa [if_neg hk] at hle ⊢
  · simp only [not_forall, exists_prop] at hrest
    obtain ⟨t, ht, hpending⟩ := hrest
    obtain ⟨hweight, hover, heq⟩ := Phase.of_pending hpending
    obtain ⟨m', hstep⟩ := exists_advance (b := b) ht hweight hover fun s l hphase =>
      h.isHeld_eq_false ht hphase
    rw [attempt, hstep, Option.getD_some]
    obtain ⟨u, u', hmoved⟩ := moved_of_step rfl hstep
    obtain rfl : u = t := Option.some.inj (hmoved.place.symm.trans ht)
    -- Off the waiting and fetching phases, the weight is the number of steps.
    have hbound := h i u ht
    rw [if_pos rfl] at hbound
    have hlt := hmoved.change.weight_lt
    have hle := u'.phase.pending_le_weight
    exact (h.moved hmoved).mono (by omega)

/-- A task goes on until it rests, while all others do. -/
theorem RestsBut.advances {α : Type} (as : List α) : ∀ {m : Machine σ}, m.RestsBut i as.length →
    (as.foldl (fun m _ => m.attempt b (.advance i)) m).AtRest := by
  induction as with
  | nil => exact fun h => h.atRest
  | cons _ rest ih => exact fun h => ih h.advance

theorem RestsBut.complete (h : m.RestsBut i 6) (d : Dispatcher σ τ) : (d.complete m i).AtRest := by
  unfold Dispatcher.complete
  exact RestsBut.advances (List.range 6) h

/-- A move of a task at rest leaves the others at rest. -/
theorem AtRest.step (h : m.AtRest) (hmove : move.task? = some i) (hstep : m.step b move = some m') :
    m'.RestsBut i 6 := by
  obtain ⟨t, t', hmoved⟩ := moved_of_step hmove hstep
  exact ((h.restsBut i 0).moved hmoved).mono t'.phase.pending_le

theorem AtRest.moved (h : m.AtRest) (hmoved : Moved b m move i t t' m')
    (hrest : t'.phase.pending = 0) : m'.AtRest := by
  have hbut := (h.restsBut i 0).moved hmoved
  rw [hrest] at hbut
  exact hbut.atRest

theorem isOver_of_abandon {k : Nat} {store : σ} (h : Change b m i (.abandon k) t t' store) :
    t'.phase.isOver = true := by
  cases h with
  | giveUp => rfl
  | drop => exact isOver_failedTask ..

theorem pending_of_start {k : Nat} {store : σ} (h : Change b m i (.start k) t t' store) :
    t'.phase.pending = 0 := by
  cases h with
  | start item _ =>
    unfold startedTask
    split <;> rfl

theorem AtRest.abandon (h : m.AtRest) (i : Nat) : (m.attempt b (.abandon i)).AtRest := by
  refine attempt_elim h fun m' hstep => ?_
  obtain ⟨t, t', hmoved⟩ := moved_of_step rfl hstep
  exact h.moved hmoved (Phase.pending_of_isOver (isOver_of_abandon hmoved.change))

theorem AtRest.start (h : m.AtRest) (hstep : m.step b (.start i) = some m') : m'.AtRest := by
  obtain ⟨t, t', hmoved⟩ := moved_of_step rfl hstep
  exact h.moved hmoved (pending_of_start hmoved.change)

theorem AtRest.answer (h : m.AtRest) (i : Nat) (reply : Reply) :
    (m.attempt b (.answer i reply)).RestsBut i 6 :=
  attempt_elim (P := fun m => m.RestsBut i 6) (h.restsBut i 6) fun _ hstep => h.step rfl hstep

end Machine

/-! ## §5. Turns. -/

/-- What the source of a run has become and answered. -/
def Run.talk (r : Run σ τ) : Talk τ :=
  (r.memory, r.calls.map fun c => (c.task, c.answer))

theorem Run.talk_giveWay (r : Run σ τ) (i : Nat) : (r.giveWay i).talk = r.talk := by
  have hcall : ∀ c : Call, ((if c.task = i then { c with pauses := c.pauses - 1 } else c).task,
      (if c.task = i then { c with pauses := c.pauses - 1 } else c).answer)
        = (c.task, c.answer) := by
    intro c
    split <;> rfl
  simp only [Run.talk, Run.giveWay, List.map_map, Function.comp_def, hcall]

/-- What a turn does: it makes moves, and leaves every task at rest. -/
structure LeadsTo (d : Dispatcher σ τ) (r r' : Run σ τ) : Prop where
  goes : GoesTo d r.machine r.talk r'.machine r'.talk
  rests : r.machine.AtRest → r'.machine.AtRest

namespace LeadsTo

variable {d : Dispatcher σ τ} {r r' r'' : Run σ τ}

theorem of_quiet (hmachine : r.machine.quiet = r'.machine.quiet) (htalk : r'.talk = r.talk) :
    LeadsTo d r r' where
  goes := by
    rw [htalk]
    exact .of_quiet hmachine
  rests h := by
    intro k t ht
    rw [← tasks_of_quiet hmachine] at ht
    exact h k t ht

theorem trans (h : LeadsTo d r r') (h' : LeadsTo d r' r'') : LeadsTo d r r'' :=
  ⟨h.goes.trans h'.goes, h'.rests ∘ h.rests⟩

theorem of_machine {m : Machine σ} (hgoes : GoesTo d r.machine r.talk m r.talk)
    (hrests : r.machine.AtRest → m.AtRest) : LeadsTo d r { r with machine := m } :=
  ⟨hgoes, hrests⟩

theorem abandon (d : Dispatcher σ τ) (r : Run σ τ) (i : Nat) : LeadsTo d r (d.abandon r i) :=
  of_machine (.attempt rfl nofun) fun h => h.abandon i

/-- A task takes a reply, and goes on to its end. -/
theorem take {i : Nat} {reply : Reply} (hreply : r.talk.HasReply i reply) :
    LeadsTo d r { r with
      machine := d.complete (r.machine.attempt d.backend (.answer i reply)) i } := by
  have hanswer : ∀ k reply', Move.answer i reply = .answer k reply' →
      r.talk.HasReply k reply' := by
    intro k reply' heq
    cases heq
    exact hreply
  refine of_machine ?_ fun h => ?_
  · exact (GoesTo.attempt rfl hanswer).trans (.complete d _ _ i)
  · exact (h.answer i reply).complete d

/-- Everything is cancelled, if the answer says so. -/
theorem cancel (d : Dispatcher σ τ) (r : Run σ τ) (a : Answer) : LeadsTo d r { r with
    machine := if a.cancels then r.machine.attempt d.backend .cancel else r.machine } := by
  split
  · exact of_machine (.attempt rfl nofun) fun h => h
  · exact of_quiet rfl rfl

theorem settle {i : Nat} {a : Answer} (hasked : (i, a) ∈ r.talk.2) :
    LeadsTo d r (d.settle r i a) := by
  have hrouse : ∀ r' : Run σ τ, LeadsTo d r' (if a.cancels then r'.rouse else r') := by
    intro r'
    split
    · exact of_quiet rfl rfl
    · exact of_quiet rfl rfl
  have hcancel := cancel d r a
  unfold Dispatcher.settle
  cases hreply : a.reply with
  | none => exact (hcancel.trans (abandon d _ i)).trans (hrouse _)
  | some reply =>
    have hhas : r.talk.HasReply i reply := ⟨a, hasked, hreply⟩
    exact (hcancel.trans (take hhas)).trans (hrouse _)

theorem proceed (d : Dispatcher σ τ) (r : Run σ τ) (i : Nat) : LeadsTo d r (d.proceed r i) := by
  unfold Dispatcher.proceed
  split
  · exact of_quiet rfl rfl
  · rename_i c hcall
    split
    · exact abandon d r i
    · split
      · have htask : c.task = i := by simpa using List.find?_some hcall
        refine settle (List.mem_map.2 ⟨c, List.mem_of_find?_eq_some hcall, ?_⟩)
        rw [htask]
      · exact of_quiet rfl (r.talk_giveWay i)

theorem begin (d : Dispatcher σ τ) (r : Run σ τ) (i : Nat) : LeadsTo d r (d.begin r i) := by
  unfold Dispatcher.begin
  split
  · exact abandon d r i
  · cases hstep : r.machine.step d.backend (.start i) with
    | none => exact of_quiet rfl rfl
    | some m =>
      simp only
      split
      · rename_i item hitem
        have hcall : LeadsTo d r { r with
            machine := m
            memory := (d.source r.memory item).2
            calls := ⟨i, d.pauses, (d.source r.memory item).1⟩ :: r.calls } :=
          ⟨.call hstep hitem, fun h => h.start hstep⟩
        exact hcall.trans (proceed d _ i)
      · rename_i hitem
        exact ⟨.noCall hstep fun item h => hitem item h, fun h => h.start hstep⟩

theorem turn (d : Dispatcher σ τ) (r : Run σ τ) (i : Nat) : LeadsTo d r (d.turn r i) := by
  have hgrant : ∀ r' : Run σ τ, LeadsTo d r' (if r'.isOver i then r'.grant else r') := by
    intro r'
    split
    · unfold Run.grant
      split <;> exact of_quiet rfl rfl
    · exact of_quiet rfl rfl
  unfold Dispatcher.turn
  refine trans ?_ (hgrant _)
  split
  · exact begin d r i
  · exact proceed d r i
  · exact of_quiet rfl rfl

theorem notice (d : Dispatcher σ τ) (r : Run σ τ) : LeadsTo d r r.notice :=
  of_quiet (quiet_reports ..).symm rfl

theorem rest (d : Dispatcher σ τ) (r : Run σ τ) : LeadsTo d r r.rest := by
  have hqueue : LeadsTo d r { r with queue := r.queue ++ r.resting, resting := [], turns := 0 } :=
    of_quiet rfl rfl
  exact hqueue.trans (notice d _)

theorem takeTurns (d : Dispatcher σ τ) (fuel : Nat) : ∀ r : Run σ τ,
    LeadsTo d r (d.takeTurns fuel r) := by
  -- However much fuel there is, what was done so far are moves.
  induction fuel with
  | zero => exact fun r => of_quiet rfl rfl
  | succ fuel ih =>
    intro r
    unfold Dispatcher.takeTurns
    split
    · split
      · exact of_quiet rfl rfl
      · exact (rest d r).trans (ih _)
    · rename_i i queue _
      split
      · exact (rest d r).trans (ih _)
      · have hnext : LeadsTo d r { r with queue := queue, turns := r.turns + 1 } := of_quiet rfl rfl
        exact (hnext.trans (turn d _ i)).trans (ih _)

end LeadsTo

/-! ## §6. The end. -/

namespace Machine

variable {b : Backend σ} {m m' : Machine σ} {move : Move} {i k : Nat} {t : Task}

/-- Task `k` is over. -/
def EndsAt (m : Machine σ) (k : Nat) : Prop :=
  ∀ t, m.tasks[k]? = some t → t.phase.isOver = true

theorem isOver_iff : m.isOver = true ↔ ∀ k, m.EndsAt k := by
  rw [isOver, List.all_eq_true]
  constructor
  · intro h k t ht
    exact h t (List.mem_of_getElem? ht)
  · intro h t ht
    obtain ⟨k, hk⟩ := List.mem_iff_getElem?.1 ht
    exact h k t hk

/-- What is over does not change any more. -/
theorem EndsAt.attempt (h : m.EndsAt k) (move : Move) : (m.attempt b move).EndsAt k := by
  refine attempt_elim (P := fun m => m.EndsAt k) h fun m' hstep => ?_
  rcases step_cases hstep with ⟨_, rfl⟩ | ⟨i, t, t', hmoved⟩
  · exact h
  · intro u hu
    by_cases hk : k = i
    · subst hk
      have hover := h t hmoved.place
      rw [hmoved.change.not_over] at hover
      cases hover
    · rw [hmoved.place_other hk] at hu
      exact h u hu

theorem length_attempt (m : Machine σ) (move : Move) :
    (m.attempt b move).tasks.length = m.tasks.length := by
  refine attempt_elim (P := fun n => n.tasks.length = m.tasks.length) rfl fun m' hstep => ?_
  rcases step_cases hstep with ⟨_, rfl⟩ | ⟨i, t, t', hmoved⟩
  · rfl
  · rw [hmoved.tasks, List.length_set]

theorem cancelled_attempt (h : m.cancelled = true) (move : Move) :
    (m.attempt b move).cancelled = true := by
  refine attempt_elim (P := fun m => m.cancelled = true) h fun m' hstep => ?_
  rcases step_cases hstep with ⟨_, rfl⟩ | ⟨i, t, t', hmoved⟩
  · rfl
  · exact hmoved.cancelled.trans h

/-- When everything is cancelled, a task at rest ends. -/
theorem AtRest.endsAt (h : m.AtRest) (hcancelled : m.cancelled = true) (k : Nat) :
    (m.attempt b (.abandon k)).EndsAt k := by
  cases hstep : m.step b (.abandon k) with
  | some m' =>
    rw [attempt, hstep, Option.getD_some]
    obtain ⟨t, t', hmoved⟩ := moved_of_step rfl hstep
    intro u hu
    obtain rfl : t' = u := Option.some.inj (hmoved.place_self.symm.trans hu)
    exact isOver_of_abandon hmoved.change
  | none =>
    rw [attempt, hstep, Option.getD_none]
    intro t ht
    have hpending := h k t ht
    simp only [Machine.step, ht, Option.bind_some, abandon?, if_pos hcancelled] at hstep
    obtain ⟨item, phase⟩ := t
    cases phase with
    | waiting | fetching => cases hstep
    | fetched | handled | locked | merged | unlocked | released =>
      simp [Phase.pending] at hpending
    | ended | crashed => rfl

/-- Several tasks are abandoned, as far as that is possible. -/
def abandonAll (b : Backend σ) (m : Machine σ) (ks : List Nat) : Machine σ :=
  ks.foldl (fun m k => m.attempt b (.abandon k)) m

theorem length_abandonAll (ks : List Nat) : ∀ m : Machine σ,
    (m.abandonAll b ks).tasks.length = m.tasks.length := by
  induction ks with
  | nil => exact fun _ => rfl
  | cons k rest ih => exact fun m => (ih _).trans (m.length_attempt _)

theorem EndsAt.abandonAll (ks : List Nat) : ∀ {m : Machine σ}, m.EndsAt k →
    (m.abandonAll b ks).EndsAt k := by
  induction ks with
  | nil => exact fun h => h
  | cons i rest ih => exact fun h => ih (h.attempt (.abandon i))

theorem AtRest.abandonAll (ks : List Nat) : ∀ {m : Machine σ}, m.AtRest → m.cancelled = true →
    ∀ k ∈ ks, (m.abandonAll b ks).EndsAt k := by
  induction ks with
  | nil => exact fun _ _ k hk => absurd hk List.not_mem_nil
  | cons i rest ih =>
    intro m h hcancelled k hk
    rcases List.mem_cons.1 hk with rfl | hk
    · exact (h.endsAt hcancelled k).abandonAll rest
    · exact ih (h.abandon i) (cancelled_attempt hcancelled _) k hk

/-- **Closing ends every task that is at rest.** -/
theorem AtRest.isOver_close (h : m.AtRest) (d : Dispatcher σ τ) : (d.close m).isOver = true := by
  rw [isOver_iff]
  intro k
  by_cases hover : m.isOver = true
  · -- Nothing is cancelled, and there is nothing to abandon.
    have heq : d.close m = m.abandonAll d.backend (List.range m.tasks.length) := by
      simp only [Dispatcher.close, if_pos hover]
      rfl
    rw [heq]
    exact (isOver_iff.1 hover k).abandonAll _
  · -- Everything is cancelled first, so that every task at rest can be abandoned.
    let n : Machine σ := { m with cancelled := true }
    have heq : d.close m = n.abandonAll d.backend (List.range n.tasks.length) := by
      simp only [Dispatcher.close, if_neg hover]
      rfl
    have hn : n.AtRest := h
    rw [heq]
    by_cases hk : k < n.tasks.length
    · exact hn.abandonAll _ rfl k (List.mem_range.2 hk)
    · intro t ht
      have hlt := (List.getElem?_eq_some_iff.1 ht).1
      rw [length_abandonAll] at hlt
      exact absurd hlt hk

theorem filterMap_getElem?_range {α : Type} (as : List α) :
    ((List.range as.length).filterMap fun k => as[k]?) = as := by
  have hmap : (List.range as.length).map (fun k => as[k]?) = as.map some := by
    apply List.ext_getElem
    · simp
    · intro k _ _
      simp
  have hsome := congrArg (List.filterMap id) hmap
  rwa [List.filterMap_map, List.filterMap_map, Function.id_comp, Function.id_comp,
    List.filterMap_some] at hsome

/-- When everything is over, every task is joined once. -/
theorem perm_endedTasks (hlisted : Listed m) (hover : m.isOver = true) :
    m.endedTasks.Perm m.tasks := by
  -- Each number of a task is listed once.
  have hperm : m.ended.Perm (List.range m.tasks.length) := by
    refine (List.perm_ext_iff_of_nodup hlisted.nodup List.nodup_range).2 fun k => ?_
    rw [hlisted.mem_iff, List.mem_range]
    constructor
    · rintro ⟨t, ht, _⟩
      exact (List.getElem?_eq_some_iff.1 ht).1
    · intro hk
      have ht := List.getElem?_eq_getElem hk
      exact ⟨_, ht, isOver_iff.1 hover k _ ht⟩
  have hjoined := hperm.filterMap fun k => m.tasks[k]?
  rwa [filterMap_getElem?_range] at hjoined

end Machine

/-- What an execution leaves behind. -/
structure Execution.EndsIn {d : Dispatcher σ τ} {w : World σ τ} {items : List FetchItem}
    (e : Execution d w items) (w' : World σ τ) : Prop where
  store : w'.store = e.machine.store
  /-- The source was called as the execution says, and for nothing else. -/
  memory : w'.memory = e.talk.1
  calls : w'.calls = w.calls + e.calls.length
  /-- What tasks took are replies of the source to them. -/
  replies : ∀ k reply, .answer k reply ∈ e.moves → e.talk.HasReply k reply

namespace Dispatcher

variable (d : Dispatcher σ τ) (w : World σ τ) {metric : String} {items : List FetchItem}

theorem goesTo_runTasks (store : σ) (memory : τ) (cancelled : Bool) (items : List FetchItem) :
    let r := d.runTasks store memory cancelled items
    GoesTo d (Machine.initial store d.limit cancelled items) (memory, []) r.machine r.talk
      ∧ r.machine.isOver = true := by
  let start : Run σ τ := Run.initial (Machine.initial store d.limit cancelled items) memory
  let r := d.takeTurns (d.fuelFor items.length) start
  have hturns : LeadsTo d start r := LeadsTo.takeTurns d _ start
  have hrest : start.machine.AtRest := by
    intro k t ht
    obtain ⟨item, _, rfl⟩ := List.mem_map.1 (List.mem_of_getElem? ht)
    rfl
  -- What is left is dropped, and for this everything is cancelled if it is not already.
  have hclose : GoesTo d r.machine r.talk (d.close r.machine) r.talk := by
    unfold close
    split
    · exact .attempts (fun _ _ => rfl) nofun _ _ _
    · have hcancel : GoesTo d r.machine r.talk (r.machine.attempt d.backend .cancel) r.talk :=
        .attempt rfl nofun
      exact hcancel.trans (.attempts (fun _ _ => rfl) nofun _ _ _)
  have hnotice := LeadsTo.notice d { r with machine := d.close r.machine }
  refine ⟨(hturns.goes.trans hclose).trans hnotice.goes, ?_⟩
  have htasks : (d.runTasks store memory cancelled items).machine.tasks
      = (d.close r.machine).tasks := tasks_of_quiet (quiet_reports ..)
  rw [isOver, htasks]
  exact (hturns.rests hrest).isOver_close d

/-- A dispatch of items of its metric runs the tasks of those within the budget. -/
theorem execute_of_own (h : ∀ i ∈ items, i.metric = metric) :
    let r := d.runTasks w.store w.memory w.cancelled (d.admitted items)
    let left := items.drop d.settings.requestBudget
    d.execute w metric items = (.ok (.ofTasks r.machine.endedTasks left), after w r left) := by
  have hforeign : (items.find? fun i => i.metric ≠ metric) = none := by
    rw [List.find?_eq_none]
    intro i hi
    simp [h i hi]
  simp only [execute, budgeted, hforeign, List.splitAt_eq]
  rfl

/-- **A dispatch is an execution.** -/
theorem execute_eq_execution (h : ∀ i ∈ items, i.metric = metric) :
    ∃ (e : Execution d w items) (w' : World σ τ),
      d.execute w metric items = (.ok e.report, w') ∧ e.EndsIn w' := by
  obtain ⟨⟨moves, n, hrun, hquiet, htalk, hanswers⟩, hover⟩ :=
    d.goesTo_runTasks w.store w.memory w.cancelled (d.admitted items)
  let r := d.runTasks w.store w.memory w.cancelled (d.admitted items)
  -- The run's machine has the events of breakdowns too; all else is the same.
  have hn : n.isOver = true := by
    rw [isOver, tasks_of_quiet hquiet]
    exact hover
  have hended : r.machine.endedTasks = n.endedTasks := endedTasks_of_quiet hquiet.symm
  let e : Execution d w items :=
    ⟨moves, n, n.endedTasks, hrun, hn, perm_endedTasks (listed_of_run hrun) hn⟩
  have hexecute : d.execute w metric items
      = (.ok e.report, after w r (items.drop d.settings.requestBudget)) := by
    rw [d.execute_of_own w h, hended]
    rfl
  refine ⟨e, _, hexecute, ?_, congrArg Prod.fst htalk, ?_, fun k reply hmem => ?_⟩
  · show r.machine.quiet.store = n.quiet.store
    rw [hquiet]
  · show w.calls + r.machine.quiet.calls = w.calls + e.calls.length
    rw [← hquiet]
    exact congrArg _ (called_of_run hrun).count
  · have hreply := hanswers k reply hmem
    rwa [htalk] at hreply

end Dispatcher

end MetricCube.Fetch
