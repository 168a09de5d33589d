/-
  MetricCube.Proofs.Interleaving
  ──────────────────────────────
  **What interleavings can do.**  A list of moves is an interleaving of tasks.  All
  that one move can do is said once: it cancels everything, or it changes one task,
  in one of the ways that `Change` lists, and reports what the task comes to
  (`step_effect`; `step_cases` without reports and locks).

      waiting → fetching → fetched → handled → locked → merged → … → ended

  A change keeps what the task's item asks for, and lowers the task's weight.  So

    • what holds of tasks at the start and is kept by changes holds in every
      interleaving (`each_of_run`);
    • tasks that are over are listed once, in the order of their ends
      (`listed_of_run`);
    • an interleaving of `n` tasks has at most `8 * n` moves besides cancelling
      (`length_of_run`), and while a task is not over some task can move
      (`exists_step`);
    • the source is called once at most for each task, with its item put under way
      (`called_of_run`).
-/
import Mathlib
import MetricCube.Proofs.Machine

namespace MetricCube

namespace FetchItem

/-- What the item asks for, whatever its status. -/
def unmarked (i : FetchItem) : FetchItem :=
  { i with status := .needed }

@[simp] theorem id_unmarked (i : FetchItem) : i.unmarked.id = i.id := rfl

theorem fields_of_unmarked {i j : FetchItem} (h : i.unmarked = j.unmarked) :
    i.metric = j.metric ∧ i.assignment = j.assignment ∧ i.range = j.range
      ∧ i.signature = j.signature := by
  simpa [unmarked] using h

theorem move_eq_ok {i j : FetchItem} {source target : FetchStatus}
    (h : i.move source target = .ok j) : i.status = source ∧ j = { i with status := target } := by
  unfold move at h
  split at h
  · rename_i hstatus
    cases h
    exact ⟨hstatus, rfl⟩
  · cases h

theorem move_of_status {i : FetchItem} {source : FetchStatus} (h : i.status = source)
    (target : FetchStatus) : i.move source target = .ok { i with status := target } := by
  unfold move
  rw [if_pos h]

end FetchItem

namespace Fetch

variable {σ : Type}

/-! ## §1. One move. -/

/-- A waiting task that calls the source, if its item may be put under way. -/
def startedTask (item : FetchItem) : Task :=
  match item.start with
  | .ok item => ⟨item, .fetching⟩
  | .error fault => ⟨item, .ended (.faulted fault)⟩

/-- A task that fails in flight. -/
def failedTask (item : FetchItem) (retryable : Bool) (e : Ending) : Task :=
  match item.fail retryable with
  | .ok item => ⟨item, .ended e⟩
  | .error fault => ⟨item, .ended (.faulted fault)⟩

/-- **What a move can do to task `i`,** and to the store. -/
inductive Change (b : Backend σ) (m : Machine σ) (i : Nat) : Move → Task → Task → σ → Prop where
  | giveUp (item : FetchItem) : m.cancelled = true →
      Change b m i (.abandon i) ⟨item, .waiting⟩ ⟨item, .ended .cancelled⟩ m.store
  | drop (item : FetchItem) : m.cancelled = true →
      Change b m i (.abandon i) ⟨item, .fetching⟩ (failedTask item true .cancelled) m.store
  | start (item : FetchItem) : m.inFlight < m.limit →
      Change b m i (.start i) ⟨item, .waiting⟩ (startedTask item) m.store
  | crash (item : FetchItem) (message : String) :
      Change b m i (.answer i (.crash message)) ⟨item, .fetching⟩ ⟨item, .crashed message⟩ m.store
  | fail (item : FetchItem) (e : SourceError) :
      Change b m i (.answer i (.error e)) ⟨item, .fetching⟩
        (failedTask item e.isRetryable (.failed e)) m.store
  | stray (item : FetchItem) (s : Series) (e : SourceError) : withinRange item s = .error e →
      Change b m i (.answer i (.series s)) ⟨item, .fetching⟩
        (failedTask item e.isRetryable (.failed e)) m.store
  | take (item : FetchItem) (s : Series) : withinRange item s = .ok s →
      Change b m i (.answer i (.series s)) ⟨item, .fetching⟩ ⟨item, .fetched s⟩ m.store
  | handle (item : FetchItem) (s : Series) (l : Nat) :
      Change b m i (.advance i) ⟨item, .fetched s⟩ ⟨item, .handled s l⟩ m.store
  | lock (item : FetchItem) (s : Series) (l : Nat) : m.isHeld l = false →
      Change b m i (.advance i) ⟨item, .handled s l⟩ ⟨item, .locked s l⟩ m.store
  | merge (item : FetchItem) (s : Series) (l : Nat) :
      Change b m i (.advance i) ⟨item, .locked s l⟩
        ⟨(m.mergeSeries b item s).2.1, .merged (m.mergeSeries b item s).1 l⟩
        (m.mergeSeries b item s).2.2
  | unlock (item : FetchItem) (result : MergeResult) (l : Nat) :
      Change b m i (.advance i) ⟨item, .merged result l⟩ ⟨item, .unlocked result l⟩ m.store
  | release (item : FetchItem) (result : MergeResult) (l : Nat) :
      Change b m i (.advance i) ⟨item, .unlocked result l⟩ ⟨item, .released result⟩ m.store
  | finish (item : FetchItem) (result : MergeResult) :
      Change b m i (.advance i) ⟨item, .released result⟩
        ⟨item, .ended (Machine.endingOf result)⟩ m.store

/-- A move that changes task `i` from `t` to `t'`. -/
structure Moved (b : Backend σ) (m : Machine σ) (move : Move) (i : Nat) (t t' : Task)
    (m' : Machine σ) : Prop where
  place : m.tasks[i]? = some t
  change : Change b m i move t t' m'.store
  tasks : m'.tasks = m.tasks.set i t'
  ended : m'.ended = if t'.phase.isOver then m.ended ++ [i] else m.ended
  calls : m'.calls = m.calls + if t'.phase.isFetching then 1 else 0
  cancelled : m'.cancelled = m.cancelled
  limit : m'.limit = m.limit

/-- What a task reports on coming to where it stands. -/
def Task.reported (t : Task) : List Telemetry.Event :=
  match t.phase with
  | .fetching => [.fetchStarted t.item.metric]
  | .ended e => [Machine.endEvent t.item.metric e]
  | _ => []

namespace Machine

/-- The registry of locks, with the number of the next new lock. -/
def registry (m : Machine σ) : List (MergeKey × Nat) × Nat :=
  (m.locks, m.nextLock)

/-- The registry of locks after the next step of a task. -/
def registryAfter (m : Machine σ) (t : Task) : List (MergeKey × Nat) × Nat :=
  match t.phase with
  | .fetched _ => (m.takeHandle (mergeKey t.item)).2.registry
  | .released _ => (m.releaseLock (mergeKey t.item)).registry
  | _ => m.registry

/-- A move puts one task in its place, and reports of this task only. -/
def Reports (m : Machine σ) (i : Nat) (m' : Machine σ) : Prop :=
  ∃ t', m'.tasks = m.tasks.set i t' ∧ m'.events = m.events ++ t'.reported

end Machine

/-- **All that a move does that changes task `i`.**  The task reports what it comes to.  The registry
    of locks is touched where a task takes its handle, and where it looks after the entry. -/
structure Effect (b : Backend σ) (m : Machine σ) (move : Move) (i : Nat) (t t' : Task)
    (m' : Machine σ) : Prop extends Moved b m move i t t' m' where
  reports : m.Reports i m'
  registry : m'.registry = m.registryAfter t
  handle : ∀ s l, t'.phase = .handled s l → l = (m.takeHandle (mergeKey t.item)).1

namespace Machine

variable {b : Backend σ} {m m' : Machine σ} {move : Move} {i : Nat} {t : Task}

theorem isOver_failedTask (item : FetchItem) (retryable : Bool) (e : Ending) :
    (failedTask item retryable e).phase.isOver = true := by
  unfold failedTask
  split <;> rfl

theorem isFetching_eq_false {phase : Phase} (h : phase.isOver = true) :
    phase.isFetching = false := by
  cases phase <;> first | rfl | cases h

/-- A task that is put in its place for the last time. -/
theorem moved_putLast {t' : Task} {event : Telemetry.Event} (ht : m.tasks[i]? = some t)
    (hover : t'.phase.isOver = true) (hchange : Change b m i move t t' m.store) :
    Moved b m move i t t' ((m.putLast i t').report event) where
  place := ht
  change := hchange
  tasks := rfl
  ended := by
    rw [if_pos hover]
    rfl
  calls := by
    rw [isFetching_eq_false hover]
    rfl
  cancelled := rfl
  limit := rfl

/-- A task that ends outside of a lock reports its end. -/
theorem effect_finish {item : FetchItem} {e : Ending} (ht : m.tasks[i]? = some t)
    (hafter : m.registryAfter t = m.registry) (hchange : Change b m i move t ⟨item, .ended e⟩ m.store) :
    Effect b m move i t ⟨item, .ended e⟩ (m.finish i item e) where
  toMoved := moved_putLast ht rfl hchange
  reports := ⟨⟨item, .ended e⟩, rfl, rfl⟩
  registry := hafter.symm
  handle := nofun

theorem effect_failed {retryable : Bool} {e : Ending} {item : FetchItem}
    (ht : m.tasks[i]? = some t) (hafter : m.registryAfter t = m.registry)
    (hchange : Change b m i move t (failedTask item retryable e) m.store) :
    Effect b m move i t (failedTask item retryable e) (m.finishFailed i item retryable e) := by
  unfold finishFailed
  unfold failedTask at hchange ⊢
  cases hfail : item.fail retryable with
  | ok item' =>
    rw [hfail] at hchange
    exact effect_finish ht hafter hchange
  | error fault =>
    rw [hfail] at hchange
    exact effect_finish ht hafter hchange

theorem effect_abandon (ht : m.tasks[i]? = some t) (h : m.abandon? i t = some m') :
    ∃ t', Effect b m (.abandon i) i t t' m' := by
  obtain ⟨item, phase⟩ := t
  unfold abandon? at h
  split at h
  · rename_i hcancelled
    cases phase with
    | waiting =>
      cases h
      exact ⟨_, effect_finish ht rfl (.giveUp item hcancelled)⟩
    | fetching =>
      cases h
      exact ⟨_, effect_failed ht rfl (.drop item hcancelled)⟩
    | fetched | handled | locked | merged | unlocked | released | ended | crashed => cases h
  · cases h

theorem effect_start (ht : m.tasks[i]? = some t) (h : m.start? i t = some m') :
    ∃ t', Effect b m (.start i) i t t' m' := by
  obtain ⟨item, phase⟩ := t
  unfold start? at h
  cases phase with
  | waiting =>
    simp only at h
    split at h
    · rename_i hfree
      have hchange := Change.start (b := b) (i := i) item hfree
      unfold startedTask at hchange
      -- A task whose item may not be put under way is over at once.
      cases hstart : item.start with
      | error fault =>
        rw [hstart] at h hchange
        cases h
        exact ⟨_, effect_finish ht rfl hchange⟩
      | ok item' =>
        rw [hstart] at h hchange
        cases h
        exact ⟨_, ⟨ht, hchange, rfl, rfl, rfl, rfl, rfl⟩, ⟨_, rfl, rfl⟩, rfl, nofun⟩
    · cases h
  | fetching | fetched | handled | locked | merged | unlocked | released | ended | crashed =>
    cases h

theorem effect_answer {reply : Reply} (ht : m.tasks[i]? = some t)
    (h : m.answer? i t reply = some m') : ∃ t', Effect b m (.answer i reply) i t t' m' := by
  obtain ⟨item, phase⟩ := t
  unfold answer? at h
  cases phase with
  | fetching =>
    cases reply with
    | crash message =>
      cases h
      exact ⟨_, ⟨ht, .crash item message, rfl, rfl, rfl, rfl, rfl⟩,
        ⟨_, rfl, (List.append_nil _).symm⟩, rfl, nofun⟩
    | error e =>
      cases h
      exact ⟨_, effect_failed ht rfl (.fail item e)⟩
    | series s =>
      simp only at h
      -- A series with a day outside of the range that was asked for counts as a failure.
      cases hwithin : withinRange item s with
      | error e =>
        rw [hwithin] at h
        cases h
        exact ⟨_, effect_failed ht rfl (.stray item s e hwithin)⟩
      | ok s' =>
        have hsame : s' = s := by
          unfold withinRange at hwithin
          split at hwithin
          · cases hwithin
          · cases hwithin
            rfl
        subst hsame
        rw [hwithin] at h
        cases h
        exact ⟨_, ⟨ht, .take item s' hwithin, rfl, rfl, rfl, rfl, rfl⟩,
          ⟨_, rfl, (List.append_nil _).symm⟩, rfl, nofun⟩
  | waiting | fetched | handled | locked | merged | unlocked | released | ended | crashed =>
    cases h

/-- Taking a handle changes the registry of locks only. -/
theorem takeHandle_eq (m : Machine σ) (key : MergeKey) : ∃ locks next,
    (m.takeHandle key).2 = { m with locks := locks, nextLock := next } := by
  unfold takeHandle
  split
  · exact ⟨m.locks, m.nextLock, rfl⟩
  · exact ⟨_, _, rfl⟩

theorem releaseLock_eq (m : Machine σ) (key : MergeKey) : ∃ locks,
    m.releaseLock key = { m with locks := locks } := by
  unfold releaseLock
  split
  · split
    · exact ⟨_, rfl⟩
    · exact ⟨m.locks, rfl⟩
  · exact ⟨m.locks, rfl⟩

theorem effect_advance (ht : m.tasks[i]? = some t) (h : advance? b m i t = some m') :
    ∃ t', Effect b m (.advance i) i t t' m' := by
  obtain ⟨item, phase⟩ := t
  unfold advance? at h
  -- One case for each phase in which a task goes on by itself.
  cases phase with
  | fetched s =>
    obtain ⟨locks, next, hhandle⟩ := m.takeHandle_eq (mergeKey item)
    have hregistry : m.registryAfter ⟨item, .fetched s⟩ = (locks, next) := congrArg registry hhandle
    simp only [hhandle] at h
    cases h
    refine ⟨_, ⟨ht, .handle item s _, rfl, rfl, rfl, rfl, rfl⟩,
      ⟨_, rfl, (List.append_nil _).symm⟩, hregistry.symm, fun s' l heq => ?_⟩
    cases heq
    rfl
  | handled s l =>
    simp only at h
    split at h
    · cases h
    · rename_i hfree
      cases h
      exact ⟨_, ⟨ht, .lock item s l (Bool.eq_false_iff.2 hfree), rfl, rfl, rfl, rfl, rfl⟩,
        ⟨_, rfl, (List.append_nil _).symm⟩, rfl, nofun⟩
  | locked s l =>
    cases h
    exact ⟨_, ⟨ht, .merge item s l, rfl, rfl, rfl, rfl, rfl⟩,
      ⟨_, rfl, (List.append_nil _).symm⟩, rfl, nofun⟩
  | merged result l =>
    cases h
    exact ⟨_, ⟨ht, .unlock item result l, rfl, rfl, rfl, rfl, rfl⟩,
      ⟨_, rfl, (List.append_nil _).symm⟩, rfl, nofun⟩
  | unlocked result l =>
    cases h
    exact ⟨_, ⟨ht, .release item result l, rfl, rfl, rfl, rfl, rfl⟩,
      ⟨_, rfl, (List.append_nil _).symm⟩, rfl, nofun⟩
  | released result =>
    obtain ⟨locks, hrelease⟩ := m.releaseLock_eq (mergeKey item)
    have hregistry : m.registryAfter ⟨item, .released result⟩ = (locks, m.nextLock) :=
      congrArg registry hrelease
    simp only [hrelease] at h
    cases h
    exact ⟨_, ⟨ht, .finish item result, rfl, rfl, rfl, rfl, rfl⟩, ⟨_, rfl, rfl⟩,
      hregistry.symm, nofun⟩
  | waiting | fetching | ended | crashed => cases h

/-- **A move cancels everything, or it has an effect on one task.** -/
theorem step_effect (h : m.step b move = some m') :
    (move = .cancel ∧ m' = { m with cancelled := true })
      ∨ ∃ i t t', Effect b m move i t t' m' := by
  cases move with
  | cancel =>
    cases h
    exact .inl ⟨rfl, rfl⟩
  | abandon i =>
    obtain ⟨t, ht, hstep⟩ := Option.bind_eq_some_iff.1 h
    obtain ⟨t', heffect⟩ := effect_abandon ht hstep
    exact .inr ⟨i, t, t', heffect⟩
  | start i =>
    obtain ⟨t, ht, hstep⟩ := Option.bind_eq_some_iff.1 h
    obtain ⟨t', heffect⟩ := effect_start ht hstep
    exact .inr ⟨i, t, t', heffect⟩
  | answer i reply =>
    obtain ⟨t, ht, hstep⟩ := Option.bind_eq_some_iff.1 h
    obtain ⟨t', heffect⟩ := effect_answer ht hstep
    exact .inr ⟨i, t, t', heffect⟩
  | advance i =>
    obtain ⟨t, ht, hstep⟩ := Option.bind_eq_some_iff.1 h
    obtain ⟨t', heffect⟩ := effect_advance ht hstep
    exact .inr ⟨i, t, t', heffect⟩

/-- **A move cancels everything, or it changes one task.** -/
theorem step_cases (h : m.step b move = some m') :
    (move = .cancel ∧ m' = { m with cancelled := true })
      ∨ ∃ i t t', Moved b m move i t t' m' := by
  rcases step_effect h with hcancel | ⟨i, t, t', heffect⟩
  · exact .inl hcancel
  · exact .inr ⟨i, t, t', heffect.toMoved⟩

/-! ## §2. Interleavings. -/

theorem run_append (moves moves' : List Move) : ∀ m : Machine σ,
    m.run b (moves ++ moves') = (m.run b moves).bind fun m => m.run b moves' := by
  induction moves with
  | nil => intro m; rfl
  | cons first rest ih =>
    intro m
    show (m.step b first).bind (fun m => m.run b (rest ++ moves')) = _
    simp only [ih]
    rw [← Option.bind_assoc]
    rfl

theorem run_concat (moves : List Move) (move : Move) (m : Machine σ) :
    m.run b (moves ++ [move]) = (m.run b moves).bind fun m => m.step b move := by
  have hone : (fun m : Machine σ => m.run b [move]) = fun m => m.step b move := by
    funext m
    show (m.step b move).bind (fun m => some m) = m.step b move
    cases m.step b move <;> rfl
  rw [run_append, hone]

/-- **What holds at the start and is kept by every move holds of every interleaving.** -/
theorem run_induction {start : Machine σ} {P : List Move → Machine σ → Prop} (hstart : P [] start)
    (hstep : ∀ moves m move m', start.run b moves = some m → P moves m →
      m.step b move = some m' → P (moves ++ [move]) m') :
    ∀ moves m, start.run b moves = some m → P moves m := by
  intro moves
  induction moves using List.reverseRecOn with
  | nil =>
    intro m hrun
    cases hrun
    exact hstart
  | append_singleton moves move ih =>
    intro m' hrun
    rw [run_concat] at hrun
    obtain ⟨m, hrun, hmove⟩ := Option.bind_eq_some_iff.1 hrun
    exact hstep moves m move m' hrun (ih m hrun) hmove

end Machine

open Machine

variable {b : Backend σ} {m m' : Machine σ} {move : Move} {moves : List Move} {i : Nat}
  {t t' : Task} {store : σ} {limit : Nat} {cancelled : Bool} {items : List FetchItem}

theorem Moved.place_self (h : Moved b m move i t t' m') : m'.tasks[i]? = some t' := by
  rw [h.tasks, List.getElem?_set_self]
  exact (List.getElem?_eq_some_iff.1 h.place).1

theorem Moved.place_other (h : Moved b m move i t t' m') {k : Nat} (hk : k ≠ i) :
    m'.tasks[k]? = m.tasks[k]? := by
  rw [h.tasks, List.getElem?_set_ne (Ne.symm hk)]

/-- The tasks stand for the items, one for one, and each is related to its own. -/
structure Each (P : FetchItem → Task → Prop) (items : List FetchItem) (tasks : List Task) :
    Prop where
  length_eq : tasks.length = items.length
  each : ∀ (k : Nat) (item : FetchItem) (t : Task), items[k]? = some item → tasks[k]? = some t →
    P item t

theorem Each.exists_item {P : FetchItem → Task → Prop} {tasks : List Task}
    (h : Each P items tasks) {k : Nat} (ht : tasks[k]? = some t) :
    ∃ item, items[k]? = some item ∧ P item t := by
  have hk : k < items.length := by
    rw [← h.length_eq]
    exact (List.getElem?_eq_some_iff.1 ht).1
  have hitem : items[k]? = some items[k] := List.getElem?_eq_getElem hk
  exact ⟨_, hitem, h.each k _ t hitem ht⟩

theorem Each.exists_task {P : FetchItem → Task → Prop} {tasks : List Task}
    (h : Each P items tasks) {k : Nat} {item : FetchItem} (hitem : items[k]? = some item) :
    ∃ t, tasks[k]? = some t ∧ P item t := by
  have hk : k < tasks.length := by
    rw [h.length_eq]
    exact (List.getElem?_eq_some_iff.1 hitem).1
  have ht : tasks[k]? = some tasks[k] := List.getElem?_eq_getElem hk
  exact ⟨_, ht, h.each k item _ hitem ht⟩

theorem Each.map_eq {P : FetchItem → Task → Prop} {tasks : List Task} (h : Each P items tasks)
    {α : Type} {f : FetchItem → α} {g : Task → α} (heq : ∀ {item t}, P item t → g t = f item) :
    tasks.map g = items.map f := by
  apply List.ext_getElem?
  intro k
  rw [List.getElem?_map, List.getElem?_map]
  cases hitem : items[k]? with
  | none =>
    rw [List.getElem?_eq_none_iff.2 (h.length_eq ▸ List.getElem?_eq_none_iff.1 hitem)]
    rfl
  | some item =>
    obtain ⟨t, ht, hP⟩ := h.exists_task hitem
    rw [ht, Option.map_some, Option.map_some, heq hP]

theorem Each.moved {P : FetchItem → Task → Prop} (h : Each P items m.tasks)
    (hmoved : Moved b m move i t t' m')
    (hkeep : ∀ item, items[i]? = some item → P item t → P item t') : Each P items m'.tasks := by
  refine ⟨?_, fun k item u hitem hu => ?_⟩
  · rw [hmoved.tasks, List.length_set]
    exact h.length_eq
  · by_cases hk : k = i
    · subst hk
      rw [hmoved.place_self] at hu
      cases hu
      exact hkeep item hitem (h.each k item t hitem hmoved.place)
    · rw [hmoved.place_other hk] at hu
      exact h.each k item u hitem hu

theorem each_initial {P : FetchItem → Task → Prop} (h : ∀ item ∈ items, P item ⟨item, .waiting⟩) :
    Each P items (Machine.initial store limit cancelled items).tasks := by
  refine ⟨List.length_map _, fun k item t hitem ht => ?_⟩
  rw [Machine.initial, List.getElem?_map, hitem] at ht
  cases ht
  exact h item (List.mem_of_getElem? hitem)

/-- **What changes keep of a task and its item holds in every interleaving.** -/
theorem each_of_run {P : FetchItem → Task → Prop} (hstart : ∀ item ∈ items, P item ⟨item, .waiting⟩)
    (hkeep : ∀ {m : Machine σ} {i move t t' store item}, Change b m i move t t' store →
      P item t → P item t') {moves : List Move} {m : Machine σ}
    (hrun : (Machine.initial store limit cancelled items).run b moves = some m) :
    Each P items m.tasks := by
  refine run_induction (P := fun _ m => Each P items m.tasks) (each_initial hstart)
    (fun moves m move m' _ h hstep => ?_) moves m hrun
  rcases step_cases hstep with ⟨_, rfl⟩ | ⟨i, t, t', hmoved⟩
  · exact h
  · exact h.moved hmoved fun item _ => hkeep hmoved.change

/-! ## §3. Items keep what they ask for. -/

theorem unmarked_startedTask (item : FetchItem) :
    (startedTask item).item.unmarked = item.unmarked := by
  unfold startedTask
  cases hstart : item.start with
  | ok item' =>
    obtain ⟨_, rfl⟩ := FetchItem.move_eq_ok hstart
    rfl
  | error fault => rfl

theorem unmarked_failedTask (item : FetchItem) (retryable : Bool) (e : Ending) :
    (failedTask item retryable e).item.unmarked = item.unmarked := by
  unfold failedTask
  cases hfail : item.fail retryable with
  | ok item' =>
    obtain ⟨_, rfl⟩ := FetchItem.move_eq_ok hfail
    rfl
  | error fault => rfl

theorem unmarked_mergeSeries (m : Machine σ) (item : FetchItem) (s : Series) :
    (m.mergeSeries b item s).2.1.unmarked = item.unmarked := by
  unfold mergeSeries
  split
  · cases hfail : item.fail true with
    | ok item' =>
      obtain ⟨_, rfl⟩ := FetchItem.move_eq_ok hfail
      rfl
    | error fault => rfl
  · split
    · rfl
    · split <;> rfl

/-- A change marks the item, and keeps the rest of it. -/
theorem Change.unmarked (h : Change b m i move t t' store) :
    t'.item.unmarked = t.item.unmarked := by
  cases h with
  | start => exact unmarked_startedTask _
  | drop | fail | stray => exact unmarked_failedTask ..
  | merge => exact unmarked_mergeSeries ..
  | giveUp | crash | take | handle | lock | unlock | release | finish => rfl

/-- In every interleaving, each task is for its item. -/
theorem unmarked_of_run
    (hrun : (Machine.initial store limit cancelled items).run b moves = some m) :
    Each (fun item t => t.item.unmarked = item.unmarked) items m.tasks :=
  each_of_run (P := fun item t => t.item.unmarked = item.unmarked) (fun _ _ => rfl)
    (fun hchange h => hchange.unmarked.trans h) hrun

/-! ## §4. Tasks that are over. -/

theorem Change.not_over (h : Change b m i move t t' store) : t.phase.isOver = false := by
  cases h <;> rfl

/-- The tasks that are over are listed, each once. -/
structure Listed (m : Machine σ) : Prop where
  nodup : m.ended.Nodup
  mem_iff : ∀ k, k ∈ m.ended ↔ ∃ t, m.tasks[k]? = some t ∧ t.phase.isOver = true

/-- A task that changes is not over, so that it is not listed yet. -/
theorem Listed.not_mem (h : Listed m) (hmoved : Moved b m move i t t' m') : i ∉ m.ended := by
  intro hmem
  obtain ⟨u, hu, hover⟩ := (h.mem_iff i).1 hmem
  rw [hmoved.place] at hu
  cases hu
  rw [hmoved.change.not_over] at hover
  cases hover

theorem Listed.moved (h : Listed m) (hmoved : Moved b m move i t t' m') : Listed m' := by
  have hnew : i ∉ m.ended := h.not_mem hmoved
  have hother : ∀ k, k ≠ i →
      (k ∈ m.ended ↔ ∃ u, m'.tasks[k]? = some u ∧ u.phase.isOver = true) := by
    intro k hk
    rw [hmoved.place_other hk]
    exact h.mem_iff k
  -- Only the task that moves can be new in the list, and it is if it is over now.
  by_cases hover : t'.phase.isOver = true
  · have hended : m'.ended = m.ended ++ [i] := by rw [hmoved.ended, if_pos hover]
    refine ⟨?_, fun k => ?_⟩
    · rw [hended]
      exact List.nodup_append.2 ⟨h.nodup, List.nodup_singleton i, fun j hj k hk heq =>
        hnew (List.mem_singleton.1 hk ▸ heq ▸ hj)⟩
    · rw [hended, List.mem_append, List.mem_singleton]
      by_cases hk : k = i
      · subst hk
        exact ⟨fun _ => ⟨t', hmoved.place_self, hover⟩, fun _ => .inr rfl⟩
      · rw [or_iff_left hk]
        exact hother k hk
  · have hended : m'.ended = m.ended := by rw [hmoved.ended, if_neg hover]
    refine ⟨hended ▸ h.nodup, fun k => ?_⟩
    rw [hended]
    by_cases hk : k = i
    · subst hk
      refine ⟨fun hmem => absurd hmem hnew, fun hex => ?_⟩
      obtain ⟨u, hu, hu'⟩ := hex
      rw [hmoved.place_self] at hu
      cases hu
      exact absurd hu' hover
    · exact hother k hk

/-- **In every interleaving, the tasks that are over are listed, each once.** -/
theorem listed_of_run
    (hrun : (Machine.initial store limit cancelled items).run b moves = some m) : Listed m := by
  refine run_induction (P := fun _ m => Listed m) ?_ (fun moves m move m' _ h hstep => ?_)
    moves m hrun
  · refine ⟨List.nodup_nil, fun k => ⟨fun hmem => absurd hmem List.not_mem_nil, fun hex => ?_⟩⟩
    obtain ⟨t, ht, hover⟩ := hex
    obtain ⟨item, _, rfl⟩ := List.mem_map.1 (List.mem_of_getElem? ht)
    cases hover
  · rcases step_cases hstep with ⟨_, rfl⟩ | ⟨i, t, t', hmoved⟩
    · exact ⟨h.nodup, h.mem_iff⟩
    · exact h.moved hmoved

/-! ## §5. Interleavings come to an end. -/

/-- How many moves a task may still make. -/
def Phase.weight : Phase → Nat
  | .waiting => 8
  | .fetching => 7
  | .fetched _ => 6
  | .handled _ _ => 5
  | .locked _ _ => 4
  | .merged _ _ => 3
  | .unlocked _ _ => 2
  | .released _ => 1
  | .ended _ | .crashed _ => 0

theorem Phase.weight_eq_zero {phase : Phase} : phase.weight = 0 ↔ phase.isOver = true := by
  cases phase <;> simp [weight, isOver]

theorem Change.weight_lt (h : Change b m i move t t' store) :
    t'.phase.weight < t.phase.weight := by
  cases h with
  | start item _ =>
    unfold startedTask
    split <;> simp [Phase.weight]
  | drop | fail | stray =>
    rw [Phase.weight_eq_zero.2 (isOver_failedTask ..)]
    simp [Phase.weight]
  | giveUp | crash | take | handle | lock | merge | unlock | release | finish =>
    simp [Phase.weight]

/-- How many moves all tasks may still make. -/
def Machine.weight (m : Machine σ) : Nat :=
  (m.tasks.map fun t => t.phase.weight).sum

theorem sum_map_set {α : Type} (f : α → Nat) {as : List α} {k : Nat} {a : α} (c : α)
    (h : as[k]? = some a) : ((as.set k c).map f).sum + f a = (as.map f).sum + f c := by
  induction as generalizing k with
  | nil => cases h
  | cons head rest ih =>
    cases k with
    | zero =>
      cases h
      simp only [List.set_cons_zero, List.map_cons, List.sum_cons]
      omega
    | succ k =>
      have hrest := ih (k := k) h
      simp only [List.set_cons_succ, List.map_cons, List.sum_cons]
      omega

theorem Moved.weight_lt (h : Moved b m move i t t' m') : m'.weight < m.weight := by
  have hsum := sum_map_set (fun t => t.phase.weight) t' h.place
  have hlt := h.change.weight_lt
  unfold Machine.weight
  rw [h.tasks]
  omega

/-- The task that a move is one of. -/
def Move.task? : Move → Option Nat
  | .cancel => none
  | .abandon i | .start i | .answer i _ | .advance i => some i

/-- The move is one of a task. -/
def Move.isOfTask (move : Move) : Bool :=
  move.task?.isSome

theorem Change.task?_eq (h : Change b m i move t t' store) : move.task? = some i := by
  cases h <;> rfl

/-- What changes one task has its effect. -/
theorem Moved.effect (h : Moved b m move i t t' m') (hstep : m.step b move = some m') :
    Effect b m move i t t' m' := by
  rcases step_effect hstep with ⟨rfl, _⟩ | ⟨k, u, u', heffect⟩
  · cases h.change.task?_eq
  · obtain rfl : k = i :=
      Option.some.inj (heffect.change.task?_eq.symm.trans h.change.task?_eq)
    obtain rfl : u = t := Option.some.inj (heffect.place.symm.trans h.place)
    obtain rfl : u' = t' := Option.some.inj (heffect.place_self.symm.trans h.place_self)
    exact heffect

/-- A move of a task that is possible changes this task. -/
theorem Machine.moved_of_step (hmove : move.task? = some i) (hstep : m.step b move = some m') :
    ∃ t t', Moved b m move i t t' m' := by
  rcases step_cases hstep with ⟨rfl, _⟩ | ⟨k, t, t', hmoved⟩
  · cases hmove
  · obtain rfl : k = i := Option.some.inj (hmoved.change.task?_eq.symm.trans hmove)
    exact ⟨t, t', hmoved⟩

/-- An attempt changes nothing, or makes the move. -/
theorem Machine.attempt_elim {P : Machine σ → Prop} (hsame : P m)
    (hstep : ∀ m', m.step b move = some m' → P m') : P (m.attempt b move) := by
  unfold attempt
  cases h : m.step b move with
  | none => exact hsame
  | some m' => exact hstep m' h

theorem Change.isOfTask (h : Change b m i move t t' store) : move.isOfTask = true := by
  rw [Move.isOfTask, h.task?_eq]
  rfl

theorem weight_initial :
    (Machine.initial store limit cancelled items).weight = 8 * items.length := by
  unfold Machine.weight Machine.initial
  induction items with
  | nil => rfl
  | cons item rest ih =>
    simp only [List.map_cons, List.sum_cons, List.length_cons] at ih ⊢
    rw [ih, Phase.weight]
    omega

/-- **Interleavings are bounded:** every task makes eight moves at most. -/
theorem length_of_run
    (hrun : (Machine.initial store limit cancelled items).run b moves = some m) :
    (moves.filter Move.isOfTask).length + m.weight ≤ 8 * items.length := by
  refine run_induction (P := fun moves m =>
    (moves.filter Move.isOfTask).length + m.weight ≤ 8 * items.length) ?_
    (fun moves m move m' _ h hstep => ?_) moves m hrun
  · rw [weight_initial]
    simp
  · rw [List.filter_append, List.length_append]
    rcases step_cases hstep with ⟨rfl, rfl⟩ | ⟨i, t, t', hmoved⟩
    · exact h
    · have hlt := hmoved.weight_lt
      rw [List.filter_singleton, hmoved.change.isOfTask, cond_true, List.length_singleton]
      omega

theorem limit_of_run
    (hrun : (Machine.initial store limit cancelled items).run b moves = some m) :
    m.limit = limit := by
  refine run_induction (P := fun _ m => m.limit = limit) rfl (fun moves m move m' _ h hstep => ?_)
    moves m hrun
  rcases step_cases hstep with ⟨_, rfl⟩ | ⟨i, t, t', hmoved⟩
  · exact h
  · exact hmoved.limit.trans h

/-- A task that has its series can go on, unless it waits for a lock. -/
theorem exists_advance (ht : m.tasks[i]? = some t) (hstarted : t.phase.weight < 7)
    (hover : t.phase.isOver = false)
    (hfree : ∀ s l, t.phase = .handled s l → m.isHeld l = false) :
    ∃ m', m.step b (.advance i) = some m' := by
  obtain ⟨item, phase⟩ := t
  have hstep : m.step b (.advance i) = advance? b m i ⟨item, phase⟩ := by
    simp only [step, ht, Option.bind_some]
  rw [hstep]
  unfold advance?
  cases phase with
  | waiting | fetching => simp [Phase.weight] at hstarted
  | handled s l =>
    simp only [hfree s l rfl, Bool.false_eq_true, if_false]
    exact ⟨_, rfl⟩
  | ended | crashed => cases hover
  | fetched | locked | merged | unlocked | released => exact ⟨_, rfl⟩

/-- A task that is under way can move, or the one that holds the lock it waits for can. -/
theorem exists_step_of_underway (ht : m.tasks[i]? = some t) (hstarted : t.phase.weight < 7)
    (hover : t.phase.isOver = false) : ∃ k m', m.step b (.advance k) = some m' := by
  by_cases hfree : ∀ s l, t.phase = .handled s l → m.isHeld l = false
  · obtain ⟨m', hstep⟩ := exists_advance (b := b) ht hstarted hover hfree
    exact ⟨i, m', hstep⟩
  · simp only [not_forall, Bool.not_eq_false, exists_prop] at hfree
    obtain ⟨s, l, _, hheld⟩ := hfree
    obtain ⟨u, hu, hholds⟩ := List.any_eq_true.1 hheld
    obtain ⟨k, hk⟩ := List.mem_iff_getElem?.1 hu
    have hholds' : u.phase.held? = some l := by simpa using hholds
    -- Who holds a lock does not wait for one.
    have hmid : u.phase.weight < 7 ∧ u.phase.isOver = false
        ∧ ∀ s l, u.phase = .handled s l → m.isHeld l = false := by
      obtain ⟨item, phase⟩ := u
      cases phase with
      | locked | merged =>
        refine ⟨by simp [Phase.weight], rfl, fun s l heq => ?_⟩
        cases heq
      | waiting | fetching | fetched | handled | unlocked | released | ended | crashed =>
        cases hholds'
    obtain ⟨m', hstep⟩ := exists_advance (b := b) hk hmid.1 hmid.2.1 hmid.2.2
    exact ⟨k, m', hstep⟩

/-- **While a task is not over, some task can move,** if there is a permit at all: the source
    answers, or a task that has its series goes on, or a waiting task starts. -/
theorem exists_step (hlimit : 0 < m.limit) (hover : m.isOver = false) :
    ∃ move m', move.isOfTask = true ∧ m.step b move = some m' := by
  obtain ⟨t, ht, hlive⟩ : ∃ t ∈ m.tasks, t.phase.isOver = false := by
    simpa [Machine.isOver] using hover
  obtain ⟨i, hi⟩ := List.mem_iff_getElem?.1 ht
  by_cases hfetching : ∃ u ∈ m.tasks, u.phase.isFetching = true
  · obtain ⟨u, hu, hfetching⟩ := hfetching
    obtain ⟨k, hk⟩ := List.mem_iff_getElem?.1 hu
    obtain ⟨item, phase⟩ := u
    cases phase with
    | fetching =>
      refine ⟨.answer k (.crash ""), m.putLast k ⟨item, .crashed ""⟩, rfl, ?_⟩
      simp only [step, hk, Option.bind_some, answer?]
    | waiting | fetched | handled | locked | merged | unlocked | released | ended | crashed =>
      cases hfetching
  · by_cases hstarted : t.phase.weight < 7
    · obtain ⟨k, m', hstep⟩ := exists_step_of_underway (b := b) hi hstarted hlive
      exact ⟨.advance k, m', rfl, hstep⟩
    · -- The task waits, and nobody holds a permit.
      have hfree : m.inFlight < m.limit := by
        have hnone : m.inFlight = 0 := by
          rw [inFlight, List.countP_eq_zero]
          intro u hu hu'
          exact hfetching ⟨u, hu, hu'⟩
        omega
      obtain ⟨item, phase⟩ := t
      cases phase with
      | waiting =>
        have hstep : ∃ m', m.step b (.start i) = some m' := by
          simp only [step, hi, Option.bind_some, start?, if_pos hfree]
          cases item.start with
          | ok item' => exact ⟨_, rfl⟩
          | error fault => exact ⟨_, rfl⟩
        obtain ⟨m', hstep⟩ := hstep
        exact ⟨.start i, m', rfl, hstep⟩
      | fetching => exact absurd ⟨_, ht, rfl⟩ hfetching
      | fetched | handled | locked | merged | unlocked | released | ended | crashed =>
        simp [Phase.weight] at hstarted

/-! ## §6. Calls of the source. -/

/-- The call that a move makes: for which task, and the item as the source gets it. -/
def Machine.call? (m : Machine σ) : Move → Option (Nat × FetchItem)
  | .start i => m.tasks[i]?.bind fun t => t.item.start.toOption.map fun item => (i, item)
  | _ => none

/-- The calls that moves make, in order. -/
def Machine.callsOf (b : Backend σ) (m : Machine σ) : List Move → List (Nat × FetchItem)
  | [] => []
  | move :: rest =>
    (m.call? move).toList ++ ((m.step b move).map fun m => m.callsOf b rest).getD []

theorem callsOf_append (moves' : List Move) : ∀ {m : Machine σ}, m.run b moves = some m' →
    m.callsOf b (moves ++ moves') = m.callsOf b moves ++ m'.callsOf b moves' := by
  induction moves with
  | nil =>
    intro m hrun
    cases hrun
    rfl
  | cons first rest ih =>
    intro m hrun
    obtain ⟨n, hstep, hrest⟩ := Option.bind_eq_some_iff.1 hrun
    simp only [List.cons_append, callsOf, hstep, Option.map_some, Option.getD_some, ih hrest,
      List.append_assoc]

theorem callsOf_concat {m : Machine σ} (hrun : m.run b moves = some m') (move : Move) :
    m.callsOf b (moves ++ [move]) = m.callsOf b moves ++ (m'.call? move).toList := by
  have hone : m'.callsOf b [move] = (m'.call? move).toList := by
    cases hstep : m'.step b move <;> simp [callsOf, hstep]
  rw [callsOf_append [move] hrun, hone]

/-- No change leads back to waiting. -/
theorem Change.ne_waiting (h : Change b m i move t t' store) : t'.phase ≠ .waiting := by
  intro hwaiting
  have hlt := h.weight_lt
  have hle : t.phase.weight ≤ 8 := by cases t.phase <;> simp [Phase.weight]
  rw [hwaiting, Phase.weight] at hlt
  omega

/-- A move calls the source when it puts its task's item under way. -/
theorem Change.call?_eq (h : Change b m i move t t' store) (hplace : m.tasks[i]? = some t) :
    m.call? move = if t'.phase.isFetching then some (i, t'.item) else none := by
  cases h with
  | start item _ =>
    simp only [Machine.call?, hplace, Option.bind_some]
    cases hstart : item.start with
    | ok item' =>
      simp only [startedTask, hstart]
      rfl
    | error fault =>
      simp only [startedTask, hstart]
      rfl
  | drop | fail | stray =>
    rw [isFetching_eq_false (isOver_failedTask ..)]
    rfl
  | giveUp | crash | take | handle | lock | merge | unlock | release | finish => rfl

/-- Only a start leads to fetching, and a start is from waiting. -/
theorem Change.start_of_fetching (h : Change b m i move t t' store)
    (hfetching : t'.phase.isFetching = true) :
    t.phase = .waiting ∧ t.item.start = .ok t'.item := by
  cases h with
  | start item _ =>
    refine ⟨rfl, ?_⟩
    unfold startedTask at hfetching ⊢
    cases hitem : item.start with
    | ok item' => rfl
    | error fault =>
      rw [hitem] at hfetching
      cases hfetching
  | drop | fail | stray =>
    rw [isFetching_eq_false (isOver_failedTask ..)] at hfetching
    cases hfetching
  | giveUp | crash | take | handle | lock | merge | unlock | release | finish => cases hfetching

/-- A waiting task has its item as it was given. -/
theorem waiting_of_run
    (hrun : (Machine.initial store limit cancelled items).run b moves = some m) :
    Each (fun item t => t.phase = .waiting → t.item = item) items m.tasks :=
  each_of_run (P := fun item t => t.phase = .waiting → t.item = item) (fun _ _ _ => rfl)
    (fun hchange _ hwaiting => absurd hwaiting hchange.ne_waiting) hrun

/-- Calls are for different tasks, and each is for its task's item, put under way. -/
structure Called (items : List FetchItem) (calls : List (Nat × FetchItem)) (m : Machine σ) :
    Prop where
  nodup : (calls.map Prod.fst).Nodup
  started : ∀ c ∈ calls, ∃ item, items[c.1]? = some item ∧ item.start = .ok c.2
  left : ∀ c ∈ calls, ∀ t, m.tasks[c.1]? = some t → t.phase ≠ .waiting
  count : m.calls = calls.length

theorem Called.moved {calls : List (Nat × FetchItem)} (h : Called items calls m)
    (hwaiting : Each (fun item t => t.phase = .waiting → t.item = item) items m.tasks)
    (hmoved : Moved b m move i t t' m') : Called items (calls ++ (m.call? move).toList) m' := by
  -- Who has been called for does not wait again, so that no task is called for twice.
  have hleft : ∀ c ∈ calls, ∀ u, m'.tasks[c.1]? = some u → u.phase ≠ .waiting := by
    intro c hc u hu
    by_cases hci : c.1 = i
    · rw [hci, hmoved.place_self] at hu
      cases hu
      exact hmoved.change.ne_waiting
    · rw [hmoved.place_other hci] at hu
      exact h.left c hc u hu
  rw [hmoved.change.call?_eq hmoved.place]
  by_cases hfetching : t'.phase.isFetching = true
  · rw [if_pos hfetching]
    obtain ⟨hphase, hstart⟩ := hmoved.change.start_of_fetching hfetching
    obtain ⟨item, hitem, hsame⟩ := hwaiting.exists_item hmoved.place
    rw [hsame hphase] at hstart
    refine ⟨?_, ?_, ?_, ?_⟩
    · rw [List.map_append, List.nodup_append]
      refine ⟨h.nodup, List.nodup_singleton i, fun k hk j hj heq => ?_⟩
      obtain ⟨c, hc, rfl⟩ := List.mem_map.1 hk
      refine h.left c hc t ?_ hphase
      rw [heq, List.mem_singleton.1 hj]
      exact hmoved.place
    · intro c hc
      rcases List.mem_append.1 hc with hc | hc
      · exact h.started c hc
      · rw [List.mem_singleton.1 hc]
        exact ⟨item, hitem, hstart⟩
    · intro c hc u hu
      rcases List.mem_append.1 hc with hc | hc
      · exact hleft c hc u hu
      · rw [List.mem_singleton.1 hc, hmoved.place_self] at hu
        cases hu
        exact hmoved.change.ne_waiting
    · rw [hmoved.calls, if_pos hfetching, h.count, List.length_append]
      rfl
  · rw [if_neg hfetching, Option.toList_none, List.append_nil]
    refine ⟨h.nodup, h.started, hleft, ?_⟩
    rw [hmoved.calls, if_neg hfetching, h.count]
    rfl

/-- **In every interleaving, the source is called at most once for each task.** -/
theorem called_of_run
    (hrun : (Machine.initial store limit cancelled items).run b moves = some m) :
    Called items ((Machine.initial store limit cancelled items).callsOf b moves) m := by
  refine run_induction (P := fun moves m =>
    Called items ((Machine.initial store limit cancelled items).callsOf b moves) m) ?_
    (fun moves m move m' hrun h hstep => ?_) moves m hrun
  · exact ⟨List.nodup_nil, fun c hc => absurd hc List.not_mem_nil,
      fun c hc => absurd hc List.not_mem_nil, rfl⟩
  · rw [callsOf_concat hrun]
    rcases step_cases hstep with ⟨rfl, rfl⟩ | ⟨i, t, t', hmoved⟩
    · show Called items (_ ++ []) _
      rw [List.append_nil]
      exact ⟨h.nodup, h.started, h.left, h.count⟩
    · exact h.moved (waiting_of_run hrun) hmoved

end Fetch

end MetricCube
