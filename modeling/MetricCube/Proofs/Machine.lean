/-
  MetricCube.Proofs.Machine
  ─────────────────────────
  **One task from its start to its end.**  While no other task is under a lock, a
  task that has an answer goes through all its steps at once: it is merged, ended,
  and leaves no lock behind (`complete_fetched`).  What else the machine holds
  stays as it is.
-/
import Mathlib
import MetricCube.Fetch.Schedule

namespace MetricCube.Fetch

variable {σ τ : Type}

theorem Phase.held?_eq_none {phase : Phase} (h : phase.handle? = none) : phase.held? = none := by
  cases phase <;> first | rfl | cases h

namespace Machine

variable {b : Backend σ} {m : Machine σ} {i : Nat} {item : FetchItem} {s : Series}

/-! ## §1. Moves that are possible. -/

theorem attempt_advance {m' : Machine σ} {t : Task} (ht : m.tasks[i]? = some t)
    (h : advance? b m i t = some m') : m.attempt b (.advance i) = m' := by
  simp only [attempt, step, ht, Option.bind_some, h, Option.getD_some]

theorem attempt_answer (ht : m.tasks[i]? = some ⟨item, .fetching⟩)
    (hs : withinRange item s = .ok s) :
    m.attempt b (.answer i (.series s)) = m.put i ⟨item, .fetched s⟩ := by
  simp only [attempt, step, ht, Option.bind_some, answer?, hs, Option.getD_some]

/-- The machine after a waiting task has called the source. -/
def begun (m : Machine σ) (i : Nat) (item : FetchItem) : Machine σ :=
  let m := (m.put i ⟨item, .fetching⟩).report (.fetchStarted item.metric)
  { m with calls := m.calls + 1, peak := max m.peak m.inFlight }

theorem step_start {item' : FetchItem} (ht : m.tasks[i]? = some ⟨item, .waiting⟩)
    (h : item.start = .ok item') :
    m.step b (.start i) = if m.inFlight < m.limit then some (m.begun i item') else none := by
  simp only [step, ht, Option.bind_some, start?, h]
  rfl

/-- Without cancelling, nothing is abandoned. -/
theorem attempt_abandon (h : m.cancelled = false) : m.attempt b (.abandon i) = m := by
  have hnone : (m.tasks[i]?.bind fun t => m.abandon? i t) = none := by
    simp [abandon?, h]
  simp only [attempt, step, hnone, Option.getD_none]

/-! ## §2. Tasks and places. -/

@[simp] theorem tasks_put (m : Machine σ) (i : Nat) (t : Task) :
    (m.put i t).tasks = m.tasks.set i t := rfl

theorem getElem?_put_self {t t' : Task} (h : m.tasks[i]? = some t') :
    (m.put i t).tasks[i]? = some t := by
  rw [tasks_put, List.getElem?_set_self]
  exact (List.getElem?_eq_some_iff.1 h).1

theorem put_put (m : Machine σ) (i : Nat) (t t' : Task) : (m.put i t).put i t' = m.put i t' := by
  simp only [put, List.set_set]

/-- No task but `i` has a handle to a lock. -/
def Alone (m : Machine σ) (i : Nat) : Prop :=
  ∀ k t, k ≠ i → m.tasks[k]? = some t → t.phase.handle? = none

theorem Alone.of_set {m' : Machine σ} {t : Task} (h : m.Alone i)
    (ht : m'.tasks = m.tasks.set i t) : m'.Alone i := by
  intro k u hk hu
  rw [ht, List.getElem?_set_ne (Ne.symm hk)] at hu
  exact h k u hk hu

/-- A task of the list is `i` or has no handle. -/
theorem Alone.handle?_eq_none {t u : Task} (h : m.Alone i) (ht : m.tasks[i]? = some t)
    (hu : u ∈ m.tasks) (hne : u ≠ t) : u.phase.handle? = none := by
  obtain ⟨k, hk⟩ := List.mem_iff_getElem?.1 hu
  refine h k u ?_ hk
  rintro rfl
  rw [ht] at hk
  exact hne (Option.some.inj hk).symm

theorem isHeld_eq_false {t : Task} (h : m.Alone i) (ht : m.tasks[i]? = some t)
    (hfree : t.phase.held? = none) (l : Nat) : m.isHeld l = false := by
  rw [isHeld, List.any_eq_false]
  intro u hu
  by_cases hut : u = t
  · simp [hut, hfree]
  · simp [Phase.held?_eq_none (h.handle?_eq_none ht hu hut)]

theorem handles_eq_zero {t : Task} (h : m.Alone i) (ht : m.tasks[i]? = some t)
    (hfree : t.phase.handle? = none) (l : Nat) : m.handles l = 0 := by
  rw [handles, List.countP_eq_zero]
  intro u hu
  by_cases hut : u = t
  · simp [hut, hfree]
  · simp [h.handle?_eq_none ht hu hut]

/-! ## §3. From the answer to the end. -/

variable {l : Nat} {result : MergeResult}

/-- The machine with a new lock, for a key, and no other one. -/
def withLock (m : Machine σ) (key : MergeKey) : Machine σ :=
  { m with locks := [(key, m.nextLock)], nextLock := m.nextLock + 1 }

theorem advance_fetched (ht : m.tasks[i]? = some ⟨item, .fetched s⟩) (hlocks : m.locks = []) :
    m.attempt b (.advance i)
      = (m.withLock (mergeKey item)).put i ⟨item, .handled s m.nextLock⟩ := by
  have htake : m.takeHandle (mergeKey item) = (m.nextLock, m.withLock (mergeKey item)) := by
    simp only [takeHandle, lockOf?, hlocks, List.find?_nil, Option.map_none]
    rfl
  exact attempt_advance ht (by simp only [advance?, htake])

theorem advance_handled (ht : m.tasks[i]? = some ⟨item, .handled s l⟩) (halone : m.Alone i) :
    m.attempt b (.advance i) = m.put i ⟨item, .locked s l⟩ := by
  have hfree : m.isHeld l = false := isHeld_eq_false halone ht rfl l
  exact attempt_advance ht (by simp only [advance?, hfree, Bool.false_eq_true, if_false])

theorem advance_locked {r : Series.MergeReport} {store : σ}
    (ht : m.tasks[i]? = some ⟨item, .locked s l⟩) (hrun : m.cancelled = false)
    (hs : s.isEmpty = false)
    (hmerge : b.merge m.store item.metric ⟨item.assignment, .daily s, item.signature⟩
      = .ok (r, store)) :
    m.attempt b (.advance i)
      = { m.put i ⟨item, .merged (.ok (some r.added)) l⟩ with store := store } :=
  attempt_advance ht (by
    simp only [advance?, mergeSeries, hrun, hs, hmerge, Bool.false_eq_true, if_false])

theorem advance_merged (ht : m.tasks[i]? = some ⟨item, .merged result l⟩) :
    m.attempt b (.advance i) = m.put i ⟨item, .unlocked result l⟩ :=
  attempt_advance ht (by simp only [advance?])

theorem advance_unlocked (ht : m.tasks[i]? = some ⟨item, .unlocked result l⟩) :
    m.attempt b (.advance i) = m.put i ⟨item, .released result⟩ :=
  attempt_advance ht (by simp only [advance?])

/-- Nobody else has a handle, so the lock is removed with the task's end. -/
theorem advance_released (ht : m.tasks[i]? = some ⟨item, .released result⟩) (halone : m.Alone i)
    (hlocks : m.locks = [(mergeKey item, l)]) :
    m.attempt b (.advance i)
      = ({ m with locks := [] } : Machine σ).finish i item (endingOf result) := by
  have hrelease : m.releaseLock (mergeKey item) = { m with locks := [] } := by
    have hlock : m.lockOf? (mergeKey item) = some l := by simp [lockOf?, hlocks]
    have hnone : m.handles l = 0 := handles_eq_zero halone ht rfl l
    have hempty : (m.locks.filter fun e => e.1 ≠ mergeKey item) = [] := by simp [hlocks]
    simp only [releaseLock, hlock, hnone, if_true, hempty]
  exact attempt_advance ht (by simp only [advance?, hrelease])

/-- Nothing is cancelled and no lock is registered. -/
structure Calm (m : Machine σ) (limit count : Nat) : Prop where
  running : m.cancelled = false
  unlocked : m.locks = []
  limit_eq : m.limit = limit
  length_eq : m.tasks.length = count

/-- The machine after a task has been merged and ended. -/
def afterMerge (m : Machine σ) (i : Nat) (item : FetchItem) (days : Nat) (store : σ) : Machine σ :=
  { m with
    store := store
    tasks := m.tasks.set i ⟨item, .ended (.merged days)⟩
    nextLock := m.nextLock + 1
    events := m.events ++ [endEvent item.metric (.merged days)]
    ended := m.ended ++ [i] }

theorem afterMerge_put (m : Machine σ) (i : Nat) (t : Task) (item : FetchItem) (days : Nat)
    (store : σ) : (m.put i t).afterMerge i item days store = m.afterMerge i item days store := by
  simp only [afterMerge, put, List.set_set]

theorem Calm.put {limit count : Nat} (h : m.Calm limit count) (i : Nat) (t : Task) :
    (m.put i t).Calm limit count :=
  ⟨h.running, h.unlocked, h.limit_eq, (List.length_set ..).trans h.length_eq⟩

theorem Calm.begun {limit count : Nat} (h : m.Calm limit count) (i : Nat) (item : FetchItem) :
    (m.begun i item).Calm limit count :=
  ⟨h.running, h.unlocked, h.limit_eq, (List.length_set ..).trans h.length_eq⟩

theorem Calm.afterMerge {limit count : Nat} (h : m.Calm limit count) (i : Nat) (item : FetchItem)
    (days : Nat) (store : σ) : (m.afterMerge i item days store).Calm limit count :=
  ⟨h.running, h.unlocked, h.limit_eq, (List.length_set ..).trans h.length_eq⟩

end Machine

open Machine in
/-- **A task with an answer goes on to its end.** -/
theorem Dispatcher.complete_fetched {d : Dispatcher σ τ} {m : Machine σ} {i : Nat}
    {item : FetchItem} {s : Series} {r : Series.MergeReport} {store : σ}
    {limit count : Nat} (hcalm : m.Calm limit count) (ht : m.tasks[i]? = some ⟨item, .fetched s⟩)
    (halone : m.Alone i) (hs : s.isEmpty = false)
    (hmerge : d.backend.merge m.store item.metric ⟨item.assignment, .daily s, item.signature⟩
      = .ok (r, store)) :
    d.complete m i = m.afterMerge i item r.added store := by
  -- Before the merge the machine is `m₁` but for the task, and after it `m₂`.
  let m₁ : Machine σ := m.withLock (mergeKey item)
  let m₂ : Machine σ := { m₁ with store := store }
  have hat₁ : ∀ t : Task, (m₁.put i t).tasks[i]? = some t := fun t => getElem?_put_self ht
  have hat₂ : ∀ t : Task, (m₂.put i t).tasks[i]? = some t := hat₁
  have hne₁ : ∀ t : Task, (m₁.put i t).Alone i := fun t => halone.of_set rfl
  have hne₂ : ∀ t : Task, (m₂.put i t).Alone i := fun t => halone.of_set rfl
  have h₁ : m.attempt d.backend (.advance i) = m₁.put i ⟨item, .handled s m.nextLock⟩ :=
    advance_fetched ht hcalm.unlocked
  have h₂ : (m₁.put i ⟨item, .handled s m.nextLock⟩).attempt d.backend (.advance i)
      = m₁.put i ⟨item, .locked s m.nextLock⟩ :=
    (advance_handled (hat₁ _) (hne₁ _)).trans (put_put ..)
  have h₃ : (m₁.put i ⟨item, .locked s m.nextLock⟩).attempt d.backend (.advance i)
      = m₂.put i ⟨item, .merged (.ok (some r.added)) m.nextLock⟩ := by
    rw [advance_locked (hat₁ _) hcalm.running hs hmerge, put_put]
    rfl
  have h₄ : (m₂.put i ⟨item, .merged (.ok (some r.added)) m.nextLock⟩).attempt d.backend
      (.advance i) = m₂.put i ⟨item, .unlocked (.ok (some r.added)) m.nextLock⟩ :=
    (advance_merged (hat₂ _)).trans (put_put ..)
  have h₅ : (m₂.put i ⟨item, .unlocked (.ok (some r.added)) m.nextLock⟩).attempt d.backend
      (.advance i) = m₂.put i ⟨item, .released (.ok (some r.added))⟩ :=
    (advance_unlocked (hat₂ _)).trans (put_put ..)
  have h₆ : (m₂.put i ⟨item, .released (.ok (some r.added))⟩).attempt d.backend (.advance i)
      = m.afterMerge i item r.added store := by
    rw [advance_released (hat₂ _) (hne₂ _) rfl]
    simp only [finish, putLast, put, report, endingOf, List.set_set, afterMerge,
      ← hcalm.unlocked]
    rfl
  show ((((((m.attempt d.backend (.advance i)).attempt d.backend (.advance i)).attempt d.backend
    (.advance i)).attempt d.backend (.advance i)).attempt d.backend (.advance i)).attempt d.backend
    (.advance i)) = _
  rw [h₁, h₂, h₃, h₄, h₅, h₆]

end MetricCube.Fetch
