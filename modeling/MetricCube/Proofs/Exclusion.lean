/-
  MetricCube.Proofs.Exclusion
  ───────────────────────────
  **Merge locks exclude, and none is left.**  The tasks of all calls that a dispatcher has taken
  share its permits and its registry of locks.  `Shared` lists what can happen to them: new tasks
  come, the tasks of one call or another make their moves, under the cancellation of their call.

  Who holds a handle finds its lock in the registry, as an entry is only removed when no handle to
  its lock is left.  Two tasks with one merge key therefore never have different locks.  In turn
  every entry is watched (`Registered.watched`): by a task that holds a handle, or by one that has
  dropped its handle and still has to look after the entry.

      fetched → handled → locked → merged → unlocked → released → ended
              takes ↑                               drops ↑   looks ↑

  A task that looks after an entry and leaves it has seen the handle of another, which watches from
  then on.  When all tasks are over nobody watches, so that no entry is left.

  Main statement: `Dispatcher.merges_exclude`.
-/
import Mathlib
import MetricCube.Proofs.Accounting
import MetricCube.Proofs.Reporting

namespace MetricCube.Fetch

open Machine

variable {σ τ : Type}

/-! ## §1. What a move does to the registry. -/

/-- The task has taken a handle and has not yet looked after the entry of its lock. -/
def Phase.watches : Phase → Bool
  | .handled _ _ | .locked _ _ | .merged _ _ | .unlocked _ _ | .released _ => true
  | _ => false

theorem Phase.watches_of_handle? {phase : Phase} {l : Nat} (h : phase.handle? = some l) :
    phase.watches = true := by
  cases phase <;> first | rfl | cases h

theorem Phase.handle?_of_held? {phase : Phase} {l : Nat} (h : phase.held? = some l) :
    phase.handle? = some l := by
  cases phase <;> first | exact h | cases h

theorem Phase.not_watches_of_isOver {phase : Phase} (h : phase.isOver = true) :
    phase.watches = false := by
  cases phase <;> first | rfl | cases h

theorem Phase.handle?_of_not_watches {phase : Phase} (h : phase.watches = false) :
    phase.handle? = none := by
  cases phase <;> first | rfl | cases h

theorem mergeKey_of_unmarked {i j : FetchItem} (h : i.unmarked = j.unmarked) :
    mergeKey i = mergeKey j := by
  obtain ⟨hmetric, hassignment, _⟩ := FetchItem.fields_of_unmarked h
  rw [mergeKey, mergeKey, hmetric, hassignment]

namespace Machine

variable {b : Backend σ} {m m' : Machine σ} {move : Move} {i : Nat} {t t' : Task}

/-- **What a move that changes task `t` to `t'` does to the registry:** nothing, or the task takes
    its handle, or it looks after the entry of its lock. -/
inductive Registering (m : Machine σ) (t t' : Task) (m' : Machine σ) : Prop
  | same : m'.registry = m.registry → (t.phase.watches = true → t'.phase.watches = true) →
      (∀ l, t'.phase.handle? = some l → t.phase.handle? = some l) → Registering m t t' m'
  | take (s : Series) : t.phase = .fetched s →
      t'.phase = .handled s (m.takeHandle (mergeKey t.item)).1 →
      m'.registry = (m.takeHandle (mergeKey t.item)).2.registry → Registering m t t' m'
  | look (result : MergeResult) : t.phase = .released result → t'.phase.isOver = true →
      m'.registry = (m.releaseLock (mergeKey t.item)).registry → Registering m t t' m'

/-- Only a task on its way through the lock touches the registry, and only there it watches. -/
theorem registering_of_change {store : σ} (h : Change b m i move t t' store)
    (hregistry : m'.registry = m.registryAfter t)
    (hhandle : ∀ s l, t'.phase = .handled s l → l = (m.takeHandle (mergeKey t.item)).1) :
    Registering m t t' m' := by
  cases h with
  | handle item s l =>
    obtain rfl := hhandle s l rfl
    exact .take s rfl rfl hregistry
  | finish item result => exact .look result rfl rfl hregistry
  | lock | merge | unlock => exact .same hregistry (fun _ => rfl) fun _ => id
  | release => exact .same hregistry (fun _ => rfl) nofun
  | start item _ =>
    refine .same hregistry nofun fun l hl => ?_
    unfold startedTask at hl
    split at hl <;> cases hl
  | drop | fail | stray =>
    refine .same hregistry nofun fun l hl => ?_
    rw [Phase.handle?_of_not_watches (Phase.not_watches_of_isOver (isOver_failedTask ..))] at hl
    cases hl
  | giveUp | crash | take => exact .same hregistry nofun nofun

theorem registering (hstep : m.step b move = some m') (hmoved : Moved b m move i t t' m') :
    Registering m t t' m' :=
  registering_of_change hmoved.change (hmoved.effect hstep).registry (hmoved.effect hstep).handle

end Machine

variable {b : Backend σ} {m m' : Machine σ} {move : Move} {i : Nat} {t t' : Task} {key : MergeKey}
  {l : Nat}

/-! ## §2. The registry. -/

theorem mem_of_lockOf? (h : m.lockOf? key = some l) : (key, l) ∈ m.locks := by
  obtain ⟨e, he, rfl⟩ := Option.map_eq_some_iff.1 h
  have hkey : e.1 = key := by simpa using List.find?_some he
  rw [← hkey]
  exact List.mem_of_find?_eq_some he

theorem notMem_of_lockOf? (h : m.lockOf? key = none) (l : Nat) : (key, l) ∉ m.locks := by
  intro hmem
  have hnone := List.find?_eq_none.1 (Option.map_eq_none_iff.1 h) (key, l) hmem
  simp at hnone

theorem takeHandle_some (h : m.lockOf? key = some l) : m.takeHandle key = (l, m) := by
  simp only [takeHandle, h]

theorem takeHandle_none (h : m.lockOf? key = none) : m.takeHandle key
    = (m.nextLock, { m with locks := (key, m.nextLock) :: m.locks, nextLock := m.nextLock + 1 }) := by
  simp only [takeHandle, h]

theorem registry_releaseLock_of_handles (hlock : m.lockOf? key = some l) (hhandles : m.handles l = 0) :
    (m.releaseLock key).registry = (m.locks.filter fun e => e.1 ≠ key, m.nextLock) := by
  simp only [releaseLock, hlock, hhandles, if_true]
  rfl

theorem registry_releaseLock_of_ne (h : ∀ l, m.lockOf? key = some l → m.handles l ≠ 0) :
    (m.releaseLock key).registry = m.registry := by
  unfold releaseLock
  cases hlock : m.lockOf? key with
  | none => rfl
  | some l => simp only [h l hlock, if_false]

/-- Some task with the merge key watches. -/
def Machine.Watched (m : Machine σ) (key : MergeKey) : Prop :=
  ∃ (k : Nat) (t : Task), m.tasks[k]? = some t ∧ mergeKey t.item = key ∧ t.phase.watches = true

theorem Moved.key_eq (h : Moved b m move i t t' m') : mergeKey t'.item = mergeKey t.item :=
  mergeKey_of_unmarked h.change.unmarked

theorem Moved.watched (h : Moved b m move i t t' m') (hwatched : m.Watched key)
    (hstays : mergeKey t.item = key → t.phase.watches = true → t'.phase.watches = true) :
    m'.Watched key := by
  obtain ⟨k, u, hu, hkey, hwatches⟩ := hwatched
  by_cases hk : k = i
  · subst hk
    obtain rfl := Option.some.inj (hu.symm.trans h.place)
    exact ⟨k, t', h.place_self, h.key_eq.trans hkey, hstays hkey hwatches⟩
  · exact ⟨k, u, (h.place_other hk).trans hu, hkey, hwatches⟩

/-- **The entries of the registry and the tasks.**  Entries differ by key and by lock.  The lock of a
    handle is registered for the merge key of its task, and every entry is watched. -/
structure Registered (m : Machine σ) : Prop where
  keys : (m.locks.map Prod.fst).Nodup
  numbers : (m.locks.map Prod.snd).Nodup
  fresh : ∀ e ∈ m.locks, e.2 < m.nextLock
  handled : ∀ t ∈ m.tasks, ∀ l, t.phase.handle? = some l → (mergeKey t.item, l) ∈ m.locks
  watched : ∀ e ∈ m.locks, m.Watched e.1

namespace Registered

theorem lock_eq (h : Registered m) {l' : Nat} (hl : (key, l) ∈ m.locks) (hl' : (key, l') ∈ m.locks) :
    l = l' :=
  congrArg Prod.snd (List.inj_on_of_nodup_map h.keys hl hl' rfl)

theorem key_eq (h : Registered m) {key' : MergeKey} (hl : (key, l) ∈ m.locks)
    (hl' : (key', l) ∈ m.locks) : key = key' :=
  congrArg Prod.fst (List.inj_on_of_nodup_map h.numbers hl hl' rfl)

/-- The registry stays as it is. -/
theorem same (h : Registered m) (hmoved : Moved b m move i t t' m')
    (hregistry : m'.registry = m.registry)
    (hhandled : ∀ l, t'.phase.handle? = some l → (mergeKey t'.item, l) ∈ m.locks)
    (hwatched : ∀ e ∈ m.locks, m'.Watched e.1) : Registered m' := by
  have hlocks : m'.locks = m.locks := congrArg Prod.fst hregistry
  have hnext : m'.nextLock = m.nextLock := congrArg Prod.snd hregistry
  refine ⟨hlocks ▸ h.keys, hlocks ▸ h.numbers, ?_, fun u hu l hl => ?_, hlocks ▸ hwatched⟩
  · rw [hlocks, hnext]
    exact h.fresh
  · rw [hlocks]
    rw [hmoved.tasks] at hu
    rcases List.mem_or_eq_of_mem_set hu with hu | rfl
    · exact h.handled u hu l hl
    · exact hhandled l hl

/-- A task registers a lock for its key and takes the first handle to it. -/
theorem register (h : Registered m) (hmoved : Moved b m move i t t' m') {s : Series}
    (hlock : m.lockOf? (mergeKey t.item) = none) (hphase' : t'.phase = .handled s m.nextLock)
    (hregistry : m'.registry = ((mergeKey t.item, m.nextLock) :: m.locks, m.nextLock + 1))
    (hwatched : ∀ e ∈ m.locks, m'.Watched e.1) : Registered m' := by
  have hlocks : m'.locks = (mergeKey t.item, m.nextLock) :: m.locks := congrArg Prod.fst hregistry
  have hnext : m'.nextLock = m.nextLock + 1 := congrArg Prod.snd hregistry
  have hnewKey : mergeKey t.item ∉ m.locks.map Prod.fst := by
    intro hmem
    obtain ⟨⟨key, l⟩, he, rfl⟩ := List.mem_map.1 hmem
    exact notMem_of_lockOf? hlock l he
  have hnewNumber : m.nextLock ∉ m.locks.map Prod.snd := by
    intro hmem
    obtain ⟨e, he, heq⟩ := List.mem_map.1 hmem
    have hlt := h.fresh e he
    omega
  have hself : m'.Watched (mergeKey t.item) :=
    ⟨i, t', hmoved.place_self, hmoved.key_eq, by rw [hphase']; rfl⟩
  refine ⟨?keys, ?numbers, ?fresh, fun u hu l hl => ?handled, ?watched⟩
  case keys =>
    rw [hlocks, List.map_cons]
    exact List.nodup_cons.2 ⟨hnewKey, h.keys⟩
  case numbers =>
    rw [hlocks, List.map_cons]
    exact List.nodup_cons.2 ⟨hnewNumber, h.numbers⟩
  case fresh =>
    rw [hlocks, hnext, List.forall_mem_cons]
    exact ⟨Nat.lt_succ_self _, fun e he => (h.fresh e he).trans (Nat.lt_succ_self _)⟩
  case handled =>
    rw [hlocks]
    rw [hmoved.tasks] at hu
    rcases List.mem_or_eq_of_mem_set hu with hu | rfl
    · exact List.mem_cons_of_mem _ (h.handled u hu l hl)
    · rw [hphase'] at hl
      cases hl
      rw [hmoved.key_eq]
      exact List.mem_cons_self
  case watched =>
    rw [hlocks, List.forall_mem_cons]
    exact ⟨hself, hwatched⟩

/-- A task takes its handle, and registers a lock if there is none for its key. -/
theorem take (h : Registered m) (hmoved : Moved b m move i t t' m') {s : Series}
    (hphase' : t'.phase = .handled s (m.takeHandle (mergeKey t.item)).1)
    (hregistry : m'.registry = (m.takeHandle (mergeKey t.item)).2.registry) : Registered m' := by
  have hwatched : ∀ e ∈ m.locks, m'.Watched e.1 := fun e he =>
    hmoved.watched (h.watched e he) fun _ _ => by rw [hphase']; rfl
  cases hlock : m.lockOf? (mergeKey t.item) with
  | some l =>
    rw [takeHandle_some hlock] at hphase' hregistry
    refine h.same hmoved hregistry (fun l' hl' => ?_) hwatched
    rw [hphase'] at hl'
    cases hl'
    rw [hmoved.key_eq]
    exact mem_of_lockOf? hlock
  | none =>
    rw [takeHandle_none hlock] at hphase' hregistry
    exact h.register hmoved hlock hphase' hregistry hwatched

/-- Who has a handle to the lock of a task that has dropped its own watches the entry from now
    on. -/
theorem watched_of_handles (h : Registered m) (hmoved : Moved b m move i t t' m')
    (hdropped : t.phase.handle? = none) (hlock : m.lockOf? (mergeKey t.item) = some l)
    (hhandles : m.handles l ≠ 0) : m'.Watched (mergeKey t.item) := by
  obtain ⟨u, hu, hhandle⟩ := List.countP_pos_iff.1 (Nat.pos_of_ne_zero hhandles)
  have hhandle : u.phase.handle? = some l := eq_of_beq hhandle
  obtain ⟨k, hk⟩ := List.mem_iff_getElem?.1 hu
  have hki : k ≠ i := by
    rintro rfl
    obtain rfl := Option.some.inj (hk.symm.trans hmoved.place)
    rw [hdropped] at hhandle
    cases hhandle
  have hkey : mergeKey u.item = mergeKey t.item :=
    h.key_eq (h.handled u hu l hhandle) (mem_of_lockOf? hlock)
  exact ⟨k, u, (hmoved.place_other hki).trans hk, hkey, Phase.watches_of_handle? hhandle⟩

/-- A task that looks after the entry of a lock without handles takes it off. -/
theorem unregister (h : Registered m) (hmoved : Moved b m move i t t' m')
    (hdropped : t'.phase.handle? = none) (hlock : m.lockOf? (mergeKey t.item) = some l)
    (hhandles : m.handles l = 0)
    (hregistry : m'.registry = (m.locks.filter (fun e => e.1 ≠ mergeKey t.item), m.nextLock))
    (hothers : ∀ e ∈ m.locks, mergeKey t.item ≠ e.1 → m'.Watched e.1) : Registered m' := by
  have hlocks : m'.locks = m.locks.filter fun e => e.1 ≠ mergeKey t.item :=
    congrArg Prod.fst hregistry
  have hnext : m'.nextLock = m.nextLock := congrArg Prod.snd hregistry
  have hsub : m'.locks.Sublist m.locks := hlocks ▸ List.filter_sublist
  refine ⟨(hsub.map _).nodup h.keys, (hsub.map _).nodup h.numbers, fun e he => ?fresh,
    fun u hu l' hl' => ?handled, fun e he => ?watched⟩
  case fresh =>
    rw [hnext]
    exact h.fresh e (hsub.subset he)
  case handled =>
    rw [hmoved.tasks] at hu
    rcases List.mem_or_eq_of_mem_set hu with hu | rfl
    · have hmem := h.handled u hu l' hl'
      rw [hlocks, List.mem_filter, decide_eq_true_eq]
      refine ⟨hmem, fun hkey => ?_⟩
      -- A handle for this key would be one to the lock that has none.
      have hkey : mergeKey u.item = mergeKey t.item := hkey
      rw [hkey] at hmem
      obtain rfl : l' = l := h.lock_eq hmem (mem_of_lockOf? hlock)
      exact List.countP_eq_zero.1 hhandles u hu (beq_iff_eq.2 hl')
    · rw [hdropped] at hl'
      cases hl'
  case watched =>
    rw [hlocks, List.mem_filter, decide_eq_true_eq] at he
    exact hothers e he.1 (Ne.symm he.2)

/-- A task that has dropped its handle looks after the entry of its lock. -/
theorem look (h : Registered m) (hmoved : Moved b m move i t t' m') {result : MergeResult}
    (hphase : t.phase = .released result) (hover : t'.phase.isOver = true)
    (hregistry : m'.registry = (m.releaseLock (mergeKey t.item)).registry) : Registered m' := by
  have hdropped : t'.phase.handle? = none :=
    Phase.handle?_of_not_watches (Phase.not_watches_of_isOver hover)
  have hothers : ∀ e ∈ m.locks, mergeKey t.item ≠ e.1 → m'.Watched e.1 := fun e he hne =>
    hmoved.watched (h.watched e he) fun heq => absurd heq hne
  by_cases hleft : ∀ l, m.lockOf? (mergeKey t.item) = some l → m.handles l ≠ 0
  · -- The entry stays, if there is one: somebody has a handle to its lock.
    rw [registry_releaseLock_of_ne hleft] at hregistry
    refine h.same hmoved hregistry (fun l hl => ?_) fun e he => ?_
    · rw [hdropped] at hl
      cases hl
    · by_cases hkey : mergeKey t.item = e.1
      · obtain ⟨l, hlock⟩ : ∃ l, m.lockOf? (mergeKey t.item) = some l := by
          rw [← Option.isSome_iff_exists, Option.isSome_iff_ne_none]
          intro hnone
          exact notMem_of_lockOf? hnone e.2 (hkey ▸ he)
        rw [← hkey]
        exact h.watched_of_handles hmoved (by rw [hphase]; rfl) hlock (hleft l hlock)
      · exact hothers e he hkey
  · simp only [not_forall, not_not] at hleft
    obtain ⟨l, hlock, hhandles⟩ := hleft
    rw [registry_releaseLock_of_handles hlock hhandles] at hregistry
    exact h.unregister hmoved hdropped hlock hhandles hregistry hothers

/-- **Every move keeps the registry and the tasks together.** -/
theorem moved (h : Registered m) (hstep : m.step b move = some m')
    (hmoved : Moved b m move i t t' m') : Registered m' := by
  cases registering hstep hmoved with
  | same hregistry hwatches hhandle =>
    refine h.same hmoved hregistry (fun l hl => ?_) fun e he =>
      hmoved.watched (h.watched e he) fun _ => hwatches
    rw [hmoved.key_eq]
    exact h.handled t (List.mem_of_getElem? hmoved.place) l (hhandle l hl)
  | take s _ hphase' hregistry => exact h.take hmoved hphase' hregistry
  | look result hphase hover hregistry => exact h.look hmoved hphase hover hregistry

theorem locks_eq_nil (h : Registered m) (hover : m.isOver = true) : m.locks = [] := by
  rw [List.eq_nil_iff_forall_not_mem]
  intro e he
  obtain ⟨k, u, hu, _, hwatches⟩ := h.watched e he
  have huover : u.phase.isOver = true := List.all_eq_true.1 hover u (List.mem_of_getElem? hu)
  rw [Phase.not_watches_of_isOver huover] at hwatches
  cases hwatches

end Registered

/-! ## §3. Holders and permits. -/

/-- No two tasks hold one lock. -/
def Exclusive (m : Machine σ) : Prop :=
  ∀ (i j : Nat) (t u : Task) (l : Nat), m.tasks[i]? = some t → m.tasks[j]? = some u →
    t.phase.held? = some l → u.phase.held? = some l → i = j

theorem held?_of_isOver {phase : Phase} (h : phase.isOver = true) : phase.held? = none := by
  cases phase <;> first | rfl | cases h

/-- Who holds a lock has held it before, or nobody did. -/
theorem Change.held? {store : σ} (h : Change b m i move t t' store) (hl : t'.phase.held? = some l) :
    t.phase.held? = some l ∨ m.isHeld l = false := by
  cases h with
  | lock item s l' hfree =>
    cases hl
    exact .inr hfree
  | merge =>
    cases hl
    exact .inl rfl
  | start item _ =>
    unfold startedTask at hl
    split at hl <;> cases hl
  | drop | fail | stray =>
    rw [held?_of_isOver (isOver_failedTask ..)] at hl
    cases hl
  | giveUp | crash | take | handle | unlock | release | finish => cases hl

theorem Exclusive.moved (h : Exclusive m) (hmoved : Moved b m move i t t' m') : Exclusive m' := by
  -- The task that moves, and another one.
  have hpair : ∀ (k : Nat) (u : Task) (l : Nat), k ≠ i → m'.tasks[k]? = some u →
      t'.phase.held? = some l → u.phase.held? = some l → False := by
    intro k u l hk hu hl hul
    rw [hmoved.place_other hk] at hu
    rcases hmoved.change.held? hl with hbefore | hfree
    · exact hk (h k i u t l hu hmoved.place hul hbefore)
    · exact List.any_eq_false.1 hfree u (List.mem_of_getElem? hu) (beq_iff_eq.2 hul)
  intro j k u v l hu hv hul hvl
  by_cases hj : j = i
  · by_cases hk : k = i
    · rw [hj, hk]
    · rw [hj, hmoved.place_self] at hu
      cases hu
      exact (hpair k v l hk hv hul hvl).elim
  · by_cases hk : k = i
    · rw [hk, hmoved.place_self] at hv
      cases hv
      exact (hpair j u l hj hu hvl hul).elim
    · rw [hmoved.place_other hj] at hu
      rw [hmoved.place_other hk] at hv
      exact h j k u v l hu hv hul hvl

/-- The number of permits that nobody holds. -/
def Machine.permitsLeft (m : Machine σ) : Nat :=
  m.limit - m.inFlight

theorem Change.free_of_fetching {store : σ} (h : Change b m i move t t' store)
    (hfetching : t'.phase.isFetching = true) : m.inFlight < m.limit := by
  cases h with
  | start item hfree => exact hfree
  | drop | fail | stray =>
    rw [isFetching_eq_false (isOver_failedTask ..)] at hfetching
    cases hfetching
  | giveUp | crash | take | handle | lock | merge | unlock | release | finish => cases hfetching

/-- A permit is only taken when one is free. -/
theorem inFlight_le_moved (h : m.inFlight ≤ m.limit) (hmoved : Moved b m move i t t' m') :
    m'.inFlight ≤ m'.limit := by
  have hi : i < m.tasks.length := (List.getElem?_eq_some_iff.1 hmoved.place).1
  rw [hmoved.limit, inFlight, hmoved.tasks, List.countP_set hi]
  by_cases hfetching : t'.phase.isFetching = true
  · have hfree := hmoved.change.free_of_fetching hfetching
    rw [inFlight] at hfree
    rw [if_pos hfetching]
    omega
  · rw [inFlight] at h
    rw [if_neg hfetching]
    omega

theorem inFlight_eq_zero (hover : m.isOver = true) : m.inFlight = 0 := by
  rw [inFlight, List.countP_eq_zero]
  intro t ht hfetching
  rw [isFetching_eq_false (List.all_eq_true.1 hover t ht)] at hfetching
  cases hfetching

/-! ## §4. Calls of one dispatcher. -/

/-- **What can become of the tasks of a dispatcher.**  Its calls share the permits and the registry.
    A call adds its tasks, and its tasks make their moves, in any order with those of others.  Each
    call has its own cancellation, and others use the store as well: before a move the store and
    the cancellation may be any. -/
inductive Shared (b : Backend σ) (limit : Nat) : Machine σ → Prop
  | idle (store : σ) (cancelled : Bool) : Shared b limit (Machine.initial store limit cancelled [])
  | arrive {m : Machine σ} (items : List FetchItem) : Shared b limit m →
      Shared b limit { m with tasks := m.tasks ++ items.map fun i => ⟨i, .waiting⟩ }
  | turn {m : Machine σ} (store : σ) (cancelled : Bool) : Shared b limit m →
      Shared b limit { m with store := store, cancelled := cancelled }
  | move {m m' : Machine σ} (move : Move) : Shared b limit m → m.step b move = some m' →
      Shared b limit m'

/-- The tasks of a call that has just come have done nothing yet. -/
theorem place_arrive {items : List FetchItem} {k : Nat}
    (h : (m.tasks ++ items.map fun i => (⟨i, .waiting⟩ : Task))[k]? = some t) :
    m.tasks[k]? = some t ∨ t.phase = .waiting := by
  rw [List.getElem?_append] at h
  split at h
  · exact .inl h
  · obtain ⟨item, _, rfl⟩ := List.mem_map.1 (List.mem_of_getElem? h)
    exact .inr rfl

namespace Shared

variable {limit : Nat}

theorem of_run {store : σ} {cancelled : Bool} {items : List FetchItem} {moves : List Move}
    (hrun : (Machine.initial store limit cancelled items).run b moves = some m) :
    Shared b limit m :=
  run_induction (P := fun _ m => Shared b limit m) ((Shared.idle store cancelled).arrive items)
    (fun _ _ move _ _ h hstep => h.move move hstep) moves m hrun

theorem registered (h : Shared b limit m) : Registered m := by
  induction h with
  | idle store cancelled =>
    exact ⟨List.nodup_nil, List.nodup_nil, by simp [Machine.initial], by simp [Machine.initial],
      by simp [Machine.initial]⟩
  | @arrive m items _ ih =>
    refine ⟨ih.keys, ih.numbers, ih.fresh, fun t ht l hl => ?_, fun e he => ?_⟩
    · obtain ⟨k, hk⟩ := List.mem_iff_getElem?.1 ht
      rcases place_arrive hk with hold | hwaiting
      · exact ih.handled t (List.mem_of_getElem? hold) l hl
      · rw [hwaiting] at hl
        cases hl
    · obtain ⟨k, t, ht, hwatches⟩ := ih.watched e he
      exact ⟨k, t, List.getElem?_append_left (List.getElem?_eq_some_iff.1 ht).1 ▸ ht, hwatches⟩
  | turn store cancelled _ ih => exact ⟨ih.keys, ih.numbers, ih.fresh, ih.handled, ih.watched⟩
  | move move _ hstep ih =>
    rcases step_cases hstep with ⟨_, rfl⟩ | ⟨i, t, t', hmoved⟩
    · exact ⟨ih.keys, ih.numbers, ih.fresh, ih.handled, ih.watched⟩
    · exact ih.moved hstep hmoved

theorem exclusive (h : Shared b limit m) : Exclusive m := by
  induction h with
  | idle store cancelled =>
    intro i j t u l ht
    cases ht
  | arrive items _ ih =>
    intro i j t u l ht hu htl hul
    rcases place_arrive ht with ht | hwaiting
    · rcases place_arrive hu with hu | hwaiting
      · exact ih i j t u l ht hu htl hul
      · rw [hwaiting] at hul
        cases hul
    · rw [hwaiting] at htl
      cases htl
  | turn store cancelled _ ih => exact ih
  | move move _ hstep ih =>
    rcases step_cases hstep with ⟨_, rfl⟩ | ⟨i, t, t', hmoved⟩
    · exact ih
    · exact ih.moved hmoved

theorem permits (h : Shared b limit m) : m.limit = limit ∧ m.inFlight ≤ m.limit := by
  induction h with
  | idle store cancelled => exact ⟨rfl, Nat.zero_le _⟩
  | arrive items _ ih =>
    refine ⟨ih.1, ?_⟩
    have hnone : (items.map fun i => (⟨i, .waiting⟩ : Task)).countP (fun t => t.phase.isFetching) = 0 := by
      simp [List.countP_map, Phase.isFetching]
    rw [inFlight, List.countP_append, hnone]
    exact ih.2
  | turn store cancelled _ ih => exact ih
  | move move _ hstep ih =>
    rcases step_cases hstep with ⟨_, rfl⟩ | ⟨i, t, t', hmoved⟩
    · exact ih
    · exact ⟨hmoved.limit.trans ih.1, inFlight_le_moved ih.2 hmoved⟩

end Shared

/-- **Merges exclude each other, and leave nothing behind.**  Whatever the calls of a dispatcher do,
    in whatever order:

      • two handles are handles to one lock exactly if they are for one merge key;
      • of the tasks with one merge key, one at most holds its lock;
      • the source answers no more calls at a time than there are permits;
      • when all tasks are over, no lock is registered and all permits are free. -/
theorem Dispatcher.merges_exclude (d : Dispatcher σ τ) {m : Machine σ}
    (h : Shared d.backend d.limit m) :
    (∀ (i j : Nat) (t u : Task) (l l' : Nat), m.tasks[i]? = some t → m.tasks[j]? = some u →
        t.phase.handle? = some l → u.phase.handle? = some l' →
        (l = l' ↔ mergeKey t.item = mergeKey u.item))
      ∧ (∀ (i j : Nat) (t u : Task), m.tasks[i]? = some t → m.tasks[j]? = some u →
          mergeKey t.item = mergeKey u.item → t.phase.held?.isSome = true →
          u.phase.held?.isSome = true → i = j)
      ∧ m.inFlight ≤ max 1 d.settings.maxConcurrentFetches
      ∧ (m.isOver = true →
          m.locks = [] ∧ m.permitsLeft = max 1 d.settings.maxConcurrentFetches) := by
  have hregistered := h.registered
  have hlimit : m.limit = max 1 d.settings.maxConcurrentFetches :=
    h.permits.1.trans (Nat.max_comm _ _)
  have hlock : ∀ (i j : Nat) (t u : Task) (l l' : Nat), m.tasks[i]? = some t → m.tasks[j]? = some u →
      t.phase.handle? = some l → u.phase.handle? = some l' →
      (l = l' ↔ mergeKey t.item = mergeKey u.item) := by
    intro i j t u l l' ht hu hl hl'
    have hmem := hregistered.handled t (List.mem_of_getElem? ht) l hl
    have hmem' := hregistered.handled u (List.mem_of_getElem? hu) l' hl'
    constructor
    · rintro rfl
      exact hregistered.key_eq hmem hmem'
    · intro hkey
      rw [hkey] at hmem
      exact hregistered.lock_eq hmem hmem'
  refine ⟨hlock, fun i j t u ht hu hkey hheld hheld' => ?_, hlimit ▸ h.permits.2, fun hover => ?_⟩
  · obtain ⟨l, hl⟩ := Option.isSome_iff_exists.1 hheld
    obtain ⟨l', hl'⟩ := Option.isSome_iff_exists.1 hheld'
    obtain rfl := (hlock i j t u l l' ht hu (Phase.handle?_of_held? hl)
      (Phase.handle?_of_held? hl')).2 hkey
    exact h.exclusive i j t u l ht hu hl hl'
  · refine ⟨hregistered.locks_eq_nil hover, ?_⟩
    rw [permitsLeft, inFlight_eq_zero hover, Nat.sub_zero, hlimit]

namespace Sample

/-- Two tasks for one merge key, and a third one that a call adds later. -/
def crowd : List FetchItem :=
  [channelItem "mail", channelItem "ads", channelItem "mail"]

/-- The first task holds the lock, and the third one waits for it. -/
def meeting : List Move :=
  [.start 0, .start 1, .answer 0 (.series .empty), .start 2, .advance 0, .answer 2 (.series .empty),
    .advance 2, .advance 0]

/-- The first task finds a handle to its lock and leaves the entry; the third one removes it. -/
def parting : List Move :=
  [.advance 0, .advance 0, .advance 2, .advance 0, .advance 0, .advance 2, .advance 2, .advance 2,
    .answer 1 (.crash "no connection"), .advance 2]

/-- What is seen of the locks: for each task its merge key, and the locks that it has a handle to and
    that it holds. -/
def locking (m : Machine Store) : List (MergeKey × Option Nat × Option Nat) :=
  m.tasks.map fun t => (mergeKey t.item, t.phase.handle?, t.phase.held?)

end Sample

/-- Two tasks meet at one lock and take it one after the other. -/
theorem Dispatcher.merges_exclude_meeting : ∃ m m' t u l l',
    (Machine.initial Store.empty Sample.troubled.limit false Sample.crowd).run Store.backend
        Sample.meeting = some m
      ∧ m.run Store.backend Sample.parting = some m'
      ∧ m.tasks[0]? = some t ∧ m.tasks[2]? = some u
      ∧ t.phase.held? = some l ∧ u.phase.handle? = some l' ∧ l = l'
      ∧ u.phase.held?.isSome = false
      ∧ m.inFlight ≤ 2 ∧ m'.locks = [] ∧ m'.permitsLeft = 2 := by
  have hruns : ((Machine.initial Store.empty Sample.troubled.limit false Sample.crowd).run
      Store.backend Sample.meeting).bind (fun m => (m.run Store.backend Sample.parting).map fun m' =>
        (Sample.locking m, m'.isOver))
      = some ([(mergeKey (Sample.channelItem "mail"), some 0, some 0),
          (mergeKey (Sample.channelItem "ads"), none, none),
          (mergeKey (Sample.channelItem "mail"), some 0, none)], true) := rfl
  obtain ⟨m, hmeeting, hrest⟩ := Option.bind_eq_some_iff.1 hruns
  obtain ⟨m', hparting, hseen⟩ := Option.map_eq_some_iff.1 hrest
  obtain ⟨hlocking, hover⟩ := Prod.mk.inj hseen
  have hplace : ∀ k, (Sample.locking m)[k]?
      = m.tasks[k]?.map fun t : Task => (mergeKey t.item, t.phase.handle?, t.phase.held?) :=
    fun k => List.getElem?_map ..
  obtain ⟨t, ht, hfirst⟩ := Option.map_eq_some_iff.1 ((hplace 0).symm.trans (by rw [hlocking]; rfl))
  obtain ⟨u, hu, hthird⟩ := Option.map_eq_some_iff.1 ((hplace 2).symm.trans (by rw [hlocking]; rfl))
  obtain ⟨htkey, hthandle, htheld⟩ := And.imp_right Prod.mk.inj (Prod.mk.inj hfirst)
  obtain ⟨hukey, huhandle, huheld⟩ := And.imp_right Prod.mk.inj (Prod.mk.inj hthird)
  have hshared : Shared Store.backend Sample.troubled.limit m := .of_run hmeeting
  have hwhole : (Machine.initial Store.empty Sample.troubled.limit false Sample.crowd).run
      Store.backend (Sample.meeting ++ Sample.parting) = some m' := by
    rw [run_append, hmeeting]
    exact hparting
  have hshared' : Shared Store.backend Sample.troubled.limit m' := .of_run hwhole
  obtain ⟨hlock, _, hpermits, _⟩ := Sample.troubled.merges_exclude hshared
  obtain ⟨_, _, _, hdone⟩ := Sample.troubled.merges_exclude hshared'
  refine ⟨m, m', t, u, 0, 0, hmeeting, hparting, ht, hu, htheld, huhandle, ?_, ?_, hpermits,
    hdone hover⟩
  · exact (hlock 0 2 t u 0 0 ht hu hthandle huhandle).2 (htkey.trans hukey.symm)
  · rw [huheld]
    rfl

end MetricCube.Fetch
