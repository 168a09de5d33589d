/-
  MetricCube.Proofs.Schedule
  ──────────────────────────
  **Rounds that are answered in full.**  A `Round` is a list of new items for one
  metric, a store, and a source that answers each item with the true series of all
  its days.  Such a round ends with every item delivered (`Round.runTasks_serves`).

  `Round.Progress` says where each task of a run stands.  It is kept by turns
  (`Progress.turn`) and by breaks (`Progress.rest`), and either one uses up some of
  `Round.potential`, which is no more than the fuel at the start.  When the turns are
  over nobody is queued or rests, so nobody is in line and all tasks are over.
-/
import Mathlib
import MetricCube.Proofs.Delivery
import MetricCube.Proofs.Machine

namespace MetricCube.Fetch

/-- The item while its call is under way. -/
def underWay (i : FetchItem) : FetchItem :=
  { i with status := .inFlight }

/-- The source answers each call for one of the items with the true series of all its days. -/
def AnswersInFull {τ : Type} (source : Source τ) (T : Truth) (items : List FetchItem) : Prop :=
  ∀ i ∈ items, ∀ memory, ∃ s, (source memory (underWay i)).1 = ⟨false, some (.series s)⟩
    ∧ s.Holds i.range.days (T i.assignment)

/-- New items of a metric, and a source that answers each of them in full. -/
structure Round (τ : Type) where
  dispatcher : Dispatcher Store τ
  truth : Truth
  /-- The store at the start. -/
  store : Store
  metric : String
  items : List FetchItem
  backend_eq : dispatcher.backend = Store.backend
  fresh : ∀ i ∈ items, i.metric = metric ∧ i.status = .needed
  answered : AnswersInFull dispatcher.source truth items

/-- Where a task of a round stands. -/
inductive Stand where
  | waiting
  | calling (pauses : Nat) (series : Series)
  | served

/-- What is still to be done for a task. -/
def Stand.weight (pauses : Nat) : Stand → Nat
  | .waiting => 3 * pauses + 2
  | .calling left _ => 3 * left + 2
  | .served => 0

variable {τ : Type}

/-! ## §1. True answers. -/

/-- A series of the days that were asked for is accepted. -/
theorem withinRange_of_holds {i : FetchItem} {s : Series} {f : Date → Amount}
    (h : s.Holds i.range.days f) : withinRange (underWay i) s = .ok s := by
  have hnone : (s.dates.find? fun d => !(underWay i).range.contains d) = none := by
    rw [List.find?_eq_none]
    intro d hd
    rw [h.dates_eq, DateRange.mem_days] at hd
    simpa [underWay] using hd
  simp only [withinRange, hnone]

theorem isEmpty_of_holds {r : DateRange} {s : Series} {f : Date → Amount}
    (h : s.Holds r.days f) : s.isEmpty = false := by
  have hmem : r.start ∈ s.dates := h.dates_eq ▸ r.start_mem_days
  rw [Series.isEmpty, List.isEmpty_eq_false_iff]
  intro hnil
  rw [Series.dates, hnil] at hmem
  cases hmem

/-! ## §2. Where tasks stand. -/

/-- Task `k`, which is for `item`, stands as given. -/
def Run.Stands (r : Run Store τ) (k : Nat) (item : FetchItem) : Stand → Prop
  | .waiting => r.machine.tasks[k]? = some ⟨item, .waiting⟩
  | .calling pauses s => r.machine.tasks[k]? = some ⟨underWay item, .fetching⟩
      ∧ (r.calls.find? fun c => c.task = k) = some ⟨k, pauses, ⟨false, some (.series s)⟩⟩
  | .served => ∃ days, r.machine.tasks[k]? = some ⟨underWay item, .ended (.merged days)⟩

theorem Run.Stands.congr {r r' : Run Store τ} {k : Nat} {item : FetchItem} {x : Stand}
    (h : r.Stands k item x) (htask : r'.machine.tasks[k]? = r.machine.tasks[k]?)
    (hcall : (r'.calls.find? fun c => c.task = k) = r.calls.find? fun c => c.task = k) :
    r'.Stands k item x := by
  cases x with
  | waiting => exact htask.trans h
  | calling pauses s => exact ⟨htask.trans h.1, hcall.trans h.2⟩
  | served =>
    obtain ⟨days, h⟩ := h
    exact ⟨days, htask.trans h⟩

/-- The phases in which a task of a round is found. -/
theorem Run.Stands.phase {r : Run Store τ} {k : Nat} {item : FetchItem} {x : Stand}
    (h : r.Stands k item x) : ∃ t, r.machine.tasks[k]? = some t ∧ t.phase.handle? = none
      ∧ Run.crashEvent? t = none ∧ (t.phase.isFetching = true → ∃ left s, x = .calling left s)
      ∧ (t.phase.isOver = true ↔ x = .served) := by
  cases x with
  | waiting => exact ⟨_, h, rfl, rfl, by simp [Phase.isFetching], by simp [Phase.isOver]⟩
  | calling pauses s => exact ⟨_, h.1, rfl, rfl, fun _ => ⟨_, _, rfl⟩, by simp [Phase.isOver]⟩
  | served =>
    obtain ⟨days, h⟩ := h
    exact ⟨_, h, rfl, rfl, by simp [Phase.isFetching], by simp [Phase.isOver]⟩

/-- The first in line is queued, if there is someone in line. -/
theorem Run.grant_spec (r : Run Store τ) : r.grant.machine = r.machine
    ∧ r.grant.calls = r.calls
    ∧ (r.grant.queue ++ (r.grant.line ++ r.grant.resting)).Perm
      (r.queue ++ (r.line ++ r.resting))
    ∧ r.grant.line ⊆ r.line ∧ (r.grant.line ≠ [] → r.grant.queue ≠ []) := by
  unfold Run.grant
  cases hline : r.line with
  | nil => simp [hline]
  | cons j rest => simp

namespace Round

variable {R : Round τ} {current : List Nat} {r : Run Store τ} {v : Nat → Stand}
  {ds : List Delivery} {i : Nat} {item : FetchItem} {s : Series}

/-- **How far a run has come:** where each task stands, and what has been delivered.  Tasks that
    have their turn now are neither queued nor in line, and do not rest. -/
structure Progress (R : Round τ) (current : List Nat) (r : Run Store τ) (v : Nat → Stand)
    (ds : List Delivery) : Prop where
  calm : r.machine.Calm R.dispatcher.limit R.items.length
  stands : ∀ k item, R.items[k]? = some item → r.Stands k item (v k)
  nodup : (current ++ (r.queue ++ (r.line ++ r.resting))).Nodup
  live : ∀ k, k ∈ current ++ (r.queue ++ (r.line ++ r.resting))
    ↔ k < R.items.length ∧ v k ≠ .served
  lined : ∀ k ∈ r.line, v k = .waiting
  moving : r.line ≠ [] → current ++ (r.queue ++ r.resting) ≠ []
  answers : ∀ k item left s, R.items[k]? = some item → v k = .calling left s →
    s.Holds item.range.days (R.truth item.assignment)
  merged : r.machine.store.slices R.metric = Store.deliver ds (R.store.slices R.metric)
  sound : ∀ d ∈ ds, d.item ∈ R.items
    ∧ d.series.Holds d.item.range.days (R.truth d.item.assignment)
  delivered : ∀ k item, R.items[k]? = some item → v k = .served → ∃ d ∈ ds, d.item = item

/-- What turns have to do: for each task, and to give the queued and the resting ones a turn. -/
def load (R : Round τ) (r : Run Store τ) (v : Nat → Stand) : Nat :=
  ∑ k ∈ Finset.range R.items.length, (v k).weight R.dispatcher.pauses
    + 2 * r.queue.length + 3 * r.resting.length

/-- The load, and one more if there is a break now. -/
def potential (R : Round τ) (r : Run Store τ) (v : Nat → Stand) : Nat :=
  R.load r v + if r.turns = turnsPerBreak then 1 else 0

theorem sum_weight_update (R : Round τ) (v : Nat → Stand) (x : Stand)
    (hi : i < R.items.length) :
    ∑ k ∈ Finset.range R.items.length, (Function.update v i x k).weight R.dispatcher.pauses
        + (v i).weight R.dispatcher.pauses
      = ∑ k ∈ Finset.range R.items.length, (v k).weight R.dispatcher.pauses
        + x.weight R.dispatcher.pauses := by
  have hmem := Finset.mem_range.2 hi
  rw [← Finset.add_sum_erase _ _ hmem, ← Finset.add_sum_erase _ (fun k => (v k).weight _) hmem,
    Function.update_self]
  have hrest : ∑ k ∈ (Finset.range R.items.length).erase i,
      (Function.update v i x k).weight R.dispatcher.pauses
      = ∑ k ∈ (Finset.range R.items.length).erase i, (v k).weight R.dispatcher.pauses := by
    refine Finset.sum_congr rfl fun k hk => ?_
    rw [Function.update_of_ne (Finset.ne_of_mem_erase hk)]
  rw [hrest]
  omega

namespace Progress

/-- Every task of the machine is one of the round. -/
theorem exists_stand (h : R.Progress current r v ds) {k : Nat} {t : Task}
    (ht : r.machine.tasks[k]? = some t) : ∃ item, R.items[k]? = some item
      ∧ r.Stands k item (v k) := by
  have hk : k < R.items.length := by
    rw [← h.calm.length_eq]
    exact (List.getElem?_eq_some_iff.1 ht).1
  exact ⟨_, List.getElem?_eq_getElem hk, h.stands k _ (List.getElem?_eq_getElem hk)⟩

theorem alone (h : R.Progress current r v ds) (i : Nat) : r.machine.Alone i := by
  intro k t _ ht
  obtain ⟨item, _, hstands⟩ := h.exists_stand ht
  obtain ⟨t', ht', hhandle, _⟩ := hstands.phase
  rw [ht] at ht'
  cases ht'
  exact hhandle

theorem crashEvent?_eq_none (h : R.Progress current r v ds) {t : Task} (ht : t ∈ r.machine.tasks) :
    Run.crashEvent? t = none := by
  obtain ⟨k, hk⟩ := List.mem_iff_getElem?.1 ht
  obtain ⟨item, _, hstands⟩ := h.exists_stand hk
  obtain ⟨t', ht', _, hcrash, _⟩ := hstands.phase
  rw [hk] at ht'
  cases ht'
  exact hcrash

/-- While a call is under way, its task is queued or rests. -/
theorem exists_calling (h : R.Progress current r v ds) (hbusy : 0 < r.machine.inFlight) :
    ∃ k left s, k ∈ current ++ (r.queue ++ r.resting) ∧ v k = .calling left s := by
  obtain ⟨t, ht, hfetching⟩ := List.countP_pos_iff.1 hbusy
  obtain ⟨k, hk⟩ := List.mem_iff_getElem?.1 ht
  obtain ⟨item, hitem, hstands⟩ := h.exists_stand hk
  obtain ⟨t', ht', _, _, hcalling, _⟩ := hstands.phase
  rw [hk] at ht'
  cases ht'
  obtain ⟨left, s, hv⟩ := hcalling hfetching
  have hlive := (h.live k).2 ⟨(List.getElem?_eq_some_iff.1 hitem).1, by simp [hv]⟩
  have hline : k ∉ r.line := fun hmem => by
    rw [h.lined k hmem] at hv
    cases hv
  refine ⟨k, left, s, ?_, hv⟩
  simp only [List.mem_append, hline, false_or] at hlive ⊢
  exact hlive

theorem isOver_iff (h : R.Progress current r v ds) (hi : i < R.items.length) :
    r.isOver i = true ↔ v i = .served := by
  obtain ⟨t, ht, _, _, _, hover⟩ := (h.stands i _ (List.getElem?_eq_getElem hi)).phase
  rw [Run.isOver, ht, Option.any_some, hover]

/-- The first task of the queue gets its turn. -/
theorem pop {q : List Nat} (h : R.Progress [] r v ds) (hq : r.queue = i :: q) (turns : Nat) :
    R.Progress [i] { r with queue := q, turns := turns } v ds := by
  have hnodup := h.nodup
  have hlive := h.live
  rw [hq] at hnodup hlive
  exact ⟨h.calm, h.stands, hnodup, hlive, h.lined, fun _ => List.cons_ne_nil _ _, h.answers,
    h.merged, h.sound, h.delivered⟩

/-! ## §3. What a turn does. -/

theorem stands_update (h : R.Progress current r v ds) {r' : Run Store τ} {x : Stand}
    (hself : ∀ item, R.items[i]? = some item → r'.Stands i item x)
    (hother : ∀ k, k ≠ i → r'.machine.tasks[k]? = r.machine.tasks[k]?
      ∧ (r'.calls.find? fun c => c.task = k) = r.calls.find? fun c => c.task = k) :
    ∀ k item, R.items[k]? = some item → r'.Stands k item (Function.update v i x k) := by
  intro k item hitem
  by_cases hk : k = i
  · subst hk
    rw [Function.update_self]
    exact hself item hitem
  · rw [Function.update_of_ne hk]
    exact (h.stands k item hitem).congr (hother k hk).1 (hother k hk).2

/-- The order of the lists does not matter. -/
theorem live_of_perm (h : R.Progress current r v ds) {l : List Nat}
    (hl : l.Perm (current ++ (r.queue ++ (r.line ++ r.resting)))) :
    l.Nodup ∧ ∀ k, k ∈ l ↔ k < R.items.length ∧ v k ≠ .served :=
  ⟨hl.nodup_iff.2 h.nodup, fun k => hl.mem_iff.trans (h.live k)⟩

theorem ne_served_update {x : Stand} (hi : v i ≠ .served) (hx : x ≠ .served) (k : Nat) :
    Function.update v i x k ≠ .served ↔ v k ≠ .served := by
  by_cases hk : k = i
  · subst hk
    simp [hi, hx]
  · rw [Function.update_of_ne hk]

/-- The task that has its turn. -/
theorem item_current (h : R.Progress [i] r v ds) :
    ∃ item, R.items[i]? = some item ∧ r.Stands i item (v i) ∧ v i ≠ .served := by
  obtain ⟨hi, hlive⟩ := (h.live i).1 List.mem_cons_self
  exact ⟨_, List.getElem?_eq_getElem hi, h.stands i _ (List.getElem?_eq_getElem hi), hlive⟩

theorem ne_of_mem_line (h : R.Progress [i] r v ds) {k : Nat} (hk : k ∈ r.line) : k ≠ i := by
  rintro rfl
  have hnodup := h.nodup
  simp [hk] at hnodup

theorem lined_update (h : R.Progress [i] r v ds) (x : Stand) {k : Nat} (hk : k ∈ r.line) :
    Function.update v i x k = .waiting := by
  rw [Function.update_of_ne (h.ne_of_mem_line hk)]
  exact h.lined k hk

theorem answers_update (h : R.Progress current r v ds) {x : Stand}
    (hx : ∀ item left s, R.items[i]? = some item → x = .calling left s →
      s.Holds item.range.days (R.truth item.assignment)) :
    ∀ k item left s, R.items[k]? = some item → Function.update v i x k = .calling left s →
      s.Holds item.range.days (R.truth item.assignment) := by
  intro k item left s hitem hk
  by_cases hki : k = i
  · subst hki
    rw [Function.update_self] at hk
    exact hx item left s hitem hk
  · rw [Function.update_of_ne hki] at hk
    exact h.answers k item left s hitem hk

theorem delivered_update (h : R.Progress current r v ds) {x : Stand} {ds' : List Delivery}
    (hsub : ds ⊆ ds')
    (hx : ∀ item, R.items[i]? = some item → x = .served → ∃ d ∈ ds', d.item = item) :
    ∀ k item, R.items[k]? = some item → Function.update v i x k = .served →
      ∃ d ∈ ds', d.item = item := by
  intro k item hitem hk
  by_cases hki : k = i
  · subst hki
    rw [Function.update_self] at hk
    exact hx item hitem hk
  · rw [Function.update_of_ne hki] at hk
    obtain ⟨d, hd, hditem⟩ := h.delivered k item hitem hk
    exact ⟨d, hsub hd, hditem⟩

/-- Without a permit the task gets in line, behind someone whose call is under way. -/
theorem lineUp (h : R.Progress [i] r v ds) (hv : v i = .waiting)
    (hbusy : R.dispatcher.limit ≤ r.machine.inFlight) :
    R.Progress [] { r with line := r.line ++ [i] } v ds := by
  have hperm : ([] ++ (r.queue ++ ((r.line ++ [i]) ++ r.resting))).Perm
      ([i] ++ (r.queue ++ (r.line ++ r.resting))) := by
    rw [List.perm_iff_count]
    intro k
    simp only [List.count_append, List.count_nil]
    omega
  obtain ⟨hnodup, hlive⟩ := h.live_of_perm hperm
  refine ⟨h.calm, h.stands, hnodup, hlive, fun k hk => ?lined, fun _ => ?moving, h.answers, h.merged,
    h.sound, h.delivered⟩
  case lined =>
    rcases List.mem_append.1 hk with hk | hk
    · exact h.lined k hk
    · rw [List.mem_singleton.1 hk]
      exact hv
  case moving =>
    -- There is at least one permit, so somebody else holds it and will hand it on.
    have hpos : 0 < r.machine.inFlight := lt_of_lt_of_le (Nat.le_max_right _ 1) hbusy
    obtain ⟨k, left, s, hk, hcalling⟩ := h.exists_calling hpos
    have hne : k ≠ i := by
      rintro rfl
      rw [hv] at hcalling
      cases hcalling
    rcases List.mem_append.1 hk with hk | hk
    · exact absurd (List.mem_singleton.1 hk) hne
    · exact List.ne_nil_of_mem hk

/-- The task that has its turn gets, or keeps, a call under way. -/
theorem onCall (h : R.Progress [i] r v ds) (hitem : R.items[i]? = some item)
    (hs : s.Holds item.range.days (R.truth item.assignment)) {current' : List Nat}
    {r' : Run Store τ} {left : Nat}
    (hcalm : r'.machine.Calm R.dispatcher.limit R.items.length)
    (hself : r'.Stands i item (.calling left s))
    (hother : ∀ k, k ≠ i → r'.machine.tasks[k]? = r.machine.tasks[k]?
      ∧ (r'.calls.find? fun c => c.task = k) = r.calls.find? fun c => c.task = k)
    (hstore : r'.machine.store = r.machine.store) (hline : r'.line = r.line)
    (hperm : (current' ++ (r'.queue ++ (r'.line ++ r'.resting))).Perm
      ([i] ++ (r.queue ++ (r.line ++ r.resting))))
    (hmoving : current' ++ (r'.queue ++ r'.resting) ≠ []) :
    R.Progress current' r' (Function.update v i (.calling left s)) ds := by
  obtain ⟨_, _, _, hv⟩ := h.item_current
  obtain ⟨hnodup, hlive⟩ := h.live_of_perm hperm
  refine ⟨hcalm, h.stands_update ?stands hother, hnodup, fun k => ?live, fun k hk => ?lined,
    fun _ => hmoving, h.answers_update ?answers, hstore ▸ h.merged, h.sound,
    h.delivered_update (List.Subset.refl _) fun _ _ hx => by cases hx⟩
  case stands =>
    intro item' hitem'
    rw [hitem] at hitem'
    cases hitem'
    exact hself
  case live => rw [hlive, ne_served_update hv (by simp)]
  case lined => exact h.lined_update _ (hline ▸ hk)
  case answers =>
    intro item' left' s' hitem' hx
    rw [hitem] at hitem'
    cases hitem'
    cases hx
    exact hs

/-- With a permit the task calls the source. -/
theorem call (h : R.Progress [i] r v ds) (hitem : R.items[i]? = some item)
    (hs : s.Holds item.range.days (R.truth item.assignment)) (memory : τ) :
    R.Progress [i]
      { r with
        machine := r.machine.begun i (underWay item)
        memory := memory
        calls := ⟨i, R.dispatcher.pauses, ⟨false, some (.series s)⟩⟩ :: r.calls }
      (Function.update v i (.calling R.dispatcher.pauses s)) ds := by
  have hi : i < r.machine.tasks.length := by
    rw [h.calm.length_eq]
    exact (List.getElem?_eq_some_iff.1 hitem).1
  refine h.onCall hitem hs (h.calm.begun i _) ?_ ?_ rfl rfl (List.Perm.refl _)
    (List.cons_ne_nil _ _)
  · exact ⟨List.getElem?_set_self hi, by simp⟩
  · intro k hk
    exact ⟨List.getElem?_set_ne (Ne.symm hk), List.find?_cons_of_neg (by simp [Ne.symm hk])⟩

theorem find?_giveWay (r : Run Store τ) (i k : Nat) :
    ((r.giveWay i).calls.find? fun c => c.task = k)
      = (r.calls.find? fun c => c.task = k).map fun c =>
          if k = i then { c with pauses := c.pauses - 1 } else c := by
  simp only [Run.giveWay, List.find?_map]
  have hpred : ((fun c : Call => decide (c.task = k)) ∘ fun c : Call =>
      if c.task = i then { c with pauses := c.pauses - 1 } else c)
      = fun c : Call => decide (c.task = k) := by
    funext c
    simp only [Function.comp_apply]
    split <;> rfl
  rw [hpred]
  cases hfind : r.calls.find? fun c => c.task = k with
  | none => rfl
  | some c =>
    have hc : c.task = k := by simpa using List.find?_some hfind
    simp only [Option.map_some, hc]

/-- A call that is not answered yet gives way once more. -/
theorem giveWay {left : Nat} (h : R.Progress [i] r v ds) (hv : v i = .calling (left + 1) s) :
    R.Progress [] (r.giveWay i) (Function.update v i (.calling left s)) ds := by
  obtain ⟨item, hitem, hstands, _⟩ := h.item_current
  rw [hv] at hstands
  have hperm : ([] ++ (r.queue ++ (r.line ++ (i :: r.resting)))).Perm
      ([i] ++ (r.queue ++ (r.line ++ r.resting))) := by
    rw [List.perm_iff_count]
    intro k
    simp only [List.count_append, List.count_nil, List.count_cons]
    omega
  refine h.onCall hitem (h.answers i item _ s hitem hv) h.calm ⟨hstands.1, ?_⟩ ?_ rfl rfl hperm ?_
  · rw [find?_giveWay, hstands.2]
    simp
  · intro k hk
    refine ⟨rfl, ?_⟩
    rw [find?_giveWay]
    simp [hk]
  · simp [Run.giveWay]

/-- An answer is merged at once. -/
theorem settle_eq (h : R.Progress [i] r v ds) (hitem : R.items[i]? = some item)
    (hv : v i = .calling 0 s) : ∃ days store,
      R.dispatcher.settle r i ⟨false, some (.series s)⟩
        = { r with machine := r.machine.afterMerge i (underWay item) days store }
      ∧ store.slices R.metric
        = Store.deliver (ds ++ [⟨item, s⟩]) (R.store.slices R.metric) := by
  have hstands := h.stands i item hitem
  rw [hv] at hstands
  have hholds := h.answers i item 0 s hitem hv
  have hmetric : item.metric = R.metric := (R.fresh item (List.mem_of_getElem? hitem)).1
  obtain ⟨report, store, hmerge, hslices⟩ :=
    r.machine.store.merge_delivery R.metric ⟨item, s⟩
  refine ⟨report.added, store, ?_, ?_⟩
  · -- The answer is taken, and nobody else has a handle that would hold up the merge.
    have hanswer := @Machine.attempt_answer _ R.dispatcher.backend r.machine i (underWay item) s
      hstands.1 (withinRange_of_holds hholds)
    have hcomplete := @Dispatcher.complete_fetched _ _ R.dispatcher
      (r.machine.put i ⟨underWay item, .fetched s⟩) i (underWay item) s report store
      R.dispatcher.limit R.items.length (h.calm.put i _) (Machine.getElem?_put_self hstands.1)
      ((h.alone i).of_set rfl) (isEmpty_of_holds hholds)
      (by rw [R.backend_eq, show (underWay item).metric = R.metric from hmetric]; exact hmerge)
    simp only [Dispatcher.settle, Bool.false_eq_true, if_false, hanswer, hcomplete,
      Machine.afterMerge_put]
  · rw [hslices, h.merged, Store.deliver_concat]

/-- The task is over, and the first in line gets its permit. -/
theorem finish (h : R.Progress [i] r v ds) (hitem : R.items[i]? = some item)
    (hv : v i = .calling 0 s) {days : Nat} {store : Store}
    (hslices : store.slices R.metric
      = Store.deliver (ds ++ [⟨item, s⟩]) (R.store.slices R.metric)) :
    R.Progress []
      (Run.grant { r with machine := r.machine.afterMerge i (underWay item) days store })
      (Function.update v i .served) (ds ++ [⟨item, s⟩]) := by
  have hi : i < r.machine.tasks.length := by
    rw [h.calm.length_eq]
    exact (List.getElem?_eq_some_iff.1 hitem).1
  obtain ⟨hmachine, hcalls, hperm, hline, hqueue⟩ := Run.grant_spec
    { r with machine := r.machine.afterMerge i (underWay item) days store }
  generalize Run.grant { r with machine := r.machine.afterMerge i (underWay item) days store } = r'
    at hmachine hcalls hperm hline hqueue
  -- Without the task itself, the lists are a rearrangement of what they were.
  obtain ⟨hnodup, hlive⟩ := h.live_of_perm (hperm.cons i)
  obtain ⟨hfree, hnodup⟩ := List.nodup_cons.1 hnodup
  refine ⟨hmachine ▸ h.calm.afterMerge .., h.stands_update ?self ?others, hnodup, fun k => ?live,
    fun k hk => h.lined_update _ (hline hk), fun hne => ?moving,
    h.answers_update (fun _ _ _ _ hx => by cases hx), ?merged, ?sound,
    h.delivered_update (List.subset_append_left _ _) ?delivered⟩
  case self =>
    intro item' hitem'
    rw [hitem] at hitem'
    cases hitem'
    exact ⟨days, by rw [hmachine]; exact List.getElem?_set_self hi⟩
  case others =>
    intro k hk
    rw [hmachine, hcalls]
    exact ⟨List.getElem?_set_ne (Ne.symm hk), rfl⟩
  case live =>
    have hk := hlive k
    rw [List.mem_cons] at hk
    by_cases hki : k = i
    · subst hki
      simp only [List.nil_append, hfree, Function.update_self, ne_eq, not_true, and_false]
    · rw [Function.update_of_ne hki, ← hk, List.nil_append, or_iff_right hki]
  case moving => simp [hqueue hne]
  case merged =>
    rw [hmachine]
    exact hslices
  case sound =>
    intro d hd
    rcases List.mem_append.1 hd with hd | hd
    · exact h.sound d hd
    · rw [List.mem_singleton.1 hd]
      exact ⟨List.mem_of_getElem? hitem, h.answers i item 0 s hitem hv⟩
  case delivered =>
    intro item' hitem' _
    rw [hitem] at hitem'
    cases hitem'
    exact ⟨_, List.mem_append_right _ (List.mem_singleton.2 rfl), rfl⟩

/-! ## §4. Turns and breaks. -/

/-- The run goes on, and no more is to be done than before. -/
def GoesOn (R : Round τ) (r : Run Store τ) (v : Nat → Stand) (r' : Run Store τ) : Prop :=
  ∃ v' ds', R.Progress [] r' v' ds' ∧ R.load r' v' ≤ R.load r v

/-- When a task is over, so is its use of a permit. -/
def handOn (r : Run Store τ) (i : Nat) : Run Store τ :=
  if r.isOver i then r.grant else r

theorem load_grant_le (R : Round τ) (r : Run Store τ) (v : Nat → Stand) :
    R.load r.grant v ≤ R.load r v + 2 := by
  unfold Run.grant
  cases r.line with
  | nil => exact Nat.le_add_right _ _
  | cons j rest =>
    simp only [load, List.length_append, List.length_singleton]
    omega

/-- An answered call ends its task: the weight of the call pays for the turn of the task that
    gets the permit. -/
theorem goesOn_settle (h : R.Progress [i] r v ds) (hv : v i = .calling 0 s) :
    GoesOn R r v (handOn (R.dispatcher.proceed r i) i) := by
  obtain ⟨item, hitem, hstands, _⟩ := h.item_current
  rw [hv] at hstands
  have hi : i < R.items.length := (List.getElem?_eq_some_iff.1 hitem).1
  obtain ⟨days, store, hsettle, hslices⟩ := h.settle_eq hitem hv
  have hproceed : R.dispatcher.proceed r i
      = { r with machine := r.machine.afterMerge i (underWay item) days store } := by
    simp only [Dispatcher.proceed, hstands.2, h.calm.running, Bool.false_eq_true, if_false, if_true,
      hsettle]
  -- The task is over, so it hands on its permit.
  have hover : (R.dispatcher.proceed r i).isOver i = true := by
    have htask : (R.dispatcher.proceed r i).machine.tasks[i]?
        = some ⟨underWay item, .ended (.merged days)⟩ := by
      rw [hproceed]
      exact List.getElem?_set_self (h.calm.length_eq.symm ▸ hi)
    rw [Run.isOver, htask]
    rfl
  rw [handOn, if_pos hover, hproceed]
  refine ⟨_, _, h.finish hitem hv hslices, ?_⟩
  have hgrant := load_grant_le R
    { r with machine := r.machine.afterMerge i (underWay item) days store }
    (Function.update v i .served)
  have hsum := sum_weight_update R v .served hi
  rw [hv] at hsum
  simp only [Stand.weight, load] at hsum hgrant ⊢
  omega

/-- A call that gives way pays for its rest with one of its pauses. -/
theorem goesOn_giveWay {left : Nat} (h : R.Progress [i] r v ds)
    (hv : v i = .calling (left + 1) s) :
    GoesOn R r v (handOn (R.dispatcher.proceed r i) i) := by
  obtain ⟨item, hitem, hstands, _⟩ := h.item_current
  rw [hv] at hstands
  have hi : i < R.items.length := (List.getElem?_eq_some_iff.1 hitem).1
  have hproceed : R.dispatcher.proceed r i = r.giveWay i := by
    simp only [Dispatcher.proceed, hstands.2, h.calm.running, Bool.false_eq_true, if_false,
      Nat.add_eq_zero_iff, one_ne_zero, and_false]
  have hnext := h.giveWay hv
  have hover : (r.giveWay i).isOver i = false := by
    rw [Bool.eq_false_iff, ne_eq, hnext.isOver_iff hi, Function.update_self]
    simp
  rw [handOn, hproceed, hover, if_neg Bool.false_ne_true]
  refine ⟨_, _, hnext, ?_⟩
  have hsum := sum_weight_update R v (.calling left s) hi
  rw [hv] at hsum
  simp only [Stand.weight, load, Run.giveWay, List.length_cons] at hsum ⊢
  omega

theorem goesOn_proceed {left : Nat} (h : R.Progress [i] r v ds) (hv : v i = .calling left s) :
    GoesOn R r v (handOn (R.dispatcher.proceed r i) i) := by
  cases left with
  | zero => exact h.goesOn_settle hv
  | succ left => exact h.goesOn_giveWay hv

/-- A new item is put under way. -/
theorem start_of_mem (hmem : item ∈ R.items) : item.start = .ok (underWay item) := by
  rw [FetchItem.start, FetchItem.move, if_pos (R.fresh item hmem).2]
  rfl

/-- With a free permit a task calls the source, and goes on in the same turn. -/
theorem goesOn_call (h : R.Progress [i] r v ds) (hv : v i = .waiting)
    (hfree : r.machine.inFlight < r.machine.limit) :
    GoesOn R r v (handOn (R.dispatcher.begin r i) i) := by
  obtain ⟨item, hitem, hstands, _⟩ := h.item_current
  rw [hv] at hstands
  have hi : i < R.items.length := (List.getElem?_eq_some_iff.1 hitem).1
  have hmem := List.mem_of_getElem? hitem
  obtain ⟨s, hanswer, hs⟩ := R.answered item hmem r.memory
  have hstep := @Machine.step_start _ R.dispatcher.backend r.machine i item (underWay item)
    hstands (start_of_mem hmem)
  rw [if_pos hfree] at hstep
  have htask : (r.machine.begun i (underWay item)).tasks[i]?
      = some ⟨underWay item, .fetching⟩ :=
    List.getElem?_set_self (h.calm.length_eq.symm ▸ hi)
  have hbegin : R.dispatcher.begin r i = R.dispatcher.proceed
      { r with
        machine := r.machine.begun i (underWay item)
        memory := (R.dispatcher.source r.memory (underWay item)).2
        calls := ⟨i, R.dispatcher.pauses, ⟨false, some (.series s)⟩⟩ :: r.calls } i := by
    simp only [Dispatcher.begin, h.calm.running, Bool.false_eq_true, if_false, hstep, htask,
      Dispatcher.callSource, hanswer]
  obtain ⟨v', ds', hprogress, hload⟩ :=
    (h.call hitem hs (R.dispatcher.source r.memory (underWay item)).2).goesOn_proceed
      (Function.update_self ..)
  rw [hbegin]
  refine ⟨v', ds', hprogress, hload.trans ?_⟩
  -- A new call weighs as much as its waiting task did.
  have hsum := sum_weight_update R v (.calling R.dispatcher.pauses s) hi
  rw [hv] at hsum
  simp only [Stand.weight, load] at hsum ⊢
  omega

/-- Without a free permit a task gets in line, and leaves the queue to the others. -/
theorem goesOn_lineUp (h : R.Progress [i] r v ds) (hv : v i = .waiting)
    (hfull : ¬ r.machine.inFlight < r.machine.limit) :
    GoesOn R r v (handOn (R.dispatcher.begin r i) i) := by
  obtain ⟨item, hitem, hstands, _⟩ := h.item_current
  rw [hv] at hstands
  have hi : i < R.items.length := (List.getElem?_eq_some_iff.1 hitem).1
  have hstep := @Machine.step_start _ R.dispatcher.backend r.machine i item (underWay item)
    hstands (start_of_mem (List.mem_of_getElem? hitem))
  rw [if_neg hfull] at hstep
  have hbegin : R.dispatcher.begin r i = { r with line := r.line ++ [i] } := by
    simp only [Dispatcher.begin, h.calm.running, Bool.false_eq_true, if_false, hstep]
  have hnext := h.lineUp hv (h.calm.limit_eq ▸ Nat.le_of_not_lt hfull)
  have hover : ({ r with line := r.line ++ [i] } : Run Store τ).isOver i = false := by
    rw [Bool.eq_false_iff, ne_eq, hnext.isOver_iff hi, hv]
    simp
  rw [handOn, hbegin, hover, if_neg Bool.false_ne_true]
  exact ⟨_, _, hnext, Nat.le_refl _⟩

theorem goesOn_begin (h : R.Progress [i] r v ds) (hv : v i = .waiting) :
    GoesOn R r v (handOn (R.dispatcher.begin r i) i) := by
  by_cases hfree : r.machine.inFlight < r.machine.limit
  · exact h.goesOn_call hv hfree
  · exact h.goesOn_lineUp hv hfree

/-- **A turn leaves no more to be done.** -/
theorem goesOn_turn (h : R.Progress [i] r v ds) : GoesOn R r v (R.dispatcher.turn r i) := by
  obtain ⟨item, hitem, hstands, hlive⟩ := h.item_current
  cases hv : v i with
  | waiting =>
    have hnext := h.goesOn_begin hv
    rw [hv] at hstands
    have htask : r.machine.tasks[i]? = some ⟨item, .waiting⟩ := hstands
    unfold Dispatcher.turn
    rw [htask]
    exact hnext
  | calling left s =>
    have hnext := h.goesOn_proceed hv
    rw [hv] at hstands
    unfold Dispatcher.turn
    rw [hstands.1]
    exact hnext
  | served => exact absurd hv hlive

/-- Nobody broke down, so nothing is reported. -/
theorem notice_machine (h : R.Progress current r v ds) : r.notice.machine = r.machine := by
  have hnone : (r.machine.endedTasks.drop r.noticed).filterMap Run.crashEvent? = [] := by
    rw [List.filterMap_eq_nil_iff]
    intro t ht
    obtain ⟨k, _, hk⟩ := List.mem_filterMap.1 (List.mem_of_mem_drop ht)
    exact h.crashEvent?_eq_none (List.mem_of_getElem? hk)
  simp only [Run.notice, hnone, List.foldl_nil]

theorem rest (h : R.Progress [] r v ds) : R.Progress [] r.rest v ds := by
  -- A break queues the resting tasks again, and then looks for tasks that broke down.
  let r₀ : Run Store τ := { r with queue := r.queue ++ r.resting, resting := [], turns := 0 }
  have hperm : ([] ++ (r₀.queue ++ (r₀.line ++ r₀.resting))).Perm
      ([] ++ (r.queue ++ (r.line ++ r.resting))) := by
    rw [List.perm_iff_count]
    intro k
    simp only [r₀, List.count_append, List.count_nil]
    omega
  obtain ⟨hnodup, hlive⟩ := h.live_of_perm hperm
  have hmoving : r₀.line ≠ [] → [] ++ (r₀.queue ++ r₀.resting) ≠ [] := fun hne => by
    have hold := h.moving hne
    simp only [r₀, List.nil_append, List.append_nil] at hold ⊢
    exact hold
  have hr₀ : R.Progress [] r₀ v ds :=
    ⟨h.calm, h.stands, hnodup, hlive, h.lined, hmoving, h.answers, h.merged, h.sound, h.delivered⟩
  have hmachine : r.rest.machine = r₀.machine := hr₀.notice_machine
  exact ⟨hmachine ▸ hr₀.calm,
    fun k item hitem => (hr₀.stands k item hitem).congr (by rw [hmachine]) rfl, hr₀.nodup, hr₀.live,
    hr₀.lined, hr₀.moving, hr₀.answers, hmachine ▸ hr₀.merged, hr₀.sound, hr₀.delivered⟩

theorem load_rest (R : Round τ) (r : Run Store τ) (v : Nat → Stand) :
    R.load r.rest v + r.resting.length = R.load r v := by
  simp only [load, Run.rest, Run.notice, List.length_append, List.length_nil]
  omega

theorem turns_rest (r : Run Store τ) : r.rest.turns = 0 := rfl

/-- A break uses up some of the potential, be it due or taken because only resting tasks are
    left. -/
theorem potential_rest_lt (R : Round τ) (r : Run Store τ) (v : Nat → Stand)
    (h : r.turns = turnsPerBreak ∨ r.resting ≠ []) : R.potential r.rest v < R.potential r v := by
  have hload := load_rest R r v
  unfold potential
  rw [turns_rest, if_neg (by decide)]
  rcases h with hturns | hne
  · rw [if_pos hturns]
    omega
  · have hpos := List.length_pos_iff.2 hne
    omega

/-- So does a turn, since it takes a task from the queue. -/
theorem potential_turn_lt {queue : List Nat} {r' : Run Store τ} {v' : Nat → Stand}
    (hq : r.queue = i :: queue) (hturns : r.turns ≠ turnsPerBreak)
    (hload : R.load r' v' ≤ R.load { r with queue := queue, turns := r.turns + 1 } v) :
    R.potential r' v' < R.potential r v := by
  have hpop : R.load { r with queue := queue, turns := r.turns + 1 } v + 2 = R.load r v := by
    simp only [load, hq, List.length_cons]
    omega
  unfold potential
  rw [if_neg hturns]
  split <;> omega

/-- **Turns come to an end:** nobody is queued any more, and nobody rests. -/
theorem takeTurns (h : R.Progress [] r v ds) {fuel : Nat} (hfuel : R.potential r v ≤ fuel) :
    ∃ v' ds', R.Progress [] (R.dispatcher.takeTurns fuel r) v' ds'
      ∧ (R.dispatcher.takeTurns fuel r).queue = []
      ∧ (R.dispatcher.takeTurns fuel r).resting = [] := by
  -- The fuel is an upper bound of the potential, which every turn and every break lowers.
  induction fuel generalizing r v ds with
  | zero =>
    have hzero : R.load r v = 0 := by
      unfold potential at hfuel
      omega
    rw [load] at hzero
    rw [Dispatcher.takeTurns]
    exact ⟨v, ds, h, List.eq_nil_of_length_eq_zero (by omega),
      List.eq_nil_of_length_eq_zero (by omega)⟩
  | succ fuel ih =>
    have hbreak : (r.turns = turnsPerBreak ∨ r.resting ≠ []) → R.potential r.rest v ≤ fuel :=
      fun hcause => Nat.le_of_lt_succ ((potential_rest_lt R r v hcause).trans_le hfuel)
    rw [Dispatcher.takeTurns]
    cases hq : r.queue with
    | nil =>
      simp only
      by_cases hempty : r.resting.isEmpty = true
      · rw [if_pos hempty]
        exact ⟨v, ds, h, hq, List.isEmpty_iff.1 hempty⟩
      · rw [if_neg hempty]
        exact ih h.rest (hbreak (.inr fun hnil => hempty (List.isEmpty_iff.2 hnil)))
    | cons i queue =>
      simp only
      by_cases hturns : r.turns = turnsPerBreak
      · rw [if_pos hturns]
        exact ih h.rest (hbreak (.inl hturns))
      · rw [if_neg hturns]
        obtain ⟨v', ds', hnext, hload⟩ := (h.pop hq (r.turns + 1)).goesOn_turn
        exact ih hnext (Nat.le_of_lt_succ ((potential_turn_lt hq hturns hload).trans_le hfuel))

/-- When nobody is queued and nobody rests, every task is over. -/
theorem served_of_idle (h : R.Progress [] r v ds) (hqueue : r.queue = []) (hrest : r.resting = [])
    {k : Nat} (hk : k < R.items.length) : v k = .served := by
  have hline : r.line = [] := by
    by_contra hne
    exact h.moving hne (by simp [hqueue, hrest])
  by_contra hlive
  have hmem := (h.live k).2 ⟨hk, hlive⟩
  simp [hqueue, hline, hrest] at hmem

theorem close_eq (h : R.Progress [] r v ds) (hserved : ∀ k < R.items.length, v k = .served) :
    R.dispatcher.close r.machine = r.machine := by
  have hover : r.machine.isOver = true := by
    rw [Machine.isOver, List.all_eq_true]
    intro t ht
    obtain ⟨k, hk⟩ := List.mem_iff_getElem?.1 ht
    obtain ⟨item, hitem, hstands⟩ := h.exists_stand hk
    obtain ⟨t', ht', _, _, _, hiff⟩ := hstands.phase
    rw [hk] at ht'
    cases ht'
    exact hiff.2 (hserved k (List.getElem?_eq_some_iff.1 hitem).1)
  have hall : ∀ l : List Nat, l.foldl (fun m i =>
      Machine.attempt R.dispatcher.backend m (.abandon i)) r.machine = r.machine := by
    intro l
    induction l with
    | nil => rfl
    | cons i l ih => rw [List.foldl_cons, Machine.attempt_abandon h.calm.running, ih]
  simp only [Dispatcher.close, hover, if_true, hall]

end Progress

/-! ## §5. A whole round. -/

theorem progress_initial (R : Round τ) (memory : τ) :
    R.Progress [] (Run.initial (Machine.initial R.store R.dispatcher.limit false R.items) memory)
      (fun _ => .waiting) [] where
  calm := ⟨rfl, rfl, rfl, List.length_map _⟩
  stands := by
    intro k item hitem
    show (R.items.map fun i => (⟨i, .waiting⟩ : Task))[k]? = _
    rw [List.getElem?_map, hitem]
    rfl
  nodup := by simpa [Run.initial] using List.nodup_range
  live := by simp [Run.initial, Machine.initial]
  lined := fun _ _ => rfl
  moving := fun hne => absurd rfl hne
  answers := by
    rintro k item left s _ ⟨⟩
  merged := rfl
  sound := fun d hd => nomatch hd
  delivered := by
    rintro k item _ ⟨⟩

theorem potential_initial (R : Round τ) (memory : τ) :
    R.potential (Run.initial (Machine.initial R.store R.dispatcher.limit false R.items) memory)
      (fun _ => .waiting) ≤ R.dispatcher.fuelFor R.items.length := by
  have hflag : (0 : Nat) ≠ turnsPerBreak := by decide
  simp only [potential, load, Run.initial, Machine.initial, Stand.weight, Finset.sum_const,
    Finset.card_range, smul_eq_mul, List.length_map, List.length_range, List.length_nil,
    if_neg hflag, Dispatcher.fuelFor]
  nlinarith

/-- **Every item of a round is delivered with its true series, and nothing is cancelled.** -/
theorem runTasks_serves (R : Round τ) (memory : τ) : ∃ ds : List Delivery,
    (R.dispatcher.runTasks R.store memory false R.items).machine.store.slices R.metric
        = Store.deliver ds (R.store.slices R.metric)
      ∧ (R.dispatcher.runTasks R.store memory false R.items).machine.cancelled = false
      ∧ (∀ d ∈ ds, d.item ∈ R.items
        ∧ d.series.Holds d.item.range.days (R.truth d.item.assignment))
      ∧ ∀ i ∈ R.items, ∃ d ∈ ds, d.item = i := by
  obtain ⟨v, ds, hend, hqueue, hrest⟩ :=
    (R.progress_initial memory).takeTurns (R.potential_initial memory)
  have hserved : ∀ k < R.items.length, v k = .served := fun k => hend.served_of_idle hqueue hrest
  have hmachine : (R.dispatcher.runTasks R.store memory false R.items).machine
      = (R.dispatcher.takeTurns (R.dispatcher.fuelFor R.items.length)
          (Run.initial (Machine.initial R.store R.dispatcher.limit false R.items) memory)).machine := by
    simp only [Dispatcher.runTasks, hend.close_eq hserved]
    exact hend.notice_machine
  rw [hmachine]
  refine ⟨ds, hend.merged, hend.calm.running, hend.sound, fun i hi => ?_⟩
  -- Each item is one of some task, and all tasks are served.
  obtain ⟨k, hk⟩ := List.mem_iff_getElem?.1 hi
  exact hend.delivered k i hk (hserved k (List.getElem?_eq_some_iff.1 hk).1)

end Round

end MetricCube.Fetch
