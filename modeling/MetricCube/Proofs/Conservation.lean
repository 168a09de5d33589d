/-
  MetricCube.Proofs.Conservation
  ──────────────────────────────
  **A dispatch merges all or nothing, and counts every day.**  However the tasks of
  a dispatch are interleaved, there is a ledger of merges: one entry for each task
  that ends as merged, with the whole series that the source gave for its item.

    • the store that is left is the store at the start with the entries merged, one
      after another, and nothing else;
    • the days that the report counts are the days that the store has gained;
    • tasks with any other end, and items that are left out, have no entry.

  A change writes the whole series that its task holds, or leaves the store as it is
  (`Change.writes_or_keeps`).  So the ledger is kept or gets one more entry with every
  step (`Ledger.keep`, `Ledger.enter`), and exists for every interleaving
  (`exists_ledger`).
-/
import Mathlib
import MetricCube.Proofs.Convergence
import MetricCube.Proofs.Delivery
import MetricCube.Proofs.Execution
import MetricCube.Proofs.Table

namespace MetricCube

/-! ## §1. The days of a store. -/

/-- The number of days that a payload has counts for; a window has none of its own. -/
def Payload.dayCount : Payload → Nat
  | .daily s => s.size
  | .aggregate _ => 0

namespace Table

variable {β : Type}

/-- Inserting replaces one term of a sum over all entries. -/
theorem sum_insertEntry (f : β → Nat) (key : String) (value : β) {es : List (String × β)}
    (h : es.Pairwise fun a b => a.1 < b.1) :
    ((insertEntry key value es).map fun e => f e.2).sum + ((find? key es).map f).getD 0
      = (es.map fun e => f e.2).sum + f value := by
  induction es with
  | nil => simp [insertEntry, find?]
  | cons e es ih =>
    unfold insertEntry
    split
    · rename_i hlt
      -- The key is less than all keys, so it is new.
      have hnew : key ∉ (e :: es).map Prod.fst := by
        intro hmem
        obtain ⟨d, hd, rfl⟩ := List.mem_map.1 hmem
        rcases List.mem_cons.1 hd with rfl | hd
        · exact lt_irrefl _ hlt
        · exact lt_asymm hlt (List.rel_of_pairwise_cons h hd)
      rw [find?_eq_none hnew]
      simp only [List.map_cons, List.sum_cons, Option.map_none, Option.getD_none]
      omega
    · split
      · rename_i heq
        simp only [find?, if_pos heq.symm, List.map_cons, List.sum_cons, Option.map_some,
          Option.getD_some]
        omega
      · rename_i hne
        have hrest := ih h.of_cons
        simp only [find?, if_neg (Ne.symm hne), List.map_cons, List.sum_cons]
        omega

end Table

namespace Store

/-- The number of days in a list of slices. -/
def daysIn (slices : List Slice) : Nat :=
  (slices.map fun s => s.payload.dayCount).sum

/-- The number of days in the store: one for each metric, slice and day. -/
def dayCount (s : Store) : Nat :=
  (s.metrics.entries.map fun e => daysIn e.2).sum

theorem daysIn_mergeSlices {a : Assignment} {signature : Signature} {t : Series}
    {r : Series.MergeReport} {slices slices' : List Slice}
    (h : mergeSlices ⟨a, .daily t, signature⟩ slices = .ok (r, slices')) :
    daysIn slices' = daysIn slices + r.added := by
  -- Induction along the search for the slot: the slices in front of it stay.
  induction slices generalizing r slices' with
  | nil =>
    cases h
    simp [daysIn, newPoints, Payload.dayCount]
  | cons s rest ih =>
    unfold mergeSlices at h
    split at h
    · obtain ⟨owner, payload, signature'⟩ := s
      cases payload with
      | daily held =>
        cases h
        simp only [daysIn, List.map_cons, List.sum_cons, Payload.dayCount, Series.size_merge,
          Series.added_mergeReport]
        omega
      | aggregate window =>
        cases h
        simp only [daysIn, List.map_cons, List.sum_cons, Payload.dayCount]
        omega
    · cases hrest : mergeSlices ⟨a, .daily t, signature⟩ rest with
      | error fault =>
        rw [hrest] at h
        cases h
      | ok result =>
        rw [hrest] at h
        cases h
        have hcount := ih hrest
        simp only [daysIn, List.map_cons, List.sum_cons] at hcount ⊢
        omega

/-- **A daily patch adds the days that its report says.** -/
theorem dayCount_merge {s s' : Store} {metric : String} {a : Assignment} {signature : Signature}
    {t : Series} {r : Series.MergeReport}
    (h : s.merge metric ⟨a, .daily t, signature⟩ = .ok (r, s')) :
    s'.dayCount = s.dayCount + r.added := by
  unfold merge at h
  cases hslices : mergeSlices ⟨a, .daily t, signature⟩ (s.slices metric) with
  | error fault =>
    rw [hslices] at h
    cases h
  | ok result =>
    rw [hslices] at h
    cases h
    have hdays := daysIn_mergeSlices hslices
    have hsum := Table.sum_insertEntry daysIn metric result.2 s.metrics.ascending
    have hheld : ((Table.find? metric s.metrics.entries).map daysIn).getD 0
        = daysIn (s.slices metric) := by
      show ((s.metrics.get? metric).map daysIn).getD 0 = daysIn ((s.metrics.get? metric).getD [])
      cases s.metrics.get? metric <;> rfl
    rw [hheld] at hsum
    show ((Table.insertEntry metric result.2 s.metrics.entries).map fun e => daysIn e.2).sum = _
    unfold dayCount
    omega

theorem mergeAll_concat {metric : String} {patch : Slice} {r : Series.MergeReport} {u v : Store}
    (hpatch : u.merge metric patch = .ok (r, v)) (patches : List Slice) : ∀ {s : Store},
      s.mergeAll metric patches = .ok u → s.mergeAll metric (patches ++ [patch]) = .ok v := by
  induction patches with
  | nil =>
    intro s h
    cases h
    simp only [List.nil_append, mergeAll, hpatch]
  | cons first rest ih =>
    intro s h
    rw [List.cons_append]
    unfold mergeAll at h ⊢
    split at h
    · exact ih h
    · cases h

end Store

namespace Fetch

open Machine

variable {σ τ : Type}

/-! ## §2. What tasks hear from the source. -/

/-- The reply that a move brings to task `k`. -/
def Move.replyTo? (k : Nat) : Move → Option Reply
  | .answer i reply => if i = k then some reply else none
  | _ => none

/-- The replies that moves bring to task `k`. -/
def repliesTo (k : Nat) (moves : List Move) : List Reply :=
  moves.filterMap (Move.replyTo? k)

theorem repliesTo_concat (k : Nat) (moves : List Move) (move : Move) :
    repliesTo k (moves ++ [move]) = repliesTo k moves ++ (move.replyTo? k).toList := by
  rw [repliesTo, List.filterMap_append]
  cases h : move.replyTo? k <;> simp [repliesTo, h]

theorem repliesTo_of_none {k : Nat} {move : Move} (moves : List Move)
    (h : move.replyTo? k = none) : repliesTo k (moves ++ [move]) = repliesTo k moves := by
  rw [repliesTo_concat, h, Option.toList_none, List.append_nil]

theorem Move.replyTo?_eq_none {k i : Nat} {move : Move} (h : move.task? = some i) (hk : k ≠ i) :
    move.replyTo? k = none := by
  cases move with
  | answer j reply =>
    cases h
    exact if_neg (Ne.symm hk)
  | cancel | abandon | start | advance => rfl

/-- Before the source answers there is no reply, and until the merge there is one, a series that
    stays within the days of the item. -/
def Phase.Heard (item : FetchItem) : Phase → List Reply → Prop
  | .waiting, replies | .fetching, replies => replies = []
  | .fetched s, replies | .handled s _, replies | .locked s _, replies =>
    replies = [.series s] ∧ withinRange item s = .ok s
  | _, _ => True

theorem Phase.heard_of_isOver {phase : Phase} (h : phase.isOver = true) (item : FetchItem)
    (replies : List Reply) : phase.Heard item replies := by
  cases phase with
  | ended | crashed => trivial
  | waiting | fetching | fetched | handled | locked | merged | unlocked | released => cases h

section

variable {b : Backend σ} {m m' : Machine σ} {move : Move} {moves : List Move} {i : Nat}
  {t t' : Task} {store : σ} {limit : Nat} {cancelled : Bool} {items : List FetchItem}

theorem Change.heard (h : Change b m i move t t' store)
    (hheard : t.phase.Heard t.item (repliesTo i moves)) :
    t'.phase.Heard t'.item (repliesTo i (moves ++ [move])) := by
  -- Only taking a series hears a reply.  Other changes keep what is held, or drop it.
  cases h with
  | start item _ =>
    rw [repliesTo_of_none moves rfl]
    unfold startedTask
    split
    · exact hheard
    · trivial
  | take item s hwithin =>
    have hnone : repliesTo i moves = [] := hheard
    refine ⟨?_, hwithin⟩
    rw [repliesTo_concat, hnone, Move.replyTo?, if_pos rfl]
    rfl
  | handle item s l =>
    rw [repliesTo_of_none moves rfl]
    exact hheard
  | lock item s l _ =>
    rw [repliesTo_of_none moves rfl]
    exact hheard
  | drop | fail | stray => exact Phase.heard_of_isOver (isOver_failedTask ..) _ _
  | giveUp | crash | merge | unlock | release | finish => trivial

/-- In every interleaving, a task that holds a series has it from the source, and has heard
    nothing else. -/
theorem heard_of_run
    (hrun : (Machine.initial store limit cancelled items).run b moves = some m) :
    ∀ (k : Nat) (t : Task), m.tasks[k]? = some t → t.phase.Heard t.item (repliesTo k moves) := by
  refine run_induction (P := fun moves m => ∀ (k : Nat) (t : Task), m.tasks[k]? = some t →
    t.phase.Heard t.item (repliesTo k moves)) ?_ (fun moves m move m' _ h hstep => ?_) moves m hrun
  · intro k t ht
    obtain ⟨item, _, rfl⟩ := List.mem_map.1 (List.mem_of_getElem? ht)
    rfl
  · intro k u hu
    rcases step_cases hstep with ⟨rfl, rfl⟩ | ⟨i, t, t', hmoved⟩
    · rw [repliesTo_of_none moves rfl]
      exact h k u hu
    · by_cases hk : k = i
      · subst hk
        rw [hmoved.place_self] at hu
        cases hu
        exact hmoved.change.heard (h k t hmoved.place)
      · rw [hmoved.place_other hk] at hu
        rw [repliesTo_of_none moves (Move.replyTo?_eq_none hmoved.change.task?_eq hk)]
        exact h k u hu

/-! ## §3. Steps that write. -/

/-- The number of days that a merge added, if it was made. -/
def addedBy : MergeResult → Option Nat
  | .ok days => days
  | .error _ => none

/-- The number of days that the merge of a task added, once it is made. -/
def Phase.written? : Phase → Option Nat
  | .merged result _ | .unlocked result _ | .released result => addedBy result
  | .ended (.merged days) => some days
  | _ => none

/-- A whole series is merged, or there is nothing to merge. -/
inductive Writes (b : Backend σ) (store : σ) (item : FetchItem) (s : Series) : Nat → σ → Prop where
  | nothing : s.isEmpty = true → Writes b store item s 0 store
  | whole (r : Series.MergeReport) (store' : σ) : s.isEmpty = false →
      b.merge store item.metric ⟨item.assignment, .daily s, item.signature⟩ = .ok (r, store') →
      Writes b store item s r.added store'

theorem Writes.of_unmarked {b : Backend σ} {store store' : σ} {item item' : FetchItem} {s : Series}
    {days : Nat} (h : Writes b store item s days store') (hsame : item.unmarked = item'.unmarked) :
    Writes b store item' s days store' := by
  obtain ⟨hmetric, hassignment, _, hsignature⟩ := FetchItem.fields_of_unmarked hsame
  cases h with
  | nothing hempty => exact .nothing hempty
  | whole r _ hsome hmerge =>
    rw [hmetric, hassignment, hsignature] at hmerge
    exact .whole r _ hsome hmerge

theorem mergeSeries_writes_or_keeps (b : Backend σ) (m : Machine σ) (item : FetchItem)
    (s : Series) (l : Nat) :
    ((Phase.merged (m.mergeSeries b item s).1 l).written? = none
        ∧ (m.mergeSeries b item s).2.2 = m.store)
      ∨ ∃ days, (Phase.merged (m.mergeSeries b item s).1 l).written? = some days
        ∧ Writes b m.store item s days (m.mergeSeries b item s).2.2 := by
  unfold mergeSeries
  split
  · cases item.fail true <;> exact .inl ⟨rfl, rfl⟩
  · split
    · rename_i hempty
      exact .inr ⟨0, rfl, .nothing hempty⟩
    · rename_i hempty
      cases hmerge : b.merge m.store item.metric ⟨item.assignment, .daily s, item.signature⟩ with
      | error fault => exact .inl ⟨rfl, rfl⟩
      | ok result =>
        exact .inr ⟨_, rfl, .whole result.1 result.2 (Bool.eq_false_iff.2 hempty) hmerge⟩

/-- **A change writes the whole series that its task holds, or leaves the store as it is.** -/
theorem Change.writes_or_keeps (h : Change b m i move t t' store) :
    (t'.phase.written? = t.phase.written? ∧ store = m.store)
      ∨ ∃ s l days, t.phase = .locked s l ∧ t'.phase.written? = some days
        ∧ Writes b m.store t.item s days store := by
  -- Of all changes only a merge writes; finishing keeps what was written.
  cases h with
  | start item _ =>
    refine .inl ⟨?_, rfl⟩
    unfold startedTask
    split <;> rfl
  | drop | fail | stray =>
    refine .inl ⟨?_, rfl⟩
    unfold failedTask
    split <;> rfl
  | merge item s l =>
    rcases mergeSeries_writes_or_keeps b m item s l with ⟨hnone, hstore⟩ | ⟨days, hsome, hwrites⟩
    · exact .inl ⟨hnone, hstore⟩
    · exact .inr ⟨s, l, days, rfl, hsome, hwrites⟩
  | finish item result =>
    refine .inl ⟨?_, rfl⟩
    cases result with
    | error fault => rfl
    | ok days => cases days <;> rfl
  | giveUp | crash | take | handle | lock | unlock | release => exact .inl ⟨rfl, rfl⟩

theorem written?_of_isOver (h : t.phase.isOver = true) {days : Nat} :
    t.phase.written? = some days ↔ t.phase = .ended (.merged days) := by
  obtain ⟨item, phase⟩ := t
  cases phase with
  | ended e => cases e <;> simp [Phase.written?]
  | crashed => simp [Phase.written?]
  | waiting | fetching | fetched | handled | locked | merged | unlocked | released => cases h

/-- Only a task that is fetching hears anything. -/
theorem Change.replyTo?_eq_none (h : Change b m i move t t' store)
    (hphase : t.phase ≠ .fetching) : move.replyTo? i = none := by
  cases h with
  | crash | fail | stray | take => exact absurd rfl hphase
  | giveUp | drop | start | handle | lock | merge | unlock | release | finish => rfl

end

/-! ## §4. The ledger. -/

/-- A merge: for which task, of what, and the number of days that it added. -/
structure Entry where
  task : Nat
  delivery : Delivery
  days : Nat

/-- The entry is the whole of what the source gave for the item of the task. -/
structure Entry.IsOf (x : Entry) (items : List FetchItem) (moves : List Move) : Prop where
  item : items[x.task]? = some x.delivery.item
  /-- The source has answered once, with this series. -/
  replies : repliesTo x.task moves = [.series x.delivery.series]
  within : ∀ day ∈ x.delivery.series.dates, x.delivery.item.range.contains day = true

/-- The patches of a list of entries; an empty series is not merged. -/
def patches (log : List Entry) : List Slice :=
  (log.filter fun x => !x.delivery.series.isEmpty).map fun x => x.delivery.patch

/-- **The ledger of an interleaving:** every merge so far, in order. -/
structure Ledger (metric : String) (items : List FetchItem) (before : Store) (moves : List Move)
    (m : Machine Store) (log : List Entry) : Prop where
  nodup : (log.map Entry.task).Nodup
  isOf : ∀ x ∈ log, x.IsOf items moves
  written : ∀ k days, (∃ x ∈ log, x.task = k ∧ x.days = days)
    ↔ ∃ t, m.tasks[k]? = some t ∧ t.phase.written? = some days
  store : before.mergeAll metric (patches log) = .ok m.store
  days : before.dayCount + (log.map Entry.days).sum = m.store.dayCount

section

variable {metric : String} {items : List FetchItem} {before : Store} {moves : List Move}
  {m m' : Machine Store} {log : List Entry} {move : Move} {i : Nat} {t t' : Task}
  {limit : Nat} {cancelled : Bool}

theorem contains_of_withinRange {item : FetchItem} {s s' : Series}
    (h : withinRange item s = .ok s') : ∀ day ∈ s.dates, item.range.contains day = true := by
  unfold withinRange at h
  split at h
  · cases h
  · rename_i hnone
    intro day hday
    simpa using List.find?_eq_none.1 hnone day hday

/-- Entries stay what they are. -/
theorem Ledger.isOf_moved (h : Ledger metric items before moves m log)
    (hmoved : Moved Store.backend m move i t t' m') :
    ∀ x ∈ log, x.IsOf items (moves ++ [move]) := by
  intro x hx
  refine ⟨(h.isOf x hx).item, ?_, (h.isOf x hx).within⟩
  -- The task of an entry has written, so that it is not fetching any more.
  have hnone : move.replyTo? x.task = none := by
    by_cases hk : x.task = i
    · obtain ⟨u, hu, hwritten⟩ := (h.written x.task x.days).1 ⟨x, hx, rfl, rfl⟩
      rw [hk, hmoved.place] at hu
      cases hu
      rw [hk]
      refine hmoved.change.replyTo?_eq_none fun hphase => ?_
      rw [hphase] at hwritten
      cases hwritten
    · exact Move.replyTo?_eq_none hmoved.change.task?_eq hk
  rw [repliesTo_of_none moves hnone]
  exact (h.isOf x hx).replies

/-- A change that keeps the store needs no entry. -/
theorem Ledger.keep (h : Ledger metric items before moves m log)
    (hmoved : Moved Store.backend m move i t t' m')
    (hwritten : t'.phase.written? = t.phase.written?) (hstore : m'.store = m.store) :
    Ledger metric items before (moves ++ [move]) m' log where
  nodup := h.nodup
  isOf := h.isOf_moved hmoved
  written k days := by
    rw [h.written k days]
    by_cases hk : k = i
    · subst hk
      rw [hmoved.place, hmoved.place_self]
      simp only [Option.some.injEq, exists_eq_left', hwritten]
    · rw [hmoved.place_other hk]
  store := by rw [hstore, h.store]
  days := by rw [hstore, h.days]

theorem patches_concat (log : List Entry) (x : Entry) : patches (log ++ [x])
    = patches log ++ if x.delivery.series.isEmpty then [] else [x.delivery.patch] := by
  rw [patches, List.filter_append, List.map_append, List.filter_singleton]
  cases x.delivery.series.isEmpty <;> rfl

section

variable {store store' : Store} {item : FetchItem} {s : Series} {days : Nat}

theorem Writes.mergeAll (h : Writes Store.backend store item s days store') (k : Nat)
    (hbefore : before.mergeAll item.metric (patches log) = .ok store) :
    before.mergeAll item.metric (patches (log ++ [⟨k, ⟨item, s⟩, days⟩])) = .ok store' := by
  rw [patches_concat]
  cases h with
  | nothing hempty =>
    rw [if_pos hempty, List.append_nil]
    exact hbefore
  | whole r _ hsome hmerge =>
    rw [if_neg (by simp [hsome])]
    exact Store.mergeAll_concat hmerge _ hbefore

theorem Writes.dayCount (h : Writes Store.backend store item s days store') :
    store'.dayCount = store.dayCount + days := by
  cases h with
  | nothing => rfl
  | whole r _ _ hmerge => exact Store.dayCount_merge hmerge

end

/-- A task that has not written has no entry. -/
theorem Ledger.task_ne (h : Ledger metric items before moves m log) (ht : m.tasks[i]? = some t)
    (hwritten : t.phase.written? = none) : ∀ x ∈ log, x.task ≠ i := by
  rintro x hx rfl
  obtain ⟨u, hu, hu'⟩ := (h.written x.task x.days).1 ⟨x, hx, rfl, rfl⟩
  rw [ht] at hu
  cases hu
  rw [hwritten] at hu'
  cases hu'

/-- With the entry of task `i`, the entries are those of the tasks that have written. -/
theorem Ledger.written_concat (h : Ledger metric items before moves m log)
    (hmoved : Moved Store.backend m move i t t' m') (hnew : ∀ x ∈ log, x.task ≠ i) {d : Delivery}
    {days : Nat} (hwritten : t'.phase.written? = some days) (k days' : Nat) :
    (∃ x ∈ log ++ [⟨i, d, days⟩], x.task = k ∧ x.days = days')
      ↔ ∃ u, m'.tasks[k]? = some u ∧ u.phase.written? = some days' := by
  -- The other tasks keep their entries, and task `i` has had none before.
  by_cases hk : k = i
  · subst hk
    rw [hmoved.place_self]
    constructor
    · rintro ⟨x, hx, htask, rfl⟩
      rcases List.mem_append.1 hx with hx | hx
      · exact absurd htask (hnew x hx)
      · rw [List.mem_singleton.1 hx]
        exact ⟨t', rfl, hwritten⟩
    · rintro ⟨u, hu, hu'⟩
      cases hu
      refine ⟨_, List.mem_append_right _ List.mem_cons_self, rfl, ?_⟩
      exact Option.some.inj (hwritten.symm.trans hu')
  · rw [hmoved.place_other hk, ← h.written k days']
    constructor
    · rintro ⟨x, hx, htask, hdays⟩
      rcases List.mem_append.1 hx with hx | hx
      · exact ⟨x, hx, htask, hdays⟩
      · rw [List.mem_singleton.1 hx] at htask
        exact absurd htask.symm hk
    · rintro ⟨x, hx, hx'⟩
      exact ⟨x, List.mem_append_left _ hx, hx'⟩

/-- A change that writes is entered. -/
theorem Ledger.enter (h : Ledger metric items before moves m log)
    (hmoved : Moved Store.backend m move i t t' m') {s : Series} {l days : Nat}
    (hphase : t.phase = .locked s l) (hwritten : t'.phase.written? = some days)
    (hwrites : Writes Store.backend m.store t.item s days m'.store)
    (hheard : t.phase.Heard t.item (repliesTo i moves)) {item : FetchItem}
    (hitem : items[i]? = some item) (hsame : t.item.unmarked = item.unmarked)
    (hmetric : item.metric = metric) :
    Ledger metric items before (moves ++ [move]) m' (log ++ [⟨i, ⟨item, s⟩, days⟩]) := by
  rw [hphase] at hheard
  obtain ⟨hreplies, hwithin⟩ := hheard
  obtain ⟨_, _, hrange, _⟩ := FetchItem.fields_of_unmarked hsame
  have hwrites' := hwrites.of_unmarked hsame
  have hnew : ∀ x ∈ log, x.task ≠ i := h.task_ne hmoved.place (by rw [hphase]; rfl)
  refine ⟨?nodup, ?isOf, h.written_concat hmoved hnew hwritten, ?store, ?days⟩
  case nodup =>
    rw [List.map_append, List.nodup_append]
    refine ⟨h.nodup, List.nodup_singleton _, fun k hk j hj heq => ?_⟩
    obtain ⟨x, hx, rfl⟩ := List.mem_map.1 hk
    exact hnew x hx (heq.trans (List.mem_singleton.1 hj))
  case isOf =>
    intro x hx
    rcases List.mem_append.1 hx with hx | hx
    · exact h.isOf_moved hmoved x hx
    · -- What the task has heard stays as it is, for it is not fetching any more.
      rw [List.mem_singleton.1 hx]
      refine ⟨hitem, ?_, hrange ▸ contains_of_withinRange hwithin⟩
      have hquiet := hmoved.change.replyTo?_eq_none (by rw [hphase]; nofun)
      exact (repliesTo_of_none moves hquiet).trans hreplies
  case store =>
    subst hmetric
    exact hwrites'.mergeAll i h.store
  case days =>
    rw [List.map_append, List.sum_append, ← Nat.add_assoc, h.days]
    exact hwrites'.dayCount.symm

/-- **Every interleaving has its ledger.** -/
theorem exists_ledger (hmetric : ∀ item ∈ items, item.metric = metric)
    (hrun : (Machine.initial before limit cancelled items).run Store.backend moves = some m) :
    ∃ log, Ledger metric items before moves m log := by
  refine run_induction (P := fun moves m => ∃ log, Ledger metric items before moves m log) ?_
    (fun moves m move m' hrun h hstep => ?_) moves m hrun
  · refine ⟨[], List.nodup_nil, fun x hx => absurd hx List.not_mem_nil, fun k days => ?_, rfl, rfl⟩
    constructor
    · rintro ⟨x, hx, _⟩
      exact absurd hx List.not_mem_nil
    · rintro ⟨t, ht, hwritten⟩
      obtain ⟨item, _, rfl⟩ := List.mem_map.1 (List.mem_of_getElem? ht)
      cases hwritten
  · obtain ⟨log, hlog⟩ := h
    rcases step_cases hstep with ⟨rfl, rfl⟩ | ⟨i, t, t', hmoved⟩
    · refine ⟨log, hlog.nodup, fun x hx => ?_, hlog.written, hlog.store, hlog.days⟩
      refine ⟨(hlog.isOf x hx).item, ?_, (hlog.isOf x hx).within⟩
      exact (repliesTo_of_none moves rfl).trans (hlog.isOf x hx).replies
    · rcases hmoved.change.writes_or_keeps with
        ⟨hsame, hstore⟩ | ⟨s, l, days, hphase, hwritten, hwrites⟩
      · -- All changes but a merge, and a merge that fails or is cancelled.
        exact ⟨log, hlog.keep hmoved hsame hstore⟩
      · obtain ⟨item, hitem, hunmarked⟩ := (unmarked_of_run hrun).exists_item hmoved.place
        exact ⟨_, hlog.enter hmoved hphase hwritten hwrites (heard_of_run hrun i t hmoved.place)
          hitem hunmarked (hmetric item (List.mem_of_getElem? hitem))⟩

/-! ## §5. The report. -/

/-- What a report says of an entry. -/
def Entry.mergedItem (x : Entry) : MergedItem :=
  ⟨x.delivery.item.id, x.days⟩

theorem merged?_of_isOver (h : t.phase.isOver = true) :
    t.merged? = t.phase.written?.map fun days => ⟨t.item.id, days⟩ := by
  obtain ⟨item, phase⟩ := t
  cases phase with
  | ended e => cases e <;> rfl
  | crashed => rfl
  | waiting | fetching | fetched | handled | locked | merged | unlocked | released => cases h

/-- What the report says of the task at a place, if it was merged. -/
def mergedAt (m : Machine Store) (k : Nat) : Option MergedItem :=
  m.tasks[k]?.bind Task.merged?

theorem filterMap_merged? (m : Machine Store) : m.tasks.filterMap Task.merged?
    = ((List.range m.tasks.length).filter fun k => (mergedAt m k).isSome).filterMap (mergedAt m) := by
  conv_lhs => rw [← filterMap_getElem?_range m.tasks]
  rw [List.filterMap_filterMap, List.filterMap_filter]
  refine List.filterMap_congr fun k _ => ?_
  show mergedAt m k = _
  cases mergedAt m k <;> rfl

theorem mergedAt_of_isOver (hover : m.isOver = true) (ht : m.tasks[i]? = some t) :
    mergedAt m i = t.phase.written?.map fun days => ⟨t.item.id, days⟩ := by
  rw [mergedAt, ht, Option.bind_some, merged?_of_isOver (isOver_iff.1 hover _ t ht)]

/-- When everything is over, the report says of the task of an entry what the entry says. -/
theorem Ledger.mergedAt_task (h : Ledger metric items before moves m log) (hover : m.isOver = true)
    (hitems : Each (fun item t => t.item.unmarked = item.unmarked) items m.tasks) :
    ∀ x ∈ log, mergedAt m x.task = some x.mergedItem := by
  intro x hx
  obtain ⟨t, ht, hwritten⟩ := (h.written x.task x.days).1 ⟨x, hx, rfl, rfl⟩
  have hid : t.item.id = x.delivery.item.id := by
    have hsame := hitems.each _ _ t (h.isOf x hx).item ht
    rw [← FetchItem.id_unmarked t.item, hsame, FetchItem.id_unmarked]
  rw [mergedAt_of_isOver hover ht, hwritten, Option.map_some, hid]
  rfl

/-- When everything is over, the tasks that were merged are those with an entry. -/
theorem Ledger.mem_tasks_iff (h : Ledger metric items before moves m log) (hover : m.isOver = true)
    (k : Nat) : k ∈ log.map Entry.task ↔ k < m.tasks.length ∧ (mergedAt m k).isSome = true := by
  rw [List.mem_map]
  constructor
  · rintro ⟨x, hx, rfl⟩
    obtain ⟨t, ht, hwritten⟩ := (h.written x.task x.days).1 ⟨x, hx, rfl, rfl⟩
    refine ⟨(List.getElem?_eq_some_iff.1 ht).1, ?_⟩
    rw [mergedAt_of_isOver hover ht, hwritten]
    rfl
  · rintro ⟨hk, hsome⟩
    have ht := List.getElem?_eq_getElem hk
    rw [mergedAt_of_isOver hover ht, Option.isSome_map] at hsome
    obtain ⟨days, hdays⟩ := Option.isSome_iff_exists.1 hsome
    obtain ⟨x, hx, htask, _⟩ := (h.written k days).2 ⟨_, ht, hdays⟩
    exact ⟨x, hx, htask⟩

/-- When everything is over, the report lists the entries, in the order of their tasks. -/
theorem Ledger.perm_merged (h : Ledger metric items before moves m log) (hover : m.isOver = true)
    (hitems : Each (fun item t => t.item.unmarked = item.unmarked) items m.tasks) :
    (m.tasks.filterMap Task.merged?).Perm (log.map Entry.mergedItem) := by
  -- Both lists can be read off the places of tasks, and these are distinct.
  have htasks : ((List.range m.tasks.length).filter fun k => (mergedAt m k).isSome).Perm
      (log.map Entry.task) := by
    refine (List.perm_ext_iff_of_nodup (List.nodup_range.filter _) h.nodup).2 fun k => ?_
    rw [List.mem_filter, List.mem_range, h.mem_tasks_iff hover]
  have hlog : (log.map Entry.task).filterMap (mergedAt m) = log.map Entry.mergedItem := by
    rw [List.filterMap_map, ← List.filterMap_eq_map]
    exact List.filterMap_congr (h.mergedAt_task hover hitems)
  rw [filterMap_merged?, ← hlog]
  exact htasks.filterMap (mergedAt m)

end

/-! ## §6. Executions conserve days. -/

/-- **What a dispatch merges,** by its ledger: the entries are the tasks that end as merged, each
    with the whole series that was fetched for it; they alone change the store; and the report
    counts the days that the store gains. -/
structure Execution.Conserves {d : Dispatcher Store τ} {w : World Store τ} {items : List FetchItem}
    (e : Execution d w items) (metric : String) (log : List Entry) : Prop where
  nodup : (log.map Entry.task).Nodup
  isOf : ∀ x ∈ log, x.IsOf (d.admitted items) e.moves
  ended : ∀ k days, (∃ x ∈ log, x.task = k ∧ x.days = days)
    ↔ ∃ t, e.machine.tasks[k]? = some t ∧ t.phase = .ended (.merged days)
  merged : e.report.merged.Perm (log.map Entry.mergedItem)
  store : w.store.mergeAll metric (patches log) = .ok e.machine.store
  days : e.machine.store.dayCount = w.store.dayCount + e.report.daysAdded

theorem Execution.exists_conserves {d : Dispatcher Store τ} (hbackend : d.backend = Store.backend)
    {w : World Store τ} {metric : String} {items : List FetchItem}
    (hmetric : ∀ i ∈ items, i.metric = metric) (e : Execution d w items) :
    ∃ log, e.Conserves metric log := by
  have hrun := e.ran
  rw [hbackend] at hrun
  obtain ⟨log, hlog⟩ := exists_ledger (fun i hi => hmetric i (List.mem_of_mem_take hi)) hrun
  have hmerged : e.report.merged.Perm (log.map Entry.mergedItem) :=
    ((Ordered.perm_sortOn _ _).trans (e.joins.filterMap _)).trans
      (hlog.perm_merged e.isOver (unmarked_of_run e.ran))
  refine ⟨log, hlog.nodup, hlog.isOf, fun k days => ?_, hmerged, hlog.store, ?_⟩
  · rw [hlog.written k days]
    refine exists_congr fun t => and_congr_right fun ht => ?_
    exact written?_of_isOver (isOver_iff.1 e.isOver k t ht)
  · have hdays := (hmerged.map MergedItem.days).sum_eq
    rw [List.map_map] at hdays
    rw [← hlog.days, Report.daysAdded, ← List.sum_eq_foldl, hdays]
    rfl

/-- A dispatch with an item of another metric is refused, and changes nothing. -/
theorem Dispatcher.execute_of_foreign {σ : Type} (d : Dispatcher σ τ) (w : World σ τ)
    {metric : String} {items : List FetchItem} {i : FetchItem} (hi : i ∈ items)
    (hmetric : i.metric ≠ metric) : ∃ j ∈ items, j.metric ≠ metric
      ∧ d.execute w metric items = (.error (.foreignItem j metric), w) := by
  cases hfind : items.find? fun i => i.metric ≠ metric with
  | none => exact absurd hmetric (by simpa using List.find?_eq_none.1 hfind i hi)
  | some j =>
    refine ⟨j, List.mem_of_find?_eq_some hfind, by simpa using List.find?_some hfind, ?_⟩
    simp only [execute, budgeted, hfind]

/-- **Merges are all or nothing, and days are conserved.**  A dispatch of items of one metric
    comes to a report, and however its tasks are interleaved and answered, and whenever they are
    cancelled, it has a ledger.  A dispatch with an item of another metric changes nothing. -/
theorem Dispatcher.merges_whole_series (d : Dispatcher Store τ)
    (hbackend : d.backend = Store.backend) (w : World Store τ) (metric : String)
    (items : List FetchItem) :
    ((∀ i ∈ items, i.metric = metric) →
      (∃ (e : Execution d w items) (w' : World Store τ),
          d.execute w metric items = (.ok e.report, w') ∧ e.EndsIn w')
        ∧ ∀ e : Execution d w items, ∃ log, e.Conserves metric log)
      ∧ ∀ i ∈ items, i.metric ≠ metric → ∃ j ∈ items, j.metric ≠ metric
        ∧ d.execute w metric items = (.error (.foreignItem j metric), w) := by
  refine ⟨fun hmetric => ⟨d.execute_eq_execution w hmetric, fun e => ?_⟩, fun i hi hne => ?_⟩
  · exact e.exists_conserves hbackend hmetric
  · exact d.execute_of_foreign w hi hne

/-- The sample cube gains the days that are reported; for another metric nothing happens. -/
theorem Dispatcher.merges_wanted :
    (∃ report w', Planner.Sample.dispatcher.execute Planner.Sample.world "signups"
          Planner.Sample.wanted = (.ok report, w')
        ∧ w'.store.dayCount = Planner.Sample.world.store.dayCount + report.daysAdded)
      ∧ ∃ j, Planner.Sample.dispatcher.execute Planner.Sample.world "visits" Planner.Sample.wanted
        = (.error (.foreignItem j "visits"), Planner.Sample.world) := by
  constructor
  · obtain ⟨⟨e, w', hexecute, hends⟩, hconserves⟩ :=
      (Dispatcher.merges_whole_series Planner.Sample.dispatcher rfl Planner.Sample.world "signups"
        Planner.Sample.wanted).1 (by decide)
    obtain ⟨log, hlog⟩ := hconserves e
    refine ⟨e.report, w', hexecute, ?_⟩
    rw [hends.store]
    exact hlog.days
  · obtain ⟨j, _, _, hexecute⟩ :=
      (Dispatcher.merges_whole_series Planner.Sample.dispatcher rfl Planner.Sample.world "visits"
        Planner.Sample.wanted).2 _ List.mem_cons_self (by decide)
    exact ⟨j, hexecute⟩

end Fetch

end MetricCube
