/-
  MetricCube.Proofs.History
  ─────────────────────────
  **What every history of merges keeps.**  A history is a list of merges, tried one
  after another on a store; a merge that fails leaves the store as it is (`after`).

  One merge is described once, by what its slot held and holds (`merge_eq`, `mergeAt`),
  and by what it cannot touch (`slices_attempt_of_ne`, `filter_attempt_of_ne`).  From it,
  by induction on what comes later:

    • a daily slice stays daily and keeps the count of every day it has
      (`daily_after`);
    • a window stays as it is until a daily patch takes its place (`window_after`);
    • repeating the last merge that succeeded changes nothing (`repeat_lastMerged?`).

  Main result: `lawful_after`, all of it for every history from the empty store.
-/
import Mathlib
import MetricCube.Proofs.Delivery

namespace MetricCube

/-- A patch and the metric that it is for. -/
structure Merging where
  metric : String
  patch : Slice

/-- Where a merge writes. -/
def Merging.slot (x : Merging) : Slot :=
  x.patch.slot

/-- The merge brings days to a slot of a metric. -/
def Merging.BringsTo (x : Merging) (metric : String) (slot : Slot) (t : Series) : Prop :=
  x.metric = metric ∧ x.slot = slot ∧ x.patch.payload = .daily t

namespace Store

/-! ## §1. Histories. -/

/-- What a metric holds in a slot. -/
def payloadAt? (s : Store) (metric : String) (slot : Slot) : Option Payload :=
  payloadIn slot (s.slices metric)

/-- The days that a slot holds; a window has none of its own. -/
def daysOf : Option Payload → Series
  | none => .empty
  | some (.aggregate _) => .empty
  | some (.daily s) => s

@[simp] theorem daysOf_daily (s : Series) : daysOf (some (.daily s)) = s := rfl

/-- The count that a metric holds in a slot for a day. -/
def countAt? (s : Store) (metric : String) (slot : Slot) (day : Date) : Option Count :=
  (daysOf (s.payloadAt? metric slot)).get? day

/-- The store after trying a merge. -/
def attempt (s : Store) (x : Merging) : Store :=
  match s.merge x.metric x.patch with
  | .ok r => r.2
  | .error _ => s

/-- The store after trying merges one after another. -/
def after (s : Store) (history : List Merging) : Store :=
  history.foldl attempt s

/-- The last merge of a history that succeeds. -/
def lastMerged? (s : Store) : List Merging → Option Merging
  | [] => none
  | x :: rest =>
    match s.merge x.metric x.patch with
    | .ok r => (r.2.lastMerged? rest).or (some x)
    | .error _ => s.lastMerged? rest

@[simp] theorem after_nil (s : Store) : s.after [] = s := rfl

@[simp] theorem after_cons (s : Store) (x : Merging) (rest : List Merging) :
    s.after (x :: rest) = (s.attempt x).after rest := rfl

theorem after_append (s : Store) (earlier later : List Merging) :
    s.after (earlier ++ later) = (s.after earlier).after later :=
  List.foldl_append

theorem after_concat (s : Store) (history : List Merging) (x : Merging) :
    s.after (history ++ [x]) = (s.after history).attempt x :=
  s.after_append history [x]

theorem slices_empty (metric : String) : empty.slices metric = [] := rfl

theorem slices_insert_of_ne (s : Store) {metric other : String} (h : other ≠ metric)
    (slices : List Slice) :
    (⟨s.metrics.insert metric slices⟩ : Store).slices other = s.slices other := by
  simp [Store.slices, h]

/-! ## §2. One merge. -/

/-- What a merge makes of what its slot holds. -/
def mergeAt (s : Store) (x : Merging) : Except InternalFault (Series.MergeReport × Payload) :=
  mergeHeld x.patch.assignment (s.payloadAt? x.metric x.slot) x.patch.payload

/-- The store with a payload put into a slot of a metric. -/
def putAt (s : Store) (metric : String) (slot : Slot) (p : Payload) : Store :=
  ⟨s.metrics.insert metric (put slot p (s.slices metric))⟩

/-- **A merge writes one slot of one metric.** -/
theorem merge_eq (s : Store) (x : Merging) :
    s.merge x.metric x.patch
      = (s.mergeAt x).map fun r => (r.1, s.putAt x.metric x.slot r.2) := by
  rw [merge, mergeSlices_eq]
  show Except.map _ (Except.map _ (s.mergeAt x)) = _
  cases s.mergeAt x <;> rfl

theorem merge_eq_error_iff {s : Store} {x : Merging} {fault : InternalFault} :
    s.merge x.metric x.patch = .error fault ↔ s.mergeAt x = .error fault := by
  rw [merge_eq]
  cases s.mergeAt x with
  | error e => simp [Except.map]
  | ok r => simp [Except.map]

theorem attempt_of_ok {s : Store} {x : Merging} {report : Series.MergeReport} {p : Payload}
    (h : s.mergeAt x = .ok (report, p)) : s.attempt x = s.putAt x.metric x.slot p := by
  rw [attempt, merge_eq, h]
  rfl

theorem attempt_of_error {s : Store} {x : Merging} {fault : InternalFault}
    (h : s.mergeAt x = .error fault) : s.attempt x = s := by
  rw [attempt, merge_eq, h]
  rfl

/-- A merge fails, or it puts a payload into its slot. -/
theorem attempt_cases (s : Store) (x : Merging) :
    (∃ fault, s.mergeAt x = .error fault ∧ s.attempt x = s)
      ∨ ∃ report p, s.mergeAt x = .ok (report, p) ∧ s.attempt x = s.putAt x.metric x.slot p := by
  cases h : s.mergeAt x with
  | error fault => exact .inl ⟨fault, rfl, attempt_of_error h⟩
  | ok r => exact .inr ⟨r.1, r.2, rfl, attempt_of_ok h⟩

theorem payloadAt?_putAt_self (s : Store) (metric : String) (slot : Slot) (p : Payload) :
    (s.putAt metric slot p).payloadAt? metric slot = some p := by
  rw [payloadAt?, putAt, slices_insert, payloadIn_put, if_pos rfl]

theorem payloadAt?_putAt_of_ne (s : Store) {metric other : String} {slot slot' : Slot}
    (h : ¬ (other = metric ∧ slot' = slot)) (p : Payload) :
    (s.putAt metric slot p).payloadAt? other slot' = s.payloadAt? other slot' := by
  rw [payloadAt?, payloadAt?, putAt]
  by_cases hmetric : other = metric
  · subst hmetric
    have hslot : slot' ≠ slot := fun hs => h ⟨rfl, hs⟩
    rw [slices_insert, payloadIn_put, if_neg hslot]
  · rw [slices_insert_of_ne s hmetric]

/-- Putting back what is held changes nothing. -/
theorem putAt_of_payloadAt? {s : Store} {metric : String} {slot : Slot} {p : Payload}
    (h : s.payloadAt? metric slot = some p) : s.putAt metric slot p = s := by
  have hput : put slot p (s.slices metric) = s.slices metric := put_of_payloadIn h
  have hkept : s.metrics.insert metric (s.slices metric) = s.metrics := by
    refine Table.ext_get? fun key => ?_
    rw [Table.get?_insert]
    split
    · rename_i hkey
      subst hkey
      -- Something is held, so the metric has an entry.
      cases hentry : s.metrics.get? key with
      | some held => simp [Store.slices, hentry]
      | none => simp [payloadAt?, Store.slices, hentry, payloadIn] at h
    · rfl
  rw [putAt, hput, hkept]

/-- Other metrics keep their slices. -/
theorem slices_attempt_of_ne (s : Store) (x : Merging) {metric : String} (h : metric ≠ x.metric) :
    (s.attempt x).slices metric = s.slices metric := by
  rcases s.attempt_cases x with ⟨_, _, hs⟩ | ⟨_, p, _, hs⟩
  · rw [hs]
  · rw [hs, putAt, slices_insert_of_ne s h]

/-- Slices in other slots are the same, in the same order. -/
theorem filter_attempt_of_ne (s : Store) (x : Merging) (metric : String) :
    (((s.attempt x).slices metric).filter fun r => r.slot ≠ x.slot)
      = (s.slices metric).filter fun r => r.slot ≠ x.slot := by
  by_cases hmetric : metric = x.metric
  · subst hmetric
    rcases s.attempt_cases x with ⟨_, _, hs⟩ | ⟨_, p, _, hs⟩
    · rw [hs]
    · rw [hs, putAt, slices_insert]
      let Q : Slot → Bool := fun slot => slot ≠ x.slot
      have hQ : Q x.slot = false := by simp [Q]
      exact filter_put_of_not hQ
  · rw [slices_attempt_of_ne s x hmetric]

/-- A daily patch is merged into the slices of its metric. -/
theorem slices_attempt_daily (s : Store) {x : Merging} {t : Series}
    (h : x.patch.payload = .daily t) :
    (s.attempt x).slices x.metric = mergeDaily x.slot t (s.slices x.metric) := by
  obtain ⟨report, hmerge⟩ :=
    mergeHeld_daily x.patch.assignment (s.payloadAt? x.metric x.slot) t
  rw [← h] at hmerge
  rw [attempt_of_ok hmerge, putAt, slices_insert, mergeDaily_eq]
  rfl

theorem payloadAt?_attempt_of_ne (s : Store) (x : Merging) {metric : String} {slot : Slot}
    (h : ¬ (metric = x.metric ∧ slot = x.slot)) :
    (s.attempt x).payloadAt? metric slot = s.payloadAt? metric slot := by
  rcases s.attempt_cases x with ⟨_, _, hs⟩ | ⟨_, p, _, hs⟩
  · rw [hs]
  · rw [hs, payloadAt?_putAt_of_ne s h]

/-- A merge keeps the slots of every metric distinct. -/
theorem nodup_attempt {s : Store} (h : ∀ metric, ((s.slices metric).map Slice.slot).Nodup)
    (x : Merging) (metric : String) : (((s.attempt x).slices metric).map Slice.slot).Nodup := by
  by_cases hmetric : metric = x.metric
  · subst hmetric
    rcases s.attempt_cases x with ⟨_, _, hs⟩ | ⟨_, p, _, hs⟩
    · rw [hs]
      exact h x.metric
    · rw [hs, putAt, slices_insert]
      exact nodup_put (h x.metric)
  · rw [slices_attempt_of_ne s x hmetric]
    exact h metric

/-! ## §3. What the patched slot holds. -/

/-- **A merge fails exactly on a window that meets days or a window with another range.** -/
theorem mergeHeld_eq_error_iff (owner : Assignment) (held : Option Payload) (patch : Payload) :
    (∃ fault, mergeHeld owner held patch = .error fault)
      ↔ ∃ v, patch = .aggregate v ∧ ((∃ u, held = some (.daily u))
          ∨ ∃ w, held = some (.aggregate w) ∧ w.range ≠ v.range) := by
  -- A daily patch always merges; a window does so in a free slot, or with an equal range.
  match held, patch with
  | none, patch =>
    constructor
    · rintro ⟨fault, h⟩
      cases h
    · rintro ⟨v, _, ⟨u, h⟩ | ⟨w, h, _⟩⟩ <;> cases h
  | some p, .daily t =>
    obtain ⟨report, hmerge⟩ := mergeHeld_daily owner (some p) t
    constructor
    · rintro ⟨fault, h⟩
      rw [hmerge] at h
      cases h
    · rintro ⟨v, h, _⟩
      cases h
  | some (.daily u), .aggregate v =>
    exact ⟨fun _ => ⟨v, rfl, .inl ⟨u, rfl⟩⟩, fun _ => ⟨_, rfl⟩⟩
  | some (.aggregate w), .aggregate v =>
    simp only [mergeHeld, mergePayload]
    by_cases hrange : w.range = v.range
    · rw [if_pos hrange]
      constructor
      · rintro ⟨fault, h⟩
        cases h
      · rintro ⟨v', hv, ⟨u, hu⟩ | ⟨w', hw, hne⟩⟩
        · cases hu
        · cases hv
          cases hw
          exact absurd hrange hne
    · rw [if_neg hrange]
      exact ⟨fun _ => ⟨v, rfl, .inr ⟨w, rfl, hrange⟩⟩, fun _ => ⟨_, rfl⟩⟩

/-- A window that is merged is new, or it finds its own range. -/
theorem mergeHeld_aggregate {owner : Assignment} {held : Option Payload} {v : Window}
    {report : Series.MergeReport} {p : Payload}
    (h : mergeHeld owner held (.aggregate v) = .ok (report, p)) :
    (held = none ∧ p = .aggregate v) ∨ ∃ w, held = some (.aggregate w) ∧ w.range = v.range
      ∧ p = .aggregate w := by
  match held with
  | none =>
    cases h
    exact .inl ⟨rfl, rfl⟩
  | some (.daily u) => cases h
  | some (.aggregate w) =>
    simp only [mergeHeld, mergePayload] at h
    split at h
    · rename_i hrange
      cases h
      exact .inr ⟨w, rfl, hrange, rfl⟩
    · cases h

/-- **Days are merged into those that are held, and the new ones are counted.** -/
theorem mergeHeld_days (owner : Assignment) (held : Option Payload) (t : Series) :
    ∃ report, mergeHeld owner held (.daily t) = .ok (report, .daily ((daysOf held).merge t))
      ∧ report.added = ((daysOf held).newDays t).length := by
  -- Without days before, all days of the patch are new.
  have hnew : (Series.empty.newDays t).length = t.size := by
    have hsize := Series.size_merge .empty t
    rw [Series.empty_merge] at hsize
    rw [hsize]
    exact (Nat.zero_add _).symm
  match held with
  | none => exact ⟨_, by rw [daysOf, Series.empty_merge]; rfl, hnew.symm⟩
  | some (.aggregate w) => exact ⟨_, by rw [daysOf, Series.empty_merge]; rfl, hnew.symm⟩
  | some (.daily s) => exact ⟨_, rfl, Series.added_mergeReport s t⟩

/-- What is held after a merge that succeeded is held again after the same merge, which then adds
    nothing. -/
theorem mergeHeld_again {owner : Assignment} {held : Option Payload} {patch p : Payload}
    {report : Series.MergeReport} (h : mergeHeld owner held patch = .ok (report, p)) :
    ∃ again, mergeHeld owner (some p) patch = .ok (again, p) ∧ again.added = 0 := by
  cases patch with
  | aggregate v =>
    have hagain : ∀ w : Window, w.range = v.range →
        mergeHeld owner (some (.aggregate w)) (.aggregate v) = .ok (⟨0, 1⟩, .aggregate w) := by
      intro w hrange
      simp only [mergeHeld, mergePayload, if_pos hrange]
    rcases mergeHeld_aggregate h with ⟨_, rfl⟩ | ⟨w, _, hrange, rfl⟩
    · exact ⟨_, hagain v rfl, rfl⟩
    · exact ⟨_, hagain w hrange, rfl⟩
  | daily t =>
    obtain ⟨_, hmerge, _⟩ := mergeHeld_days owner held t
    rw [hmerge] at h
    cases h
    -- Every day of the patch is there now, so that none is new.
    have hsame : ((daysOf held).merge t).merge t = (daysOf held).merge t := by
      refine Series.ext_get? fun day => ?_
      rw [Series.get?_merge, Series.get?_merge, Option.or_assoc, Option.or_self]
    refine ⟨_, by simp only [mergeHeld, mergePayload, hsame]; rfl, ?_⟩
    rw [Series.mergeReport, hsame]
    exact Nat.sub_self _

/-! ## §4. Later merges. -/

/-- A merge that succeeded can be repeated: it changes nothing and adds nothing. -/
theorem merge_again {s s' : Store} {x : Merging} {report : Series.MergeReport}
    (h : s.merge x.metric x.patch = .ok (report, s')) :
    ∃ again, s'.merge x.metric x.patch = .ok (again, s') ∧ again.added = 0 := by
  rw [merge_eq] at h
  cases hmerge : s.mergeAt x with
  | error fault =>
    rw [hmerge] at h
    cases h
  | ok r =>
    rw [hmerge] at h
    cases h
    obtain ⟨again, hagain, hadded⟩ := mergeHeld_again hmerge
    have hheld := s.payloadAt?_putAt_self x.metric x.slot r.2
    refine ⟨again, ?_, hadded⟩
    show (s.putAt x.metric x.slot r.2).merge x.metric x.patch = _
    rw [merge_eq, mergeAt, hheld, hagain]
    show Except.ok (again, (s.putAt x.metric x.slot r.2).putAt x.metric x.slot r.2) = _
    rw [putAt_of_payloadAt? hheld]

theorem after_of_lastMerged?_eq_none {history : List Merging} {s : Store}
    (h : s.lastMerged? history = none) : s.after history = s := by
  induction history with
  | nil => rfl
  | cons x rest ih =>
    unfold lastMerged? at h
    split at h
    · rw [Option.or_eq_none_iff] at h
      cases h.2
    · rename_i hfault
      have hs : s.attempt x = s := by
        unfold attempt
        rw [hfault]
      rw [after_cons, hs, ih h]

theorem repeat_lastMerged? {history : List Merging} : ∀ {s : Store} {x : Merging},
    s.lastMerged? history = some x → ∃ report,
      (s.after history).merge x.metric x.patch = .ok (report, s.after history)
        ∧ report.added = 0 := by
  induction history with
  | nil =>
    intro s x h
    cases h
  | cons y rest ih =>
    intro s x h
    unfold lastMerged? at h
    rw [after_cons]
    unfold attempt
    split at h
    · rename_i r hmerge
      show ∃ report, (r.2.after rest).merge x.metric x.patch = _ ∧ _
      cases hlast : r.2.lastMerged? rest with
      | some z =>
        rw [hlast, Option.some_or] at h
        cases h
        exact ih hlast
      | none =>
        -- All that came after `y` failed, so that the store is the one that `y` left.
        rw [hlast, Option.none_or] at h
        cases h
        rw [after_of_lastMerged?_eq_none hlast]
        exact merge_again hmerge
    · exact ih h

theorem nodup_after {history : List Merging} : ∀ {s : Store},
    (∀ metric, ((s.slices metric).map Slice.slot).Nodup) →
      ∀ metric, (((s.after history).slices metric).map Slice.slot).Nodup := by
  induction history with
  | nil =>
    intro s h
    exact h
  | cons x rest ih =>
    intro s h
    exact ih (nodup_attempt h x)

/-- Every count of the first series is the same in the second. -/
def Extends (u v : Series) : Prop :=
  ∀ day c, u.get? day = some c → v.get? day = some c

section Later

variable {s : Store} {metric : String} {slot : Slot}

theorem daily_attempt {u : Series} (h : s.payloadAt? metric slot = some (.daily u)) (x : Merging) :
    ∃ v, (s.attempt x).payloadAt? metric slot = some (.daily v) ∧ Extends u v := by
  by_cases hx : metric = x.metric ∧ slot = x.slot
  · obtain ⟨rfl, rfl⟩ := hx
    rcases s.attempt_cases x with ⟨_, _, hs⟩ | ⟨report, p, hmerge, hs⟩
    · rw [hs]
      exact ⟨u, h, fun _ _ hc => hc⟩
    · rw [hs, payloadAt?_putAt_self]
      rw [mergeAt, h] at hmerge
      -- A window is not merged into days, so the patch has days.
      cases hpatch : x.patch.payload with
      | aggregate w =>
        rw [hpatch] at hmerge
        cases hmerge
      | daily t =>
        rw [hpatch] at hmerge
        cases hmerge
        refine ⟨u.merge t, rfl, fun day c hc => ?_⟩
        rw [Series.get?_merge, hc, Option.some_or]
  · rw [payloadAt?_attempt_of_ne s x hx]
    exact ⟨u, h, fun _ _ hc => hc⟩

/-- **Days stay.** -/
theorem daily_after {later : List Merging} : ∀ {s : Store} {u : Series},
    s.payloadAt? metric slot = some (.daily u) →
      ∃ v, (s.after later).payloadAt? metric slot = some (.daily v) ∧ Extends u v := by
  induction later with
  | nil =>
    intro s u h
    exact ⟨u, h, fun _ _ hc => hc⟩
  | cons x rest ih =>
    intro s u h
    obtain ⟨v, hv, huv⟩ := daily_attempt h x
    obtain ⟨v', hv', hvv'⟩ := ih hv
    exact ⟨v', hv', fun day c hc => hvv' day c (huv day c hc)⟩

theorem window_attempt {w : Window} (h : s.payloadAt? metric slot = some (.aggregate w))
    (x : Merging) :
    (s.attempt x).payloadAt? metric slot = some (.aggregate w)
      ∨ ∃ t, x.BringsTo metric slot t
          ∧ (s.attempt x).payloadAt? metric slot = some (.daily t) := by
  by_cases hx : metric = x.metric ∧ slot = x.slot
  · obtain ⟨rfl, rfl⟩ := hx
    rcases s.attempt_cases x with ⟨_, _, hs⟩ | ⟨report, p, hmerge, hs⟩
    · rw [hs]
      exact .inl h
    · rw [hs, payloadAt?_putAt_self]
      rw [mergeAt, h] at hmerge
      -- A window is merged into an equal one only, and this one stays.
      cases hpatch : x.patch.payload with
      | aggregate v =>
        rw [hpatch] at hmerge
        rcases mergeHeld_aggregate hmerge with ⟨hnone, _⟩ | ⟨w', hw', _, rfl⟩
        · cases hnone
        · cases hw'
          exact .inl rfl
      | daily t =>
        rw [hpatch] at hmerge
        cases hmerge
        exact .inr ⟨t, ⟨rfl, rfl, hpatch⟩, rfl⟩
  · rw [payloadAt?_attempt_of_ne s x hx]
    exact .inl h

/-- **A window stays until days take its place.** -/
theorem window_after {w : Window} {later : List Merging} : ∀ {s : Store},
    s.payloadAt? metric slot = some (.aggregate w) →
      (s.after later).payloadAt? metric slot = some (.aggregate w)
        ∨ ∃ before x rest t, later = before ++ x :: rest ∧ x.BringsTo metric slot t
            ∧ (s.after before).payloadAt? metric slot = some (.aggregate w)
            ∧ (s.after (before ++ [x])).payloadAt? metric slot = some (.daily t) := by
  induction later with
  | nil =>
    intro s h
    exact .inl h
  | cons y later ih =>
    intro s h
    rcases window_attempt h y with hkept | ⟨t, hbrings, hdaily⟩
    · rcases ih hkept with hrest | ⟨before, x, rest, t, rfl, hbrings, hbefore, hthen⟩
      · exact .inl hrest
      · exact .inr ⟨y :: before, x, rest, t, rfl, hbrings, hbefore, hthen⟩
    · exact .inr ⟨[], y, later, t, rfl, hbrings, h, hdaily⟩

end Later

/-! ## §5. Every history. -/

/-- What holds after a history of merges from the empty store. -/
structure Lawful (history : List Merging) : Prop where
  /-- No metric has two slices in one slot. -/
  unique : ∀ metric, (((empty.after history).slices metric).map Slice.slot).Nodup
  /-- The days of a series ascend. -/
  ascending : ∀ metric, ∀ s ∈ (empty.after history).slices metric, ∀ u,
    s.payload = .daily u → u.dates.Pairwise (· < ·)
  /-- A daily slice stays daily, with the same count on each of its days. -/
  daily : ∀ later metric slot u,
    (empty.after history).payloadAt? metric slot = some (.daily u) →
      ∃ v, (empty.after (history ++ later)).payloadAt? metric slot = some (.daily v)
        ∧ Extends u v
  /-- A window stays as it is, unless a daily patch takes its place. -/
  window : ∀ later metric slot w,
    (empty.after history).payloadAt? metric slot = some (.aggregate w) →
      (empty.after (history ++ later)).payloadAt? metric slot = some (.aggregate w)
        ∨ ∃ before x rest t, later = before ++ x :: rest ∧ x.BringsTo metric slot t
            ∧ (empty.after (history ++ before)).payloadAt? metric slot = some (.aggregate w)
            ∧ (empty.after (history ++ before ++ [x])).payloadAt? metric slot = some (.daily t)
  /-- A patch to a free slot becomes what the slot holds. -/
  opened : ∀ x : Merging, (empty.after history).payloadAt? x.metric x.slot = none →
    (empty.after (history ++ [x])).payloadAt? x.metric x.slot = some x.patch.payload
  /-- A daily patch adds the days that the slot does not have. -/
  added : ∀ (x : Merging) t, x.patch.payload = .daily t →
    ∃ v, (empty.after (history ++ [x])).payloadAt? x.metric x.slot = some (.daily v)
      ∧ ∀ day, v.get? day
          = ((empty.after history).countAt? x.metric x.slot day).or (t.get? day)
  /-- The last merge that succeeded can be repeated: nothing changes and nothing is added. -/
  repeated : ∀ x, empty.lastMerged? history = some x → ∃ report,
    (empty.after history).merge x.metric x.patch = .ok (report, empty.after history)
      ∧ report.added = 0
  /-- Exactly the windows fail that meet days or a window with another range. -/
  fails_iff : ∀ x : Merging,
    (∃ fault, (empty.after history).merge x.metric x.patch = .error fault)
      ↔ ∃ v, x.patch.payload = .aggregate v
          ∧ ((∃ u, (empty.after history).payloadAt? x.metric x.slot = some (.daily u))
            ∨ ∃ w, (empty.after history).payloadAt? x.metric x.slot = some (.aggregate w)
                ∧ w.range ≠ v.range)
  /-- A merge that fails leaves the slices of every metric as they were. -/
  kept : ∀ (x : Merging) fault, (empty.after history).merge x.metric x.patch = .error fault →
    ∀ metric, (empty.after (history ++ [x])).slices metric = (empty.after history).slices metric
  /-- A merge does not touch other metrics. -/
  otherMetrics : ∀ (x : Merging) metric, metric ≠ x.metric →
    (empty.after (history ++ [x])).slices metric = (empty.after history).slices metric
  /-- Nor does it touch other slots. -/
  otherSlots : ∀ (x : Merging) metric,
    (((empty.after (history ++ [x])).slices metric).filter fun r => r.slot ≠ x.slot)
      = ((empty.after history).slices metric).filter fun r => r.slot ≠ x.slot

/-- **Every history of merges is lawful.** -/
theorem lawful_after (history : List Merging) : Lawful history where
  unique := nodup_after fun metric => by simp [slices_empty]
  ascending := fun _ _ _ u _ => u.ascending_dates
  daily := by
    intro later metric slot u h
    rw [after_append]
    exact daily_after h
  window := by
    intro later metric slot w h
    rw [after_append]
    rcases window_after h with hkept | ⟨before, x, rest, t, hlater, hbrings, hbefore, hthen⟩
    · exact .inl hkept
    · rw [← after_append] at hbefore hthen
      rw [← List.append_assoc] at hthen
      exact .inr ⟨before, x, rest, t, hlater, hbrings, hbefore, hthen⟩
  opened := by
    intro x h
    have hmerge : (empty.after history).mergeAt x
        = .ok (⟨newPoints x.patch.payload, 0⟩, x.patch.payload) := by
      rw [mergeAt, h]
      rfl
    rw [after_concat, attempt_of_ok hmerge, payloadAt?_putAt_self]
  added := by
    intro x t ht
    obtain ⟨report, hmerge, _⟩ := mergeHeld_days x.patch.assignment
      ((empty.after history).payloadAt? x.metric x.slot) t
    rw [← ht] at hmerge
    rw [after_concat, attempt_of_ok hmerge, payloadAt?_putAt_self]
    exact ⟨_, rfl, fun day => Series.get?_merge ..⟩
  repeated := fun x h => repeat_lastMerged? h
  fails_iff := by
    intro x
    have hiff := mergeHeld_eq_error_iff x.patch.assignment
      ((empty.after history).payloadAt? x.metric x.slot) x.patch.payload
    rw [← hiff]
    exact exists_congr fun fault => merge_eq_error_iff
  kept := by
    intro x fault h metric
    rw [after_concat, attempt_of_error (merge_eq_error_iff.1 h)]
  otherMetrics := by
    intro x metric h
    rw [after_concat, slices_attempt_of_ne _ x h]
  otherSlots := by
    intro x metric
    rw [after_concat, filter_attempt_of_ne]

end Store

end MetricCube
