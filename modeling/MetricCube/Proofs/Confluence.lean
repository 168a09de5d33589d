/-
  MetricCube.Proofs.Confluence
  ────────────────────────────
  **The order of daily merges does not matter.**  Merging keeps what is there, so in
  general the first of two patches wins.  Two patches that agree on the days that both
  bring to one slot can be swapped:

      (s ∪ t) ∪ u = (s ∪ u) ∪ t                              (`Series.merge_right_comm`)

  A store is seen as the map from metrics and slots to payloads, together with the
  number of days that were added so far (`Seen`).  A daily merge is a function on it
  (`learn`), two merges that agree commute (`learn_comm`), and so a whole list may be
  permuted.

  Main result: `confluent_merges`, for patches that agree, and for what is fetched
  for the items of one plan, which never share a day of a slot.
-/
import Mathlib
import MetricCube.Proofs.History
import MetricCube.Proofs.Items

namespace MetricCube

/-! ## §1. Series that agree. -/

namespace Series

/-- On the days that both have, the counts are the same. -/
def Agrees (t u : Series) : Prop :=
  ∀ day c c', t.get? day = some c → u.get? day = some c' → c = c'

/-- **Series that agree may be merged in either order.** -/
theorem merge_right_comm {t u : Series} (h : t.Agrees u) (s : Series) :
    (s.merge t).merge u = (s.merge u).merge t := by
  refine ext_get? fun day => ?_
  simp only [get?_merge, Option.or_assoc]
  congr 1
  cases ht : t.get? day with
  | none => simp
  | some c =>
    cases hu : u.get? day with
    | none => simp
    | some c' => rw [h day c c' ht hu]

end Series

/-- On the days that both bring to one slot of one metric, two merges have the same counts. -/
def Merging.Agrees (x y : Merging) : Prop :=
  ∀ metric slot t u, x.BringsTo metric slot t → y.BringsTo metric slot u → t.Agrees u

namespace Merging

instance : Std.Symm Agrees where
  symm := by
    intro x y h metric slot t u hy hx day c c' ht hu
    exact (h metric slot u t hx hy day c' c hu ht).symm

theorem agrees_self (x : Merging) : x.Agrees x := by
  rintro metric slot t u ⟨_, _, ht⟩ ⟨_, _, hu⟩ day c c' hc hc'
  rw [ht] at hu
  cases hu
  rw [hc] at hc'
  exact Option.some.inj hc'

end Merging

namespace Store

/-! ## §2. A daily merge, seen from outside. -/

/-- What every slot of every metric holds, and how many days were added. -/
abbrev Seen := (String → Slot → Option Payload) × ℕ

/-- What a daily merge changes of it. -/
def learn (z : Seen) (x : Merging) : Seen :=
  match x.patch.payload with
  | .aggregate _ => z
  | .daily t =>
    (fun metric slot =>
      if metric = x.metric ∧ slot = x.slot then some (.daily ((daysOf (z.1 metric slot)).merge t))
      else z.1 metric slot,
    z.2 + ((daysOf (z.1 x.metric x.slot)).newDays t).length)

theorem learn_daily {x : Merging} {t : Series} (h : x.patch.payload = .daily t) (z : Seen) :
    learn z x
      = (fun metric slot =>
          if metric = x.metric ∧ slot = x.slot
          then some (.daily ((daysOf (z.1 metric slot)).merge t)) else z.1 metric slot,
        z.2 + ((daysOf (z.1 x.metric x.slot)).newDays t).length) := by
  rw [learn, h]

/-- **Merges that agree commute.** -/
theorem learn_comm {x y : Merging} (h : x.Agrees y) (z : Seen) :
    learn (learn z x) y = learn (learn z y) x := by
  cases hx : x.patch.payload with
  | aggregate v =>
    have hskip : ∀ z, learn z x = z := fun z => by rw [learn, hx]
    rw [hskip, hskip]
  | daily t =>
    cases hy : y.patch.payload with
    | aggregate v =>
      have hskip : ∀ z, learn z y = z := fun z => by rw [learn, hy]
      rw [hskip, hskip]
    | daily u =>
      by_cases hsame : y.metric = x.metric ∧ y.slot = x.slot
      · -- One slot: the union is the same, and what is added is what the union has gained.
        obtain ⟨hmetric, hslot⟩ := hsame
        have hcomm := Series.merge_right_comm
          (h x.metric x.slot t u ⟨rfl, rfl, hx⟩ ⟨hmetric, hslot, hy⟩)
        simp only [learn_daily hx, learn_daily hy, hmetric, hslot]
        refine Prod.ext (funext fun metric => funext fun slot => ?_) ?_
        · by_cases hhere : metric = x.metric ∧ slot = x.slot
          · simp only [if_pos hhere, daysOf_daily, hcomm]
          · simp only [if_neg hhere]
        · have hsize := congrArg Series.size (hcomm (daysOf (z.1 x.metric x.slot)))
          simp only [Series.size_merge] at hsize
          simp only [and_self, if_true, daysOf_daily]
          omega
      · -- Two slots: neither merge reads what the other one writes.
        have hsame' : ¬ (x.metric = y.metric ∧ x.slot = y.slot) := fun hxy =>
          hsame ⟨hxy.1.symm, hxy.2.symm⟩
        simp only [learn_daily hx, learn_daily hy, if_neg hsame, if_neg hsame']
        refine Prod.ext (funext fun metric => funext fun slot => ?_) (Nat.add_right_comm ..)
        by_cases hhere : metric = x.metric ∧ slot = x.slot
        · obtain ⟨rfl, rfl⟩ := hhere
          simp only [and_self, if_true, if_neg hsame']
        · simp only [if_neg hhere]

/-! ## §3. A list of merges. -/

/-- Merges one after another, with the report of each; the first fault ends it. -/
def mergeEach (s : Store) : List Merging →
    Except InternalFault (List Series.MergeReport × Store)
  | [] => .ok ([], s)
  | x :: rest =>
    match s.merge x.metric x.patch with
    | .error fault => .error fault
    | .ok r =>
      match r.2.mergeEach rest with
      | .error fault => .error fault
      | .ok rs => .ok (r.1 :: rs.1, rs.2)

/-- The number of points that merges have added. -/
def totalAdded (reports : List Series.MergeReport) : Nat :=
  (reports.map Series.MergeReport.added).sum

theorem merge_daily (s : Store) {x : Merging} (hx : x.patch.payload.IsDaily) :
    ∃ report, s.merge x.metric x.patch = .ok (report, s.attempt x)
      ∧ ∀ n, learn (s.payloadAt?, n) x = ((s.attempt x).payloadAt?, n + report.added) := by
  obtain ⟨t, ht⟩ := hx
  obtain ⟨report, hmerge, hadded⟩ :=
    mergeHeld_days x.patch.assignment (s.payloadAt? x.metric x.slot) t
  rw [← ht] at hmerge
  have hattempt := attempt_of_ok hmerge
  refine ⟨report, ?_, fun n => ?_⟩
  · rw [merge_eq, mergeAt, hmerge, hattempt]
    rfl
  · rw [learn_daily ht, hadded, hattempt]
    refine Prod.ext (funext fun metric => funext fun slot => ?_) rfl
    by_cases hhere : metric = x.metric ∧ slot = x.slot
    · obtain ⟨rfl, rfl⟩ := hhere
      simp only [and_self, if_true, payloadAt?_putAt_self]
    · simp only [if_neg hhere, payloadAt?_putAt_of_ne s hhere]

/-- **Daily merges all succeed, and what is left is what was learned.** -/
theorem mergeEach_daily {xs : List Merging} (hxs : ∀ x ∈ xs, x.patch.payload.IsDaily) :
    ∀ s : Store, ∃ reports, s.mergeEach xs = .ok (reports, s.after xs)
      ∧ ∀ n, xs.foldl learn (s.payloadAt?, n)
          = ((s.after xs).payloadAt?, n + totalAdded reports) := by
  induction xs with
  | nil =>
    intro s
    exact ⟨[], rfl, fun n => rfl⟩
  | cons x xs ih =>
    intro s
    obtain ⟨report, hmerge, hlearn⟩ := s.merge_daily (hxs x List.mem_cons_self)
    obtain ⟨reports, hrest, hfold⟩ :=
      ih (fun y hy => hxs y (List.mem_cons_of_mem _ hy)) (s.attempt x)
    refine ⟨report :: reports, ?_, fun n => ?_⟩
    · unfold mergeEach
      simp only [hmerge, hrest]
      rfl
    · rw [List.foldl_cons, hlearn, hfold, after_cons, totalAdded, totalAdded, List.map_cons,
        List.sum_cons, Nat.add_assoc]

/-! ## §4. Every order. -/

/-- The merges succeed in every order; each leaves the same payloads, in slices that differ only
    in their order, and adds the same number of points. -/
def Confluent (s : Store) (xs : List Merging) : Prop :=
  ∃ reports s', s.mergeEach xs = .ok (reports, s') ∧ ∀ ys, xs.Perm ys →
    ∃ reports' s'', s.mergeEach ys = .ok (reports', s'')
      ∧ (∀ metric slot, s''.payloadAt? metric slot = s'.payloadAt? metric slot)
      ∧ (∀ metric, (s''.slices metric).Perm (s'.slices metric))
      ∧ totalAdded reports' = totalAdded reports

/-- With one slice in each slot, the slices are what the slots hold. -/
theorem mem_iff_payloadIn {slices : List Slice} (h : (slices.map Slice.slot).Nodup) {r : Slice} :
    r ∈ slices ↔ payloadIn r.slot slices = some r.payload := by
  rw [payloadIn, Option.map_eq_some_iff]
  constructor
  · intro hr
    have hsome : (slices.find? fun s => s.slot = r.slot).isSome = true :=
      List.find?_isSome.2 ⟨r, hr, by simp⟩
    obtain ⟨s, hs⟩ := Option.isSome_iff_exists.1 hsome
    have hslot : s.slot = r.slot := by simpa using List.find?_some hs
    refine ⟨s, hs, ?_⟩
    rw [List.inj_on_of_nodup_map h (List.mem_of_find?_eq_some hs) hr hslot]
  · rintro ⟨s, hs, hpayload⟩
    have hslot : s.slot = r.slot := by simpa using List.find?_some hs
    have hsr : s = r := by
      obtain ⟨a, p, signature⟩ := s
      obtain ⟨a', p', signature'⟩ := r
      cases hslot
      cases hpayload
      rfl
    exact hsr ▸ List.mem_of_find?_eq_some hs

theorem perm_of_payloadAt? {s s' : Store} {metric : String}
    (h : ((s.slices metric).map Slice.slot).Nodup) (h' : ((s'.slices metric).map Slice.slot).Nodup)
    (heq : ∀ slot, s.payloadAt? metric slot = s'.payloadAt? metric slot) :
    (s.slices metric).Perm (s'.slices metric) := by
  refine (List.perm_ext_iff_of_nodup (h.of_map _) (h'.of_map _)).2 fun r => ?_
  rw [mem_iff_payloadIn h, mem_iff_payloadIn h']
  exact Eq.congr_left (heq r.slot)

theorem confluent_of_agrees {s : Store} {xs : List Merging}
    (hunique : ∀ metric, ((s.slices metric).map Slice.slot).Nodup)
    (hxs : ∀ x ∈ xs, x.patch.payload.IsDaily) (hagree : xs.Pairwise Merging.Agrees) :
    s.Confluent xs := by
  obtain ⟨reports, hmerge, hfold⟩ := mergeEach_daily hxs s
  refine ⟨reports, s.after xs, hmerge, fun ys hperm => ?_⟩
  obtain ⟨reports', hmerge', hfold'⟩ :=
    mergeEach_daily (fun y hy => hxs y (hperm.symm.subset hy)) s
  -- Both orders learn the same.
  have hall : ∀ x ∈ xs, ∀ y ∈ xs, x.Agrees y :=
    hagree.forall_of_forall fun x _ => Merging.agrees_self x
  have hsame : ((s.after ys).payloadAt?, 0 + totalAdded reports')
      = ((s.after xs).payloadAt?, 0 + totalAdded reports) := by
    rw [← hfold, ← hfold']
    exact (hperm.foldl_eq' (fun x hx y hy z => learn_comm (hall x hx y hy) z) _).symm
  have hheld : ∀ metric slot,
      (s.after ys).payloadAt? metric slot = (s.after xs).payloadAt? metric slot :=
    fun metric slot => congrFun (congrFun (congrArg Prod.fst hsame) metric) slot
  refine ⟨reports', s.after ys, hmerge', hheld, fun metric => ?_, ?_⟩
  · exact perm_of_payloadAt? (nodup_after hunique metric) (nodup_after hunique metric)
      (hheld metric)
  · have hcount := congrArg Prod.snd hsame
    simpa using hcount

end Store

/-! ## §5. What is fetched for one plan. -/

/-- The merge of what was fetched for an item. -/
def Delivery.merging (d : Delivery) : Merging :=
  ⟨d.item.metric, d.patch⟩

/-- Series that were fetched for some of the items, for each of them once, and within its range. -/
structure Fetched (items : List FetchItem) (ds : List Delivery) : Prop where
  once : (ds.map Delivery.item).Subperm items
  within : ∀ d ∈ ds, ∀ day ∈ d.series.dates, d.item.range.contains day = true

theorem Delivery.agrees_of_clear {d e : Delivery} (hclear : Planner.Clear d.item e.item)
    (hd : ∀ day ∈ d.series.dates, d.item.range.contains day = true)
    (he : ∀ day ∈ e.series.dates, e.item.range.contains day = true) :
    d.merging.Agrees e.merging := by
  rintro metric slot t u ⟨_, hslot, ht⟩ ⟨_, hslot', hu⟩ day c c' hc hc'
  cases ht
  cases hu
  -- One slot means one assignment, whose ranges have no day in common.
  have hsame : d.item.assignment = e.item.assignment := congrArg Prod.fst (hslot.trans hslot'.symm)
  have hday := DateRange.contains_iff.1 (hd day (Series.mem_dates_iff.2 ⟨c, hc⟩))
  have hday' := DateRange.contains_iff.1 (he day (Series.mem_dates_iff.2 ⟨c', hc'⟩))
  have hapart := hclear hsame
  unfold DateRange.Apart DateRange.Before at hapart
  omega

/-- **What is fetched for one plan agrees.** -/
theorem Fetched.agrees {p : Planner} {req : Request} {slices : List Slice}
    {items : List FetchItem} {ds : List Delivery} (h : Fetched items ds)
    (hplan : p.outcomeOf slices req = .ok (.needsFetch items)) :
    (ds.map Delivery.merging).Pairwise Merging.Agrees := by
  have hall := @Planner.allSatisfy_compatible p req slices
  rw [Planner.outcomeOf_eq] at hplan
  obtain ⟨_, hclear⟩ := (Planner.asks_of_outcome hall hplan).warranted hall
  obtain ⟨kept, hperm, hsub⟩ := h.once
  have hitems : (ds.map Delivery.item).Pairwise Planner.Clear :=
    hperm.pairwise (hclear.sublist hsub) fun hij heq => (hij heq.symm).symm
  rw [List.pairwise_map] at hitems ⊢
  refine hitems.imp_of_mem ?_
  intro d e hd he hde
  exact Delivery.agrees_of_clear hde (h.within d hd) (h.within e he)

/-- **Daily patches may be merged in any order, if they agree on the days that they share;
    and those of one plan always do.** -/
theorem Store.confluent_merges (s : Store)
    (hunique : ∀ metric, ((s.slices metric).map Slice.slot).Nodup) :
    (∀ xs : List Merging, (∀ x ∈ xs, x.patch.payload.IsDaily) → xs.Pairwise Merging.Agrees →
        s.Confluent xs)
      ∧ ∀ (p : Planner) req slices items ds, p.outcomeOf slices req = .ok (.needsFetch items) →
          Fetched items ds → s.Confluent (ds.map Delivery.merging) := by
  refine ⟨fun xs hxs hagree => confluent_of_agrees hunique hxs hagree, ?_⟩
  intro p req slices items ds hplan hfetched
  refine confluent_of_agrees hunique ?_ (hfetched.agrees hplan)
  intro x hx
  obtain ⟨d, _, rfl⟩ := List.mem_map.1 hx
  exact ⟨d.series, rfl⟩

namespace Planner.Sample

/-- A window for one channel, and one day of the other. -/
def mixedStore : Store :=
  Store.empty.after
    [⟨"signups", ⟨only "mail", .aggregate ⟨days, .wrap 3 0⟩, planner.signatureFor "core" (only "mail")⟩⟩,
      ⟨"signups", slice "ads" (.single (.ofDays 2))⟩]

/-- Days of both channels; those of one channel overlap. -/
def overlapping : List Merging :=
  [⟨"signups", slice "mail" (.single (.ofDays 2))⟩, ⟨"signups", slice "ads" days⟩,
    ⟨"signups", slice "mail" days⟩]

/-- The days around the middle one, as the source would give them. -/
def fetchedAround : List Delivery :=
  aroundMiddle.map fun i => ⟨i, constant i.range (daily ((i.assignment.get? "channel").getD ""))⟩

theorem agrees_constant (r r' : DateRange) (c : Count) : (constant r c).Agrees (constant r' c) := by
  have hcount : ∀ r day c', (constant r c).get? day = some c' → c' = c := by
    intro r day c' h
    obtain ⟨d, _, heq⟩ := List.mem_map.1 (Series.get?_eq_some_iff.1 h)
    exact (congrArg Point.counts heq).symm
  intro day c₁ c₂ h₁ h₂
  rw [hcount r day c₁ h₁, hcount r' day c₂ h₂]

theorem agrees_slice (value : String) (r r' : DateRange) :
    Merging.Agrees ⟨"signups", slice value r⟩ ⟨"signups", slice value r'⟩ := by
  rintro metric slot t u ⟨_, _, ht⟩ ⟨_, _, hu⟩
  cases ht
  cases hu
  exact agrees_constant r r' _

theorem agrees_of_ne {x y : Merging} (h : x.slot ≠ y.slot) : x.Agrees y := by
  rintro metric slot t u ⟨_, hx, _⟩ ⟨_, hy, _⟩
  exact absurd (hx.trans hy.symm) h

theorem agrees_overlapping : overlapping.Pairwise Merging.Agrees := by
  have hne : (slice "mail" days).slot ≠ (slice "ads" days).slot := by decide +kernel
  refine List.Pairwise.cons ?_ (List.Pairwise.cons ?_ (List.pairwise_singleton _ _))
  · intro y hy
    simp only [List.mem_cons, List.not_mem_nil, or_false] at hy
    rcases hy with rfl | rfl
    · exact agrees_of_ne hne
    · exact agrees_slice "mail" _ _
  · intro y hy
    rw [List.mem_singleton.1 hy]
    exact agrees_of_ne hne.symm

theorem fetched_fetchedAround : Fetched aroundMiddle fetchedAround where
  once := by
    have hitems : fetchedAround.map Delivery.item = aroundMiddle := by
      rw [fetchedAround, List.map_map]
      exact List.map_id _
    rw [hitems]
  within := by
    intro d hd day hday
    obtain ⟨i, _, rfl⟩ := List.mem_map.1 hd
    rw [dates_constant] at hday
    exact DateRange.mem_days.1 hday

end Planner.Sample

/-- Over a window and a single day, overlapping patches add five days in every order, and so may
    the fetched days of a plan be merged in any order. -/
theorem Store.confluent_overlapping :
    (∀ metric, ((Planner.Sample.mixedStore.slices metric).map Slice.slot).Nodup)
      ∧ (Planner.Sample.mixedStore.mergeEach Planner.Sample.overlapping).toOption.map
          (fun r => totalAdded r.1) = some 5
      ∧ Planner.Sample.mixedStore.Confluent Planner.Sample.overlapping
      ∧ Planner.Sample.mixedStore.Confluent
          (Planner.Sample.fetchedAround.map Delivery.merging) := by
  have hunique : ∀ metric, ((Planner.Sample.mixedStore.slices metric).map Slice.slot).Nodup :=
    nodup_after fun metric => by simp [slices_empty]
  have hplan : Planner.Sample.planner.outcomeOf Planner.Sample.middleDay Planner.Sample.request
      = .ok (.needsFetch Planner.Sample.aroundMiddle) := by
    decide +kernel
  obtain ⟨hagreeing, hplanned⟩ := confluent_merges Planner.Sample.mixedStore hunique
  refine ⟨hunique, by decide +kernel, hagreeing _ ?_ Planner.Sample.agrees_overlapping,
    hplanned _ _ _ _ _ hplan Planner.Sample.fetched_fetchedAround⟩
  intro x hx
  simp only [Planner.Sample.overlapping, List.mem_cons, List.not_mem_nil, or_false] at hx
  rcases hx with rfl | rfl | rfl <;> exact ⟨_, rfl⟩

end MetricCube
