/-
  MetricCube.Proofs.Rearrangement
  ───────────────────────────────
  **The order of cached slices does not matter.**  Every stage of planning goes
  through the slices in their order: the first match, the first repeated cell, the
  sum that starts from the first member.  Still, slices in another order lead to the
  same outcome (`alike_of_perm`), up to

    • the order of the items that are asked for,
    • the order of the shares that are disclosed, and
    • the cell that is named where several are ambiguous.

  Families are rearranged as the slices are, with the same keys in the same order.
  A grid depends on which members there are (`axis_of_perm`), and a sum on what they
  count (`SumOf.unique`), so verdicts on rearranged families are alike
  (`alike_verdict`), and so are the conclusions from alike findings.
-/
import Mathlib
import MetricCube.Proofs.Completion
import MetricCube.Proofs.Items

namespace MetricCube

/-! ## §1. Grids of rearranged members. -/

namespace Grid

variable {registry : Registry} {members members' : List Assignment} {keys : List String}

theorem axis_of_perm (h : members.Perm members') :
    axis registry members = axis registry members' := by
  funext key
  have hcarried : (members.map fun a => a.get? key).any Option.isNone
      = (members'.map fun a => a.get? key).any Option.isNone := (h.map _).any_eq
  have hshown : Ordered.distinct ((members.map fun a => a.get? key).filterMap id)
      = Ordered.distinct ((members'.map fun a => a.get? key).filterMap id) :=
    Ordered.distinct_of_perm ((h.map _).filterMap _)
  unfold axis
  simp only [hcarried, hshown]

theorem axesOf_of_perm (h : members.Perm members') :
    axesOf registry members keys = axesOf registry members' keys := by
  unfold axesOf
  rw [axis_of_perm h]

theorem allSuit_of_perm (h : members.Perm members') :
    AllSuit registry members keys ↔ AllSuit registry members' keys := by
  rw [← failuresOf_eq_nil_iff, ← failuresOf_eq_nil_iff, failuresOf, failuresOf, axis_of_perm h]

theorem missingOf_of_perm (h : members.Perm members') :
    missingOf registry members keys = missingOf registry members' keys := by
  unfold missingOf
  rw [axesOf_of_perm h]
  refine List.filter_congr fun cell _ => ?_
  rw [List.contains_eq_mem, List.contains_eq_mem]
  simp only [(h.map fun a => a.project keys).mem_iff]

end Grid

/-! ## §2. Sums of rearranged payloads. -/

theorem Series.eq_of_amountOn {s t : Series} (hdates : s.dates = t.dates)
    (h : s.amountOn = t.amountOn) : s = t := by
  have hs := s.holds_amountOn
  rw [hdates, h] at hs
  apply Series.ext_points
  -- A point is its date and its amount.
  refine List.map_injective_iff.2 ?_ (hs.trans t.holds_amountOn.symm)
  intro pt qt heq
  obtain ⟨hdate, hamount⟩ := Prod.mk.inj heq
  cases pt
  cases qt
  cases hdate
  cases Count.amount_injective hamount
  rfl

variable {slices slices' : List Slice}

theorem sumOf_of_perm (h : slices.Perm slices') {payload : Payload} (hsum : SumOf slices payload) :
    SumOf slices' payload := by
  cases payload with
  | daily sum =>
    refine ⟨fun s hs => hsum.1 s (h.mem_iff.2 hs), fun d => ?_⟩
    rw [hsum.2 d, (h.map _).sum_eq]
  | aggregate sum =>
    refine ⟨fun s hs => hsum.1 s (h.mem_iff.2 hs), ?_⟩
    rw [hsum.2, (h.map _).sum_eq]

/-- **A sum is determined by what the slices count.** -/
theorem SumOf.unique (hne : slices ≠ []) {p q : Payload} (hp : SumOf slices p)
    (hq : SumOf slices q) : p = q := by
  obtain ⟨s, hs⟩ := List.exists_mem_of_ne_nil _ hne
  -- One slice tells whether the sum is daily, and which days or which range it has.
  cases p with
  | daily sum =>
    obtain ⟨series, hseries, hdates⟩ := hp.1 s hs
    cases q with
    | daily other =>
      obtain ⟨series', hseries', hdates'⟩ := hq.1 s hs
      cases hseries.symm.trans hseries'
      refine congrArg _ (Series.eq_of_amountOn (hdates.symm.trans hdates') (funext fun d => ?_))
      rw [hp.2, hq.2]
    | aggregate other =>
      obtain ⟨w, hw, _⟩ := hq.1 s hs
      cases hseries.symm.trans hw
  | aggregate sum =>
    obtain ⟨w, hw, hrange⟩ := hp.1 s hs
    cases q with
    | daily other =>
      obtain ⟨series, hseries, _⟩ := hq.1 s hs
      cases hseries.symm.trans hw
    | aggregate other =>
      obtain ⟨w', hw', hrange'⟩ := hq.1 s hs
      cases hw.symm.trans hw'
      have hsame : sum.range = other.range := hrange.symm.trans hrange'
      have hcounts : sum.counts = other.counts :=
        Count.amount_injective (hp.2.trans hq.2.symm)
      cases sum
      cases other
      cases hsame
      cases hcounts
      rfl

/-- Rearranged payloads that both add up have the same sum. -/
theorem sumPayloads_of_perm (h : slices.Perm slices') {p q : Payload}
    (hp : sumPayloads slices = .ok p) (hq : sumPayloads slices' = .ok q) : p = q := by
  have hne : slices' ≠ [] := by
    intro hnil
    rw [hnil] at hq
    cases hq
  exact (sumOf_of_perm h (sumOf_of_sumPayloads hp)).unique hne (sumOf_of_sumPayloads hq)

/-! ## §3. Families and the exact slice. -/

theorem nodup_eraseDups {α : Type} [DecidableEq α] (as : List α) : as.eraseDups.Nodup := by
  -- What comes after the first member is shorter, since it leaves the first member out.
  induction hn : as.length using Nat.strong_induction_on generalizing as with
  | _ n ih =>
    cases as with
    | nil => exact List.nodup_nil
    | cons a rest =>
      rw [List.eraseDups_cons, List.nodup_cons]
      refine ⟨fun hmem => ?_, ih _ ?_ _ rfl⟩
      · rw [List.mem_eraseDups, List.mem_filter] at hmem
        simp at hmem
      · rw [← hn, List.length_cons]
        exact Nat.lt_succ_of_le (List.length_filter_le _ _)

theorem eraseDups_of_perm {α : Type} [DecidableEq α] {as bs : List α} (h : as.Perm bs) :
    as.eraseDups.Perm bs.eraseDups := by
  refine (List.perm_ext_iff_of_nodup (nodup_eraseDups as) (nodup_eraseDups bs)).2 fun a => ?_
  rw [List.mem_eraseDups, List.mem_eraseDups, h.mem_iff]

namespace Planner

variable {p : Planner} {req : Request} {usable usable' : List Slice}

theorem compatible_of_perm (h : slices.Perm slices') :
    (p.compatible slices req).Perm (p.compatible slices' req) := by
  rw [compatible_eq_filter, compatible_eq_filter]
  exact h.filter _

theorem keySets_of_perm (h : usable.Perm usable') : keySets req usable = keySets req usable' := by
  unfold keySets Family.candidates
  exact Ordered.distinct_of_perm ((h.filter _).map _)

/-- The one member of a list, if it has just one, is that of the list in any order. -/
theorem eq_or_several_of_perm {α : Type} {as bs : List α} (h : as.Perm bs) :
    as = bs ∨ (∃ a b rest, as = a :: b :: rest) ∧ ∃ a b rest, bs = a :: b :: rest := by
  match as, bs, h with
  | [], bs, h => exact .inl (List.nil_perm.1 h).symm
  | [a], bs, h => exact .inl h.singleton_eq
  | a :: b :: rest, [], h => exact absurd h.length_eq (by simp)
  | a :: b :: rest, [c], h => exact absurd h.length_eq (by simp)
  | a :: b :: rest, c :: d :: rest', h => exact .inr ⟨⟨a, b, rest, rfl⟩, c, d, rest', rfl⟩

/-- **The exact slice does not depend on the order:** it is the only one, or the only one with
    the current signature. -/
theorem exactChoice_of_perm (h : usable.Perm usable') :
    p.exactChoice usable req = p.exactChoice usable' req := by
  have hexact : (Family.exact Slice.assignment usable req.assignment).Perm
      (Family.exact Slice.assignment usable' req.assignment) := h.filter _
  unfold exactChoice
  rcases eq_or_several_of_perm hexact with heq | ⟨⟨s, t, rest, hs⟩, u, v, rest', hu⟩
  · rw [heq]
  · have hcurrent := hexact.filter fun s => s.signature = p.querySignature req
    have hlength := hexact.length_eq
    rw [hs, hu] at hcurrent hlength ⊢
    simp only [hlength]
    rcases eq_or_several_of_perm hcurrent with heq | ⟨⟨c, d, more, hc⟩, e, f, more', he⟩
    · rw [heq]
    · rw [hc, he]

/-! ## §4. Verdicts. -/

/-- A family with its members in another order. -/
structure Rearranges (family family' : Family Slice) : Prop where
  keys : family.keys = family'.keys
  members : family.members.Perm family'.members

theorem rearranges_familyAt (h : usable.Perm usable') (keys : List String) :
    Rearranges (familyAt req usable keys) (familyAt req usable' keys) :=
  ⟨rfl, h.filter _⟩

namespace Rearranges

variable {family family' : Family Slice}

theorem symm (h : Rearranges family family') : Rearranges family' family :=
  ⟨h.keys.symm, h.members.symm⟩

theorem assignments (h : Rearranges family family') :
    (assignmentsOf family).Perm (assignmentsOf family') :=
  h.members.map _

theorem noRepeat_iff (h : Rearranges family family') : NoRepeat family ↔ NoRepeat family' := by
  unfold NoRepeat
  rw [h.keys]
  exact (h.assignments.map _).nodup_iff

theorem suitable_iff (h : Rearranges family family') :
    p.Suitable family ↔ p.Suitable family' := by
  unfold Suitable
  rw [h.keys]
  exact Grid.allSuit_of_perm h.assignments

theorem missingCells_eq (h : Rearranges family family') :
    p.missingCells family = p.missingCells family' := by
  unfold missingCells
  rw [h.keys, Grid.missingOf_of_perm h.assignments]

theorem reductionOf_eq (h : Rearranges family family') (payload : Payload) :
    p.reductionOf family payload = p.reductionOf family' payload := by
  unfold reductionOf
  rw [h.keys, Grid.axesOf_of_perm h.assignments]

theorem lacking_perm (h : Rearranges family family') :
    (p.lacking req family).Perm (p.lacking req family') := by
  unfold lacking lackingItems
  rw [h.missingCells_eq]
  exact (List.Perm.refl _).append (h.members.flatMap_right _)

theorem shownMembers_perm (h : Rearranges family family') (range : DateRange) :
    (p.shownMembers range family).Perm (p.shownMembers range family') :=
  h.members.map _

theorem sharesOf_perm (h : Rearranges family family') (range : DateRange) :
    (p.sharesOf range family).Perm (p.sharesOf range family') :=
  eraseDups_of_perm (h.members.filterMap _)

theorem settled (h : Rearranges family family') (hs : p.Settled req family) :
    p.Settled req family' := by
  refine ⟨h.noRepeat_iff.1 hs.nodup, h.suitable_iff.1 hs.suits, ?_⟩
  have hlacking := @lacking_perm p req _ _ h
  rw [hs.nothing] at hlacking
  exact List.nil_perm.1 hlacking

theorem mixedCover (h : Rearranges family family') {range : DateRange}
    (hm : p.MixedCover range family.members) : p.MixedCover range family'.members := by
  obtain ⟨s, hs, hdaily⟩ := hm.daily
  obtain ⟨t, ht, hwindow⟩ := hm.window
  exact ⟨fun s hs => hm.covers s (h.members.mem_iff.2 hs), ⟨s, h.members.mem_iff.1 hs, hdaily⟩,
    t, h.members.mem_iff.1 ht, hwindow⟩

end Rearranges

end Planner

/-- The disclosure is about a share of a window. -/
def Disclosure.isProrated : Disclosure → Bool
  | .prorated _ _ => true
  | _ => false

namespace Planner

variable {p : Planner} {req : Request} {usable usable' : List Slice}

theorem isProrated_of_mem_sharesOf {range : DateRange} {family : Family Slice} {d : Disclosure}
    (h : d ∈ p.sharesOf range family) : d.isProrated = true := by
  obtain ⟨s, _, hd⟩ := mem_sharesOf.1 h
  cases hv : p.view range s.payload with
  | share counts cached =>
    rw [hv] at hd
    cases hd
    rfl
  | daily | window | gaps | beside =>
    rw [hv] at hd
    cases hd

/-- A sum left the counter range. -/
def Verdict.Overflows (v : Verdict) : Prop :=
  ∃ complete, v = .overflow complete

/-- Two verdicts that say the same but for the order of items and of shares, and for what they
    find wrong with the grid. -/
inductive Verdict.Alike : Verdict → Verdict → Prop where
  | repeated (cell cell' : Assignment) :
      Alike (.faulted false (.ambiguous cell)) (.faulted false (.ambiguous cell'))
  | mixed : Alike (.faulted true (.unsummable .mixedPayloads))
      (.faulted true (.unsummable .mixedPayloads))
  | unsuitable (failures failures' : List DimensionFailure) :
      Alike (.unsuitable failures) (.unsuitable failures')
  | wanting (cells gaps cells' gaps' : Nat) {items items' : List FetchItem} :
      items.Perm items' → Alike (.wanting cells gaps items) (.wanting cells' gaps' items')
  | blocked (obstacles obstacles' : List Obstacle) :
      Alike (.blocked obstacles) (.blocked obstacles')
  | complete (answer : Answer) {shares shares' : List Disclosure} :
      shares.Perm shares' → (∀ d ∈ shares, d.isProrated = true) →
      Alike (.complete answer shares) (.complete answer shares')
  | incomplete (answer : Answer) (dims : List String) (missing : Table (List String))
      {shares shares' : List Disclosure} :
      shares.Perm shares' → (∀ d ∈ shares, d.isProrated = true) →
      Alike (.incomplete answer (.incomplete dims missing :: shares))
        (.incomplete answer (.incomplete dims missing :: shares'))

/-- The verdict on members that add up. -/
def totalVerdict (p : Planner) (req : Request) (family : Family Slice) (payload : Payload) :
    Verdict :=
  match answerOf req.range payload with
  | .error _ => .overflow (some (p.reductionOf family payload).isComplete)
  | .ok answer =>
    if (p.reductionOf family payload).isComplete then
      .complete answer (p.sharesOf req.range family)
    else .incomplete answer
      (incompleteDisclosure (p.reductionOf family payload) :: p.sharesOf req.range family)

theorem alike_totalVerdict {family family' : Family Slice} (h : Rearranges family family')
    (payload : Payload) :
    (p.totalVerdict req family payload).Overflows
      ∨ (p.totalVerdict req family payload).Alike (p.totalVerdict req family' payload) := by
  unfold totalVerdict
  rw [h.reductionOf_eq]
  cases answerOf req.range payload with
  | error o => exact .inl ⟨_, rfl⟩
  | ok answer =>
    right
    have hshares := @Rearranges.sharesOf_perm p _ _ h req.range
    have hprorated : ∀ d ∈ p.sharesOf req.range family, d.isProrated = true := fun d hd =>
      isProrated_of_mem_sharesOf hd
    simp only
    split
    · exact .complete answer hshares hprorated
    · exact .incomplete answer _ _ hshares hprorated

/-- Rearranged members that nothing else is wrong with have alike sums, unless one overflows. -/
theorem alike_sumVerdict {query : Assignment} {family family' : Family Slice}
    (h : Rearranges family family') (hb : Belongs query family) (hb' : Belongs query family')
    (hs : p.Settled req family) :
    (p.sumVerdict req family).Overflows ∨ (p.sumVerdict req family').Overflows
      ∨ (p.sumVerdict req family).Alike (p.sumVerdict req family') := by
  have hs' := h.settled hs
  rw [sumVerdict_eq hs.covers, sumVerdict_eq hs'.covers, reduce_shownMembers hs.nodup hs.suits,
    reduce_shownMembers hs'.nodup hs'.suits]
  by_cases hgrid : 1 < family.keys.length ∧ p.missingCells family ≠ []
  · have hgrid' : 1 < family'.keys.length ∧ p.missingCells family' ≠ [] := by
      rwa [← h.keys, ← h.missingCells_eq]
    rw [if_pos hgrid, if_pos hgrid']
    exact .inr (.inr (.blocked _ _))
  · have hgrid' : ¬ (1 < family'.keys.length ∧ p.missingCells family' ≠ []) := by
      rwa [← h.keys, ← h.missingCells_eq]
    rw [if_neg hgrid, if_neg hgrid']
    -- A mixture stays one in any order; otherwise both add up, or one of them overflows.
    cases hsum : sumPayloads (p.shownMembers req.range family) with
    | error e =>
      rcases mixedCover_of_error hb.members hs.covers hsum with ⟨o, rfl⟩ | ⟨rfl, hmixed⟩
      · exact .inl ⟨_, rfl⟩
      · cases hsum' : sumPayloads (p.shownMembers req.range family') with
        | error e' =>
          rcases mixedCover_of_error hb'.members hs'.covers hsum' with ⟨o, rfl⟩ | ⟨rfl, _⟩
          · exact .inr (.inl ⟨_, rfl⟩)
          · exact .inr (.inr .mixed)
        | ok payload => exact absurd hsum' (h.mixedCover hmixed).not_ok
    | ok payload =>
      cases hsum' : sumPayloads (p.shownMembers req.range family') with
      | error e' =>
        rcases mixedCover_of_error hb'.members hs'.covers hsum' with ⟨o, rfl⟩ | ⟨rfl, hmixed⟩
        · exact .inr (.inl ⟨_, rfl⟩)
        · exact absurd hsum (h.symm.mixedCover hmixed).not_ok
      | ok payload' =>
        have hsame := sumPayloads_of_perm (h.shownMembers_perm req.range) hsum hsum'
        subst hsame
        rcases @alike_totalVerdict p req _ _ h payload with hover | halike
        · exact .inl hover
        · exact .inr (.inr halike)

/-- **Verdicts on rearranged families are alike,** unless one overflows. -/
theorem alike_verdict {query : Assignment} {family family' : Family Slice}
    (h : Rearranges family family') (hb : Belongs query family) (hb' : Belongs query family') :
    (p.verdict req family).Overflows ∨ (p.verdict req family').Overflows
      ∨ (p.verdict req family).Alike (p.verdict req family') := by
  -- The checks in the order of the verdict; each holds of both families or of neither.
  by_cases hnodup : NoRepeat family
  · have hnodup' := h.noRepeat_iff.1 hnodup
    by_cases hsuit : p.Suitable family
    · have hsuit' := h.suitable_iff.1 hsuit
      have hlacking := @Rearranges.lacking_perm p req _ _ h
      by_cases hnothing : p.lacking req family = []
      · have hnothing' : p.lacking req family' = [] := List.nil_perm.1 (hnothing ▸ hlacking)
        rw [verdict_eq_sumVerdict hb.keys hnodup hsuit hnothing,
          verdict_eq_sumVerdict hb'.keys hnodup' hsuit' hnothing']
        exact alike_sumVerdict h hb hb' ⟨hnodup, hsuit, hnothing⟩
      · have hnothing' : p.lacking req family' ≠ [] := by
          intro hnil
          rw [hnil] at hlacking
          exact hnothing (List.perm_nil.1 hlacking)
        obtain ⟨cells, gaps, hv⟩ := verdict_wanting hb.keys hnodup hsuit hnothing
        obtain ⟨cells', gaps', hv'⟩ := verdict_wanting hb'.keys hnodup' hsuit' hnothing'
        rw [hv, hv']
        exact .inr (.inr (.wanting _ _ _ _ hlacking))
    · obtain ⟨failures, hv⟩ := @verdict_unsuitable p req family hnodup hsuit
      obtain ⟨failures', hv'⟩ :=
        @verdict_unsuitable p req family' hnodup' fun hsuit' => hsuit (h.suitable_iff.2 hsuit')
      rw [hv, hv']
      exact .inr (.inr (.unsuitable _ _))
  · obtain ⟨cell, hv⟩ := @verdict_repeated p req family hnodup
    obtain ⟨cell', hv'⟩ :=
      @verdict_repeated p req family' fun hnodup' => hnodup (h.noRepeat_iff.2 hnodup')
    rw [hv, hv']
    exact .inr (.inr (.repeated _ _))

end Planner

/-! ## §5. Outcomes. -/

/-- Two outcomes that say the same but for the order of items and of shares, and for the cell
    that is named as ambiguous. -/
inductive Outcome.Alike : Outcome → Outcome → Prop where
  | satisfied (answer : Answer) {disclosures disclosures' : List Disclosure} :
      disclosures.Perm disclosures' →
      disclosures.filter (fun d => !d.isProrated) = disclosures'.filter (fun d => !d.isProrated) →
      Alike (.satisfied answer disclosures) (.satisfied answer disclosures')
  | needsFetch {items items' : List FetchItem} :
      items.Perm items' → Alike (.needsFetch items) (.needsFetch items')
  | ambiguous (cell cell' : Assignment) :
      Alike (.refused (.ambiguous cell)) (.refused (.ambiguous cell'))
  | refused (fault : PlanFault) : Alike (.refused fault) (.refused fault)

theorem Outcome.Alike.refl (o : Outcome) : o.Alike o := by
  cases o with
  | satisfied answer disclosures => exact .satisfied answer (List.Perm.refl _) rfl
  | needsFetch items => exact .needsFetch (List.Perm.refl _)
  | refused fault => exact .refused fault

namespace Planner

variable {p : Planner} {req : Request} {usable usable' : List Slice}

/-- Answers are alike if what goes before the shares is the same. -/
theorem alike_of_shares {answer : Answer} {d : Disclosure} {shares shares' : List Disclosure}
    (h : shares.Perm shares') (hall : ∀ e ∈ shares, e.isProrated = true) :
    (Outcome.satisfied answer (d :: shares)).Alike (.satisfied answer (d :: shares')) := by
  have hnone : ∀ {es : List Disclosure}, (∀ e ∈ es, e.isProrated = true) →
      es.filter (fun e => !e.isProrated) = [] := by
    intro es hes
    rw [List.filter_eq_nil_iff]
    intro e he
    simp [hes e he]
  refine .satisfied answer (h.cons d) ?_
  rw [List.filter_cons, List.filter_cons, hnone hall,
    hnone fun e he => hall e (h.mem_iff.2 he)]

/-- Findings on rearranged families. -/
structure Finding.Alike (f f' : Finding) : Prop where
  keys : f.keys = f'.keys
  verdict : f.verdict.Alike f'.verdict

theorem Finding.Alike.complete? {f f' : Finding} (h : f.Alike f') :
    Option.Rel (fun r r' => r.1 = r'.1 ∧ r.2.1 = r'.2.1 ∧ r.2.2.Perm r'.2.2
      ∧ ∀ d ∈ r.2.2, d.isProrated = true) f.complete? f'.complete? := by
  obtain ⟨keys, members, v⟩ := f
  obtain ⟨keys', members', v'⟩ := f'
  obtain ⟨rfl, hv⟩ := h
  cases hv with
  | complete answer hshares hall => exact .some ⟨rfl, rfl, hshares, hall⟩
  | repeated | mixed | unsuitable | wanting | blocked | incomplete => exact .none

theorem Finding.Alike.items? {f f' : Finding} (h : f.Alike f') :
    Option.Rel List.Perm f.items? f'.items? := by
  obtain ⟨keys, members, v⟩ := f
  obtain ⟨keys', members', v'⟩ := f'
  obtain ⟨rfl, hv⟩ := h
  cases hv with
  | wanting _ _ _ _ hitems => exact .some hitems
  | repeated | mixed | unsuitable | complete | blocked | incomplete => exact .none

theorem Finding.Alike.incomplete? {f f' : Finding} (h : f.Alike f') :
    Option.Rel (fun r r' => (Outcome.satisfied r.1 r.2).Alike (.satisfied r'.1 r'.2))
      f.incomplete? f'.incomplete? := by
  obtain ⟨keys, members, v⟩ := f
  obtain ⟨keys', members', v'⟩ := f'
  obtain ⟨rfl, hv⟩ := h
  cases hv with
  | incomplete answer dims missing hshares hall => exact .some (alike_of_shares hshares hall)
  | repeated | mixed | unsuitable | complete | blocked | wanting => exact .none

/-- The first results of related findings are related. -/
theorem findSome?_rel {α β : Type} {R : α → α → Prop} {S : β → β → Prop} {g : α → Option β}
    {as as' : List α} (h : List.Forall₂ R as as')
    (hg : ∀ a a', R a a' → Option.Rel S (g a) (g a')) :
    Option.Rel S (as.findSome? g) (as'.findSome? g) := by
  induction h with
  | nil => exact .none
  | @cons a a' _ _ ha _ ih =>
    have hfirst := hg a a' ha
    rw [List.findSome?_cons, List.findSome?_cons]
    generalize g a = found at hfirst ⊢
    generalize g a' = found' at hfirst ⊢
    cases hfirst with
    | some hs => exact .some hs
    | none => exact ih

theorem filterMap_rel {α β : Type} {R : α → α → Prop} {S : β → β → Prop} {g : α → Option β}
    {as as' : List α} (h : List.Forall₂ R as as')
    (hg : ∀ a a', R a a' → Option.Rel S (g a) (g a')) :
    List.Forall₂ S (as.filterMap g) (as'.filterMap g) := by
  induction h with
  | nil => exact .nil
  | @cons a a' _ _ ha _ ih =>
    have hfirst := hg a a' ha
    rw [List.filterMap_cons, List.filterMap_cons]
    generalize g a = found at hfirst ⊢
    generalize g a' = found' at hfirst ⊢
    cases hfirst with
    | some hs => exact .cons hs ih
    | none => exact ih

/-- Findings on rearranged families, one of which may overflow. -/
def Finding.Near (f f' : Finding) : Prop :=
  f.verdict.Overflows ∨ f'.verdict.Overflows ∨ f.Alike f'

theorem halt?_of_overflows {f : Finding} (h : f.verdict.Overflows) :
    f.halt? = some (.error .counts) := by
  obtain ⟨complete, hv⟩ := h
  simp only [Finding.halt?, hv]

/-- Alike findings end planning with alike refusals, or neither ends it. -/
theorem Finding.Alike.halt? {f f' : Finding} (h : f.Alike f') :
    (∃ fault fault', f.halt? = some (.ok fault) ∧ f'.halt? = some (.ok fault')
      ∧ (Outcome.refused fault).Alike (.refused fault')) ∨ f.halt? = none ∧ f'.halt? = none := by
  obtain ⟨keys, members, v⟩ := f
  obtain ⟨keys', members', v'⟩ := f'
  obtain ⟨rfl, hv⟩ := h
  cases hv with
  | repeated cell cell' => exact .inl ⟨_, _, rfl, rfl, .ambiguous cell cell'⟩
  | mixed => exact .inl ⟨_, _, rfl, rfl, .refused _⟩
  | unsuitable | wanting | blocked | complete | incomplete => exact .inr ⟨rfl, rfl⟩

/-- **Where neither overflows, planning ends with alike refusals, or all findings are alike.** -/
theorem alike_halts {fs fs' : List Finding} (h : List.Forall₂ Finding.Near fs fs')
    (hok : ∀ e, fs.findSome? Finding.halt? ≠ some (.error e))
    (hok' : ∀ e, fs'.findSome? Finding.halt? ≠ some (.error e)) :
    (∃ fault fault', fs.findSome? Finding.halt? = some (.ok fault)
        ∧ fs'.findSome? Finding.halt? = some (.ok fault')
        ∧ (Outcome.refused fault).Alike (.refused fault'))
      ∨ fs.findSome? Finding.halt? = none ∧ fs'.findSome? Finding.halt? = none
        ∧ List.Forall₂ Finding.Alike fs fs' := by
  induction h with
  | nil => exact .inr ⟨rfl, rfl, .nil⟩
  | @cons f f' _ _ hf _ ih =>
    rw [List.findSome?_cons] at hok hok' ⊢
    rw [List.findSome?_cons]
    rcases hf with hover | hover | halike
    · rw [halt?_of_overflows hover] at hok
      exact absurd rfl (hok _)
    · rw [halt?_of_overflows hover] at hok'
      exact absurd rfl (hok' _)
    · rcases halike.halt? with ⟨fault, fault', hf, hf', hfault⟩ | ⟨hf, hf'⟩
      · rw [hf, hf']
        exact .inl ⟨fault, fault', rfl, rfl, hfault⟩
      · rw [hf] at hok ⊢
        rw [hf'] at hok' ⊢
        rcases ih hok hok' with hrefused | ⟨hnone, hnone', hrest⟩
        · exact .inl hrefused
        · exact .inr ⟨hnone, hnone', .cons halike hrest⟩

/-! ## §6. Items. -/

/-- Items with one id are the same, so that dropping repeated ids only drops copies. -/
theorem dropRepeatedIds_of_perm {items items' : List FetchItem} (h : items.Perm items')
    (hids : ∀ i ∈ items, ∀ j ∈ items, i.id = j.id → i = j) :
    (dropRepeatedIds [] items).Perm (dropRepeatedIds [] items') := by
  have hnodup : ∀ is : List FetchItem, (dropRepeatedIds [] is).Nodup := by
    intro is
    refine (pairwise_ids_dropRepeatedIds is []).1.imp fun hne heq => ?_
    exact hne (congrArg FetchItem.id heq)
  have hmem : ∀ {is : List FetchItem}, is.Perm items → ∀ i, i ∈ dropRepeatedIds [] is ↔ i ∈ is := by
    intro is hperm i
    refine ⟨mem_of_dropRepeatedIds, fun hi => ?_⟩
    obtain ⟨j, hj, hid⟩ := @exists_id_dropRepeatedIds i is [] hi (by simp)
    have hji : j = i :=
      hids j (hperm.mem_iff.1 (mem_of_dropRepeatedIds hj)) i (hperm.mem_iff.1 hi) hid
    exact hji ▸ hj
  refine (List.perm_ext_iff_of_nodup (hnodup items) (hnodup items')).2 fun i => ?_
  rw [hmem (List.Perm.refl _), hmem h.symm, h.mem_iff]

theorem item_of_items? {items : List FetchItem} (hall : AllSatisfy req usable)
    (h : ((keySets req usable).map (p.findingAt req usable)).findSome? Finding.items? = some items)
    {i : FetchItem} (hi : i ∈ items) : i = p.item req i.assignment i.range := by
  obtain ⟨f, hf, hfound⟩ := List.exists_of_findSome?_eq_some h
  obtain ⟨keys, hkeys, rfl⟩ := List.mem_map.1 hf
  obtain ⟨cells, gaps, hv⟩ := verdictAt_of_items? hfound
  have hj : p.Judged req _ (p.verdictAt req usable keys) :=
    judged_verdict (belongs_familyAt hall hkeys)
  rw [hv] at hj
  cases hj
  rcases mem_lacking.1 hi with ⟨_, cell, _, rfl⟩ | ⟨s, _, r, _, rfl⟩
  · rfl
  · rfl

/-- Every planned item is the one that the planner makes for its assignment and range. -/
theorem item_of_planned {lacking : Option (List FetchItem)} (hall : AllSatisfy req usable)
    (hlacks : p.ExactLacks req usable lacking) {i : FetchItem}
    (hi : i ∈ p.plannedItems req usable) : i = p.item req i.assignment i.range := by
  rw [plannedItems_of_lacks hlacks] at hi
  cases hlacks with
  | wanting s older items _ hfinding =>
    rw [Option.some_or, Option.getD_some, (issued_of_exactFinding hfinding).1] at hi
    obtain ⟨r, _, rfl⟩ := List.mem_map.1 hi
    rfl
  | absent _ =>
    rw [Option.none_or] at hi
    cases hfound : ((keySets req usable).map (p.findingAt req usable)).findSome?
        Finding.items? with
    | some items =>
      rw [hfound, Option.getD_some] at hi
      exact item_of_items? hall hfound hi
    | none =>
      rw [hfound, Option.getD_none, List.mem_singleton] at hi
      rw [hi]
      rfl

theorem eq_of_collisionFree {lacking : Option (List FetchItem)} (hall : AllSatisfy req usable)
    (hlacks : p.ExactLacks req usable lacking)
    (hids : CollisionFree (p.plannedItems req usable)) :
    ∀ i ∈ p.plannedItems req usable, ∀ j ∈ p.plannedItems req usable, i.id = j.id → i = j := by
  intro i hi j hj hid
  obtain ⟨ha, hr⟩ := hids i hi j hj hid
  rw [item_of_planned hall hlacks hi, item_of_planned hall hlacks hj, ha, hr]

/-! ## §7. Plans over rearranged slices. -/

/-- What alike findings come to, given what the exact slice lacks. -/
theorem alike_conclusion {lacking : Option (List FetchItem)} {fs fs' : List Finding}
    (h : List.Forall₂ Finding.Alike fs fs') {whole : FetchItem}
    (hids : ∀ i ∈ (lacking.or (fs.findSome? Finding.items?)).getD [whole],
      ∀ j ∈ (lacking.or (fs.findSome? Finding.items?)).getD [whole], i.id = j.id → i = j) :
    ((conclusion? lacking fs).getD (fetch [whole])).Alike
      ((conclusion? lacking fs').getD (fetch [whole])) := by
  have hcomplete := filterMap_rel h fun _ _ => Finding.Alike.complete?
  have hitems : Option.Rel List.Perm (lacking.or (fs.findSome? Finding.items?))
      (lacking.or (fs'.findSome? Finding.items?)) := by
    cases lacking with
    | some items => exact .some (List.Perm.refl _)
    | none => exact findSome?_rel h fun _ _ => Finding.Alike.items?
  have hincomplete := findSome?_rel h fun _ _ => Finding.Alike.incomplete?
  unfold conclusion?
  generalize fs.filterMap Finding.complete? = found at hcomplete ⊢
  generalize fs'.filterMap Finding.complete? = found' at hcomplete ⊢
  -- A complete family goes before items, and items go before an incomplete family.
  cases hcomplete with
  | @cons r r' rest rest' hfirst hrest =>
    obtain ⟨keys, answer, shares⟩ := r
    obtain ⟨keys', answer', shares'⟩ := r'
    obtain ⟨hkeys, hanswer, hshares, hall⟩ := hfirst
    have hothers : (rest.map fun o => o.1) = rest'.map fun o => o.1 := by
      refine List.forall₂_eq_eq_eq ▸ ?_
      rw [List.forall₂_map_left_iff, List.forall₂_map_right_iff]
      exact hrest.imp fun _ _ hr => hr.1
    simp only at hkeys hanswer hshares hall
    subst hkeys
    subst hanswer
    simp only [hothers, Option.getD_some]
    exact alike_of_shares hshares hall
  | nil =>
    generalize lacking.or (fs.findSome? Finding.items?) = items at hitems hids ⊢
    generalize lacking.or (fs'.findSome? Finding.items?) = items' at hitems ⊢
    cases hitems with
    | some hperm => exact .needsFetch (dropRepeatedIds_of_perm hperm hids)
    | none =>
      generalize fs.findSome? Finding.incomplete? = partly at hincomplete ⊢
      generalize fs'.findSome? Finding.incomplete? = partly' at hincomplete ⊢
      cases hincomplete with
      | some halike => exact halike
      | none => exact Outcome.Alike.refl _

theorem near_findings (h : usable.Perm usable') (hall : AllSatisfy req usable)
    (hall' : AllSatisfy req usable') :
    List.Forall₂ Finding.Near ((keySets req usable).map (p.findingAt req usable))
      ((keySets req usable').map (p.findingAt req usable')) := by
  rw [← keySets_of_perm h, List.forall₂_map_left_iff, List.forall₂_map_right_iff,
    List.forall₂_same]
  intro keys hkeys
  have hkeys' : keys ∈ keySets req usable' := keySets_of_perm h ▸ hkeys
  rcases @alike_verdict p req _ _ _ (rearranges_familyAt h keys) (belongs_familyAt hall hkeys)
    (belongs_familyAt hall' hkeys') with hover | hover | halike
  · exact .inl hover
  · exact .inr (.inl hover)
  · exact .inr (.inr ⟨rfl, halike⟩)

/-- The families of rearranged slices lead to alike outcomes. -/
theorem alike_families {lacking : Option (List FetchItem)} (h : usable.Perm usable')
    (hall : AllSatisfy req usable) (hall' : AllSatisfy req usable')
    (hlacks : p.ExactLacks req usable lacking)
    (hids : CollisionFree (p.plannedItems req usable))
    (hok : ∀ e, p.familiesOutcome req usable lacking ≠ .error e)
    (hok' : ∀ e, p.familiesOutcome req usable' lacking ≠ .error e) :
    ∃ o o', p.familiesOutcome req usable lacking = .ok o
      ∧ p.familiesOutcome req usable' lacking = .ok o' ∧ o.Alike o' := by
  have hsame := eq_of_collisionFree hall hlacks hids
  rw [plannedItems_of_lacks hlacks] at hsame
  have hnear := @near_findings p req _ _ h hall hall'
  unfold familiesOutcome at hok hok' ⊢
  simp only at hok hok' ⊢
  generalize (keySets req usable).map (p.findingAt req usable) = fs at hok hsame hnear ⊢
  generalize (keySets req usable').map (p.findingAt req usable') = fs' at hok' hnear ⊢
  have hhalts := alike_halts hnear
    (fun e he => by rw [he] at hok; exact hok e rfl)
    (fun e he => by rw [he] at hok'; exact hok' e rfl)
  rcases hhalts with ⟨fault, fault', hhalt, hhalt', hfault⟩ | ⟨hnone, hnone', halike⟩
  · rw [hhalt, hhalt']
    exact ⟨_, _, rfl, rfl, hfault⟩
  · rw [hnone, hnone']
    exact ⟨_, _, rfl, rfl, alike_conclusion halike hsame⟩

/-- **Slices in another order lead to the same outcome,** up to the order of items and of
    shares, and up to the cell that is named as ambiguous; provided that neither plan overflows
    and that the planned items have different ids. -/
theorem alike_of_perm {slices slices' : List Slice} (h : slices.Perm slices')
    (hids : CollisionFree (p.plannedItems req (p.compatible slices req)))
    (hok : ∀ e, p.outcomeOf slices req ≠ .error e)
    (hok' : ∀ e, p.outcomeOf slices' req ≠ .error e) :
    ∃ o o', p.outcomeOf slices req = .ok o ∧ p.outcomeOf slices' req = .ok o' ∧ o.Alike o' := by
  have hall := @allSatisfy_compatible p req slices
  have hall' := @allSatisfy_compatible p req slices'
  have hperm := @compatible_of_perm slices slices' p req h
  have hchoice := @exactChoice_of_perm p req _ _ hperm
  rw [outcomeOf_eq] at hok hok' ⊢
  rw [outcomeOf_eq]
  unfold outcome at hok hok' ⊢
  rw [← hchoice] at hok' ⊢
  -- The exact choice is the same for both orders, so the two plans take the same way.
  cases hfound : p.exactChoice (p.compatible slices req) req with
  | ambiguous => exact ⟨_, _, rfl, rfl, .refl _⟩
  | absent =>
    rw [hfound] at hok hok'
    exact alike_families hperm hall hall' (.absent hfound) hids hok hok'
  | chosen s older =>
    simp only [hfound] at hok hok' ⊢
    cases hfinding : p.exactFinding req s with
    | answered answer disclosure => exact ⟨_, _, rfl, rfl, .refl _⟩
    | overflow =>
      rw [hfinding] at hok
      exact absurd rfl (hok _)
    | wanting items =>
      rw [hfinding] at hok hok'
      exact alike_families hperm hall hall' (.wanting s older items hfound hfinding) hids hok hok'

namespace Sample

/-- The second of three days, of each channel. -/
def middleDays : List Slice :=
  [slice "ads" (.single (.ofDays 2)), slice "mail" (.single (.ofDays 2))]

/-- The first and the last day of a channel. -/
def outerDays (value : String) : List FetchItem :=
  [planner.item request (only value) (.single (.ofDays 1)),
    planner.item request (only value) (.single (.ofDays 3))]

/-- What is asked for, in both orders. -/
theorem run_middleDays :
    planner.outcomeOf middleDays request
        = .ok (.needsFetch (outerDays "ads" ++ outerDays "mail"))
      ∧ planner.outcomeOf middleDays.reverse request
        = .ok (.needsFetch (outerDays "mail" ++ outerDays "ads"))
      ∧ ((planner.plannedItems request (planner.compatible middleDays request)).map
        FetchItem.id).Nodup := by
  decide +kernel

end Sample

/-- The same days are asked for, in the order of the slices. -/
theorem alike_middleDays :
    Sample.planner.outcomeOf Sample.middleDays Sample.request
        = .ok (.needsFetch (Sample.outerDays "ads" ++ Sample.outerDays "mail"))
      ∧ Sample.planner.outcomeOf Sample.middleDays.reverse Sample.request
        = .ok (.needsFetch (Sample.outerDays "mail" ++ Sample.outerDays "ads"))
      ∧ ∃ o o', Sample.planner.outcomeOf Sample.middleDays Sample.request = .ok o
        ∧ Sample.planner.outcomeOf Sample.middleDays.reverse Sample.request = .ok o'
        ∧ o.Alike o' := by
  obtain ⟨h, h', hids⟩ := Sample.run_middleDays
  refine ⟨h, h', alike_of_perm (List.reverse_perm _).symm ?_ ?_ ?_⟩
  · intro i hi j hj hid
    rw [List.inj_on_of_nodup_map hids hi hj hid]
    exact ⟨rfl, rfl⟩
  · intro e he
    cases h.symm.trans he
  · intro e he
    cases h'.symm.trans he

end Planner

end MetricCube
