/-
  MetricCube.Proofs.Disclosure
  ────────────────────────────
  **Partial answers disclose what they lack.**  An answer that says which values it
  lacks comes from the first family that is incomplete (`answering?`).  What it
  leaves out is of one of two kinds (`lack_of_partial_answer`):

    • values of open-ended keys, which no answer can list, or
    • values of one exhaustive key, the only one of the family, which were not to be
      fetched.

  A grid of two or more keys with a missing cell is not summed at all, and without
  missing cells every exhaustive key is complete: so nothing else is left.

  In the second case the disclosure is exact.  The answer and the true totals of the
  values that it names add up to the true total of the request:

      answer + Σ v ∈ missing, T (request with key = v)  =  T request
-/
import Mathlib
import MetricCube.Proofs.Soundness

namespace MetricCube

/-- The key is defined, and there may be further values of it. -/
def Registry.IsOpen (r : Registry) (key : String) : Prop :=
  ∃ d, r.find? key = some d ∧ d.policy = .openEnded

theorem Policy.isExhaustive_iff {policy : Policy} :
    policy.isExhaustive = true ↔ policy ≠ .openEnded := by
  cases policy <;> simp [isExhaustive]

namespace Planner

variable {p : Planner} {req : Request} {usable : List Slice} {T : Truth}

/-! ## §1. The family that answers. -/

/-- The first family that is incomplete. -/
def answering? (p : Planner) (slices : List Slice) (req : Request) : Option (Family Slice) :=
  (Family.partition Slice.assignment (p.compatible slices req) req.assignment).find? fun family =>
    (p.judge req family).incomplete?.isSome

/-- The exact slice is a whole answer, or a share of a window. -/
theorem ne_incomplete_of_exactFinding {s : Slice} {answer : Answer} {disclosure : Disclosure}
    (h : p.exactFinding req s = .answered answer disclosure) (dims : List String)
    (missing : Table (List String)) : disclosure ≠ .incomplete dims missing := by
  obtain ⟨_, _, _, hdisclosure⟩ := answerOf_of_exactFinding h
  rw [← hdisclosure]
  cases p.view req.range s.payload <;> exact fun heq => nomatch heq

/-- Shares of windows do not speak of values. -/
theorem ne_incomplete_of_mem_sharesOf {range : DateRange} {family : Family Slice}
    {d : Disclosure} (h : d ∈ p.sharesOf range family) (dims : List String)
    (missing : Table (List String)) : d ≠ .incomplete dims missing := by
  obtain ⟨s, _, hd⟩ := mem_sharesOf.1 h
  cases hv : p.view range s.payload with
  | share counts cached =>
    rw [hv] at hd
    cases hd
    exact fun heq => nomatch heq
  | daily | window | gaps | beside =>
    rw [hv] at hd
    cases hd

/-- A complete family discloses shares of windows only. -/
theorem ne_incomplete_of_complete {keys : List String} {answer : Answer}
    {shares : List Disclosure} {d : Disclosure} (hall : AllSatisfy req usable)
    (hkeys : keys ∈ keySets req usable)
    (h : p.verdictAt req usable keys = .complete answer shares) (hd : d ∈ shares)
    (dims : List String) (missing : Table (List String)) : d ≠ .incomplete dims missing := by
  have hj : p.Judged req _ (p.verdictAt req usable keys) :=
    judged_verdict (belongs_familyAt hall hkeys)
  rw [h] at hj
  cases hj
  exact ne_incomplete_of_mem_sharesOf hd dims missing

/-- An answer that speaks of missing values is that of the first incomplete finding. -/
theorem findSome?_incomplete_of_outcome {answer : Answer} {disclosures : List Disclosure}
    {dims : List String} {missing : Table (List String)} (hall : AllSatisfy req usable)
    (h : p.outcome req usable = .ok (.satisfied answer disclosures))
    (hmem : Disclosure.incomplete dims missing ∈ disclosures) :
    ((keySets req usable).map (p.findingAt req usable)).findSome? Finding.incomplete?
      = some (answer, disclosures) := by
  cases answers_of_outcome h with
  | exact s _ disclosure hfinding =>
    exact absurd (List.mem_singleton.1 hmem).symm
      (ne_incomplete_of_exactFinding hfinding dims missing)
  | complete keys _ shares others _ hkeys hv =>
    rcases List.mem_cons.1 hmem with heq | hshare
    · cases heq
    · exact absurd rfl (ne_incomplete_of_complete hall hkeys hv hshare dims missing)
  | incomplete _ _ _ _ _ hfirst => exact hfirst

/-- **An answer that speaks of missing values is that of the first incomplete family.** -/
theorem exists_answering {slices : List Slice} {answer : Answer} {disclosures : List Disclosure}
    {dims : List String} {missing : Table (List String)}
    (h : p.outcomeOf slices req = .ok (.satisfied answer disclosures))
    (hmem : Disclosure.incomplete dims missing ∈ disclosures) :
    ∃ family, p.answering? slices req = some family
      ∧ (p.judge req family).incomplete? = some (answer, disclosures)
      ∧ Belongs req.assignment family
      ∧ (∀ s ∈ family.members, s ∈ p.compatible slices req)
      ∧ p.verdict req family = .incomplete answer disclosures := by
  have hall := @allSatisfy_compatible p req slices
  rw [outcomeOf_eq] at h
  have hfirst := findSome?_incomplete_of_outcome hall h hmem
  rw [← map_judge hall, List.findSome?_map] at hfirst
  obtain ⟨before, family, after, hsplit, hfound, hbefore⟩ := List.findSome?_eq_some_iff.1 hfirst
  -- The family is found at the place of the first finding that is incomplete.
  have hanswering : p.answering? slices req = some family := by
    rw [answering?, List.find?_eq_some_iff_append]
    refine ⟨?_, before, after, hsplit, fun f hf => ?_⟩
    · rw [Function.comp_apply] at hfound
      rw [hfound]
      rfl
    · have hnone := hbefore f hf
      rw [Function.comp_apply] at hnone
      rw [hnone]
      rfl
  have hfamily : family ∈ Family.partition Slice.assignment (p.compatible slices req)
      req.assignment := List.mem_of_find?_eq_some hanswering
  rw [partition_eq_map hall] at hfamily
  obtain ⟨keys, hkeys, rfl⟩ := List.mem_map.1 hfamily
  refine ⟨_, hanswering, hfound, belongs_familyAt hall hkeys,
    fun s hs => (mem_familyAt.1 hs).1, ?_⟩
  rw [Function.comp_apply, judge, isolate_familyAt hall hkeys] at hfound
  exact verdictAt_of_incomplete? hfound

/-! ## §2. What an incomplete family lacks. -/

variable {family : Family Slice} {answer : Answer} {disclosures : List Disclosure}

/-- An incomplete family of two or more keys has no missing cell. -/
theorem missingCells_of_incomplete {query : Assignment} (hb : Belongs query family)
    (hsettled : p.Settled req family)
    (h : p.verdict req family = .incomplete answer disclosures) :
    ¬ (1 < family.keys.length ∧ p.missingCells family ≠ []) := by
  intro hgrid
  rw [verdict_eq_sumVerdict hb.keys hsettled.nodup hsettled.suits hsettled.nothing,
    sumVerdict_eq hsettled.covers, reduce_shownMembers hsettled.nodup hsettled.suits,
    if_pos hgrid] at h
  cases h

/-- The keys that a reduction is partial in are those that the members do not complete. -/
theorem mem_partials {payload : Payload} {key : String} :
    key ∈ (p.reductionOf family payload).partials.map DimensionStatus.key
      ↔ key ∈ family.keys ∧ ∃ d, Grid.Suits p.registry (assignmentsOf family) key d
        ∧ ¬ (d.policy.isExhaustive = true
          ∧ ∀ v ∈ d.expected, v ∈ Grid.shown (assignmentsOf family) key) := by
  simp only [Reduction.partials, reductionOf, List.mem_map, List.mem_filter, Bool.not_eq_true']
  constructor
  · rintro ⟨status, ⟨⟨ax, hax, rfl⟩, hpartial⟩, rfl⟩
    obtain ⟨key, hkey, d, hd, rfl⟩ := Grid.mem_axesOf.1 hax
    refine ⟨hkey, d, hd, fun hcomplete => ?_⟩
    have htrue := Grid.isComplete_axisOf.2 hcomplete
    exact Bool.false_ne_true (hpartial.symm.trans htrue)
  · rintro ⟨hkey, d, hd, hpartial⟩
    refine ⟨_, ⟨⟨_, Grid.mem_axesOf.2 ⟨key, hkey, d, hd, rfl⟩, rfl⟩, ?_⟩, rfl⟩
    exact Bool.eq_false_iff.2 fun hcomplete => hpartial (Grid.isComplete_axisOf.1 hcomplete)

theorem partials_ne_nil {r : Reduction} (h : r.isComplete = false) :
    r.partials.map DimensionStatus.key ≠ [] := by
  intro hnil
  rw [List.map_eq_nil_iff, Reduction.partials, List.filter_eq_nil_iff] at hnil
  have hcomplete : r.isComplete = true := by
    refine List.all_eq_true.2 fun status hstatus => ?_
    simpa using hnil status hstatus
  rw [h] at hcomplete
  cases hcomplete

/-- **A family that is partial in an exhaustive key has no other key,** and its missing values
    are not to be fetched. -/
theorem single_of_partial {payload : Payload} {query : Assignment} (hmade : p.registry.Made)
    (hb : Belongs query family) (hsettled : p.Settled req family)
    (hgrid : ¬ (1 < family.keys.length ∧ p.missingCells family ≠ [])) {key : String}
    (hkey : key ∈ (p.reductionOf family payload).partials.map DimensionStatus.key)
    {d : Definition} (hd : p.registry.find? key = some d)
    (hexh : d.policy.isExhaustive = true) :
    family.keys = [key] ∧ p.settings.fetchMissingValues = false := by
  obtain ⟨hmem, e, he, hpartial⟩ := mem_partials.1 hkey
  have hed : e = d := Option.some.inj (he.defined.symm.trans hd)
  subst hed
  -- A value that nobody shows leaves a cell missing.
  have hmissing : p.missingCells family ≠ [] := fun hnone =>
    hpartial ⟨hexh, shown_of_missingCells hb hmade hsettled.suits hnone hmem he hexh⟩
  constructor
  · have hlength : family.keys.length ≤ 1 := by
      by_contra hlong
      exact hgrid ⟨by omega, hmissing⟩
    obtain ⟨only, hone⟩ := List.length_eq_one_iff.1
      (le_antisymm hlength (List.length_pos_iff.2 hb.keys))
    rw [hone, List.mem_singleton] at hmem
    rw [hone, hmem]
  · rw [← Bool.not_eq_true]
    intro hfetch
    exact hmissing ((lacking_eq_nil_iff.1 hsettled.nothing).1 hfetch)

/-! ## §3. Families of one key. -/

section Single

variable {key : String} {d : Definition}

theorem axesOf_single (hd : Grid.Suits p.registry (assignmentsOf family) key d) :
    Grid.axesOf p.registry (assignmentsOf family) [key]
      = [Grid.axisOf (assignmentsOf family) key d] := by
  have hax := Grid.axis_eq_ok_iff.2 ⟨d, hd, rfl⟩
  simp only [Grid.axesOf, List.map_cons, List.map_nil, List.filterMap_cons, hax,
    Except.toOption, List.filterMap_nil]

/-- The expected values that no member has. -/
theorem mem_lackingValues {v : String} :
    v ∈ Grid.lackingValues (assignmentsOf family) key d
      ↔ v ∈ d.expected ∧ ∀ s ∈ family.members, s.assignment.get? key ≠ some v := by
  simp only [Grid.lackingValues, List.mem_filter, List.contains_eq_mem, Bool.not_eq_true',
    decide_eq_false_iff_not, Grid.mem_shown, assignmentsOf, List.mem_map, exists_exists_and_eq_and,
    not_exists, not_and, ne_eq]

/-- What is disclosed about a family that is partial in its only key. -/
theorem incompleteDisclosure_single {payload : Payload} (hone : family.keys = [key])
    (hd : Grid.Suits p.registry (assignmentsOf family) key d)
    (hpartial : (p.reductionOf family payload).isComplete = false) :
    incompleteDisclosure (p.reductionOf family payload)
      = .incomplete [key]
          (Table.ofPairs [(key, Grid.lackingValues (assignmentsOf family) key d)]) := by
  have haxes : (p.reductionOf family payload).dimensions
      = [(Grid.axisOf (assignmentsOf family) key d).status] := by
    rw [reductionOf, hone, axesOf_single hd]
    rfl
  unfold Reduction.isComplete at hpartial
  rw [haxes, List.all_cons, List.all_nil, Bool.and_true] at hpartial
  -- An only axis that is not complete is one that lacks values.
  have hstatus : (Grid.axisOf (assignmentsOf family) key d).status.status
      = .lacking (Grid.lackingValues (assignmentsOf family) key d) := by
    unfold Grid.axisOf at hpartial ⊢
    simp only at hpartial ⊢
    split at hpartial
    · cases hpartial
    · rename_i hnot
      rw [if_neg hnot]
  have hpartials : (p.reductionOf family payload).partials
      = [(Grid.axisOf (assignmentsOf family) key d).status] := by
    rw [Reduction.partials, haxes, List.filter_cons, hpartial]
    rfl
  unfold incompleteDisclosure
  simp only [hpartials, List.filterMap_cons, hstatus, List.filterMap_nil, List.map_cons,
    List.map_nil]
  rfl

/-- The missing cells of a grid of one key are those of the lacking values. -/
theorem missingCells_single (hmade : p.registry.Made) (hone : family.keys = [key])
    (hfold : Text.foldKey key = key) (hd : Grid.Suits p.registry (assignmentsOf family) key d)
    (hexh : d.policy.isExhaustive = true) :
    p.missingCells family
      = (Grid.lackingValues (assignmentsOf family) key d).map fun v =>
          Assignment.empty.insert key v := by
  have hproduct : Grid.product (Grid.axesOf p.registry (assignmentsOf family) [key])
      = d.expected.map fun v => Assignment.empty.insert key v := by
    rw [axesOf_single hd, ← Grid.values_axisOf hexh]
    exact List.append_nil _
  unfold missingCells Grid.missingOf Grid.lackingValues
  rw [hone, hproduct, List.filter_map]
  refine congrArg _ (List.filter_congr fun v hv => ?_)
  have htrim := (hmade key d hd.defined).trim_expected v hv
  -- A member holds the cell of a value when it shows the value.
  rw [Function.comp_apply, Bool.eq_iff_iff, Bool.not_eq_true', Bool.not_eq_true',
    List.contains_eq_mem, List.contains_eq_mem, decide_eq_false_iff_not, decide_eq_false_iff_not,
    not_iff_not, Grid.mem_shown, List.mem_map]
  refine exists_congr fun a => and_congr_right fun _ => ?_
  constructor
  · intro hcell
    have hget := congrArg (fun c => c.get? key) hcell
    simpa only [Assignment.get?_project, List.mem_singleton, if_true, Assignment.get?_insert, hfold,
      htrim] using hget
  · intro hget
    apply Assignment.ext_get?
    intro other
    simp only [Assignment.get?_project, List.mem_singleton, Assignment.get?_insert, hfold, htrim,
      Assignment.get?_empty]
    split
    · rename_i heq
      rw [heq, hget]
    · rfl

/-- **The members of a family of one exhaustive key and the lacking values add up to the
    request,** day by day. -/
theorem sum_single (hmade : p.registry.Made) (hT : T.Additive p.registry)
    (hb : Belongs req.assignment family) (hnodup : NoRepeat family) (hsuit : p.Suitable family)
    (hone : family.keys = [key]) (hd : Grid.Suits p.registry (assignmentsOf family) key d)
    (hexh : d.policy.isExhaustive = true) (day : Date) :
    ((p.shownMembers req.range family).map fun s => T s.assignment day).sum
        + ((Grid.lackingValues (assignmentsOf family) key d).map fun v =>
            T (req.assignment.insert key v) day).sum
      = T req.assignment day := by
  obtain ⟨hfree, hfold⟩ := hb.kin.beside hb.assignments (hone ▸ List.mem_singleton_self key)
  have haxes := axesOf_single hd
  have hsplits : ∀ ax ∈ Grid.axesOf p.registry (assignmentsOf family) family.keys,
      Grid.Splits p.registry req.assignment ax := by
    intro ax hax
    rw [hone, haxes, List.mem_singleton] at hax
    rw [hax]
    exact ⟨hfree, d, hd.defined, hexh, Grid.values_axisOf hexh⟩
  have hsum := Grid.sum_members_add_missing hT hb.kin hb.assignments
    (hb.kin.nodup_cells.1 hnodup) hsuit (Grid.trimmed_axesOf hmade) hsplits day
  have hmissing := missingCells_single hmade hone hfold hd hexh
  unfold missingCells at hmissing
  rw [hmissing, List.map_map] at hsum
  simp only [Function.comp_def, Assignment.merged_insert, Assignment.merged_empty] at hsum
  rw [← hsum, shownMembers, assignmentsOf, List.map_map, List.map_map]
  rfl

end Single

/-! ## §4. Partial answers. -/

/-- The answer lacks the listed values of an exhaustive key, the only one of its family, and
    nothing else. -/
structure Lack (p : Planner) (req : Request) (T : Truth) (family : Family Slice) (answer : Answer)
    (key : String) (values : List String) : Prop where
  /-- The key is not open-ended, and the values are those expected of it that no member has. -/
  missing : ∃ d, p.registry.find? key = some d ∧ d.policy ≠ .openEnded
    ∧ ∀ v, v ∈ values ↔ v ∈ d.expected ∧ ∀ s ∈ family.members, s.assignment.get? key ≠ some v
  nodup : values.Nodup
  unfetched : p.settings.fetchMissingValues = false
  only : family.keys = [key]
  /-- With the lacking values, the answer is the true total. -/
  remainder : answer.total.amount
      + (values.map fun v => T.total (req.assignment.insert key v) req.range).sum
    = T.total req.assignment req.range

theorem lack_of_single {payload : Payload} {key : String} {d : Definition}
    (hmade : p.registry.Made) (hT : T.Additive p.registry) (hb : Belongs req.assignment family)
    (hsettled : p.Settled req family) (htrue : ∀ s ∈ family.members, s.TruthfulTo T)
    (hwhole : ∀ s ∈ family.members, (p.view req.range s.payload).disclosure? req.range = none)
    (hsum : sumPayloads (p.shownMembers req.range family) = .ok payload)
    (hanswer : answerOf req.range payload = .ok answer)
    (hfetch : p.settings.fetchMissingValues = false) (hone : family.keys = [key])
    (hd : Grid.Suits p.registry (assignmentsOf family) key d)
    (hexh : d.policy.isExhaustive = true) :
    p.Lack req T family answer key (Grid.lackingValues (assignmentsOf family) key d) := by
  refine ⟨⟨d, hd.defined, Policy.isExhaustive_iff.1 hexh, fun v => mem_lackingValues⟩,
    d.nodup_expected.filter _, hfetch, hone, ?_⟩
  have htotal := (true_of_answerOf
    (T := fun _ day => ((p.shownMembers req.range family).map fun s => T s.assignment day).sum)
    (a := req.assignment) (shows_of_members htrue hsettled.covers hwhole hsum) hanswer).total
  -- Both sums go over the values within each day.
  rw [htotal]
  unfold Truth.total
  rw [sum_sum_comm (Grid.lackingValues (assignmentsOf family) key d), ← List.sum_map_add]
  refine congrArg List.sum (List.map_congr_left fun day _ => ?_)
  exact sum_single hmade hT hb hsettled.nodup hsettled.suits hone hd hexh day

/-- **What a partial answer from true slices lacks.**  Every key that it is partial in is
    open-ended, or there is one such key, and the answer lacks the values that it names. -/
theorem lack_of_partial_answer {slices : List Slice} {answer : Answer}
    {disclosures : List Disclosure} {dims : List String} {missing : Table (List String)}
    (hmade : p.registry.Made) (hT : T.Additive p.registry)
    (htrue : ∀ s ∈ p.compatible slices req, s.TruthfulTo T)
    (h : p.outcomeOf slices req = .ok (.satisfied answer disclosures))
    (hpartial : Disclosure.incomplete dims missing ∈ disclosures)
    (hwhole : ∀ cached requested, Disclosure.prorated cached requested ∉ disclosures) :
    ∃ family, p.answering? slices req = some family
      ∧ (p.judge req family).incomplete? = some (answer, disclosures)
      ∧ dims ≠ []
      ∧ ((∀ key ∈ dims, p.registry.IsOpen key)
        ∨ ∃ key values, dims = [key] ∧ missing.get? key = some values
          ∧ p.Lack req T family answer key values) := by
  obtain ⟨family, hanswering, hjudge, hb, hmembers, hv⟩ := exists_answering h hpartial
  refine ⟨family, hanswering, hjudge, ?_⟩
  have hj : p.Judged req family (p.verdict req family) := judged_verdict hb
  rw [hv] at hj
  cases hj with
  | incomplete payload _ hsettled hnot hsum hanswer =>
    have hgrid := missingCells_of_incomplete hb hsettled hv
    -- Shares do not speak of values, so the disclosure is that of the reduction.
    have hdisclosure : Disclosure.incomplete dims missing
        = incompleteDisclosure (p.reductionOf family payload) := by
      rcases List.mem_cons.1 hpartial with heq | hshare
      · exact heq
      · exact absurd rfl (ne_incomplete_of_mem_sharesOf hshare dims missing)
    have hdims : dims = (p.reductionOf family payload).partials.map DimensionStatus.key := by
      unfold incompleteDisclosure at hdisclosure
      exact (Disclosure.incomplete.inj hdisclosure).1
    refine ⟨hdims ▸ partials_ne_nil hnot, ?_⟩
    by_cases hopen : ∀ key ∈ dims, p.registry.IsOpen key
    · exact .inl hopen
    · right
      obtain ⟨key, hkey, hclosed⟩ : ∃ key ∈ dims, ¬ p.registry.IsOpen key := by
        simpa using hopen
      rw [hdims] at hkey
      obtain ⟨_, d, hd, _⟩ := mem_partials.1 hkey
      have hexh : d.policy.isExhaustive = true :=
        Policy.isExhaustive_iff.2 fun hp => hclosed ⟨d, hd.defined, hp⟩
      obtain ⟨hone, hfetch⟩ := single_of_partial hmade hb hsettled hgrid hkey hd.defined hexh
      have hsingle := incompleteDisclosure_single hone hd hnot
      rw [← hdisclosure] at hsingle
      obtain ⟨hdims', hmissing⟩ := Disclosure.incomplete.inj hsingle
      refine ⟨key, Grid.lackingValues (assignmentsOf family) key d, hdims', ?_, ?_⟩
      · rw [hmissing]
        show (Table.empty.insert key _).get? key = _
        rw [Table.get?_insert, if_pos rfl]
      · refine lack_of_single hmade hT hb hsettled (fun s hs => htrue s (hmembers s hs))
          (fun s hs => disclosure?_eq_none_of_sharesOf (fun cached requested hshare => ?_) hs)
          hsum hanswer hfetch hone hd hexh
        exact hwhole cached requested (List.mem_cons_of_mem _ hshare)

/-- The sample cube without fetching. -/
def Sample.frugal : Planner :=
  ⟨⟨true, false⟩, .ofList [Sample.channel]⟩

/-- Only one of the two channels is cached: the answer lacks the other one, and says so. -/
theorem lack_of_frugal_sample :
    ∃ family, Sample.frugal.answering? [Sample.slice "ads" Sample.days] Sample.request
        = some family
      ∧ Sample.frugal.Lack Sample.request Sample.truth family
        ⟨Sample.days, some (Sample.constant Sample.days (.wrap 2 1)), .wrap 6 3⟩ "channel"
        ["mail"] := by
  have h : Sample.frugal.outcomeOf [Sample.slice "ads" Sample.days] Sample.request
      = .ok (.satisfied
          ⟨Sample.days, some (Sample.constant Sample.days (.wrap 2 1)), .wrap 6 3⟩
          [.incomplete ["channel"] (.ofPairs [("channel", ["mail"])])]) := by
    decide +kernel
  have htrue : ∀ s ∈ Sample.frugal.compatible [Sample.slice "ads" Sample.days] Sample.request,
      s.TruthfulTo Sample.truth := by
    intro s hs
    have hmem := (compatible_sublist _ _ _).subset hs
    exact Sample.truthful_slices (List.mem_cons.2 (.inl (List.mem_singleton.1 hmem)))
  obtain ⟨family, hanswering, _, _, hlack⟩ :=
    lack_of_partial_answer (p := Sample.frugal) Sample.made_planner Sample.additive_truth htrue h
      List.mem_cons_self (by simp)
  refine ⟨family, hanswering, ?_⟩
  -- The only key is not open, so the answer lacks a value of it.
  rcases hlack with hopen | ⟨key, values, hdims, hvalues, hlack⟩
  · obtain ⟨d, hfind, hpolicy⟩ := hopen "channel" List.mem_cons_self
    rw [(Sample.find?_planner hfind).2] at hpolicy
    cases hpolicy
  · cases hdims
    have hmail : values = ["mail"] := by
      have hget : (Table.ofPairs [("channel", ["mail"])]).get? "channel" = some ["mail"] := rfl
      exact Option.some.inj (hvalues.symm.trans hget)
    rw [← hmail]
    exact hlack

end Planner

end MetricCube
