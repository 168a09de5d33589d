/-
  MetricCube.Proofs.Outcome
  ─────────────────────────
  **What planning comes to.**  The outcome of a plan depends on the usable slices
  only (`outcomeOf_eq`): it is `outcome`, which looks at the exact slice and then
  at one finding for each set of extra keys.

  `Planned` lists all outcomes with what they say of the usable slices, and every
  outcome is one of these (`planned_outcome`).
-/
import Mathlib
import MetricCube.Proofs.Families
import MetricCube.Proofs.Verdict

namespace MetricCube.Planner

variable {p : Planner} {req : Request} {usable : List Slice}

/-! ## §1. Usable slices. -/

/-- The slice satisfies the request and its signature fits. -/
def isUsable (p : Planner) (req : Request) (s : Slice) : Bool :=
  s.assignment.satisfies req.assignment && (p.rejection? req s).isNone

theorem compatible_eq_filter (slices : List Slice) :
    p.compatible slices req = slices.filter (p.isUsable req) := by
  induction slices with
  | nil => rfl
  | cons s rest ih =>
    unfold compatible screen at ih ⊢
    rw [List.filter_cons, List.filter_cons]
    cases hsat : s.assignment.satisfies req.assignment with
    | false =>
      have hnot : p.isUsable req s = false := by rw [isUsable, hsat, Bool.false_and]
      simpa [hnot] using ih
    | true =>
      cases hrej : p.rejection? req s with
      | none =>
        have huse : p.isUsable req s = true := by rw [isUsable, hsat, hrej]; rfl
        simpa [huse, hrej] using ih
      | some reason =>
        have hnot : p.isUsable req s = false := by rw [isUsable, hsat, hrej]; rfl
        simpa [hnot, hrej] using ih

theorem compatible_sublist (p : Planner) (slices : List Slice) (req : Request) :
    (p.compatible slices req).Sublist slices := by
  rw [compatible_eq_filter]
  exact List.filter_sublist

/-- Whether a slice is usable depends on its assignment and signature only. -/
theorem isUsable_congr {s t : Slice} (ha : s.assignment = t.assignment)
    (hs : s.signature = t.signature) : p.isUsable req s = p.isUsable req t := by
  unfold isUsable rejection? isStale
  rw [ha, hs]

/-- Every slice of the list satisfies the request. -/
def AllSatisfy (req : Request) (usable : List Slice) : Prop :=
  ∀ s ∈ usable, s.assignment.satisfies req.assignment = true

theorem allSatisfy_compatible (slices : List Slice) :
    AllSatisfy req (p.compatible slices req) := by
  intro s hs
  rw [compatible_eq_filter, List.mem_filter, isUsable, Bool.and_eq_true] at hs
  exact hs.2.1

/-! ## §2. Families by their keys. -/

/-- The usable slices with the given keys beyond the request. -/
def familyAt (req : Request) (usable : List Slice) (keys : List String) : Family Slice :=
  ⟨keys, usable.filter fun s => s.assignment.extraKeys req.assignment = keys⟩

/-- The sets of keys beyond the request that usable slices have, in ascending order. -/
def keySets (req : Request) (usable : List Slice) : List (List String) :=
  Ordered.distinct ((Family.candidates Slice.assignment usable req.assignment).map fun s =>
    s.assignment.extraKeys req.assignment)

theorem mem_familyAt {keys : List String} {s : Slice} :
    s ∈ (familyAt req usable keys).members
      ↔ s ∈ usable ∧ s.assignment.extraKeys req.assignment = keys := by
  rw [familyAt, List.mem_filter, decide_eq_true_eq]

theorem mem_keySets (h : AllSatisfy req usable) {keys : List String} :
    keys ∈ keySets req usable
      ↔ keys ≠ [] ∧ ∃ s ∈ usable, s.assignment.extraKeys req.assignment = keys := by
  simp only [keySets, Ordered.mem_distinct, List.mem_map, Family.candidates, List.mem_filter,
    Bool.and_eq_true, Bool.not_eq_true', List.isEmpty_eq_false_iff]
  constructor
  · rintro ⟨s, ⟨hs, _, hne⟩, rfl⟩
    exact ⟨hne, s, hs, rfl⟩
  · rintro ⟨hne, s, hs, rfl⟩
    exact ⟨s, ⟨hs, h s hs, hne⟩, rfl⟩

theorem partition_eq_map (h : AllSatisfy req usable) :
    Family.partition Slice.assignment usable req.assignment
      = (keySets req usable).map (familyAt req usable) := by
  unfold Family.partition keySets
  refine List.map_congr_left fun keys hkeys => ?_
  have hne : keys ≠ [] := ((mem_keySets h).1 hkeys).1
  rw [familyAt, Family.candidates, List.filter_filter]
  refine congrArg _ (List.filter_congr fun s hs => ?_)
  rw [Bool.and_eq_left_iff_imp]
  intro heq
  rw [decide_eq_true_eq] at heq
  rw [h s hs, heq, Bool.true_and, Bool.not_eq_true', List.isEmpty_eq_false_iff]
  exact hne

theorem belongs_familyAt (h : AllSatisfy req usable) {keys : List String}
    (hkeys : keys ∈ keySets req usable) :
    Belongs req.assignment (familyAt req usable keys) := by
  obtain ⟨hne, s, hs, hext⟩ := (mem_keySets h).1 hkeys
  refine ⟨?_, hne, List.ne_nil_of_mem (mem_familyAt.2 ⟨hs, hext⟩)⟩
  intro a ha
  obtain ⟨t, ht, rfl⟩ := List.mem_map.1 ha
  obtain ⟨htu, hkt⟩ := mem_familyAt.1 ht
  exact ⟨h t htu, hkt⟩

/-- Members of a family are not for the request's own assignment. -/
theorem ne_of_mem_keySets (h : AllSatisfy req usable) {keys : List String}
    (hkeys : keys ∈ keySets req usable) {a : Assignment}
    (ha : a.extraKeys req.assignment = keys) : a ≠ req.assignment := by
  rintro rfl
  rw [Assignment.extraKeys_self] at ha
  exact ((mem_keySets h).1 hkeys).1 ha.symm

/-- A family by keys is isolated as it is. -/
theorem isolate_familyAt (h : AllSatisfy req usable) {keys : List String}
    (hkeys : keys ∈ keySets req usable) :
    Family.isolate Slice.assignment (familyAt req usable keys).members req.assignment
      = .ok (familyAt req usable keys) := by
  have hb := belongs_familyAt h hkeys
  have hall : ∀ s ∈ (familyAt req usable keys).members,
      s.assignment.satisfies req.assignment = true
        ∧ s.assignment.extraKeys req.assignment = keys := fun s hs =>
    hb.kin s.assignment (List.mem_map_of_mem hs)
  by_cases hempty : req.assignment.isEmpty = true
  · exact Family.isolate_of_isEmpty hempty hb.members hb.keys fun s hs => (hall s hs).2
  · exact Family.isolate_of_not_isEmpty hempty hb.members hall

/-! ## §3. Findings. -/

/-- The verdict on the family of the given keys. -/
def verdictAt (p : Planner) (req : Request) (usable : List Slice) (keys : List String) : Verdict :=
  p.verdict req (familyAt req usable keys)

/-- The finding on the family of the given keys. -/
def findingAt (p : Planner) (req : Request) (usable : List Slice) (keys : List String) : Finding :=
  ⟨keys, (familyAt req usable keys).members.length, p.verdictAt req usable keys⟩

theorem map_judge (h : AllSatisfy req usable) :
    (Family.partition Slice.assignment usable req.assignment).map (p.judge req)
      = (keySets req usable).map (p.findingAt req usable) := by
  rw [partition_eq_map h, List.map_map]
  refine List.map_congr_left fun keys hkeys => ?_
  rw [Function.comp_apply, judge, isolate_familyAt h hkeys]
  rfl

theorem findSome?_survey (families : List (Family Slice)) :
    (p.survey req families).findSome? Finding.halt?
      = (families.map (p.judge req)).findSome? Finding.halt? := by
  induction families with
  | nil => rfl
  | cons f rest ih =>
    rw [survey, List.map_cons, List.findSome?_cons]
    cases hhalt : (p.judge req f).halt? with
    | some cause => simp [hhalt]
    | none => simp [hhalt, ih]

theorem survey_eq_map {families : List (Family Slice)}
    (h : (families.map (p.judge req)).findSome? Finding.halt? = none) :
    p.survey req families = families.map (p.judge req) := by
  induction families with
  | nil => rfl
  | cons f rest ih =>
    rw [List.map_cons, List.findSome?_cons] at h
    cases hhalt : (p.judge req f).halt? with
    | some cause => rw [hhalt] at h; cases h
    | none =>
      rw [hhalt] at h
      rw [survey, List.map_cons]
      simp only [hhalt, Option.isSome_none, Bool.false_eq_true, if_false, ih h]

/-! ## §4. The outcome. -/

/-- The outcome that the families lead to, given what the exact slice lacks. -/
def familiesOutcome (p : Planner) (req : Request) (usable : List Slice)
    (lacking : Option (List FetchItem)) : Except Overflow Outcome :=
  let findings := (keySets req usable).map (p.findingAt req usable)
  match findings.findSome? Finding.halt? with
  | some (.error e) => .error e
  | some (.ok fault) => .ok (.refused fault)
  | none =>
    .ok ((conclusion? lacking findings).getD (fetch [p.item req req.assignment req.range]))

/-- The outcome of planning over usable slices. -/
def outcome (p : Planner) (req : Request) (usable : List Slice) : Except Overflow Outcome :=
  match p.exactChoice usable req with
  | .ambiguous => .ok (.refused (.ambiguous req.assignment))
  | .absent => p.familiesOutcome req usable none
  | .chosen s _ =>
    match p.exactFinding req s with
    | .answered answer disclosure => .ok (.satisfied answer [disclosure])
    | .overflow => .error .counts
    | .wanting items => p.familiesOutcome req usable (some items)

theorem finish_result (events : List Telemetry.Event) (result : Except Overflow Plan) :
    (finish req events result).result = result := by
  cases result <;> rfl

theorem outcome_planFamilies (h : AllSatisfy req usable) (lacking : Option (List FetchItem))
    (before : Trace) (events : List Telemetry.Event) :
    (p.planFamilies req usable lacking before events).result.map Plan.outcome
      = p.familiesOutcome req usable lacking := by
  have hmap := @map_judge p req usable h
  have hhalt := @findSome?_survey p req (Family.partition Slice.assignment usable req.assignment)
  unfold planFamilies familiesOutcome
  simp only [finish_result, conclude]
  rw [hhalt, hmap]
  cases hfirst : ((keySets req usable).map (p.findingAt req usable)).findSome? Finding.halt? with
  | some cause => cases cause <;> rfl
  | none =>
    rw [survey_eq_map (hmap ▸ hfirst), hmap]
    cases conclusion? lacking ((keySets req usable).map (p.findingAt req usable)) <;> rfl

/-- The outcome of planning over slices. -/
def outcomeOf (p : Planner) (slices : List Slice) (req : Request) : Except Overflow Outcome :=
  (p.plan slices req).result.map Plan.outcome

/-- **The outcome of a plan depends on the usable slices only.** -/
theorem outcomeOf_eq (p : Planner) (slices : List Slice) (req : Request) :
    p.outcomeOf slices req = p.outcome req (p.compatible slices req) := by
  have h := @allSatisfy_compatible p req slices
  unfold outcomeOf plan outcome
  simp only
  cases p.exactChoice (p.compatible slices req) req with
  | ambiguous => rfl
  | absent => exact outcome_planFamilies h _ _ _
  | chosen s older =>
    simp only
    cases p.exactFinding req s with
    | answered answer disclosure => rfl
    | overflow => rfl
    | wanting items => exact outcome_planFamilies h _ _ _

/-! ## §5. All outcomes. -/

/-- What the exact slice lacks; there is no such slice if it is nothing. -/
inductive ExactLacks (p : Planner) (req : Request) (usable : List Slice) :
    Option (List FetchItem) → Prop where
  | absent : p.exactChoice usable req = .absent → ExactLacks p req usable none
  | wanting (s : Slice) (older : Nat) (items : List FetchItem) :
      p.exactChoice usable req = .chosen s older → p.exactFinding req s = .wanting items →
      ExactLacks p req usable (some items)

/-- The items that a plan asks for if it asks for any, before repeated ids are dropped. -/
def plannedItems (p : Planner) (req : Request) (usable : List Slice) : List FetchItem :=
  let lacking := match p.exactChoice usable req with
    | .chosen s _ =>
      match p.exactFinding req s with
      | .wanting items => some items
      | _ => none
    | _ => none
  let findings := (keySets req usable).map (p.findingAt req usable)
  (lacking.or (findings.findSome? Finding.items?)).getD [p.item req req.assignment req.range]

/-- No family ends planning. -/
def NoHalt (p : Planner) (req : Request) (usable : List Slice) : Prop :=
  ∀ keys ∈ keySets req usable, (p.findingAt req usable keys).halt? = none

/-- No family ends planning, and none is complete. -/
def Undecided (p : Planner) (req : Request) (usable : List Slice) : Prop :=
  p.NoHalt req usable
    ∧ ∀ keys ∈ keySets req usable, (p.findingAt req usable keys).complete? = none

/-- No family is wanting. -/
def NoneWanting (p : Planner) (req : Request) (usable : List Slice) : Prop :=
  ∀ keys ∈ keySets req usable, (p.findingAt req usable keys).items? = none

/-- **What each outcome says of the usable slices.** -/
inductive Planned (p : Planner) (req : Request) (usable : List Slice) :
    Except Overflow Outcome → Prop where
  | ambiguous : p.exactChoice usable req = .ambiguous →
      Planned p req usable (.ok (.refused (.ambiguous req.assignment)))
  | exact (s : Slice) (older : Nat) (answer : Answer) (disclosure : Disclosure) :
      p.exactChoice usable req = .chosen s older →
      p.exactFinding req s = .answered answer disclosure →
      Planned p req usable (.ok (.satisfied answer [disclosure]))
  | exactOverflow (s : Slice) (older : Nat) : p.exactChoice usable req = .chosen s older →
      p.exactFinding req s = .overflow → Planned p req usable (.error .counts)
  | halted (lacking : Option (List FetchItem)) (keys : List String) (covered : Bool)
      (fault : PlanFault) : p.ExactLacks req usable lacking → keys ∈ keySets req usable →
      p.verdictAt req usable keys = .faulted covered fault →
      Planned p req usable (.ok (.refused fault))
  | overflow (lacking : Option (List FetchItem)) (keys : List String) (complete : Option Bool) :
      p.ExactLacks req usable lacking → keys ∈ keySets req usable →
      p.verdictAt req usable keys = .overflow complete → Planned p req usable (.error .counts)
  | complete (lacking : Option (List FetchItem)) (keys : List String) (answer : Answer)
      (shares : List Disclosure) (others : List (List String)) :
      p.ExactLacks req usable lacking → p.NoHalt req usable → keys ∈ keySets req usable →
      p.verdictAt req usable keys = .complete answer shares →
      Planned p req usable (.ok (.satisfied answer (.complete keys others :: shares)))
  | fetchExact (s : Slice) (older : Nat) (items : List FetchItem) :
      p.exactChoice usable req = .chosen s older → p.exactFinding req s = .wanting items →
      p.Undecided req usable → p.plannedItems req usable = items →
      Planned p req usable (.ok (fetch items))
  | fetchFamily (keys : List String) (cells gaps : Nat) (items : List FetchItem) :
      p.exactChoice usable req = .absent → p.Undecided req usable →
      keys ∈ keySets req usable → p.verdictAt req usable keys = .wanting cells gaps items →
      p.plannedItems req usable = items → Planned p req usable (.ok (fetch items))
  | incomplete (keys : List String) (answer : Answer) (disclosures : List Disclosure) :
      p.exactChoice usable req = .absent → p.Undecided req usable → p.NoneWanting req usable →
      keys ∈ keySets req usable → p.verdictAt req usable keys = .incomplete answer disclosures →
      Planned p req usable (.ok (.satisfied answer disclosures))
  | fetchWhole : p.exactChoice usable req = .absent → p.Undecided req usable →
      p.NoneWanting req usable →
      p.plannedItems req usable = [p.item req req.assignment req.range] →
      Planned p req usable (.ok (fetch [p.item req req.assignment req.range]))

theorem plannedItems_of_lacks {lacking : Option (List FetchItem)}
    (h : p.ExactLacks req usable lacking) :
    p.plannedItems req usable
      = (lacking.or (((keySets req usable).map (p.findingAt req usable)).findSome?
          Finding.items?)).getD [p.item req req.assignment req.range] := by
  cases h with
  | absent habsent => simp only [plannedItems, habsent]
  | wanting s older items hchoice hfinding => simp only [plannedItems, hchoice, hfinding]

/-- A family ends planning by a fault or by an overflow. -/
theorem halt?_cases {cause : Except Overflow PlanFault} (hall : AllSatisfy req usable)
    {keys : List String} (hkeys : keys ∈ keySets req usable)
    (h : (p.findingAt req usable keys).halt? = some cause) :
    (∃ covered fault, cause = .ok fault ∧ p.verdictAt req usable keys = .faulted covered fault)
      ∨ ∃ complete, cause = .error .counts ∧ p.verdictAt req usable keys = .overflow complete := by
  have hj : p.Judged req _ (p.verdictAt req usable keys) :=
    judged_verdict (belongs_familyAt hall hkeys)
  unfold Finding.halt? findingAt at h
  cases hv : p.verdictAt req usable keys with
  | mixed e =>
    -- A family has one set of keys, so its judgement never speaks of several.
    rw [hv] at hj
    cases hj
  | faulted covered fault =>
    rw [hv] at h
    cases h
    exact .inl ⟨covered, fault, rfl, rfl⟩
  | overflow complete =>
    rw [hv] at h
    cases h
    exact .inr ⟨complete, rfl, rfl⟩
  | unsuitable | wanting | blocked | complete | incomplete =>
    rw [hv] at h
    cases h

theorem verdictAt_of_complete? {keys : List String} {found : List String × Answer × List Disclosure}
    (h : (p.findingAt req usable keys).complete? = some found) :
    found.1 = keys ∧ p.verdictAt req usable keys = .complete found.2.1 found.2.2 := by
  unfold Finding.complete? at h
  split at h
  · rename_i hv
    cases h
    exact ⟨rfl, hv⟩
  · cases h

theorem verdictAt_of_items? {keys : List String} {items : List FetchItem}
    (h : (p.findingAt req usable keys).items? = some items) :
    ∃ cells gaps, p.verdictAt req usable keys = .wanting cells gaps items := by
  unfold Finding.items? at h
  split at h
  · rename_i cells gaps found hv
    cases h
    exact ⟨cells, gaps, hv⟩
  · cases h

theorem verdictAt_of_incomplete? {keys : List String} {found : Answer × List Disclosure}
    (h : (p.findingAt req usable keys).incomplete? = some found) :
    p.verdictAt req usable keys = .incomplete found.1 found.2 := by
  unfold Finding.incomplete? at h
  split at h
  · rename_i hv
    cases h
    exact hv
  · cases h

/-- What is left when no family ends planning and none is complete. -/
theorem planned_undecided {lacking : Option (List FetchItem)}
    (hlacks : p.ExactLacks req usable lacking) (hundecided : p.Undecided req usable) :
    p.Planned req usable (p.familiesOutcome req usable lacking) := by
  have hhalt : ((keySets req usable).map (p.findingAt req usable)).findSome? Finding.halt?
      = none := by
    rw [List.findSome?_map, List.findSome?_eq_none_iff]
    exact hundecided.1
  have hcomplete : ((keySets req usable).map (p.findingAt req usable)).filterMap
      Finding.complete? = [] := by
    rw [List.filterMap_map, List.filterMap_eq_nil_iff]
    exact hundecided.2
  unfold familiesOutcome conclusion?
  simp only [hhalt, hcomplete]
  have hitems := plannedItems_of_lacks hlacks
  cases hlacks with
  | wanting s older items hchoice hfinding =>
    exact .fetchExact s older items hchoice hfinding hundecided hitems
  | absent habsent =>
    simp only [Option.none_or] at hitems ⊢
    -- The first family that is wanting is served, then the first one that is incomplete.
    cases hwanting : ((keySets req usable).map (p.findingAt req usable)).findSome?
        Finding.items? with
    | some items =>
      rw [hwanting] at hitems
      obtain ⟨f, hf, hfound⟩ := List.exists_of_findSome?_eq_some hwanting
      obtain ⟨keys, hkeys, rfl⟩ := List.mem_map.1 hf
      obtain ⟨cells, gaps, hv⟩ := verdictAt_of_items? hfound
      exact .fetchFamily keys cells gaps items habsent hundecided hkeys hv hitems
    | none =>
      rw [hwanting] at hitems
      have hnone : p.NoneWanting req usable := fun keys hkeys =>
        List.findSome?_eq_none_iff.1 hwanting _ (List.mem_map_of_mem hkeys)
      cases hincomplete : ((keySets req usable).map (p.findingAt req usable)).findSome?
          Finding.incomplete? with
      | some found =>
        obtain ⟨f, hf, hfound⟩ := List.exists_of_findSome?_eq_some hincomplete
        obtain ⟨keys, hkeys, rfl⟩ := List.mem_map.1 hf
        exact .incomplete keys found.1 found.2 habsent hundecided hnone hkeys
          (verdictAt_of_incomplete? hfound)
      | none => exact .fetchWhole habsent hundecided hnone hitems

theorem planned_familiesOutcome {lacking : Option (List FetchItem)}
    (hall : AllSatisfy req usable) (hlacks : p.ExactLacks req usable lacking) :
    p.Planned req usable (p.familiesOutcome req usable lacking) := by
  -- A family that ends planning goes first, then a complete one, then what is left.
  cases hhalt : ((keySets req usable).map (p.findingAt req usable)).findSome? Finding.halt? with
  | some cause =>
    obtain ⟨f, hf, hcause⟩ := List.exists_of_findSome?_eq_some hhalt
    obtain ⟨keys, hkeys, rfl⟩ := List.mem_map.1 hf
    unfold familiesOutcome
    simp only [hhalt]
    rcases halt?_cases hall hkeys hcause with ⟨covered, fault, rfl, hv⟩ | ⟨complete, rfl, hv⟩
    · exact .halted lacking keys covered fault hlacks hkeys hv
    · exact .overflow lacking keys complete hlacks hkeys hv
  | none =>
    have hnohalt : p.NoHalt req usable := fun keys hkeys =>
      List.findSome?_eq_none_iff.1 hhalt _ (List.mem_map_of_mem hkeys)
    cases hcomplete : ((keySets req usable).map (p.findingAt req usable)).filterMap
        Finding.complete? with
    | cons first others =>
      have hmem : first ∈ ((keySets req usable).map (p.findingAt req usable)).filterMap
          Finding.complete? := by
        rw [hcomplete]
        exact List.mem_cons_self
      obtain ⟨f, hf, hfound⟩ := List.mem_filterMap.1 hmem
      obtain ⟨keys, hkeys, rfl⟩ := List.mem_map.1 hf
      obtain ⟨rfl, hv⟩ := verdictAt_of_complete? hfound
      unfold familiesOutcome conclusion?
      simp only [hhalt, hcomplete]
      exact .complete lacking first.1 first.2.1 first.2.2 _ hlacks hnohalt hkeys hv
    | nil =>
      exact planned_undecided hlacks ⟨hnohalt, fun keys hkeys =>
        List.filterMap_eq_nil_iff.1 hcomplete _ (List.mem_map_of_mem hkeys)⟩

/-- **Every outcome is one of these.** -/
theorem planned_outcome (p : Planner) (hall : AllSatisfy req usable) :
    p.Planned req usable (p.outcome req usable) := by
  unfold outcome
  cases hchoice : p.exactChoice usable req with
  | ambiguous => exact .ambiguous hchoice
  | absent => exact planned_familiesOutcome hall (.absent hchoice)
  | chosen s older =>
    simp only
    cases hfinding : p.exactFinding req s with
    | answered answer disclosure => exact .exact s older answer disclosure hchoice hfinding
    | overflow => exact .exactOverflow s older hchoice hfinding
    | wanting items => exact planned_familiesOutcome hall (.wanting s older items hchoice hfinding)

/-! ## §6. Answers. -/

/-- **Where an answer comes from:** the exact slice, the first complete family or, if there is none,
    the first incomplete one. -/
inductive Answers (p : Planner) (req : Request) (usable : List Slice) :
    Answer → List Disclosure → Prop where
  | exact (s : Slice) (answer : Answer) (disclosure : Disclosure) :
      p.exactFinding req s = .answered answer disclosure →
      Answers p req usable answer [disclosure]
  | complete (keys : List String) (answer : Answer) (shares : List Disclosure)
      (others : List (List String)) : p.NoHalt req usable → keys ∈ keySets req usable →
      p.verdictAt req usable keys = .complete answer shares →
      (((keySets req usable).map (p.findingAt req usable)).filterMap Finding.complete?).map
        (fun found => found.1) = keys :: others →
      Answers p req usable answer (.complete keys others :: shares)
  | incomplete (keys : List String) (answer : Answer) (disclosures : List Disclosure) :
      keys ∈ keySets req usable →
      p.verdictAt req usable keys = .incomplete answer disclosures →
      ((keySets req usable).map (p.findingAt req usable)).findSome? Finding.incomplete?
        = some (answer, disclosures) →
      Answers p req usable answer disclosures

theorem answers_of_families {lacking : Option (List FetchItem)} {answer : Answer}
    {disclosures : List Disclosure}
    (h : p.familiesOutcome req usable lacking = .ok (.satisfied answer disclosures)) :
    p.Answers req usable answer disclosures := by
  unfold familiesOutcome conclusion? at h
  simp only at h
  split at h
  · cases h
  · cases h
  · rename_i hhalt
    have hnohalt : p.NoHalt req usable := fun keys hkeys =>
      List.findSome?_eq_none_iff.1 hhalt _ (List.mem_map_of_mem hkeys)
    split at h
    · rename_i keys found shares others hfound
      cases h
      have hfirst : (keys, answer, shares) ∈ ((keySets req usable).map
          (p.findingAt req usable)).filterMap Finding.complete? := by
        rw [hfound]
        exact List.mem_cons_self
      obtain ⟨f, hf, hcomplete⟩ := List.mem_filterMap.1 hfirst
      obtain ⟨k, hkeys, rfl⟩ := List.mem_map.1 hf
      obtain ⟨rfl, hv⟩ := verdictAt_of_complete? hcomplete
      exact .complete keys answer shares _ hnohalt hkeys hv (by rw [hfound, List.map_cons])
    · split at h
      · cases h
      · -- Without a complete family, the first incomplete one answers, if any does.
        cases hfound : ((keySets req usable).map (p.findingAt req usable)).findSome?
          Finding.incomplete? with
        | none =>
          rw [hfound] at h
          cases h
        | some found =>
          rw [hfound] at h
          cases h
          obtain ⟨f, hf, hincomplete⟩ := List.exists_of_findSome?_eq_some hfound
          obtain ⟨keys, hkeys, rfl⟩ := List.mem_map.1 hf
          exact .incomplete keys _ _ hkeys (verdictAt_of_incomplete? hincomplete) hfound

/-- **Every answer comes from one of these.** -/
theorem answers_of_outcome {answer : Answer} {disclosures : List Disclosure}
    (h : p.outcome req usable = .ok (.satisfied answer disclosures)) :
    p.Answers req usable answer disclosures := by
  unfold outcome at h
  cases hchoice : p.exactChoice usable req with
  | ambiguous =>
    rw [hchoice] at h
    cases h
  | absent =>
    rw [hchoice] at h
    exact answers_of_families h
  | chosen s older =>
    simp only [hchoice] at h
    cases hfinding : p.exactFinding req s with
    | answered answer disclosure =>
      rw [hfinding] at h
      cases h
      exact .exact s answer disclosure hfinding
    | overflow =>
      rw [hfinding] at h
      cases h
    | wanting items =>
      rw [hfinding] at h
      exact answers_of_families h

end MetricCube.Planner
