/-
  MetricCube.Proofs.Grid
  ──────────────────────
  **What a grid is judged by.**  `axis` gives an axis exactly for a key that suits
  the members (`axis_eq_ok_iff`): every member fixes it, it is defined, and an
  exhaustive definition expects every value that is shown.  `assess_eq` puts the
  parts of the judgement side by side.

  The product of axes has a cell exactly where each key has a value of its axis
  (`mem_product`), and each cell once (`nodup_product`).  Keys are judged one by one,
  the grid as a whole; together they say one thing (`full_iff`): the members make
  every choice of one expected value for each key, and no other choice.
-/
import Mathlib
import MetricCube.Grid
import MetricCube.Proofs.Assignment

namespace MetricCube

/-! ## §1. Definitions and their expected values. -/

namespace Definition

/-- The definition was made from a key, values and a policy, perhaps with another catch-all. -/
def Made (d : Definition) : Prop :=
  ∃ key values policy, d = make key values policy ∨ ∃ other, d = (make key values policy).withOther other

theorem nodup_expected (d : Definition) : d.expected.Nodup :=
  (Ordered.ascending_distinct _).imp fun h => ne_of_lt h

/-- What is recognised is expected. -/
theorem mem_expected_of_recognises {d : Definition} {value : String}
    (h : d.recognises value = true) : value ∈ d.expected := by
  rw [recognises, Bool.or_eq_true, Bool.and_eq_true, beq_iff_eq, List.contains_iff_mem] at h
  rw [expected, Ordered.mem_distinct]
  by_cases hother : d.policy.hasCatchAll = true
  · rw [if_pos hother, List.mem_cons]
    exact h.symm.imp (fun heq => heq.2.symm) id
  · rw [if_neg hother]
    exact h.resolve_right fun heq => hother heq.1

/-- The expected values of a definition that was made are trimmed. -/
theorem Made.trim_expected {d : Definition} (h : d.Made) : ∀ v ∈ d.expected, Text.trim v = v := by
  have hvalues : ∀ v ∈ d.values, Text.trim v = v := by
    intro v hv
    obtain ⟨key, values, policy, rfl | ⟨other, rfl⟩⟩ := h <;>
    · obtain ⟨w, _, rfl⟩ := List.mem_map.1 (Ordered.mem_distinct.1 hv)
      exact Text.trim_trim w
  have hother : Text.trim d.other = d.other := by
    obtain ⟨key, values, policy, rfl | ⟨other, rfl⟩⟩ := h
    · show Text.trim "other" = "other"
      rfl
    · exact Text.trim_trim other
  intro v hv
  rw [expected, Ordered.mem_distinct] at hv
  split at hv
  · rcases List.mem_cons.1 hv with rfl | hv
    · exact hother
    · exact hvalues v hv
  · exact hvalues v hv

end Definition

namespace Registry

/-- Every definition was made from a key, values and a policy. -/
def Made (r : Registry) : Prop :=
  ∀ key d, r.find? key = some d → d.Made

/-- What a registry of some definitions finds is one of them, under its own key. -/
theorem mem_of_find?_ofList {ds : List Definition} {key : String} {d : Definition}
    (h : (ofList ds).find? key = some d) : d ∈ ds ∧ d.key = Text.foldKey key := by
  rw [find?, definitions_ofList, Table.get?_ofPairs] at h
  obtain ⟨e, he, heq⟩ := List.mem_map.1 (mem_of_lastUnder h)
  rw [Prod.mk.injEq] at heq
  rw [← heq.1, ← heq.2]
  exact ⟨he, rfl⟩

/-- A registry of made definitions. -/
theorem made_ofList {ds : List Definition} (h : ∀ d ∈ ds, d.Made) : (ofList ds).Made :=
  fun _ d hfind => h d (mem_of_find?_ofList hfind).1

/-- The values that a key is expected to have; none for a key that is not defined. -/
def expectedAt (r : Registry) (key : String) : Set String :=
  {value | ∃ d, r.find? key = some d ∧ value ∈ d.expected}

theorem mem_expectedAt {r : Registry} {key value : String} {d : Definition}
    (h : r.find? key = some d) : value ∈ r.expectedAt key ↔ value ∈ d.expected := by
  constructor
  · rintro ⟨e, he, hvalue⟩
    rw [h] at he
    cases he
    exact hvalue
  · intro hvalue
    exact ⟨d, h, hvalue⟩

end Registry

namespace Grid

/-! ## §2. One axis. -/

/-- The values that the members show under a key. -/
def shown (members : List Assignment) (key : String) : List String :=
  Ordered.distinct ((members.map fun a => a.get? key).filterMap id)

theorem mem_shown {members : List Assignment} {key value : String} :
    value ∈ shown members key ↔ ∃ a ∈ members, a.get? key = some value := by
  simp [shown]

/-- The key can be summed over by its definition `d`. -/
structure Suits (registry : Registry) (members : List Assignment) (key : String)
    (d : Definition) : Prop where
  carried : ∀ a ∈ members, ∃ value, a.get? key = some value
  defined : registry.find? key = some d
  expected : d.policy.isExhaustive = true → ∀ value ∈ shown members key, value ∈ d.expected

theorem Suits.unique {registry : Registry} {members : List Assignment} {key : String}
    {d e : Definition} (hd : Suits registry members key d) (he : Suits registry members key e) :
    d = e :=
  Option.some.inj (hd.defined.symm.trans he.defined)

/-- The expected values that no member shows. -/
def lackingValues (members : List Assignment) (key : String) (d : Definition) : List String :=
  d.expected.filter fun v => !(shown members key).contains v

/-- The axis of a suitable key. -/
def axisOf (members : List Assignment) (key : String) (d : Definition) : Axis where
  values := if d.policy.isExhaustive then d.expected else shown members key
  status :=
    { key := key
      policy := d.policy
      status :=
        if d.policy.isExhaustive && (lackingValues members key d).isEmpty then .complete
        else .lacking (lackingValues members key d) }

theorem partition_shown {members : List Assignment} {key : String} {d : Definition} :
    d.partition (shown members key)
      = if d.policy.isExhaustive && !(shown members key).all fun v => d.expected.contains v then
          .error (.unrecognised ((shown members key).filter fun v => !d.expected.contains v))
        else .ok (axisOf members key d).status.status := by
  have hstrangers : ((shown members key).filter fun v => !d.expected.contains v).isEmpty
      = (shown members key).all fun v => d.expected.contains v := by
    rw [Bool.eq_iff_iff, List.isEmpty_iff, List.filter_eq_nil_iff, List.all_eq_true]
    simp
  unfold Definition.partition axisOf lackingValues
  simp only [hstrangers]
  cases d.policy.isExhaustive
  · simp
  · cases (shown members key).all fun v => d.expected.contains v
    · simp
    · simp only [if_true, Bool.true_and, Bool.not_true, Bool.false_eq_true, if_false]

theorem axis_eq_ok_iff {registry : Registry} {members : List Assignment} {key : String}
    {ax : Axis} : axis registry members key = .ok ax
      ↔ ∃ d, Suits registry members key d ∧ ax = axisOf members key d := by
  have hcarried : (members.map fun a => a.get? key).any Option.isNone = false
      ↔ ∀ a ∈ members, ∃ value, a.get? key = some value := by
    simp [Option.isNone_iff_eq_none, Option.ne_none_iff_exists']
  -- The checks in their order: every member carries the key, the key is defined, its values are
  -- expected.
  unfold axis
  simp only [show Ordered.distinct ((members.map fun a => a.get? key).filterMap id)
    = shown members key from rfl, partition_shown]
  split
  · rename_i hmissing
    constructor
    · rintro ⟨⟩
    · rintro ⟨d, hsuits, _⟩
      rw [hcarried.2 hsuits.carried] at hmissing
      cases hmissing
  · rename_i hmissing
    have hall := hcarried.1 (Bool.eq_false_iff.2 hmissing)
    cases hfind : registry.find? key with
    | none =>
      constructor
      · rintro ⟨⟩
      · rintro ⟨d, hsuits, _⟩
        rw [hsuits.defined] at hfind
        cases hfind
    | some d =>
      have hrec : (d.policy.isExhaustive && !(shown members key).all fun v => d.expected.contains v)
          = false ↔ (d.policy.isExhaustive = true → ∀ v ∈ shown members key, v ∈ d.expected) := by
        cases d.policy.isExhaustive <;> simp
      cases hbad : d.policy.isExhaustive && !(shown members key).all fun v => d.expected.contains v with
      | true =>
        simp only [hbad, if_true]
        constructor
        · rintro ⟨⟩
        · rintro ⟨e, hsuits, _⟩
          rw [hsuits.defined] at hfind
          cases hfind
          rw [hrec.2 hsuits.expected] at hbad
          cases hbad
      | false =>
        simp only [hbad, Bool.false_eq_true, if_false]
        constructor
        · rintro ⟨⟩
          exact ⟨d, ⟨hall, hfind, hrec.1 hbad⟩, rfl⟩
        · rintro ⟨e, he, rfl⟩
          rw [he.defined] at hfind
          cases hfind
          rfl

theorem isComplete_axisOf {members : List Assignment} {key : String} {d : Definition} :
    (axisOf members key d).status.status.isComplete = true
      ↔ d.policy.isExhaustive = true ∧ ∀ v ∈ d.expected, v ∈ shown members key := by
  have hnil : (lackingValues members key d).isEmpty = true
      ↔ ∀ v ∈ d.expected, v ∈ shown members key := by
    rw [List.isEmpty_iff, lackingValues, List.filter_eq_nil_iff]
    simp
  rw [← hnil, ← Bool.and_eq_true]
  unfold axisOf
  simp only
  split
  · rename_i h
    simp [h, PartitionStatus.isComplete]
  · rename_i h
    simp [h, PartitionStatus.isComplete]

theorem values_axisOf {members : List Assignment} {key : String} {d : Definition}
    (h : d.policy.isExhaustive = true) : (axisOf members key d).values = d.expected := by
  unfold axisOf
  rw [if_pos h]

/-! ## §3. The whole grid. -/

theorem firstRepeated?_eq_none_iff {cs : List Assignment} : ∀ {seen : List Assignment},
    firstRepeated? seen cs = none ↔ cs.Nodup ∧ ∀ c ∈ cs, c ∉ seen := by
  induction cs with
  | nil => intro seen; simp [firstRepeated?]
  | cons c cs ih =>
    intro seen
    rw [firstRepeated?, List.nodup_cons, List.forall_mem_cons]
    by_cases hc : c ∈ seen
    · simp [hc]
    · simp only [List.contains_eq_mem, hc, decide_false, Bool.false_eq_true, if_false, ih,
        List.mem_cons, not_or, not_false_eq_true, true_and]
      constructor
      · rintro ⟨hnodup, hnew⟩
        exact ⟨⟨fun hmem => (hnew c hmem).1 rfl, hnodup⟩, fun e he => (hnew e he).2⟩
      · rintro ⟨⟨hmem, hnodup⟩, hnew⟩
        exact ⟨hnodup, fun e he => ⟨fun heq => hmem (heq ▸ he), hnew e he⟩⟩

/-- What is found repeated was seen before, or occurs twice. -/
theorem duplicate_of_firstRepeated? {c : Assignment} {cs : List Assignment} :
    ∀ {seen : List Assignment}, firstRepeated? seen cs = some c →
      (c ∈ seen ∧ c ∈ cs) ∨ cs.Duplicate c := by
  induction cs with
  | nil => intro seen h; cases h
  | cons d cs ih =>
    intro seen h
    rw [firstRepeated?] at h
    by_cases hseen : seen.contains d = true
    · rw [if_pos hseen] at h
      cases h
      exact .inl ⟨List.contains_iff_mem.1 hseen, List.mem_cons_self⟩
    · rw [if_neg hseen] at h
      rcases ih h with ⟨hmem, hlater⟩ | hlater
      · rcases List.mem_cons.1 hmem with rfl | hmem
        · exact .inr (List.Mem.duplicate_cons_self hlater)
        · exact .inl ⟨hmem, List.mem_cons_of_mem _ hlater⟩
      · exact .inr (hlater.duplicate_cons d)

/-- The axes of the keys that have one. -/
def axesOf (registry : Registry) (members : List Assignment) (keys : List String) : List Axis :=
  (keys.map (axis registry members)).filterMap Except.toOption

/-- The failures of the other keys. -/
def failuresOf (registry : Registry) (members : List Assignment) (keys : List String) :
    List DimensionFailure :=
  (keys.map (axis registry members)).filterMap fun
    | .error f => some f
    | .ok _ => none

/-- The cells of the product of the axes that no member holds. -/
def missingOf (registry : Registry) (members : List Assignment) (keys : List String) :
    List Assignment :=
  (product (axesOf registry members keys)).filter fun cell =>
    !(members.map fun a => a.project keys).contains cell

/-- Every key can be summed over. -/
def AllSuit (registry : Registry) (members : List Assignment) (keys : List String) : Prop :=
  ∀ key ∈ keys, ∃ d, Suits registry members key d

variable {registry : Registry} {members : List Assignment} {keys : List String}

theorem mem_axesOf {ax : Axis} : ax ∈ axesOf registry members keys
    ↔ ∃ key ∈ keys, ∃ d, Suits registry members key d ∧ ax = axisOf members key d := by
  simp only [axesOf, List.mem_filterMap, List.mem_map, exists_exists_and_eq_and,
    ← axis_eq_ok_iff]
  refine exists_congr fun key => and_congr_right fun _ => ?_
  cases axis registry members key <;> simp [Except.toOption]

theorem failuresOf_eq_nil_iff :
    failuresOf registry members keys = [] ↔ AllSuit registry members keys := by
  simp only [failuresOf, List.filterMap_eq_nil_iff, List.forall_mem_map]
  refine forall₂_congr fun key _ => ?_
  constructor
  · intro h
    cases hax : axis registry members key with
    | error f => rw [hax] at h; cases h
    | ok ax =>
      obtain ⟨d, hd, _⟩ := axis_eq_ok_iff.1 hax
      exact ⟨d, hd⟩
  · rintro ⟨d, hd⟩
    rw [axis_eq_ok_iff.2 ⟨d, hd, rfl⟩]

theorem keys_axesOf (h : AllSuit registry members keys) :
    (axesOf registry members keys).map (fun ax => ax.status.key) = keys := by
  induction keys with
  | nil => rfl
  | cons key keys ih =>
    obtain ⟨d, hd⟩ := h key List.mem_cons_self
    have htail := ih fun k hk => h k (List.mem_cons_of_mem _ hk)
    have hax := axis_eq_ok_iff.2 ⟨d, hd, rfl⟩
    simp only [axesOf, List.map_cons, List.filterMap_cons, hax, Except.toOption] at htail ⊢
    rw [htail]
    rfl

theorem exists_axis_iff (h : AllSuit registry members keys) {key : String} :
    (∃ ax ∈ axesOf registry members keys, ax.status.key = key) ↔ key ∈ keys := by
  rw [← List.mem_map, keys_axesOf h]

/-- The values of an axis come in ascending order. -/
theorem ascending_values {ax : Axis} (h : ax ∈ axesOf registry members keys) :
    ax.values.Pairwise (· < ·) := by
  obtain ⟨key, _, d, _, rfl⟩ := mem_axesOf.1 h
  show (if d.policy.isExhaustive then d.expected else shown members key).Pairwise (· < ·)
  split
  · exact Ordered.ascending_distinct _
  · exact Ordered.ascending_distinct _

/-- The values of each axis are trimmed, as those of a complete dimension are. -/
def Trimmed (axes : List Axis) : Prop :=
  ∀ ax ∈ axes, ∀ v ∈ ax.values, Text.trim v = v

/-- Definitions that were made expect trimmed values, and what is shown is trimmed. -/
theorem trimmed_axesOf (hmade : registry.Made) : Trimmed (axesOf registry members keys) := by
  intro ax hax value hvalue
  obtain ⟨key, _, d, hd, rfl⟩ := mem_axesOf.1 hax
  change value ∈ if d.policy.isExhaustive then d.expected else shown members key at hvalue
  split at hvalue
  · exact (hmade key d hd.defined).trim_expected value hvalue
  · obtain ⟨a, _, hget⟩ := mem_shown.1 hvalue
    exact (Assignment.folded_of_get? hget).2

theorem length_axesOf (h : AllSuit registry members keys) :
    (axesOf registry members keys).length = keys.length := by
  rw [← List.length_map fun ax : Axis => ax.status.key, keys_axesOf h]

/-- **The judgement on a grid, part by part.** -/
theorem assess_eq_ok_iff {g : Grid} : assess registry members keys = .ok g
    ↔ (members.map fun a => a.project keys).Nodup
      ∧ g.dimensions = (axesOf registry members keys).map Axis.status
      ∧ g.failures = failuresOf registry members keys
      ∧ g.missing = if g.failures = [] ∧ axesOf registry members keys ≠ [] then
          missingOf registry members keys else [] := by
  have hrepeated := @firstRepeated?_eq_none_iff (members.map fun a => a.project keys) []
  simp only [List.not_mem_nil, not_false_eq_true, implies_true, and_true] at hrepeated
  unfold assess
  simp only
  -- A cell that is shared fails the whole judgement, whatever the keys are.
  cases hfirst : firstRepeated? [] (members.map fun a => a.project keys) with
  | some cell =>
    have hnot : ¬ (members.map fun a => a.project keys).Nodup := by
      rw [← hrepeated, hfirst]
      exact fun h => nomatch h
    simp [hnot]
  | none =>
    have hcond : ∀ (fs : List DimensionFailure) (axes : List Axis),
        (fs.isEmpty && !axes.isEmpty) = true ↔ fs = [] ∧ axes ≠ [] := by
      intro fs axes
      simp
    simp only [hrepeated.1 hfirst, true_and, Except.ok.injEq, hcond]
    constructor
    · rintro rfl
      exact ⟨rfl, rfl, rfl⟩
    · rintro ⟨hdims, hfails, hmissing⟩
      rw [hfails] at hmissing
      cases g
      simp only at hdims hfails hmissing
      rw [hdims, hfails, hmissing]
      rfl

theorem exists_assess (h : (members.map fun a => a.project keys).Nodup) :
    ∃ g, assess registry members keys = .ok g :=
  ⟨⟨_, failuresOf registry members keys,
    if failuresOf registry members keys = [] ∧ axesOf registry members keys ≠ [] then
      missingOf registry members keys else []⟩, assess_eq_ok_iff.2 ⟨h, rfl, rfl, rfl⟩⟩

/-- The judgement on keys that suit the members. -/
theorem assess_of_allSuit (hnodup : (members.map fun a => a.project keys).Nodup)
    (hsuit : AllSuit registry members keys) :
    assess registry members keys
      = .ok ⟨(axesOf registry members keys).map Axis.status, [],
          if keys = [] then [] else missingOf registry members keys⟩ := by
  refine assess_eq_ok_iff.2 ⟨hnodup, rfl, (failuresOf_eq_nil_iff.2 hsuit).symm, ?_⟩
  have haxes : axesOf registry members keys = [] ↔ keys = [] := by
    rw [← List.length_eq_zero_iff, length_axesOf hsuit, List.length_eq_zero_iff]
  simp only [haxes, ne_eq, true_and, ite_not]

/-- **The failing case names a cell that two members hold.** -/
theorem duplicate_of_assess {cell : Assignment}
    (h : assess registry members keys = .error cell) :
    (members.map fun a => a.project keys).Duplicate cell := by
  unfold assess at h
  simp only at h
  split at h
  · rename_i found hfound
    cases h
    refine (duplicate_of_firstRepeated? hfound).resolve_left ?_
    rintro ⟨hseen, _⟩
    cases hseen
  · cases h

/-! ## §4. The product of axes. -/

theorem mem_extend {cells : List Assignment} {key : String} {values : List String}
    {c : Assignment} : c ∈ extend cells key values
      ↔ ∃ cell ∈ cells, ∃ value ∈ values, cell.insert key value = c := by
  simp only [extend, List.mem_flatMap, List.mem_map]

theorem product_concat (axes : List Axis) (ax : Axis) :
    product (axes ++ [ax]) = extend (product axes) ax.status.key ax.values := by
  rw [product, List.foldl_append]
  rfl

/-- The keys of the axes are folded and different. -/
structure Proper (axes : List Axis) : Prop where
  folded : ∀ ax ∈ axes, Text.foldKey ax.status.key = ax.status.key
  nodup : (axes.map fun ax => ax.status.key).Nodup

theorem Proper.of_concat {axes : List Axis} {ax : Axis} (h : Proper (axes ++ [ax])) :
    Proper axes ∧ Text.foldKey ax.status.key = ax.status.key
      ∧ ∀ b ∈ axes, b.status.key ≠ ax.status.key := by
  have hnodup := h.nodup
  rw [List.map_append, List.nodup_append] at hnodup
  obtain ⟨hfront, _, hnew⟩ := hnodup
  refine ⟨⟨fun b hb => h.folded b (List.mem_append_left _ hb), hfront⟩,
    h.folded ax (by simp), fun b hb => ?_⟩
  exact hnew _ (List.mem_map_of_mem hb) _ (by simp)

/-- A cell is its part without the last key, with the value of that key put back. -/
theorem insert_project_eq {c : Assignment} {keys : List String} {key value : String}
    (hfold : Text.foldKey key = key) (hget : c.get? key = some (Text.trim value))
    (hout : ∀ other, other ≠ key → other ∉ keys → c.get? other = none) :
    (c.project keys).insert key value = c := by
  apply Assignment.ext_get?
  intro other
  rw [Assignment.get?_insert, hfold, Assignment.get?_project]
  by_cases heq : other = key
  · rw [if_pos heq, heq, hget]
  · rw [if_neg heq]
    by_cases hmem : other ∈ keys
    · rw [if_pos hmem]
    · rw [if_neg hmem, hout other heq hmem]

/-- **A product has a cell where each key has a value of its axis, and nothing else.** -/
theorem mem_product {axes : List Axis} (h : Proper axes) {c : Assignment} :
    c ∈ product axes
      ↔ (∀ ax ∈ axes, ∃ value ∈ ax.values, c.get? ax.status.key = some (Text.trim value))
        ∧ ∀ key, (∀ ax ∈ axes, ax.status.key ≠ key) → c.get? key = none := by
  -- A product is built axis by axis, so the induction takes the axes from the end.
  induction axes using List.reverseRecOn generalizing c with
  | nil =>
    simp only [product, List.foldl_nil, List.mem_singleton, List.not_mem_nil, false_implies,
      implies_true, true_and, true_implies]
    exact ⟨fun hc key => by rw [hc, Assignment.get?_empty], fun hc => Assignment.ext_get? hc⟩
  | append_singleton axes ax ih =>
    obtain ⟨hfront, hfold, hnew⟩ := h.of_concat
    rw [product_concat, mem_extend]
    constructor
    · rintro ⟨cell, hcell, value, hvalue, rfl⟩
      obtain ⟨hin, hout⟩ := (ih hfront).1 hcell
      refine ⟨fun b hb => ?_, fun key hkey => ?_⟩
      · rcases List.mem_append.1 hb with hb | hb
        · obtain ⟨w, hw, hget⟩ := hin b hb
          exact ⟨w, hw, by rw [Assignment.get?_insert, hfold, if_neg (hnew b hb), hget]⟩
        · rw [List.mem_singleton.1 hb]
          exact ⟨value, hvalue, by rw [Assignment.get?_insert, hfold, if_pos rfl]⟩
      · have hne : key ≠ ax.status.key := fun heq => hkey ax (by simp) heq.symm
        rw [Assignment.get?_insert, hfold, if_neg hne]
        exact hout key fun b hb => hkey b (List.mem_append_left _ hb)
    · rintro ⟨hin, hout⟩
      -- Without its last value, the cell is one of the product of the other axes.
      obtain ⟨value, hvalue, hlast⟩ := hin ax (by simp)
      refine ⟨c.project (axes.map fun b => b.status.key), (ih hfront).2 ⟨?_, ?_⟩, value, hvalue, ?_⟩
      · intro b hb
        obtain ⟨w, hw, hget⟩ := hin b (List.mem_append_left _ hb)
        refine ⟨w, hw, ?_⟩
        rw [Assignment.get?_project, if_pos (List.mem_map_of_mem hb), hget]
      · intro key hkey
        have hnot : key ∉ axes.map fun b => b.status.key := by
          intro hmem
          obtain ⟨b, hb, heq⟩ := List.mem_map.1 hmem
          exact hkey b hb heq
        rw [Assignment.get?_project, if_neg hnot]
      · refine insert_project_eq hfold hlast fun key hne hnot => hout key fun b hb heq => ?_
        rcases List.mem_append.1 hb with hb | hb
        · exact hnot (heq ▸ List.mem_map_of_mem hb)
        · exact hne (heq ▸ (List.mem_singleton.1 hb ▸ rfl))

/-- A cell of the product with another value of one axis is a cell of the product. -/
theorem insert_mem_product {axes : List Axis} (h : Proper axes) {c : Assignment}
    (hc : c ∈ product axes) {ax : Axis} (hax : ax ∈ axes) {v : String} (hv : v ∈ ax.values) :
    c.insert ax.status.key v ∈ product axes := by
  obtain ⟨hin, hout⟩ := (mem_product h).1 hc
  have hfold := h.folded ax hax
  refine (mem_product h).2 ⟨fun b hb => ?_, fun key hkey => ?_⟩
  · by_cases heq : b.status.key = ax.status.key
    · have hsame : b = ax := List.inj_on_of_nodup_map h.nodup hb hax heq
      subst hsame
      exact ⟨v, hv, by rw [Assignment.get?_insert, hfold, if_pos rfl]⟩
    · obtain ⟨w, hw, hget⟩ := hin b hb
      exact ⟨w, hw, by rw [Assignment.get?_insert, hfold, if_neg heq, hget]⟩
  · have hne : key ≠ ax.status.key := fun heq => hkey ax hax heq.symm
    rw [Assignment.get?_insert, hfold, if_neg hne]
    exact hout key hkey

/-- **A product has each cell once,** if no axis repeats a value. -/
theorem nodup_product {axes : List Axis} (h : Proper axes)
    (hvalues : ∀ ax ∈ axes, ax.values.Nodup ∧ ∀ v ∈ ax.values, Text.trim v = v) :
    (product axes).Nodup := by
  induction axes using List.reverseRecOn with
  | nil => exact List.nodup_singleton _
  | append_singleton axes ax ih =>
    obtain ⟨hfront, hfold, hnew⟩ := h.of_concat
    obtain ⟨hnodup, htrim⟩ := hvalues ax (by simp)
    have hbefore := ih hfront fun b hb => hvalues b (List.mem_append_left _ hb)
    have hfree : ∀ cell ∈ product axes, cell.get? ax.status.key = none := fun cell hcell =>
      ((mem_product hfront).1 hcell).2 _ hnew
    rw [product_concat, extend, List.nodup_flatMap]
    -- Cells from one cell differ in the last value, cells from two cells differ elsewhere.
    constructor
    · intro cell _
      refine List.Nodup.map_on ?_ hnodup
      intro v hv w hw heq
      have hget := congrArg (fun a => a.get? ax.status.key) heq
      simp only [Assignment.get?_insert, hfold, if_true, htrim v hv, htrim w hw] at hget
      exact Option.some.inj hget
    · refine List.Pairwise.imp_of_mem ?_ hbefore
      intro c d hc hd hne x hxc hxd
      obtain ⟨v, _, rfl⟩ := List.mem_map.1 hxc
      obtain ⟨w, _, heq⟩ := List.mem_map.1 hxd
      refine hne (Assignment.ext_get? fun key => ?_)
      by_cases hkey : key = ax.status.key
      · rw [hkey, hfree c hc, hfree d hd]
      · have hget := congrArg (fun a => a.get? key) heq
        simp only [Assignment.get?_insert, hfold, if_neg hkey] at hget
        exact hget.symm

/-- Folded keys that suit the members have proper axes. -/
theorem AllSuit.proper_of_folded (h : AllSuit registry members keys) (hkeys : keys.Nodup)
    (hfold : ∀ key ∈ keys, Text.foldKey key = key) : Proper (axesOf registry members keys) := by
  constructor
  · intro ax hax
    exact hfold _ ((exists_axis_iff h).1 ⟨ax, hax, rfl⟩)
  · rw [keys_axesOf h]
    exact hkeys

/-- Keys that suit some members have proper axes. -/
theorem AllSuit.proper (h : AllSuit registry members keys) (hkeys : keys.Nodup)
    (hne : members ≠ []) : Proper (axesOf registry members keys) := by
  obtain ⟨a, ha⟩ := List.exists_mem_of_ne_nil _ hne
  refine h.proper_of_folded hkeys fun key hkey => ?_
  -- A member carries the key, and what is carried is folded.
  obtain ⟨d, hd⟩ := h key hkey
  obtain ⟨value, hvalue⟩ := hd.carried a ha
  exact (Assignment.folded_of_get? hvalue).1

/-- A choice of one value from each axis is a cell of the product. -/
theorem exists_mem_product {axes : List Axis} (h : Proper axes) {choice : String → String}
    (hchoice : ∀ ax ∈ axes, choice ax.status.key ∈ ax.values) :
    ∃ cell ∈ product axes, ∀ ax ∈ axes,
      cell.get? ax.status.key = some (Text.trim (choice ax.status.key)) := by
  induction axes using List.reverseRecOn with
  | nil =>
    refine ⟨Assignment.empty, List.mem_singleton_self _, ?_⟩
    intro ax hax
    cases hax
  | append_singleton axes ax ih =>
    obtain ⟨hfront, hfold, hnew⟩ := h.of_concat
    obtain ⟨cell, hcell, hget⟩ := ih hfront fun b hb => hchoice b (List.mem_append_left _ hb)
    refine ⟨cell.insert ax.status.key (choice ax.status.key), ?_, ?_⟩
    · rw [product_concat, mem_extend]
      exact ⟨cell, hcell, _, hchoice ax (by simp), rfl⟩
    · intro b hb
      rw [Assignment.get?_insert, hfold]
      rcases List.mem_append.1 hb with hb | hb
      · rw [if_neg (hnew b hb), hget b hb]
      · rw [List.mem_singleton.1 hb, if_pos rfl]

/-! ## §5. Full grids. -/

theorem missingOf_eq_nil_iff : missingOf registry members keys = []
    ↔ ∀ cell ∈ product (axesOf registry members keys), ∃ a ∈ members, a.project keys = cell := by
  simp only [missingOf, List.filter_eq_nil_iff, List.contains_eq_mem, Bool.not_eq_true',
    decide_eq_false_iff_not, not_not, List.mem_map]

/-- The grid is full: each cell of the product is held by a member, and each key is complete. -/
structure Full (registry : Registry) (members : List Assignment) (keys : List String) : Prop where
  suits : AllSuit registry members keys
  held : ∀ cell ∈ product (axesOf registry members keys), ∃ a ∈ members, a.project keys = cell
  complete : ∀ ax ∈ axesOf registry members keys, ax.status.status.isComplete = true

/-- A grid of one key is full when the key is complete. -/
theorem held_of_single {key : String} (hsuit : AllSuit registry members [key])
    (hproper : Proper (axesOf registry members [key]))
    (hcomplete : ∀ ax ∈ axesOf registry members [key], ax.status.status.isComplete = true) :
    ∀ cell ∈ product (axesOf registry members [key]), ∃ a ∈ members, a.project [key] = cell := by
  intro cell hcell
  obtain ⟨d, hd⟩ := hsuit key List.mem_cons_self
  have hax : axisOf members key d ∈ axesOf registry members [key] :=
    mem_axesOf.2 ⟨key, List.mem_cons_self, d, hd, rfl⟩
  obtain ⟨hexh, hall⟩ := isComplete_axisOf.1 (hcomplete _ hax)
  obtain ⟨hin, hout⟩ := (mem_product hproper).1 hcell
  obtain ⟨value, hvalue, hget⟩ := hin _ hax
  rw [values_axisOf hexh] at hvalue
  -- The member that shows the value has no other key in its cell.
  obtain ⟨a, ha, hshown⟩ := mem_shown.1 (hall value hvalue)
  refine ⟨a, ha, Assignment.ext_get? fun other => ?_⟩
  rw [Assignment.get?_project]
  split
  · rename_i hother
    rw [List.mem_singleton.1 hother, hshown, ← (Assignment.folded_of_get? hshown).2]
    exact hget.symm
  · rename_i hother
    refine (hout other fun ax hax' heq => hother ?_).symm
    obtain ⟨k, hk, e, _, rfl⟩ := mem_axesOf.1 hax'
    rw [← heq]
    exact hk

/-- **Complete keys fill the grid,** if two or more keys leave no cell missing. -/
theorem full_of_complete (hkeys : keys.Nodup) (hne : members ≠ [])
    (hsuit : AllSuit registry members keys)
    (hgrid : ¬ (1 < keys.length ∧ missingOf registry members keys ≠ []))
    (hcomplete : ∀ ax ∈ axesOf registry members keys, ax.status.status.isComplete = true) :
    Full registry members keys := by
  refine ⟨hsuit, ?_, hcomplete⟩
  -- Missing cells are looked for under two or more keys only; under one key they are its values,
  -- and without keys there is one cell, which every member holds.
  match keys, hkeys, hsuit, hgrid, hcomplete with
  | [], _, _, _, _ =>
    intro cell hcell
    obtain ⟨a, ha⟩ := List.exists_mem_of_ne_nil _ hne
    rw [List.mem_singleton.1 hcell]
    exact ⟨a, ha, a.project_nil⟩
  | [key], hkeys, hsuit, _, hcomplete =>
    exact held_of_single hsuit (hsuit.proper hkeys hne) hcomplete
  | first :: second :: rest, _, _, hgrid, _ =>
    apply missingOf_eq_nil_iff.1
    by_contra hmissing
    exact hgrid ⟨by simp, hmissing⟩

/-! ## §6. Full grids as products. -/

/-- The choices of a value for each key that a member makes. -/
def points (members : List Assignment) (keys : List String) : Set (String → String) :=
  {choice | ∃ a ∈ members, ∀ key ∈ keys, a.get? key = some (choice key)}

theorem Full.expected_shown (h : Full registry members keys) {key : String} (hkey : key ∈ keys) :
    ∃ d, Suits registry members key d ∧ d.policy.isExhaustive = true
      ∧ ∀ v ∈ d.expected, v ∈ shown members key := by
  obtain ⟨d, hd⟩ := h.suits key hkey
  have hax : axisOf members key d ∈ axesOf registry members keys :=
    mem_axesOf.2 ⟨key, hkey, d, hd, rfl⟩
  exact ⟨d, hd, isComplete_axisOf.1 (h.complete _ hax)⟩

/-- The members of a full grid make every choice of expected values, and no other. -/
theorem Full.points_eq (h : Full registry members keys) (hkeys : keys.Nodup) (hne : members ≠ []) :
    points members keys = Set.pi {key | key ∈ keys} registry.expectedAt := by
  ext choice
  constructor
  · intro hpoint key hkey
    obtain ⟨a, ha, hget⟩ := hpoint
    obtain ⟨d, hd, hexh, _⟩ := h.expected_shown hkey
    exact ⟨d, hd.defined, hd.expected hexh _ (mem_shown.2 ⟨a, ha, hget key hkey⟩)⟩
  · intro hchoice
    -- The chosen values are shown, so they are trimmed: the cell of the choice has them as they
    -- are, and so does the member that holds the cell.
    have hvalues : ∀ ax ∈ axesOf registry members keys, choice ax.status.key ∈ ax.values
        ∧ Text.trim (choice ax.status.key) = choice ax.status.key := by
      intro ax hax
      obtain ⟨key, hkey, e, he, rfl⟩ := mem_axesOf.1 hax
      obtain ⟨d, hd, hexh, hshown⟩ := h.expected_shown hkey
      obtain rfl : e = d := he.unique hd
      have hmem : choice key ∈ e.expected := (Registry.mem_expectedAt hd.defined).1 (hchoice key hkey)
      obtain ⟨a, _, hget⟩ := mem_shown.1 (hshown _ hmem)
      exact ⟨values_axisOf hexh ▸ hmem, (Assignment.folded_of_get? hget).2⟩
    obtain ⟨cell, hcell, hget⟩ := exists_mem_product (h.suits.proper hkeys hne)
      fun ax hax => (hvalues ax hax).1
    obtain ⟨a, ha, rfl⟩ := h.held cell hcell
    refine ⟨a, ha, fun key hkey => ?_⟩
    obtain ⟨ax, hax, rfl⟩ := (exists_axis_iff h.suits).2 hkey
    have hvalue := hget ax hax
    rwa [Assignment.get?_project, if_pos hkey, (hvalues ax hax).2] at hvalue

/-- The members carry every key, and every key has an exhaustive definition. -/
structure Exhaustive (registry : Registry) (members : List Assignment) (keys : List String) :
    Prop where
  carried : ∀ a ∈ members, ∀ key ∈ keys, ∃ value, a.get? key = some value
  defined : ∀ key ∈ keys, ∃ d, registry.find? key = some d ∧ d.policy.isExhaustive = true

theorem Full.exhaustive (h : Full registry members keys) : Exhaustive registry members keys := by
  constructor
  · intro a ha key hkey
    obtain ⟨d, hd⟩ := h.suits key hkey
    exact hd.carried a ha
  · intro key hkey
    obtain ⟨d, hd, hexh, _⟩ := h.expected_shown hkey
    exact ⟨d, hd.defined, hexh⟩

/-- The choice that a member makes. -/
theorem Exhaustive.mem_points (h : Exhaustive registry members keys) {a : Assignment}
    (ha : a ∈ members) : (fun key => (a.get? key).getD "") ∈ points members keys := by
  refine ⟨a, ha, fun key hkey => ?_⟩
  obtain ⟨value, hvalue⟩ := h.carried a ha key hkey
  simp only [hvalue, Option.getD_some]

section

variable (h : Exhaustive registry members keys)
  (hpoints : points members keys = Set.pi {key | key ∈ keys} registry.expectedAt)

include h hpoints

theorem suits_of_points {key : String} (hkey : key ∈ keys) {d : Definition}
    (hd : registry.find? key = some d) : Suits registry members key d := by
  refine ⟨fun a ha => h.carried a ha key hkey, hd, fun _ value hvalue => ?_⟩
  obtain ⟨a, ha, hget⟩ := mem_shown.1 hvalue
  have hchoice := h.mem_points ha
  rw [hpoints] at hchoice
  have hmem := (Registry.mem_expectedAt hd).1 (hchoice key hkey)
  simpa only [hget, Option.getD_some] using hmem

/-- One member's choice with another value of one key is a choice of some member. -/
theorem shown_of_points (hne : members ≠ []) {key : String} (hkey : key ∈ keys) {d : Definition}
    (hd : registry.find? key = some d) : ∀ v ∈ d.expected, v ∈ shown members key := by
  intro v hv
  -- The choice of any member will do, since its other values are expected as well.
  obtain ⟨a, ha⟩ := List.exists_mem_of_ne_nil _ hne
  have hchoice := h.mem_points ha
  rw [hpoints] at hchoice
  have hupdated : Function.update (fun k => (a.get? k).getD "") key v ∈ points members keys := by
    rw [hpoints]
    intro other hother
    by_cases heq : other = key
    · subst heq
      rw [Function.update_self]
      exact ⟨d, hd, hv⟩
    · rw [Function.update_of_ne heq]
      exact hchoice other hother
  obtain ⟨b, hb, hget⟩ := hupdated
  refine mem_shown.2 ⟨b, hb, ?_⟩
  rw [hget key hkey, Function.update_self]

/-- Members that make every choice of expected values, and no other, fill their grid. -/
theorem full_of_points (hkeys : keys.Nodup) (hne : members ≠ []) : Full registry members keys := by
  have hsuit : AllSuit registry members keys := by
    intro key hkey
    obtain ⟨d, hd, _⟩ := h.defined key hkey
    exact ⟨d, suits_of_points h hpoints hkey hd⟩
  have haxis : ∀ ax ∈ axesOf registry members keys, ∃ d, registry.find? ax.status.key = some d
      ∧ ax.values = d.expected ∧ ax.status.status.isComplete = true := by
    intro ax hax
    obtain ⟨key, hkey, e, he, rfl⟩ := mem_axesOf.1 hax
    obtain ⟨d, hd, hexh⟩ := h.defined key hkey
    obtain rfl : e = d := he.unique (suits_of_points h hpoints hkey hd)
    exact ⟨e, hd, values_axisOf hexh,
      isComplete_axisOf.2 ⟨hexh, shown_of_points h hpoints hne hkey hd⟩⟩
  refine ⟨hsuit, fun cell hcell => ?_, fun ax hax => ?_⟩
  · obtain ⟨hin, hout⟩ := (mem_product (hsuit.proper hkeys hne)).1 hcell
    -- The values that the cell was made of are a choice of expected ones.
    have hvalue : ∀ key ∈ keys, ∃ value ∈ registry.expectedAt key,
        cell.get? key = some (Text.trim value) := by
      intro key hkey
      obtain ⟨ax, hax, rfl⟩ := (exists_axis_iff hsuit).2 hkey
      obtain ⟨d, hd, hvalues, _⟩ := haxis ax hax
      obtain ⟨value, hmem, hget⟩ := hin ax hax
      exact ⟨value, ⟨d, hd, hvalues ▸ hmem⟩, hget⟩
    choose! choice hchoice hget using hvalue
    have hpoint : choice ∈ points members keys := by
      rw [hpoints]
      exact hchoice
    obtain ⟨a, ha, hagree⟩ := hpoint
    refine ⟨a, ha, Assignment.ext_get? fun key => ?_⟩
    rw [Assignment.get?_project]
    by_cases hkey : key ∈ keys
    · rw [if_pos hkey, hget key hkey, hagree key hkey,
        (Assignment.folded_of_get? (hagree key hkey)).2]
    · rw [if_neg hkey]
      refine (hout key fun ax hax heq => hkey ?_).symm
      exact (exists_axis_iff hsuit).1 ⟨ax, hax, heq⟩
  · obtain ⟨_, _, _, hcomplete⟩ := haxis ax hax
    exact hcomplete

end

/-- **A grid is full exactly when its members make all choices of expected values,** and no
    others. -/
theorem full_iff (hkeys : keys.Nodup) (hne : members ≠ []) : Full registry members keys
    ↔ Exhaustive registry members keys
      ∧ points members keys = Set.pi {key | key ∈ keys} registry.expectedAt := by
  constructor
  · intro h
    exact ⟨h.exhaustive, h.points_eq hkeys hne⟩
  · intro h
    exact full_of_points h.1 h.2 hkeys hne

end Grid

end MetricCube
