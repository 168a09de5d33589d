/-
  MetricCube.Proofs.Families
  ──────────────────────────
  **Families partition the candidates.**  Whatever satisfies a query is an exact
  match or a member of exactly one family, the one of its keys beyond the query:

      F is a family  ↔  F lists all that satisfy the query with F's keys beyond it,
                        and neither is empty                  (`mem_partition_iff`)

  Members that are equal are told apart by their positions: sorting only looks at
  assignments, so that numbered members are sorted into the same families with their
  numbers (`partition_map`), and `Sorted` states the partition position by position.

  `isolate` gives a family back as it is; on any members, it succeeds exactly if all
  that satisfy the query have the same keys beyond it (`isolate_eq_ok_iff`), and
  otherwise names the first that differs from the first (`isolate_eq_error_iff`).
-/
import Mathlib
import MetricCube.Slice.Family
import MetricCube.Proofs.Assignment

namespace MetricCube

namespace Family

variable {α β : Type} {assignment : α → Assignment} {members : List α} {query : Assignment}

/-! ## §1. Families by their keys. -/

/-- The family with something else for each member. -/
def map (f : α → β) (family : Family α) : Family β :=
  ⟨family.keys, family.members.map f⟩

theorem keys_partition :
    (partition assignment members query).map keys
      = Ordered.distinct ((candidates assignment members query).map fun m =>
          (assignment m).extraKeys query) := by
  unfold partition
  rw [List.map_map]
  exact List.map_id _

/-- Families come in strictly ascending order of their keys. -/
theorem ascending_keys_partition :
    ((partition assignment members query).map keys).Pairwise (· < ·) := by
  rw [keys_partition]
  exact Ordered.ascending_distinct _

/-- **A family lists all that satisfy the query with its keys beyond the query,** of which there
    are some. -/
theorem mem_partition_iff {family : Family α} : family ∈ partition assignment members query
    ↔ family.members = (members.filter fun m =>
          (assignment m).satisfies query && decide ((assignment m).extraKeys query = family.keys))
      ∧ family.members ≠ [] ∧ family.keys ≠ [] := by
  -- A candidate has some key beyond the query; other keys than none imply this.
  have hfilter : ∀ keys : List String, keys ≠ [] →
      ((candidates assignment members query).filter fun m =>
          decide ((assignment m).extraKeys query = keys))
        = members.filter fun m =>
            (assignment m).satisfies query && decide ((assignment m).extraKeys query = keys) := by
    intro keys hkeys
    unfold candidates
    rw [List.filter_filter]
    refine List.filter_congr fun m _ => ?_
    by_cases heq : (assignment m).extraKeys query = keys
    · have hsome : (assignment m).extraKeys query ≠ [] := heq ▸ hkeys
      simp [heq, hkeys]
    · simp [heq]
  unfold partition
  simp only [List.mem_map, Ordered.mem_distinct]
  constructor
  · rintro ⟨keys, ⟨m, hm, rfl⟩, rfl⟩
    have hcandidate := hm
    unfold candidates at hm
    rw [List.mem_filter, Bool.and_eq_true, Bool.not_eq_true', List.isEmpty_eq_false_iff] at hm
    refine ⟨hfilter _ hm.2.2, ?_, hm.2.2⟩
    exact List.ne_nil_of_mem (List.mem_filter.2 ⟨hcandidate, decide_eq_true rfl⟩)
  · rintro ⟨hmembers, hsome, hkeys⟩
    obtain ⟨m, hm⟩ := List.exists_mem_of_ne_nil _ hsome
    rw [hmembers, ← hfilter _ hkeys, List.mem_filter, decide_eq_true_eq] at hm
    refine ⟨family.keys, ⟨m, hm.1, hm.2⟩, ?_⟩
    rw [hfilter _ hkeys, ← hmembers]

/-- A member of a family satisfies the query and has the family's keys beyond it. -/
theorem of_mem_partition {family : Family α} (h : family ∈ partition assignment members query)
    {m : α} (hm : m ∈ family.members) : m ∈ members ∧ (assignment m).satisfies query = true
      ∧ (assignment m).extraKeys query = family.keys := by
  rw [(mem_partition_iff.1 h).1, List.mem_filter, Bool.and_eq_true, decide_eq_true_eq] at hm
  exact hm

/-- What satisfies the query and has keys beyond it is in a family. -/
theorem exists_mem_partition {m : α} (hm : m ∈ members)
    (hsat : (assignment m).satisfies query = true) (hkeys : (assignment m).extraKeys query ≠ []) :
    ∃ family ∈ partition assignment members query, m ∈ family.members := by
  have hmem : m ∈ members.filter fun m' => (assignment m').satisfies query
      && decide ((assignment m').extraKeys query = (assignment m).extraKeys query) := by
    rw [List.mem_filter, hsat]
    exact ⟨hm, by simp⟩
  refine ⟨⟨(assignment m).extraKeys query, _⟩, mem_partition_iff.2 ⟨rfl, ?_, hkeys⟩, hmem⟩
  exact List.ne_nil_of_mem hmem

/-- A member is in one family only. -/
theorem eq_of_mem_partition {F G : Family α} (hF : F ∈ partition assignment members query)
    (hG : G ∈ partition assignment members query) {m : α} (hmF : m ∈ F.members)
    (hmG : m ∈ G.members) : F = G := by
  have hkeys : F.keys = G.keys :=
    (of_mem_partition hF hmF).2.2.symm.trans (of_mem_partition hG hmG).2.2
  have hmembers : F.members = G.members := by
    rw [(mem_partition_iff.1 hF).1, (mem_partition_iff.1 hG).1, hkeys]
  cases F
  cases G
  cases hkeys
  cases hmembers
  rfl

theorem mem_exact_iff {m : α} : m ∈ exact assignment members query
    ↔ m ∈ members ∧ (assignment m).satisfies query = true
      ∧ (assignment m).extraKeys query = [] := by
  rw [exact, List.mem_filter, decide_eq_true_eq, Assignment.eq_iff_satisfies]

/-! ## §2. Numbered members. -/

theorem exact_map (f : β → α) (items : List β) :
    exact assignment (items.map f) query = (exact (assignment ∘ f) items query).map f := by
  unfold exact
  rw [List.filter_map]
  rfl

/-- **Sorting looks at assignments only.** -/
theorem partition_map (f : β → α) (items : List β) :
    partition assignment (items.map f) query
      = (partition (assignment ∘ f) items query).map (map f) := by
  have hcandidates : candidates assignment (items.map f) query
      = (candidates (assignment ∘ f) items query).map f := by
    unfold candidates
    rw [List.filter_map]
    rfl
  unfold partition
  simp only [hcandidates, List.map_map]
  apply List.map_congr_left
  intro keys _
  show Family.mk keys _ = Family.mk keys _
  rw [List.filter_map]
  rfl

/-- How numbered members are sorted by a query into exact matches and families. -/
structure Sorted (assignment : α → Assignment) (members : List α) (query : Assignment)
    (exacts : List (α × ℕ)) (families : List (Family (α × ℕ))) : Prop where
  /-- What satisfies the query is, at its position, an exact match or in exactly one family. -/
  placed : ∀ i m, members[i]? = some m → (assignment m).satisfies query = true →
    ((m, i) ∈ exacts ∧ ∀ F ∈ families, (m, i) ∉ F.members)
      ∨ ((m, i) ∉ exacts ∧ ∃! F, F ∈ families ∧ (m, i) ∈ F.members)
  /-- Nothing else is. -/
  found : ∀ i m, ((m, i) ∈ exacts ∨ ∃ F ∈ families, (m, i) ∈ F.members) →
    members[i]? = some m ∧ (assignment m).satisfies query = true
  equal : ∀ e ∈ exacts, assignment e.1 = query
  /-- Each position comes once, in the order of the members. -/
  inOrder : (exacts.map Prod.snd).Pairwise (· < ·)
    ∧ ∀ F ∈ families, (F.members.map Prod.snd).Pairwise (· < ·)
  nonempty : ∀ F ∈ families, F.members ≠ []
  ascending : (families.map keys).Pairwise (· < ·)
  uniform : ∀ F ∈ families, ∀ e ∈ F.members, (assignment e.1).extraKeys query = F.keys

/-- Numbers of a part of the numbered members ascend. -/
theorem ascending_of_sublist_zipIdx {items : List (α × ℕ)} (h : items.Sublist members.zipIdx) :
    (items.map Prod.snd).Pairwise (· < ·) := by
  have hall : (members.zipIdx.map Prod.snd).Pairwise (· < ·) := by
    rw [List.zipIdx_map_snd]
    exact List.pairwise_lt_range'
  exact hall.sublist (h.map Prod.snd)

/-- **Sorting is a partition of what satisfies the query, position by position.** -/
theorem sorted_numbered (assignment : α → Assignment) (members : List α) (query : Assignment) :
    Sorted assignment members query (exact (assignment ∘ Prod.fst) members.zipIdx query)
      (partition (assignment ∘ Prod.fst) members.zipIdx query) := by
  constructor
  case placed =>
    intro i m hm hsat
    have hmem : (m, i) ∈ members.zipIdx := List.mem_zipIdx_iff_getElem?.2 hm
    -- With no keys beyond the query it is exact, and else in the family of its keys.
    by_cases hkeys : (assignment m).extraKeys query = []
    · refine .inl ⟨mem_exact_iff.2 ⟨hmem, hsat, hkeys⟩, fun F hF hmF => ?_⟩
      have huniform := (of_mem_partition hF hmF).2.2
      exact (mem_partition_iff.1 hF).2.2 (huniform.symm.trans hkeys)
    · obtain ⟨F, hF, hmF⟩ : ∃ F ∈ partition (assignment ∘ Prod.fst) members.zipIdx query,
          (m, i) ∈ F.members := exists_mem_partition hmem hsat hkeys
      refine .inr ⟨fun h => hkeys (mem_exact_iff.1 h).2.2, F, ⟨hF, hmF⟩, ?_⟩
      intro G hG
      exact eq_of_mem_partition hG.1 hF hG.2 hmF
  case found =>
    intro i m hfound
    rcases hfound with h | ⟨F, hF, hmF⟩
    · obtain ⟨hmem, hsat, _⟩ := mem_exact_iff.1 h
      exact ⟨List.mem_zipIdx_iff_getElem?.1 hmem, hsat⟩
    · obtain ⟨hmem, hsat, _⟩ := of_mem_partition hF hmF
      exact ⟨List.mem_zipIdx_iff_getElem?.1 hmem, hsat⟩
  case equal =>
    intro e he
    obtain ⟨_, hsat, hkeys⟩ := mem_exact_iff.1 he
    exact Assignment.eq_iff_satisfies.2 ⟨hsat, hkeys⟩
  case inOrder =>
    refine ⟨ascending_of_sublist_zipIdx List.filter_sublist, fun F hF => ?_⟩
    rw [(mem_partition_iff.1 hF).1]
    exact ascending_of_sublist_zipIdx List.filter_sublist
  case nonempty => exact fun F hF => (mem_partition_iff.1 hF).2.1
  case ascending => exact ascending_keys_partition
  case uniform => exact fun F hF e he => (of_mem_partition hF he).2.2

/-! ## §3. Isolating. -/

/-- Without a query, the keys of a family are those that its members carry. -/
theorem isolate_of_isEmpty {keys : List String} (hempty : query.isEmpty = true)
    (hne : members ≠ []) (hkeys : keys ≠ [])
    (hall : ∀ m ∈ members, (assignment m).extraKeys query = keys) :
    isolate assignment members query = .ok ⟨keys, members⟩ := by
  have hkeysOf : ∀ m ∈ members, (assignment m).keys = keys := by
    intro m hm
    rw [← hall m hm, Assignment.extraKeys_of_isEmpty hempty]
  have hmatched : (members.filter fun m => !(assignment m).isEmpty) = members := by
    rw [List.filter_eq_self]
    intro m hm
    rw [Bool.not_eq_true', Assignment.isEmpty, Table.isEmpty, List.isEmpty_eq_false_iff]
    intro hnil
    have hk := hkeysOf m hm
    rw [Assignment.keys, Table.keys, hnil] at hk
    exact hkeys hk.symm
  -- Both lists are ascending, so it is enough that they have the same members.
  have hdistinct : Ordered.distinct (members.flatMap fun m => (assignment m).keys) = keys := by
    obtain ⟨m, hm⟩ := List.exists_mem_of_ne_nil _ hne
    have hasc : keys.Pairwise (· < ·) := hkeysOf m hm ▸ Table.ascending_keys (assignment m).cells
    refine List.Pairwise.eq_of_mem_iff (Ordered.ascending_distinct _) hasc fun key => ?_
    rw [Ordered.mem_distinct, List.mem_flatMap]
    constructor
    · rintro ⟨t, ht, hkey⟩
      exact hkeysOf t ht ▸ hkey
    · intro hkey
      exact ⟨m, hm, (hkeysOf m hm).symm ▸ hkey⟩
  unfold isolate
  rw [if_pos hempty]
  simp only [hmatched, hdistinct]

section

variable (hquery : query.isEmpty = false)

include hquery

theorem isolate_of_filter_eq_nil
    (h : (members.filter fun m => (assignment m).satisfies query) = []) :
    isolate assignment members query = .ok ⟨[], []⟩ := by
  unfold isolate
  rw [if_neg (Bool.eq_false_iff.1 hquery)]
  simp only [h]

/-- What satisfies a query is isolated by the keys of the first, -/
theorem isolate_of_find?_eq_none {first : α} {rest : List α}
    (h : (members.filter fun m => (assignment m).satisfies query) = first :: rest)
    (hfind : (rest.find? fun m =>
      decide ((assignment m).extraKeys query ≠ (assignment first).extraKeys query)) = none) :
    isolate assignment members query
      = .ok ⟨(assignment first).extraKeys query, first :: rest⟩ := by
  unfold isolate
  rw [if_neg (Bool.eq_false_iff.1 hquery)]
  simp only [h, hfind]

/-- unless another differs. -/
theorem isolate_of_find?_eq_some {first m : α} {rest : List α}
    (h : (members.filter fun m => (assignment m).satisfies query) = first :: rest)
    (hfind : (rest.find? fun m =>
      decide ((assignment m).extraKeys query ≠ (assignment first).extraKeys query)) = some m) :
    isolate assignment members query
      = .error (.mixedKeys (assignment m) ((assignment first).extraKeys query)
          ((assignment m).extraKeys query)) := by
  unfold isolate
  rw [if_neg (Bool.eq_false_iff.1 hquery)]
  simp only [h, hfind]

/-- **Isolating succeeds with all that satisfies the query,** if it has the same keys beyond it. -/
theorem isolate_eq_ok_iff {family : Family α} :
    isolate assignment members query = .ok family
      ↔ family.members = (members.filter fun m => (assignment m).satisfies query)
        ∧ (∀ m ∈ family.members, (assignment m).extraKeys query = family.keys)
        ∧ (family.members = [] → family.keys = []) := by
  obtain ⟨keys, found⟩ := family
  cases hmatched : members.filter fun m => (assignment m).satisfies query with
  | nil =>
    rw [isolate_of_filter_eq_nil hquery hmatched]
    constructor
    · rintro ⟨⟩
      simp
    · rintro ⟨rfl, _, hnone⟩
      obtain rfl : keys = [] := hnone rfl
      rfl
  | cons first rest =>
    cases hfind : rest.find? fun m =>
      decide ((assignment m).extraKeys query ≠ (assignment first).extraKeys query) with
    | none =>
      rw [isolate_of_find?_eq_none hquery hmatched hfind]
      have hsame : ∀ m ∈ rest,
          (assignment m).extraKeys query = (assignment first).extraKeys query := by
        simpa using hfind
      constructor
      · rintro ⟨⟩
        exact ⟨rfl, List.forall_mem_cons.2 ⟨rfl, hsame⟩, fun h => nomatch h⟩
      · rintro ⟨rfl, hall, _⟩
        rw [hall first List.mem_cons_self]
    | some m =>
      rw [isolate_of_find?_eq_some hquery hmatched hfind]
      -- The one that was found contradicts common keys.
      have hm := List.mem_of_find?_eq_some hfind
      have hne := List.find?_some hfind
      rw [decide_eq_true_eq] at hne
      constructor
      · rintro ⟨⟩
      · rintro ⟨rfl, hall, _⟩
        have hfirst := hall first List.mem_cons_self
        exact absurd ((hall m (List.mem_cons_of_mem _ hm)).trans hfirst.symm) hne

theorem exists_isolate_iff : (∃ family, isolate assignment members query = .ok family)
    ↔ ∀ a ∈ members, ∀ b ∈ members, (assignment a).satisfies query = true →
        (assignment b).satisfies query = true →
        (assignment a).extraKeys query = (assignment b).extraKeys query := by
  constructor
  · intro h a ha b hb hsatA hsatB
    obtain ⟨family, hfamily⟩ := h
    obtain ⟨hmembers, hall, _⟩ := (isolate_eq_ok_iff hquery).1 hfamily
    rw [hmembers] at hall
    rw [hall a (List.mem_filter.2 ⟨ha, hsatA⟩), hall b (List.mem_filter.2 ⟨hb, hsatB⟩)]
  · intro hsame
    cases hmatched : members.filter fun m => (assignment m).satisfies query with
    | nil => exact ⟨_, isolate_of_filter_eq_nil hquery hmatched⟩
    | cons first rest =>
      have hall : ∀ m ∈ first :: rest, m ∈ members ∧ (assignment m).satisfies query = true :=
        fun m hm => List.mem_filter.1 (hmatched ▸ hm)
      obtain ⟨hfirst, hsat⟩ := hall first List.mem_cons_self
      refine ⟨_, isolate_of_find?_eq_none hquery hmatched (List.find?_eq_none.2 ?_)⟩
      intro m hm
      obtain ⟨hmem, hsatM⟩ := hall m (List.mem_cons_of_mem _ hm)
      simp [hsame m hmem first hfirst hsatM hsat]

end

/-- With a query, the keys of a family are those that its members have beside the query. -/
theorem isolate_of_not_isEmpty {keys : List String} (hempty : ¬ query.isEmpty = true)
    (hne : members ≠ [])
    (hall : ∀ m ∈ members, (assignment m).satisfies query = true
      ∧ (assignment m).extraKeys query = keys) :
    isolate assignment members query = .ok ⟨keys, members⟩ := by
  refine (isolate_eq_ok_iff (Bool.eq_false_iff.2 hempty)).2 ⟨?_, ?_, fun h => absurd h hne⟩
  · exact (List.filter_eq_self.2 fun m hm => (hall m hm).1).symm
  · exact fun m hm => (hall m hm).2

/-- **A family is isolated as it is.** -/
theorem isolate_members {family : Family α} (h : family ∈ partition assignment members query) :
    isolate assignment family.members query = .ok family := by
  obtain ⟨_, hne, hkeys⟩ := mem_partition_iff.1 h
  by_cases hempty : query.isEmpty = true
  · exact isolate_of_isEmpty hempty hne hkeys fun m hm => (of_mem_partition h hm).2.2
  · exact isolate_of_not_isEmpty hempty hne fun m hm => (of_mem_partition h hm).2

/-- Of the members that satisfy the query, `first` is the first, and `m` is the first whose keys
    beyond the query differ from those of `first`. -/
def FirstToDiffer (assignment : α → Assignment) (members : List α) (query : Assignment)
    (first m : α) : Prop :=
  ∃ before between after, members = before ++ first :: between ++ m :: after
    ∧ (∀ a ∈ before, (assignment a).satisfies query = false)
    ∧ (assignment first).satisfies query = true
    ∧ (∀ a ∈ between, (assignment a).satisfies query = true →
        (assignment a).extraKeys query = (assignment first).extraKeys query)
    ∧ (assignment m).satisfies query = true
    ∧ (assignment m).extraKeys query ≠ (assignment first).extraKeys query

theorem firstToDiffer_iff {first m : α} : FirstToDiffer assignment members query first m
    ↔ ∃ rest, (members.filter fun a => (assignment a).satisfies query) = first :: rest
      ∧ (rest.find? fun a =>
          decide ((assignment a).extraKeys query ≠ (assignment first).extraKeys query))
        = some m := by
  -- What comes after `first` is looked through for one that satisfies the query and differs.
  simp only [List.filter_eq_cons_iff]
  constructor
  · rintro ⟨before, between, after, rfl, hbefore, hfirst, hbetween, hm, hne⟩
    refine ⟨_, ⟨before, between ++ m :: after, by simp, ?_, hfirst, rfl⟩, ?_⟩
    · intro a ha
      rw [hbefore a ha]
      exact Bool.false_ne_true
    · rw [List.find?_filter, List.find?_eq_some_iff_append]
      refine ⟨by simp [hm, hne], between, after, rfl, fun a ha => ?_⟩
      cases hsat : (assignment a).satisfies query with
      | false => rfl
      | true => simpa using hbetween a ha hsat
  · rintro ⟨_, ⟨before, tail, rfl, hbefore, hfirst, rfl⟩, hfind⟩
    rw [List.find?_filter, List.find?_eq_some_iff_append] at hfind
    obtain ⟨hm, between, after, rfl, hbetween⟩ := hfind
    rw [decide_eq_true_eq, decide_eq_true_eq] at hm
    refine ⟨before, between, after, by simp, ?_, hfirst, ?_, hm⟩
    · exact fun a ha => Bool.eq_false_iff.2 (hbefore a ha)
    · intro a ha hsat
      simpa [hsat] using hbetween a ha

/-- **Isolating fails on the first that differs from the first.** -/
theorem isolate_eq_error_iff (hquery : query.isEmpty = false) {e : IsolationError} :
    isolate assignment members query = .error e
      ↔ ∃ first m, FirstToDiffer assignment members query first m
        ∧ e = .mixedKeys (assignment m) ((assignment first).extraKeys query)
          ((assignment m).extraKeys query) := by
  simp only [firstToDiffer_iff]
  -- What is found is the first, among those after the first, to have other keys.
  cases hmatched : members.filter fun m => (assignment m).satisfies query with
  | nil =>
    rw [isolate_of_filter_eq_nil hquery hmatched]
    simp
  | cons first rest =>
    cases hfind : rest.find? fun m =>
      decide ((assignment m).extraKeys query ≠ (assignment first).extraKeys query) with
    | none =>
      rw [isolate_of_find?_eq_none hquery hmatched hfind]
      constructor
      · rintro ⟨⟩
      · rintro ⟨_, m, ⟨_, hcons, hm⟩, _⟩
        cases hcons
        rw [hfind] at hm
        cases hm
    | some m =>
      rw [isolate_of_find?_eq_some hquery hmatched hfind]
      constructor
      · rintro ⟨⟩
        exact ⟨first, m, ⟨rest, rfl, hfind⟩, rfl⟩
      · rintro ⟨_, m', ⟨_, hcons, hm'⟩, rfl⟩
        cases hcons
        rw [hfind] at hm'
        cases hm'
        rfl

/-- **Families partition the candidates of a query.**  Position by position, what satisfies the
    query is an exact match or in exactly one family; each family is isolated as it is; and
    members that are given with a query are isolated exactly if all that satisfy it have the same
    keys beyond it, while otherwise the first that differs from the first is named. -/
theorem families_partition_candidates (assignment : α → Assignment) (members : List α)
    (query : Assignment) :
    Sorted assignment members query (exact (assignment ∘ Prod.fst) members.zipIdx query)
        (partition (assignment ∘ Prod.fst) members.zipIdx query)
      ∧ exact assignment members query
        = (exact (assignment ∘ Prod.fst) members.zipIdx query).map Prod.fst
      ∧ partition assignment members query
        = (partition (assignment ∘ Prod.fst) members.zipIdx query).map (map Prod.fst)
      ∧ (∀ family ∈ partition assignment members query,
          isolate assignment family.members query = .ok family)
      ∧ (query.isEmpty = false →
          ((∃ family, isolate assignment members query = .ok family)
              ↔ ∀ a ∈ members, ∀ b ∈ members, (assignment a).satisfies query = true →
                  (assignment b).satisfies query = true →
                  (assignment a).extraKeys query = (assignment b).extraKeys query)
            ∧ ∀ e, isolate assignment members query = .error e
              ↔ ∃ first m, FirstToDiffer assignment members query first m
                ∧ e = .mixedKeys (assignment m) ((assignment first).extraKeys query)
                  ((assignment m).extraKeys query)) := by
  have hnumbered : members.zipIdx.map Prod.fst = members := List.zipIdx_map_fst 0 members
  refine ⟨sorted_numbered assignment members query, ?_, ?_, ?_, fun hquery => ⟨?_, ?_⟩⟩
  · rw [← exact_map, hnumbered]
  · rw [← partition_map, hnumbered]
  · exact fun family h => isolate_members h
  · exact exists_isolate_iff hquery
  · exact fun e => isolate_eq_error_iff hquery

end Family

end MetricCube
