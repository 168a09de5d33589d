/-
  MetricCube.Proofs.Assignment
  ────────────────────────────
  **The algebra of assignments.**  Assignments are described by `get?`, and a query
  splits every assignment that satisfies it into the query and a cell:

      q.merged (a.project (a.extraKeys q)) = a          (`merged_project`)

  Back the other way, a cell beside the query is the cell of the assignment that
  it makes up with the query (`extraKeys_merged`, `project_merged`).

  Main statement: `splits_into_query_and_cell`.
-/
import Mathlib
import MetricCube.Assignment
import MetricCube.Proofs.Table

namespace MetricCube.Assignment

/-! ## §1. Looking up. -/

@[simp] theorem get?_empty (key : String) : empty.get? key = none := rfl

@[simp] theorem get?_insert (a : Assignment) (key value other : String) :
    (a.insert key value).get? other
      = if other = Text.foldKey key then some (Text.trim value) else a.get? other :=
  Table.get?_insert a.cells _ other _

@[simp] theorem get?_project (a : Assignment) (keys : List String) (key : String) :
    (a.project keys).get? key = if key ∈ keys then a.get? key else none :=
  Table.get?_restrict a.cells keys key

@[simp] theorem get?_merged (a b : Assignment) (key : String) :
    (a.merged b).get? key = (b.get? key).or (a.get? key) :=
  Table.get?_union a.cells b.cells key

/-- **Assignments that agree on every dimension are equal.** -/
theorem ext_get? {a b : Assignment} (h : ∀ key, a.get? key = b.get? key) : a = b :=
  ext_cells (Table.ext_get? h)

theorem folded_of_get? {a : Assignment} {key value : String} (h : a.get? key = some value) :
    Text.foldKey key = key ∧ Text.trim value = value :=
  a.folded (key, value) (Table.get?_eq_some_iff.1 h)

theorem mem_keys {a : Assignment} {key : String} :
    key ∈ a.keys ↔ ∃ value, a.get? key = some value :=
  Table.mem_keys

theorem contains_eq_false_iff {a : Assignment} {key : String} :
    a.contains key = false ↔ a.get? key = none := by
  rw [contains, Table.contains, Option.isSome_eq_false_iff, Option.isNone_iff_eq_none]
  rfl

theorem replaced?_insert (a : Assignment) (key value other : String) :
    (a.insert key value).replaced? other
      = if Text.foldKey other = Text.foldKey key then some (Text.trim value)
        else a.replaced? other :=
  a.get?_insert key value (Text.foldKey other)

theorem insert_comm (a : Assignment) {key key' : String}
    (h : Text.foldKey key ≠ Text.foldKey key') (value value' : String) :
    (a.insert key value).insert key' value' = (a.insert key' value').insert key value := by
  apply ext_get?
  intro other
  simp only [get?_insert]
  by_cases hkey : other = Text.foldKey key
  · have hkey' : other ≠ Text.foldKey key' := fun he => h (hkey.symm.trans he)
    rw [if_neg hkey', if_pos hkey, if_pos hkey]
  · rw [if_neg hkey, if_neg hkey]

/-- A pair as an assignment keeps it. -/
def normal (e : String × String) : String × String :=
  (Text.foldKey e.1, Text.trim e.2)

theorem cells_ofPairs (pairs : List (String × String)) :
    (ofPairs pairs).cells = Table.ofPairs (pairs.map normal) := by
  have hfold : ∀ (pairs : List (String × String)) (a : Assignment),
      (pairs.foldl (fun a e => a.insert e.1 e.2) a).cells
        = a.cells.insertAll (pairs.map normal) := by
    intro pairs
    induction pairs with
    | nil => intro a; rfl
    | cons e pairs ih => intro a; exact ih (a.insert e.1 e.2)
  exact hfold pairs empty

/-- Of several pairs for one dimension the last one counts. -/
theorem get?_ofPairs (pairs : List (String × String)) (key : String) :
    (ofPairs pairs).get? key = lastUnder key (pairs.map normal) := by
  unfold get?
  rw [cells_ofPairs, Table.get?_ofPairs]

/-- An assignment is made again from its pairs. -/
theorem ofPairs_toList (a : Assignment) : ofPairs a.toList = a := by
  have hnormal : a.toList.map normal = a.toList := by
    refine (List.map_congr_left fun e he => ?_).trans (List.map_id _)
    exact Prod.ext (a.folded e he).1 (a.folded e he).2
  apply ext_cells
  rw [cells_ofPairs, hnormal]
  exact Table.ofPairs_entries a.cells

/-! ## §2. Queries. -/

theorem satisfies_iff {a query : Assignment} :
    a.satisfies query = true ↔ ∀ key value, query.get? key = some value → a.get? key = some value := by
  simp only [satisfies, List.all_eq_true, beq_iff_eq]
  constructor
  · intro h key value hq
    exact h (key, value) (Table.get?_eq_some_iff.1 hq)
  · intro h e he
    exact h e.1 e.2 (Table.get?_eq_some_iff.2 he)

theorem satisfies_refl (a : Assignment) : a.satisfies a = true :=
  satisfies_iff.2 fun _ _ h => h

theorem mem_extraKeys {a query : Assignment} {key : String} :
    key ∈ a.extraKeys query ↔ (∃ value, a.get? key = some value) ∧ query.get? key = none := by
  rw [extraKeys, List.mem_filter, mem_keys, Bool.not_eq_true', contains_eq_false_iff]

theorem ascending_extraKeys (a query : Assignment) : (a.extraKeys query).Pairwise (· < ·) :=
  (Table.ascending_keys a.cells).filter _

theorem foldKey_of_mem_extraKeys {a query : Assignment} {key : String}
    (h : key ∈ a.extraKeys query) : Text.foldKey key = key := by
  obtain ⟨⟨value, hvalue⟩, _⟩ := mem_extraKeys.1 h
  exact (folded_of_get? hvalue).1

/-- An assignment that satisfies a query has its keys on the query's side or beyond it. -/
theorem mem_keys_of_satisfies {a query : Assignment} (h : a.satisfies query = true)
    {key : String} : key ∈ a.keys ↔ key ∈ query.keys ∨ key ∈ a.extraKeys query := by
  rw [mem_keys, mem_keys, mem_extraKeys]
  constructor
  · intro hkey
    cases hq : query.get? key with
    | none => exact .inr ⟨hkey, rfl⟩
    | some value => exact .inl ⟨value, rfl⟩
  · rintro (⟨value, hvalue⟩ | ⟨hkey, _⟩)
    · exact ⟨value, satisfies_iff.1 h key value hvalue⟩
    · exact hkey

/-- **A query and the cell beyond it make up the assignment.** -/
theorem merged_project {a query : Assignment} (h : a.satisfies query = true) :
    query.merged (a.project (a.extraKeys query)) = a := by
  apply ext_get?
  intro key
  rw [get?_merged, get?_project]
  -- A key is the query's, or one beyond it, or the assignment does not carry it.
  cases hq : query.get? key with
  | none =>
    by_cases hkey : key ∈ a.extraKeys query
    · simp [hkey]
    · have hnone : a.get? key = none := by
        by_contra hne
        obtain ⟨value, hvalue⟩ := Option.ne_none_iff_exists'.1 hne
        exact hkey (mem_extraKeys.2 ⟨⟨value, hvalue⟩, hq⟩)
      simp [hkey, hnone]
  | some value =>
    have ha := satisfies_iff.1 h key value hq
    have hkey : key ∉ a.extraKeys query := by
      intro hmem
      rw [(mem_extraKeys.1 hmem).2] at hq
      cases hq
    simp [hkey, ha]

/-- Assignments that satisfy a query and have the same cell beyond it are equal. -/
theorem eq_of_project_eq {a b query : Assignment} {keys : List String}
    (ha : a.satisfies query = true) (hb : b.satisfies query = true)
    (hka : a.extraKeys query = keys) (hkb : b.extraKeys query = keys)
    (h : a.project keys = b.project keys) : a = b := by
  rw [← merged_project ha, ← merged_project hb, hka, hkb, h]

theorem extraKeys_self (a : Assignment) : a.extraKeys a = [] := by
  rw [List.eq_nil_iff_forall_not_mem]
  intro key hkey
  obtain ⟨⟨value, hvalue⟩, hnone⟩ := mem_extraKeys.1 hkey
  rw [hnone] at hvalue
  cases hvalue

/-- Beside the empty query, all keys are extra. -/
theorem extraKeys_of_isEmpty {a query : Assignment} (h : query.isEmpty = true) :
    a.extraKeys query = a.keys := by
  have hnone : ∀ key, query.contains key = false := by
    intro key
    have hcells : query.cells.entries = [] := List.isEmpty_iff.1 h
    rw [contains_eq_false_iff, get?, Table.get?, hcells]
    rfl
  simp [extraKeys, hnone]

theorem project_nil (a : Assignment) : a.project [] = empty := by
  apply ext_get?
  intro key
  rw [get?_project, if_neg List.not_mem_nil, get?_empty]

/-! ## §3. Cells beside a query. -/

/-- The cell fixes no dimension of the query. -/
def Beside (cell query : Assignment) : Prop :=
  ∀ key value, cell.get? key = some value → query.get? key = none

theorem satisfies_merged {cell query : Assignment} (h : cell.Beside query) :
    (query.merged cell).satisfies query = true := by
  rw [satisfies_iff]
  intro key value hq
  rw [get?_merged]
  cases hc : cell.get? key with
  | none => exact hq
  | some v =>
    rw [h key v hc] at hq
    cases hq

theorem extraKeys_merged {cell query : Assignment} (h : cell.Beside query) :
    (query.merged cell).extraKeys query = cell.keys := by
  refine List.Pairwise.eq_of_mem_iff (ascending_extraKeys _ _) (Table.ascending_keys cell.cells) ?_
  intro key
  show _ ↔ key ∈ cell.keys
  rw [mem_extraKeys, mem_keys, get?_merged]
  constructor
  · rintro ⟨⟨value, hvalue⟩, hq⟩
    rw [hq, Option.or_none] at hvalue
    exact ⟨value, hvalue⟩
  · rintro ⟨value, hvalue⟩
    refine ⟨⟨value, ?_⟩, h key value hvalue⟩
    rw [hvalue, Option.some_or]

theorem project_merged {cell query : Assignment} : (query.merged cell).project cell.keys = cell := by
  apply ext_get?
  intro key
  rw [get?_project, get?_merged]
  split
  · rename_i hkey
    obtain ⟨value, hvalue⟩ := mem_keys.1 hkey
    rw [hvalue, Option.some_or]
  · rename_i hkey
    cases hc : cell.get? key with
    | none => rfl
    | some value => exact absurd (mem_keys.2 ⟨value, hc⟩) hkey

theorem merged_empty (query : Assignment) : query.merged empty = query :=
  ext_get? fun key => by simp

/-- What satisfies a query and has no keys beyond it is the query itself. -/
theorem eq_iff_satisfies {a query : Assignment} :
    a = query ↔ a.satisfies query = true ∧ a.extraKeys query = [] := by
  constructor
  · rintro rfl
    exact ⟨a.satisfies_refl, a.extraKeys_self⟩
  · intro h
    have hmerged := merged_project h.1
    rw [h.2, project_nil, merged_empty] at hmerged
    exact hmerged.symm

theorem merged_insert (query cell : Assignment) (key value : String) :
    query.merged (cell.insert key value) = (query.merged cell).insert key value := by
  apply ext_get?
  intro other
  simp only [get?_merged, get?_insert]
  split <;> simp

/-! ## §4. Splitting. -/

/-- What an assignment has beyond a query lies beside the query. -/
theorem beside_project (a query : Assignment) : (a.project (a.extraKeys query)).Beside query := by
  intro key value h
  rw [get?_project] at h
  by_cases hkey : key ∈ a.extraKeys query
  · exact (mem_extraKeys.1 hkey).2
  · rw [if_neg hkey] at h
    cases h

/-- An assignment satisfies a query exactly if it is made up of the query and a cell beside it. -/
theorem satisfies_iff_merged {a query : Assignment} :
    a.satisfies query = true ↔ query.merged (a.project (a.extraKeys query)) = a := by
  constructor
  · exact merged_project
  · intro h
    have hsatisfies := satisfies_merged (beside_project a query)
    rw [h] at hsatisfies
    exact hsatisfies

theorem beside_iff {cell query : Assignment} :
    cell.Beside query ↔ ∀ key ∈ cell.keys, key ∉ query.keys := by
  constructor
  · intro h key hcell hquery
    obtain ⟨value, hvalue⟩ := mem_keys.1 hcell
    obtain ⟨other, hother⟩ := mem_keys.1 hquery
    rw [h key value hvalue] at hother
    cases hother
  · intro h key value hvalue
    have hnot := h key (mem_keys.2 ⟨value, hvalue⟩)
    rw [mem_keys, not_exists] at hnot
    exact Option.eq_none_iff_forall_ne_some.2 hnot

/-- **A query and a cell split an assignment without loss.**  Exactly what satisfies the query is
    put together again from the query and its cell; of two such assignments with the same keys
    beyond the query the cells tell whether they are equal; and each cell without the query's keys
    is the cell of the assignment that it makes up with the query. -/
theorem splits_into_query_and_cell (query : Assignment) :
    (∀ a : Assignment, a.satisfies query = true
        ↔ query.merged (a.project (a.extraKeys query)) = a)
      ∧ (∀ a b : Assignment, a.satisfies query = true → b.satisfies query = true →
          a.extraKeys query = b.extraKeys query →
          (a = b ↔ a.project (a.extraKeys query) = b.project (a.extraKeys query)))
      ∧ ∀ cell : Assignment, (∀ key ∈ cell.keys, key ∉ query.keys) →
          (query.merged cell).satisfies query = true
            ∧ (query.merged cell).extraKeys query = cell.keys
            ∧ (query.merged cell).project ((query.merged cell).extraKeys query) = cell := by
  refine ⟨fun a => satisfies_iff_merged, fun a b ha hb hkeys => ?_, fun cell hcell => ?_⟩
  · constructor
    · intro heq
      rw [heq]
    · intro hcells
      exact eq_of_project_eq ha hb rfl hkeys.symm hcells
  · have hbeside : cell.Beside query := beside_iff.2 hcell
    have hextra := extraKeys_merged hbeside
    rw [hextra]
    exact ⟨satisfies_merged hbeside, rfl, project_merged⟩

namespace Sample

/-- The channel is given, plan and region are left open. -/
def ads : Assignment :=
  .ofPairs [("channel", "ads")]

/-- A plan in a region. -/
def cell (plan region : String) : Assignment :=
  .ofPairs [("region", region), ("plan", plan)]

/-- Two plans of one region in the channel. -/
def free : Assignment :=
  .ofPairs [("region", "eu"), ("channel", "ads"), ("plan", "free")]

def pro : Assignment :=
  .ofPairs [("channel", "ads"), ("plan", "pro"), ("region", "eu")]

end Sample

/-- Two plans in a channel are told apart by their cells, and a third cell makes up a third
    assignment. -/
theorem splits_plans :
    Sample.free.satisfies Sample.ads = true ∧ Sample.pro.satisfies Sample.ads = true
      ∧ Sample.free.extraKeys Sample.ads = Sample.pro.extraKeys Sample.ads
      ∧ Sample.ads.merged (Sample.cell "free" "eu") = Sample.free
      ∧ (Sample.free = Sample.pro ↔ Sample.cell "free" "eu" = Sample.cell "pro" "eu")
      ∧ (∀ key ∈ (Sample.cell "pro" "us").keys, key ∉ Sample.ads.keys)
      ∧ (Sample.ads.merged (Sample.cell "pro" "us")).extraKeys Sample.ads = ["plan", "region"] := by
  have hfree : Sample.free.satisfies Sample.ads = true := by decide +kernel
  have hpro : Sample.pro.satisfies Sample.ads = true := by decide +kernel
  have hkeys : Sample.free.extraKeys Sample.ads = Sample.pro.extraKeys Sample.ads := by
    decide +kernel
  have hbeside : ∀ key ∈ (Sample.cell "pro" "us").keys, key ∉ Sample.ads.keys := by decide +kernel
  have hcells : Sample.free.project (Sample.free.extraKeys Sample.ads) = Sample.cell "free" "eu"
      ∧ Sample.pro.project (Sample.free.extraKeys Sample.ads) = Sample.cell "pro" "eu"
      ∧ (Sample.cell "pro" "us").keys = ["plan", "region"] := by
    decide +kernel
  obtain ⟨hsplit, hequal, hcell⟩ := splits_into_query_and_cell Sample.ads
  have hmerged := (hsplit Sample.free).1 hfree
  have hiff := hequal Sample.free Sample.pro hfree hpro hkeys
  have hextra := (hcell (Sample.cell "pro" "us") hbeside).2.1
  rw [hcells.1] at hmerged
  rw [hcells.1, hcells.2.1] at hiff
  rw [hcells.2.2] at hextra
  exact ⟨hfree, hpro, hkeys, hmerged, hiff, hbeside, hextra⟩

end MetricCube.Assignment
