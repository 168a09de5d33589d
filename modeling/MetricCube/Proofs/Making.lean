/-
  MetricCube.Proofs.Making
  ────────────────────────
  **Keys are folded once and for all.**  An assignment comes about in steps: from pairs, from
  its written form, by fixing one more dimension, by keeping some dimensions only, or by
  putting two assignments together.  A `Making` is a tree of such steps, and `entry?` says what
  they put under a key, from the texts that went into them:

      m.result = .ok a   →   a.get? key = m.entry? key          (`get?_of_result`)

  Whatever the steps, the entries are in normal form (`normal_of_entry?`).  A step that takes a
  text in folds the key and trims the value, folding and trimming once more changes nothing
  (`foldKey_foldKey`, `trim_trim`), and the other steps hand entries on as they are.  So the key
  of an entry is its own address: in the assignment, in a registry and in a signature it leads
  to what was last put under it (`lastUnder`).

  Main statement: `folded_once_and_for_all`.
-/
import Mathlib
import MetricCube.Codec
import MetricCube.Dimension.Registry
import MetricCube.Proofs.Assignment
import MetricCube.Proofs.Reading

namespace MetricCube

/-! ## §1. What was last put under a key. -/

/-- The definition found under a key is the last one that carries the folded key. -/
theorem Registry.find?_ofList (ds : List Definition) (key : String) :
    (ofList ds).find? key = lastUnder (Text.foldKey key) (ds.map fun d => (d.key, d)) := by
  rw [find?, definitions_ofList, Table.get?_ofPairs]

/-- The hash recorded under a key is the last one whose key has that folded form. -/
theorem Signature.dimension?_make (core : String) (hashes : List (String × String))
    (key : String) :
    (make core hashes).dimension? key
      = lastUnder key (hashes.map fun e => (Text.foldKey e.1, e.2)) :=
  Table.get?_ofPairs _ key

/-! ## §2. Ways to make an assignment. -/

/-- The steps that an assignment comes from. -/
inductive Making where
  | empty
  | ofPairs (pairs : List (String × String))
  /-- The assignment of a written form. -/
  | read (text : String)
  | insert (m : Making) (key value : String)
  | project (m : Making) (keys : List String)
  | merged (m n : Making)

namespace Making

/-- The assignment that the steps lead to, unless a text is no written form. -/
def result : Making → Except (Json.Fault ContentFault) Assignment
  | .empty => .ok .empty
  | .ofPairs pairs => .ok (.ofPairs pairs)
  | .read text => Codec.assignment.decode text
  | .insert m key value => do
    let a ← m.result
    .ok (a.insert key value)
  | .project m keys => do
    let a ← m.result
    .ok (a.project keys)
  | .merged m n => do
    let a ← m.result
    let b ← n.result
    .ok (a.merged b)

/-- The members of a written object, in ascending order of their keys as they are written. -/
def written (text : String) : List (String × String) :=
  match Json.read (ε := ContentFault) (Json.table Json.string) text with
  | .ok members => members.entries
  | .error _ => []

/-- What the steps put under a key. -/
def entry? : Making → String → Option String
  | .empty, _ => none
  | .ofPairs pairs, key => lastUnder key (pairs.map Assignment.normal)
  | .read text, key => lastUnder key ((written text).map Assignment.normal)
  | .insert m other value, key =>
    if key = Text.foldKey other then some (Text.trim value) else m.entry? key
  | .project m keys, key => if key ∈ keys then m.entry? key else none
  | .merged m n, key => (n.entry? key).or (m.entry? key)

/-- Reading an assignment is reading a table and taking its members as pairs. -/
theorem decode_assignment {text : String} {a : Assignment}
    (h : Codec.assignment.decode text = .ok a) : a = .ofPairs (written text) := by
  unfold Codec.decode Json.read at h
  unfold written Json.read
  generalize Json.Tree.ofChars text.toList = scanned at h ⊢
  obtain ⟨tree, clean⟩ := scanned
  simp only [Codec.assignment] at h ⊢
  cases hread : Json.table (ε := ContentFault) Json.string Json.maxDepth tree with
  | error e =>
    rw [hread] at h
    cases h
  | ok members =>
    rw [hread] at h
    cases clean with
    | false => cases h
    | true =>
      cases h
      rfl

/-- **An assignment holds what the steps put into it.** -/
theorem get?_of_result (m : Making) : ∀ {a : Assignment}, m.result = .ok a →
    ∀ key, a.get? key = m.entry? key := by
  -- One case for each way to make an assignment, upon what the earlier steps have made.
  induction m with
  | empty =>
    intro a h key
    cases h
    rfl
  | ofPairs pairs =>
    intro a h key
    cases h
    exact Assignment.get?_ofPairs pairs key
  | read text =>
    intro a h key
    rw [decode_assignment h]
    exact Assignment.get?_ofPairs (written text) key
  | insert m other value ih =>
    intro a h key
    obtain ⟨b, hb, h⟩ := Json.exists_of_bind_eq_ok h
    cases h
    rw [Assignment.get?_insert, ih hb]
    rfl
  | project m keys ih =>
    intro a h key
    obtain ⟨b, hb, h⟩ := Json.exists_of_bind_eq_ok h
    cases h
    rw [Assignment.get?_project, ih hb]
    rfl
  | merged m n ihm ihn =>
    intro a h key
    obtain ⟨b, hb, h⟩ := Json.exists_of_bind_eq_ok h
    obtain ⟨c, hc, h⟩ := Json.exists_of_bind_eq_ok h
    cases h
    rw [Assignment.get?_merged, ihm hb, ihn hc]
    rfl

theorem normal_of_lastUnder {pairs : List (String × String)} {key value : String}
    (h : lastUnder key (pairs.map Assignment.normal) = some value) :
    Text.foldKey key = key ∧ Text.trim value = value := by
  obtain ⟨e, _, he⟩ := List.mem_map.1 (mem_of_lastUnder h)
  unfold Assignment.normal at he
  rw [Prod.mk.injEq] at he
  rw [← he.1, ← he.2]
  exact ⟨Text.foldKey_foldKey e.1, Text.trim_trim e.2⟩

/-- **Whatever the steps, what they put under a key is in normal form.** -/
theorem normal_of_entry? (m : Making) : ∀ {key value : String}, m.entry? key = some value →
    Text.foldKey key = key ∧ Text.trim value = value := by
  induction m with
  | empty =>
    intro key value h
    cases h
  | ofPairs pairs =>
    intro key value h
    exact normal_of_lastUnder h
  | read text =>
    intro key value h
    exact normal_of_lastUnder h
  | insert m other v ih =>
    intro key value h
    unfold entry? at h
    by_cases hkey : key = Text.foldKey other
    · -- This step is the one that folds and trims.
      rw [if_pos hkey] at h
      cases h
      rw [hkey]
      exact ⟨Text.foldKey_foldKey other, Text.trim_trim v⟩
    · rw [if_neg hkey] at h
      exact ih h
  | project m keys ih =>
    intro key value h
    unfold entry? at h
    by_cases hkey : key ∈ keys
    · rw [if_pos hkey] at h
      exact ih h
    · rw [if_neg hkey] at h
      cases h
  | merged m n ihm ihn =>
    intro key value h
    unfold entry? at h
    rcases Option.or_eq_some_iff.1 h with hn | ⟨_, hm⟩
    · exact ihn hn
    · exact ihm hm

end Making

/-! ## §3. Entries are found again. -/

namespace Assignment

/-- The key and the value of an entry are in normal form, and its key is its own address. -/
structure OwnEntry (a : Assignment) (key value : String) : Prop where
  foldKey_eq : Text.foldKey key = key
  trim_eq : Text.trim value = value
  /-- Inserted again it replaces itself, and nothing else changes. -/
  insert_eq : a.insert key value = a
  replaced?_eq : a.replaced? key = some value
  find?_eq : ∀ ds : List Definition,
    (Registry.ofList ds).find? key = lastUnder key (ds.map fun d => (d.key, d))
  dimension?_eq : ∀ (core : String) (hashes : List (String × String)),
    (Signature.make core hashes).dimension? key
      = lastUnder key (hashes.map fun e => (Text.foldKey e.1, e.2))

theorem ownEntry {a : Assignment} {key value : String} (hget : a.get? key = some value)
    (hkey : Text.foldKey key = key) (hvalue : Text.trim value = value) :
    a.OwnEntry key value := by
  have hinsert : a.insert key value = a := by
    apply ext_get?
    intro other
    rw [get?_insert, hkey, hvalue]
    by_cases hother : other = key
    · rw [if_pos hother, hother, hget]
    · rw [if_neg hother]
  have hreplaced : a.replaced? key = some value := by
    unfold replaced?
    rw [hkey, hget]
  have hfind : ∀ ds : List Definition,
      (Registry.ofList ds).find? key = lastUnder key (ds.map fun d => (d.key, d)) := by
    intro ds
    rw [Registry.find?_ofList, hkey]
  exact ⟨hkey, hvalue, hinsert, hreplaced, hfind,
    fun core hashes => Signature.dimension?_make core hashes key⟩

/-- **Keys are folded once and for all.**  Folding a folded key changes nothing; and however an
    assignment was made, its entries are in normal form, so that each is found again under the
    text that it has. -/
theorem folded_once_and_for_all :
    (∀ s, Text.foldKey (Text.foldKey s) = Text.foldKey s)
      ∧ ∀ (m : Making) (a : Assignment), m.result = .ok a →
          (∀ key, a.get? key = m.entry? key)
            ∧ ∀ e ∈ a.toList, a.OwnEntry e.1 e.2 := by
  refine ⟨Text.foldKey_foldKey, fun m a h => ⟨m.get?_of_result h, fun e he => ?_⟩⟩
  have hget : a.get? e.1 = some e.2 := Table.get?_eq_some_iff.2 he
  have hentry : m.entry? e.1 = some e.2 := (m.get?_of_result h e.1).symm.trans hget
  obtain ⟨hkey, hvalue⟩ := m.normal_of_entry? hentry
  exact ownEntry hget hkey hvalue

namespace Sample

/-- A word that ends in a sigma, and a capital with a dot. -/
def writtenForm : String :=
  "\x7b\" ΟΔΟΣ \":\" x \",\"İ\":\"1\",\"οδος \":\"y\"\x7d"

/-- A written form, with one more dimension, and on top of it one of two others. -/
def manySteps : Making :=
  .merged (.insert (.read writtenForm) "Region" " EU")
    (.project (.ofPairs [("REGION", "US "), ("Plan", "pro"), (" region", "Asia ")]) ["region"])

/-- What comes of it. -/
def made : Assignment :=
  .ofPairs [("region", "Asia"), ("οδος", "y"), ("i̇", "1")]

theorem result_manySteps : manySteps.result = .ok made := by
  decide +kernel

end Sample

/-- In many steps, three spellings of a word, two of a region and a capital with a dot come down to
    one entry each. -/
theorem entries_of_manySteps :
    Sample.manySteps.result = .ok Sample.made
      ∧ Sample.made.toList = [("i̇", "1"), ("region", "Asia"), ("οδος", "y")]
      ∧ ∀ e ∈ Sample.made.toList, Sample.made.OwnEntry e.1 e.2 := by
  obtain ⟨_, hmade⟩ := folded_once_and_for_all
  exact ⟨Sample.result_manySteps, by decide +kernel,
    (hmade _ _ Sample.result_manySteps).2⟩

end Assignment

end MetricCube
