/-
  MetricCube.Assignment
  ─────────────────────
  **Assignments of dimension values.**  An assignment fixes some dimensions to
  one value each; the empty one fixes none and stands for everything.  Keys are
  stored in their folded form and values trimmed, and that is part of the type.

  A query splits every assignment that satisfies it into the query's own part
  and a *cell*, the assignment of the keys beyond the query: `extraKeys`,
  `project` and `merged` go back and forth between the two.
-/
import MetricCube.Table
import MetricCube.Text.Folding

namespace MetricCube

/-- One value for each of some dimensions. -/
structure Assignment where
  cells : Table String
  folded : ∀ e ∈ cells.entries, Text.foldKey e.1 = e.1 ∧ Text.trim e.2 = e.2
deriving DecidableEq

namespace Assignment

theorem ext_cells {a b : Assignment} (h : a.cells = b.cells) : a = b := by
  cases a; cases b; cases h; rfl

/-! ## §1. Building. -/

/-- The assignment that fixes nothing. -/
def empty : Assignment :=
  ⟨Table.empty, fun _ h => nomatch h⟩

instance : Inhabited Assignment := ⟨empty⟩

/-- Fixes a dimension, in place of its former value. -/
def insert (a : Assignment) (key value : String) : Assignment :=
  ⟨a.cells.insert (Text.foldKey key) (Text.trim value), fun e he => by
    rcases Table.mem_insertEntry he with rfl | he
    · exact ⟨Text.foldKey_foldKey key, Text.trim_trim value⟩
    · exact a.folded e he⟩

/-- The assignment of a list of pairs; of two with the same key the later wins. -/
def ofPairs (pairs : List (String × String)) : Assignment :=
  pairs.foldl (fun a e => a.insert e.1 e.2) empty

/-! ## §2. Looking up. -/

/-- The value of a dimension, under its folded key. -/
def get? (a : Assignment) (key : String) : Option String :=
  a.cells.get? key

/-- The dimension is fixed. -/
def contains (a : Assignment) (key : String) : Bool :=
  a.cells.contains key

/-- The fixed dimensions in ascending order. -/
def keys (a : Assignment) : List String :=
  a.cells.keys

/-- The pairs in ascending order of keys. -/
def toList (a : Assignment) : List (String × String) :=
  a.cells.entries

/-- The number of fixed dimensions. -/
def size (a : Assignment) : Nat :=
  a.cells.size

/-- Nothing is fixed. -/
def isEmpty (a : Assignment) : Bool :=
  a.cells.isEmpty

/-- The value that inserting under `key` replaces. -/
def replaced? (a : Assignment) (key : String) : Option String :=
  a.get? (Text.foldKey key)

/-! ## §3. Assignments and queries. -/

/-- Every dimension that the query fixes has the same value in `a`. -/
def satisfies (a query : Assignment) : Bool :=
  query.toList.all fun e => a.get? e.1 == some e.2

/-- The dimensions of `a` that the query leaves open, in ascending order. -/
def extraKeys (a query : Assignment) : List String :=
  a.keys.filter fun key => !query.contains key

/-- The part of `a` under the given keys. -/
def project (a : Assignment) (keys : List String) : Assignment :=
  ⟨a.cells.restrict keys, fun e he => a.folded e (List.mem_filter.1 he).1⟩

/-- Both assignments together; where both fix a dimension, `b` wins. -/
def merged (a b : Assignment) : Assignment :=
  ⟨a.cells.union b.cells, fun e he => (Table.mem_insertAll he).elim (b.folded e) (a.folded e)⟩

/-! ## §4. Text and order. -/

/-- One clause of the written form. -/
def clause (e : String × String) : String :=
  "context(" ++ e.1 ++ ":" ++ e.2 ++ ")"

/-- The written form: one clause for each dimension, in ascending order of keys. -/
def canonical (a : Assignment) : String :=
  ".".intercalate (a.toList.map clause)

/-- The written form for readers, with a word for the empty assignment. -/
def text (a : Assignment) : String :=
  if a.isEmpty then "(all)" else a.canonical

/-- Lists of pairs are compared pair by pair, key before value. -/
def comparePairs : List (String × String) → List (String × String) → Ordering
  | [], [] => .eq
  | [], _ :: _ => .lt
  | _ :: _, [] => .gt
  | a :: as, b :: bs =>
    ((compare a.1 b.1).then (compare a.2 b.2)).then (comparePairs as bs)

/-- The order of assignments: pair by pair in ascending order of keys. -/
def order (a b : Assignment) : Ordering :=
  comparePairs a.toList b.toList

end Assignment

end MetricCube
