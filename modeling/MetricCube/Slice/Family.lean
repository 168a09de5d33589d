/-
  MetricCube.Slice.Family
  ───────────────────────
  **Candidates of a query.**  Whatever carries an assignment can be sorted by a
  query: those with exactly the query's assignment, and, among the others that
  satisfy the query, one family for each set of keys beyond it.

  `isolate` takes all candidates at once and insists on one common set of extra
  keys; for the empty query it takes everything with a dimension.
-/
import MetricCube.Assignment
import MetricCube.Ordered

namespace MetricCube

/-- Why candidates cannot be isolated: one has other extra keys than the first. -/
inductive IsolationError where
  | mixedKeys (assignment : Assignment) (expected found : List String)
deriving DecidableEq

/-- The wording of an isolation error. -/
def IsolationError.message : IsolationError → String
  | .mixedKeys a expected found =>
    "slice " ++ a.text ++ " leaves dimensions [" ++ ", ".intercalate found
      ++ "] unspecified, expected [" ++ ", ".intercalate expected ++ "]"

/-- Members with one common set of keys beyond a query. -/
structure Family (α : Type) where
  keys : List String
  members : List α

namespace Family

variable {α : Type}

/-- The candidates of a query, if they have one common set of extra keys. -/
def isolate (assignment : α → Assignment) (members : List α) (query : Assignment) :
    Except IsolationError (Family α) :=
  if query.isEmpty then
    let matched := members.filter fun m => !(assignment m).isEmpty
    .ok ⟨Ordered.distinct (matched.flatMap fun m => (assignment m).keys), matched⟩
  else
    let matched := members.filter fun m => (assignment m).satisfies query
    match matched with
    | [] => .ok ⟨[], []⟩
    | first :: rest =>
      let keys := (assignment first).extraKeys query
      match rest.find? fun m => (assignment m).extraKeys query ≠ keys with
      | some m => .error (.mixedKeys (assignment m) keys ((assignment m).extraKeys query))
      | none => .ok ⟨keys, matched⟩

/-- The members with exactly the query's assignment. -/
def exact (assignment : α → Assignment) (members : List α) (query : Assignment) : List α :=
  members.filter fun m => assignment m = query

/-- The members that satisfy the query and have keys beyond it. -/
def candidates (assignment : α → Assignment) (members : List α) (query : Assignment) : List α :=
  members.filter fun m =>
    (assignment m).satisfies query && !((assignment m).extraKeys query).isEmpty

/-- The families of a query, in ascending order of their key sets. -/
def partition (assignment : α → Assignment) (members : List α) (query : Assignment) :
    List (Family α) :=
  let found := candidates assignment members query
  let keySets := Ordered.distinct (found.map fun m => (assignment m).extraKeys query)
  keySets.map fun keys => ⟨keys, found.filter fun m => (assignment m).extraKeys query = keys⟩

end Family

end MetricCube
