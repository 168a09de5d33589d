/-
  MetricCube.Dimension.Registry
  ─────────────────────────────
  **Registries of dimension definitions.**  A definition is stored under the key
  it carries and found under the folded form of the key that is asked for.
-/
import MetricCube.Dimension.Definition
import MetricCube.Table

namespace MetricCube

/-- Definitions by key. -/
structure Registry where
  definitions : Table Definition

namespace Registry

/-- The registry without definitions. -/
def empty : Registry := ⟨Table.empty⟩

/-- Adds a definition, in place of one with an equal key. -/
def insert (r : Registry) (d : Definition) : Registry :=
  ⟨r.definitions.insert d.key d⟩

/-- The definition that inserting `d` replaces. -/
def replaced? (r : Registry) (d : Definition) : Option Definition :=
  r.definitions.get? d.key

/-- The registry of a list of definitions; of two with an equal key the later wins. -/
def ofList (ds : List Definition) : Registry :=
  ds.foldl insert empty

/-- The definition of a dimension. -/
def find? (r : Registry) (key : String) : Option Definition :=
  r.definitions.get? (Text.foldKey key)

/-- A registry of a list holds its definitions, each under the key it carries. -/
theorem definitions_ofList (ds : List Definition) :
    (ofList ds).definitions = Table.ofPairs (ds.map fun d => (d.key, d)) := by
  have hfold : ∀ (ds : List Definition) (r : Registry),
      (ds.foldl insert r).definitions = r.definitions.insertAll (ds.map fun d => (d.key, d)) := by
    intro ds
    induction ds with
    | nil => intro r; rfl
    | cons d ds ih => intro r; exact ih (r.insert d)
  exact hfold ds empty

end Registry

end MetricCube
