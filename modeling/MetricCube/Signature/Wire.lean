/-
  MetricCube.Signature.Wire
  ─────────────────────────
  **Signatures as text.**  A structured signature is written as a compact JSON
  object with the core hash under `c` and the dimension hashes under `x`; a
  legacy one is its own text.  A text is read as structured when, but for blanks
  around it, it is such an object with a non-empty core hash and no other
  member; every other text is a legacy signature, kept unchanged.
-/
import MetricCube.Json.Reader
import MetricCube.Signature

namespace MetricCube.Signature

/-! ## §1. Writing. -/

/-- The object that stands for a structured signature. -/
def wireValue (core : String) (dims : Table String) : Json.Value :=
  .object [("c", .string core),
    ("x", .object (dims.entries.map fun e => (e.1, .string e.2)))]

/-- The text of a signature. -/
def text : Signature → String
  | .structured core dims => (wireValue core dims).text
  | .legacy raw => raw

/-! ## §2. Reading. -/

/-- The members of a written signature as far as they were met. -/
structure Wire where
  core : Option String
  dimensions : Option (Table String)

/-- The members of a written signature. -/
def wireFields : List (Json.Field Empty Wire) :=
  [Json.field "c" Json.string fun c w => { w with core := some c },
    Json.field "x" (Json.table Json.string) fun x w => { w with dimensions := some x }]

/-- Reads the object that stands for a structured signature. -/
def wire : Json.Reader Empty (String × Table String)
  | depth, .object members closed => do
    let depth ← Json.enter depth
    let w ← Json.readNamed wireFields true depth [] members ⟨none, none⟩
    let w ← Json.whenClosed closed w
    let core ← Json.required w.core
    .ok (core, w.dimensions.getD Table.empty)
  | _, _ => .error .malformed

/-- The signature of a text. -/
def parse (raw : String) : Signature :=
  match Json.read wire (Text.trim raw) with
  | .ok (core, dims) => if core.isEmpty then .legacy raw else make core dims.entries
  | .error _ => .legacy raw

end MetricCube.Signature
