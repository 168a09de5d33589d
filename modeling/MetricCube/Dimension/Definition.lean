/-
  MetricCube.Dimension.Definition
  ───────────────────────────────
  **Dimension definitions.**  A definition lists the values of a dimension and
  says, by its policy, whether they are all there is:

    • `closed`: the listed values are exhaustive;
    • `computedOther`, `explicitOther`: the listed values and one catch-all
      value are exhaustive;
    • `openEnded`: there may be further values, so that no set of values is complete.

  `hash` is the SHA-256 digest of `hashBytes`, which spells out the key, the
  values, the policy and, where the policy has one, the catch-all value.
-/
import MetricCube.Bytes
import MetricCube.Digest.Sha256
import MetricCube.Ordered
import MetricCube.Text.Lowercase

namespace MetricCube

/-- What the listed values of a dimension leave out. -/
inductive Policy where
  | closed
  | computedOther
  | explicitOther
  | openEnded
deriving DecidableEq, Repr

namespace Policy

/-- The policy has a catch-all value. -/
def hasCatchAll : Policy → Bool
  | .computedOther | .explicitOther => true
  | .closed | .openEnded => false

/-- The expected values are exhaustive. -/
def isExhaustive : Policy → Bool
  | .openEnded => false
  | .closed | .computedOther | .explicitOther => true

/-- The name of a policy. -/
def name : Policy → String
  | .closed => "closed"
  | .computedOther => "computed_other"
  | .explicitOther => "explicit_other"
  | .openEnded => "open"

/-- The policy with a given name. -/
def ofName? : String → Option Policy
  | "closed" => some .closed
  | "computed_other" => some .computedOther
  | "explicit_other" => some .explicitOther
  | "open" => some .openEnded
  | _ => none

/-- The byte that stands for a policy in a digest. -/
def tag : Policy → UInt8
  | .closed => 0x51
  | .computedOther => 0x52
  | .explicitOther => 0x53
  | .openEnded => 0x54

end Policy

/-- The values of a dimension and what they leave out. -/
structure Definition where
  key : String
  values : List String
  policy : Policy
  other : String
deriving DecidableEq

namespace Definition

/-- The catch-all value of a definition that names none. -/
def defaultOther : String := "other"

/-- A definition with its key folded and its values trimmed, distinct and ascending. -/
def make (key : String) (values : List String) (policy : Policy) : Definition :=
  ⟨Text.foldKey key, Ordered.distinct (values.map Text.trim), policy, defaultOther⟩

/-- The definition with another catch-all value. -/
def withOther (d : Definition) (other : String) : Definition :=
  { d with other := Text.trim other }

/-- The values that make up the dimension, in ascending order. -/
def expected (d : Definition) : List String :=
  Ordered.distinct (if d.policy.hasCatchAll then d.other :: d.values else d.values)

/-- The value is one of the dimension's. -/
def recognises (d : Definition) (value : String) : Bool :=
  d.values.contains value || (d.policy.hasCatchAll && d.other == value)

/-- The bytes whose digest identifies the definition. -/
def hashBytes (d : Definition) : List UInt8 :=
  Bytes.text "dimdef:v1"
    ++ 0x01 :: Bytes.text d.key
    ++ 0x02 :: Bytes.texts d.values
    ++ d.policy.tag
    :: 0x03 :: Bytes.text (if d.policy.hasCatchAll then d.other else "")

/-- The identity of a definition. -/
def hash (d : Definition) : String :=
  Bytes.hex (Digest.Sha256.digest d.hashBytes)

end Definition

end MetricCube
