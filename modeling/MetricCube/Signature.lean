/-
  MetricCube.Signature
  ────────────────────
  **Signatures.**  A signature says which question a cached slice answers: a
  hash of the core question, and for each dimension the hash of the definition
  under which the slice was made.  A legacy signature is an uninterpreted text.

  A cached signature can serve a query when both have a core hash, the same one,
  and the cache records every dimension hash of the query.  Dimensions that the
  cache records beyond the query do not matter here.
-/
import MetricCube.Table
import MetricCube.Text.Lowercase

namespace MetricCube

/-- Which question a slice answers. -/
inductive Signature where
  | structured (core : String) (dimensions : Table String)
  | legacy (raw : String)
deriving DecidableEq

namespace Signature

/-- The structured signature of a core hash and dimension hashes; keys are folded, and of
    two with the same key the later wins. -/
def make (core : String) (hashes : List (String × String)) : Signature :=
  .structured core (Table.ofPairs (hashes.map fun e => (Text.foldKey e.1, e.2)))

/-- The signature is an uninterpreted text. -/
def isLegacy : Signature → Bool
  | .structured _ _ => false
  | .legacy _ => true

/-- The core hash. -/
def core? : Signature → Option String
  | .structured core _ => some core
  | .legacy _ => none

/-- The recorded hash of a dimension. -/
def dimension? (s : Signature) (key : String) : Option String :=
  match s with
  | .structured _ dims => dims.get? key
  | .legacy _ => none

/-- The signature with the dimension hashes under the given keys only. -/
def restrict (s : Signature) (keys : List String) : Signature :=
  match s with
  | .structured core dims => .structured core (dims.restrict keys)
  | .legacy raw => .legacy raw

/-- Core hash and dimension hashes, if there is a core hash to compare. -/
def usable? : Signature → Option (String × Table String)
  | .structured core dims => if core.isEmpty then none else some (core, dims)
  | .legacy _ => none

end Signature

/-! ## Compatibility. -/

/-- Why a cached signature cannot serve a query. -/
inductive Mismatch where
  | legacySignature
  | core
  | missingDimension (key : String)
  | definitionChanged (key : String)
deriving DecidableEq

/-- The wording of a mismatch. -/
def Mismatch.message : Mismatch → String
  | .legacySignature => "legacy or unstructured signature"
  | .core => "core hash mismatch"
  | .missingDimension key => "cache lacks dimension '" ++ key ++ "'"
  | .definitionChanged key => "definition of dimension '" ++ key ++ "' changed"

/-- What is wrong with the cached hash of one dimension. -/
def dimensionMismatch? (cached : Table String) (wanted : String × String) : Option Mismatch :=
  match cached.get? wanted.1 with
  | none => some (.missingDimension wanted.1)
  | some hash => if hash = wanted.2 then none else some (.definitionChanged wanted.1)

/-- The first reason why `cache` cannot serve `query`; none if it can. -/
def Signature.mismatch? (cache query : Signature) : Option Mismatch :=
  match cache.usable?, query.usable? with
  | some (core, dims), some (core', dims') =>
    if core = core' then dims'.entries.findSome? (dimensionMismatch? dims) else some .core
  | _, _ => some .legacySignature

end MetricCube
