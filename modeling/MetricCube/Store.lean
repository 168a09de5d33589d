/-
  MetricCube.Store
  ────────────────
  **The slice store.**  A store keeps a list of slices for each metric.  Merging
  a patch finds the slice with the patch's assignment and signature:

    • there is none: the patch becomes a new slice at the end of the list;
    • daily into daily: days that are already there stay as they are;
    • daily into aggregate: the series takes the place of the window;
    • aggregate into aggregate: the same window changes nothing, another one is
      a fault;
    • aggregate into daily is a fault.

  A fault changes nothing.  `Backend` is what planning and fetching need of a
  store.
-/
import MetricCube.Fault
import MetricCube.Slice

namespace MetricCube

/-- What loading and merging a store takes. -/
structure Backend (σ : Type) where
  load : σ → (metric : String) → Except InternalFault (List Slice)
  merge : σ → (metric : String) → (patch : Slice) →
    Except InternalFault (Series.MergeReport × σ)

/-- Slices by metric. -/
structure Store where
  metrics : Table (List Slice)

namespace Store

/-- The store without slices. -/
def empty : Store := ⟨Table.empty⟩

/-- The slices of a metric. -/
def slices (s : Store) (metric : String) : List Slice :=
  (s.metrics.get? metric).getD []

/-- Adds a slice at the end of a metric's list, whatever is there. -/
def insert (s : Store) (metric : String) (slice : Slice) : Store :=
  ⟨s.metrics.insert metric (s.slices metric ++ [slice])⟩

/-! ## Merging. -/

/-- The payload after merging `patch` into `held`, and what was taken over. -/
def mergePayload (owner : Assignment) (held patch : Payload) :
    Except InternalFault (Series.MergeReport × Payload) :=
  match held, patch with
  | .daily s, .daily t => .ok (s.mergeReport t, .daily (s.merge t))
  | .aggregate _, .daily t => .ok (⟨t.size, 0⟩, .daily t)
  | .aggregate w, .aggregate v =>
    if w.range = v.range then .ok (⟨0, 1⟩, .aggregate w)
    else .error (.storeInvariant
      ("aggregate slice " ++ owner.text ++ " covers " ++ w.range.text ++ ", patch covers "
        ++ v.range.text))
  | .daily _, .aggregate _ =>
    .error (.storeInvariant ("payload kind mismatch merging into slice " ++ owner.text))

/-- The number of points that a new slice brings; a window counts as one. -/
def newPoints : Payload → Nat
  | .daily s => s.size
  | .aggregate _ => 1

/-- Two slices stand for the same cached counts. -/
def sameSlot (a b : Slice) : Bool :=
  a.assignment = b.assignment && a.signature = b.signature

/-- Merges a patch into the first slice of the list in its slot, or adds it at the end. -/
def mergeSlices (patch : Slice) : List Slice →
    Except InternalFault (Series.MergeReport × List Slice)
  | [] => .ok (⟨newPoints patch.payload, 0⟩, [patch])
  | s :: rest =>
    if sameSlot s patch then
      (mergePayload s.assignment s.payload patch.payload).map fun r =>
        (r.1, { s with payload := r.2 } :: rest)
    else (mergeSlices patch rest).map fun r => (r.1, s :: r.2)

/-- Merges a patch into a metric. -/
def merge (s : Store) (metric : String) (patch : Slice) :
    Except InternalFault (Series.MergeReport × Store) :=
  (mergeSlices patch (s.slices metric)).map fun r => (r.1, ⟨s.metrics.insert metric r.2⟩)

/-- The store as it is. -/
def backend : Backend Store where
  load s metric := .ok (s.slices metric)
  merge := merge

end Store

end MetricCube
