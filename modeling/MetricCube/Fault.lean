/-
  MetricCube.Fault
  ────────────────
  **Internal faults.**  A fault that no answer of a source explains: its class,
  the part it arose in, and its wording.
-/

namespace MetricCube

/-- What kind of fault it is. -/
inductive FaultClass where
  | internal
  | invariantViolation
deriving DecidableEq, Repr

/-- The name of a fault class. -/
def FaultClass.name : FaultClass → String
  | .internal => "internal"
  | .invariantViolation => "invariant_violation"

/-- The part that a fault arose in. -/
inductive FaultOrigin where
  | planner
  | store
  | dispatch
deriving DecidableEq, Repr

/-- The name of an origin. -/
def FaultOrigin.name : FaultOrigin → String
  | .planner => "planner"
  | .store => "store"
  | .dispatch => "dispatch"

/-- An internal fault. -/
structure InternalFault where
  kind : FaultClass
  origin : FaultOrigin
  message : String
deriving DecidableEq

namespace InternalFault

/-- The store found its own rules broken. -/
def storeInvariant (message : String) : InternalFault :=
  ⟨.invariantViolation, .store, message⟩

/-- The planner found its own rules broken. -/
def plannerInvariant (message : String) : InternalFault :=
  ⟨.invariantViolation, .planner, message⟩

/-- Dispatch broke down. -/
def dispatchInternal (message : String) : InternalFault :=
  ⟨.internal, .dispatch, message⟩

/-- A holder of a lock broke down while holding it. -/
def poisoned (origin : FaultOrigin) (what : String) : InternalFault :=
  ⟨.internal, origin, what ++ " lock poisoned"⟩

/-- The wording with origin and class in front. -/
def fullText (f : InternalFault) : String :=
  f.origin.name ++ ":" ++ f.kind.name ++ ": " ++ f.message

end InternalFault

end MetricCube
