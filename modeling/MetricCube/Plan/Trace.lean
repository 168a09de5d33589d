/-
  MetricCube.Plan.Trace
  ─────────────────────
  **Traces.**  A trace lists, in order, what planning looked at and whether it
  was accepted.
-/

namespace MetricCube

/-- The part of planning that a record comes from. -/
inductive Stage where
  | signatureFilter
  | isolate
  | exactOrReduce
  | coverageCheck
deriving DecidableEq, Repr

/-- The name of a stage. -/
def Stage.name : Stage → String
  | .signatureFilter => "signature_filter"
  | .isolate => "isolate"
  | .exactOrReduce => "exact_or_reduce"
  | .coverageCheck => "coverage_check"

/-- One thing that planning looked at. -/
structure TraceRecord where
  stage : Stage
  accepted : Bool
  subject : String
  note : String
deriving DecidableEq

namespace TraceRecord

/-- Something was accepted. -/
def accept (stage : Stage) (subject note : String) : TraceRecord :=
  ⟨stage, true, subject, note⟩

/-- Something was rejected. -/
def reject (stage : Stage) (subject note : String) : TraceRecord :=
  ⟨stage, false, subject, note⟩

/-- A record on one line. -/
def text (r : TraceRecord) : String :=
  r.stage.name ++ (if r.accepted then " ok " else " rejected ") ++ r.subject ++ ": " ++ r.note

end TraceRecord

/-- What planning looked at, in order. -/
abbrev Trace := List TraceRecord

namespace Trace

/-- The text of a trace, one record a line. -/
def text (t : Trace) : String :=
  String.join (t.map fun r => r.text ++ "\n")

/-- The number of rejections. -/
def rejections (t : Trace) : Nat :=
  t.countP fun r => !r.accepted

/-- The number of records of a stage. -/
def recordsAt (t : Trace) (stage : Stage) : Nat :=
  t.countP fun r => r.stage = stage

end Trace

end MetricCube
