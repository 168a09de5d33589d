/-
  MetricCube.Question
  ───────────────────
  **Core questions.**  A question names a data connection, the events it looks
  at with their definitions, filters, and the shape of the path that is counted.
  Its hash is the SHA-256 digest of `hashBytes`, which leaves out presentation:
  blanks around connection and filters, event labels, the order and repetition
  of events, filters and path steps, and the order of object members inside a
  definition.  Of events with the same id the first counts.
-/
import MetricCube.Digest.Sha256
import MetricCube.Json.Value
import MetricCube.Text.Blank

namespace MetricCube

/-- Whether days are counted by calendar window or by cohort. -/
inductive TemporalMode where
  | window
  | cohort
deriving DecidableEq, Repr

namespace TemporalMode

/-- The name of a mode. -/
def name : TemporalMode → String
  | .window => "window"
  | .cohort => "cohort"

/-- The mode with a given name. -/
def ofName? : String → Option TemporalMode
  | "window" => some .window
  | "cohort" => some .cohort
  | _ => none

/-- The byte that stands for a mode in a digest. -/
def tag : TemporalMode → UInt8
  | .window => 0x41
  | .cohort => 0x42

end TemporalMode

/-- An event and what it means at its source; the label is for readers only. -/
structure TrackedEvent where
  id : String
  label : Option String
  definition : Json.Value

/-- The path that is counted. -/
structure Shape where
  mode : TemporalMode
  source : String
  target : String
  visited : List String
  excluded : List String

/-- A core question. -/
structure Question where
  connection : String
  events : List TrackedEvent
  filters : List String
  shape : Shape

namespace Question

/-- The texts without blanks around them, distinct and ascending. -/
def trimmedSet (texts : List String) : List String :=
  Ordered.distinct (texts.map Text.trim)

/-- Drops every event that follows one with the same id directly. -/
def dropRepeated : List TrackedEvent → List TrackedEvent
  | [] => []
  | e :: es =>
    match dropRepeated es with
    | [] => [e]
    | f :: rest => if e.id = f.id then e :: rest else e :: f :: rest

/-- The events in ascending order of ids, the first one of each id. -/
def orderedEvents (events : List TrackedEvent) : List TrackedEvent :=
  dropRepeated (Ordered.sortWith (fun a b => !decide (b.id < a.id)) events)

/-- The text of an event definition, whatever the order of its members. -/
def definitionText (e : TrackedEvent) : String :=
  e.definition.canonical.text

/-- The bytes of an event in a digest. -/
def eventBytes (e : TrackedEvent) : List UInt8 :=
  Bytes.text e.id ++ Bytes.text (definitionText e)

/-- The bytes whose digest identifies the question. -/
def hashBytes (q : Question) : List UInt8 :=
  let events := orderedEvents q.events
  Text.utf8Bytes "coresig:v1"
    ++ 0x01 :: Bytes.text (Text.trim q.connection)
    ++ 0x02 :: Bytes.word32 events.length ++ events.flatMap eventBytes
    ++ 0x03 :: Bytes.texts (trimmedSet q.filters)
    ++ 0x04 :: q.shape.mode.tag :: Bytes.text q.shape.source ++ Bytes.text q.shape.target
    ++ Bytes.texts (trimmedSet q.shape.visited) ++ Bytes.texts (trimmedSet q.shape.excluded)

/-- The identity of a question. -/
def hash (q : Question) : String :=
  Bytes.hex (Digest.Sha256.digest q.hashBytes)

/-- The question in another temporal mode. -/
def withMode (q : Question) (mode : TemporalMode) : Question :=
  { q with shape := { q.shape with mode := mode } }

end Question

end MetricCube
