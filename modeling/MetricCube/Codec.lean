/-
  MetricCube.Codec
  ────────────────
  **Written forms.**  Every kind of value that is kept or passed on has a JSON
  form: `write` gives it, with the members of a record in a fixed order, and
  `read` takes it back.

    • A date is its ISO text, a signature its wire text, an assignment an object.
    • A point is one object with the date beside the counts.
    • A payload is tagged: its kind beside its data, in either order.
    • Every other record may also be given as an array of its fields.

  Reading checks what the types demand: dates have to exist, ranges must not be
  inverted, and the dates of a series have to increase.
-/
import MetricCube.Dimension.Definition
import MetricCube.Json.Reader
import MetricCube.Question
import MetricCube.Signature.Wire
import MetricCube.Slice
import MetricCube.Text.Position

namespace MetricCube

/-- Why the content of a written form is rejected. -/
inductive ContentFault where
  | date (text : String)
  | range (error : RangeError)
  | series (error : SeriesError)
deriving DecidableEq

/-- The wording of a content fault, without a position that the content itself ends in. -/
def ContentFault.message (f : ContentFault) : String :=
  Text.withoutPosition <| match f with
    | .date text => "invalid date: " ++ text
    | .range e => e.message
    | .series e => e.message

/-- A written form. -/
structure Codec (α : Type) where
  read : Json.Reader ContentFault α
  write : α → Json.Value

namespace Codec

variable {α : Type}

/-- Reads a value from its text. -/
def decode (c : Codec α) (text : String) : Except (Json.Fault ContentFault) α :=
  Json.read c.read text

/-- The text of a value. -/
def encode (c : Codec α) (a : α) : String :=
  (c.write a).text

/-- A result of the domain as a result of reading. -/
def checked {ε β : Type} (cause : ε → ContentFault) (r : Except ε β) :
    Except (Json.Fault ContentFault) β :=
  r.mapError fun e => .rejected (cause e)

/-! ## §1. Texts, lists and names. -/

/-- A text. -/
def text : Codec String :=
  ⟨Json.string, .string⟩

/-- A list. -/
def list (c : Codec α) : Codec (List α) :=
  ⟨Json.list c.read, fun as => .array (as.map c.write)⟩

/-- One of several names. -/
def named (ofName? : String → Option α) (name : α → String) : Codec α :=
  ⟨Json.name ofName?, fun a => .string (name a)⟩

/-- A temporal mode. -/
def mode : Codec TemporalMode :=
  named TemporalMode.ofName? TemporalMode.name

/-- A policy. -/
def policy : Codec Policy :=
  named Policy.ofName? Policy.name

/-! ## §2. Dates and ranges. -/

/-- Reads a date. -/
def readDate : Json.Reader ContentFault Date := fun depth t => do
  let text ← Json.string depth t
  (Date.iso? text).elim (.error (.rejected (.date text))) .ok

/-- A date. -/
def date : Codec Date :=
  ⟨readDate, fun d => .string d.text⟩

/-- Reads a range. -/
def readRange : Json.Reader ContentFault DateRange := fun depth t => do
  let (start, stop) ← Json.record
    [Json.field "start" date.read fun d s => (some d, s.2),
      Json.field "end" date.read fun d s => (s.1, some d)] (none, none) depth t
  let start ← Json.required start
  let stop ← Json.required stop
  checked .range (DateRange.make start stop)

/-- A range. -/
def range : Codec DateRange :=
  ⟨readRange, fun r => .object [("start", date.write r.start), ("end", date.write r.stop)]⟩

/-! ## §3. Counts, points and series. -/

/-- A counter. -/
def counter : Json.Reader ContentFault Nat :=
  Json.naturalBelow counterBound

/-- The count of two counters. -/
def countOf (n k : Option Nat) : Except (Json.Fault ContentFault) Count := do
  let n ← Json.required n
  let k ← Json.required k
  Json.required (Count.ofNats? n k)

/-- Reads a count. -/
def readCount : Json.Reader ContentFault Count := fun depth t => do
  let (n, k) ← Json.record
    [Json.field "n" counter fun x s => (some x, s.2),
      Json.field "k" counter fun x s => (s.1, some x)] (none, none) depth t
  countOf n k

/-- The members of a count. -/
def countMembers (c : Count) : List (String × Json.Value) :=
  [("n", .number (.whole c.n)), ("k", .number (.whole c.k))]

/-- A count. -/
def count : Codec Count :=
  ⟨readCount, fun c => .object (countMembers c)⟩

/-- Walks the members of a point: the date is read at once, and the others are kept, in order,
    to be read when all are known. -/
def readPointMembers (depth : Nat) : List (Option String × Json.Tree) → Option Date →
    List (String × Json.Tree) →
    Except (Json.Fault ContentFault) (Option Date × List (String × Json.Tree))
  | [], d, kept => .ok (d, kept)
  | (none, _) :: _, _, _ => .error .malformed
  | (some key, t) :: ms, d, kept =>
    if key = "date" then
      match d with
      | some _ => .error .malformed
      | none => do
        let d ← readDate depth t
        readPointMembers depth ms (some d) kept
    else do
      -- A member that is kept has to be a value, whether it is needed or not.
      let _ ← Json.value depth t
      readPointMembers depth ms d (kept ++ [(key, t)])

/-- Reads the member of a name that has to stand exactly once. -/
def readSole (read : Json.Reader ContentFault α) (depth : Nat) (name : String)
    (members : List (String × Json.Tree)) : Except (Json.Fault ContentFault) α :=
  match members.filter fun m => m.1 = name with
  | [m] => read depth m.2
  | _ => .error .malformed

/-- Reads a point. -/
def readPoint : Json.Reader ContentFault Point
  | depth, .object members closed => do
    let depth ← Json.enter depth
    let (d, kept) ← readPointMembers depth members none []
    let (d, kept) ← Json.whenClosed closed (d, kept)
    let d ← Json.required d
    let n ← readSole counter depth "n" kept
    let k ← readSole counter depth "k" kept
    let c ← countOf (some n) (some k)
    .ok ⟨d, c⟩
  | _, _ => .error .malformed

/-- A point. -/
def point : Codec Point :=
  ⟨readPoint, fun p => .object (("date", date.write p.date) :: countMembers p.counts)⟩

/-- Reads a series. -/
def readSeries : Json.Reader ContentFault Series := fun depth t => do
  let points ← Json.list point.read depth t
  checked .series (Series.ofPoints points)

/-- A series. -/
def series : Codec Series :=
  ⟨readSeries, fun s => (list point).write s.points⟩

/-! ## §4. Slices. -/

/-- Reads a window. -/
def readWindow : Json.Reader ContentFault Window := fun depth t => do
  let (r, c) ← Json.record
    [Json.field "range" range.read fun x s => (some x, s.2),
      Json.field "counts" count.read fun x s => (s.1, some x)] (none, none) depth t
  let r ← Json.required r
  let c ← Json.required c
  .ok ⟨r, c⟩

/-- A window. -/
def window : Codec Window :=
  ⟨readWindow, fun w => .object [("range", range.write w.range), ("counts", count.write w.counts)]⟩

/-- The kind of a payload. -/
inductive PayloadKind where
  | daily
  | aggregate
deriving DecidableEq

/-- The kind with a given name. -/
def PayloadKind.ofName? : String → Option PayloadKind
  | "daily" => some .daily
  | "aggregate" => some .aggregate
  | _ => none

/-- The data of a kind. -/
def readData : PayloadKind → Json.Reader ContentFault Payload
  | .daily => fun depth t => (series.read depth t).map .daily
  | .aggregate => fun depth t => (window.read depth t).map .aggregate

/-- How far a payload has been read. -/
inductive PayloadDraft where
  | nothing
  | kind (k : PayloadKind)
  /-- The data came first and waits for its kind. -/
  | data (t : Json.Tree)
  | whole (p : Payload)

/-- Takes up the kind of a payload; data that waits for it is read now. -/
def PayloadDraft.addKind (readKind : Json.Reader ContentFault PayloadKind) (depth : Nat)
    (t : Json.Tree) (d : PayloadDraft) : Except (Json.Fault ContentFault) PayloadDraft :=
  match d with
  | .nothing => (readKind depth t).map .kind
  | .data waiting => do
    let k ← readKind depth t
    let p ← readData k depth waiting
    .ok (.whole p)
  | .kind _ | .whole _ => .error .malformed

/-- Takes up the data of a payload. -/
def PayloadDraft.addData (depth : Nat) (t : Json.Tree) (d : PayloadDraft) :
    Except (Json.Fault ContentFault) PayloadDraft :=
  match d with
  | .nothing => do
    let _ ← Json.value depth t
    .ok (.data t)
  | .kind k => (readData k depth t).map .whole
  | .data _ | .whole _ => .error .malformed

/-- The payload of a draft that is complete. -/
def PayloadDraft.finish : PayloadDraft → Except (Json.Fault ContentFault) Payload
  | .whole p => .ok p
  | _ => .error .malformed

/-- Reads a payload.  In an array the kind is a plain string. -/
def readPayload : Json.Reader ContentFault Payload := fun depth t => do
  let readKind : Json.Reader ContentFault PayloadKind :=
    if t.isArray then Json.plainName PayloadKind.ofName? else Json.name PayloadKind.ofName?
  let draft ← Json.record
    [⟨"kind", PayloadDraft.addKind readKind⟩, ⟨"data", PayloadDraft.addData⟩]
    PayloadDraft.nothing depth t
  draft.finish

/-- Writes a payload. -/
def writePayload : Payload → Json.Value
  | .daily s => .object [("kind", .string "daily"), ("data", series.write s)]
  | .aggregate w => .object [("kind", .string "aggregate"), ("data", window.write w)]

/-- A payload. -/
def payload : Codec Payload :=
  ⟨readPayload, writePayload⟩

/-- An assignment. -/
def assignment : Codec Assignment where
  read depth t := (Json.table Json.string depth t).map fun x => Assignment.ofPairs x.entries
  write a := .object (a.toList.map fun e => (e.1, .string e.2))

/-- A signature. -/
def signature : Codec Signature where
  read depth t := (Json.string depth t).map Signature.parse
  write s := .string s.text

/-- The fields of a slice as far as they were met. -/
structure SliceDraft where
  assignment : Option Assignment
  payload : Option Payload
  signature : Option Signature

/-- Reads a slice. -/
def readSlice : Json.Reader ContentFault Slice := fun depth t => do
  let d ← Json.record
    [Json.field "assignment" assignment.read fun x (d : SliceDraft) => { d with assignment := some x },
      Json.field "data" payload.read fun x d => { d with payload := some x },
      Json.field "signature" signature.read fun x d => { d with signature := some x }]
    ⟨none, none, none⟩ depth t
  let a ← Json.required d.assignment
  let p ← Json.required d.payload
  let s ← Json.required d.signature
  .ok ⟨a, p, s⟩

/-- A slice. -/
def slice : Codec Slice where
  read := readSlice
  write s := .object [("assignment", assignment.write s.assignment),
    ("data", payload.write s.payload), ("signature", signature.write s.signature)]

/-! ## §5. Definitions and questions. -/

/-- The fields of a definition as far as they were met. -/
structure DefinitionDraft where
  key : Option String
  values : Option (List String)
  policy : Policy
  other : String

/-- Reads a definition, which is taken as it stands. -/
def readDefinition : Json.Reader ContentFault Definition := fun depth t => do
  let d ← Json.record
    [Json.field "key" text.read fun x (d : DefinitionDraft) => { d with key := some x },
      Json.field "values" (list text).read fun x d => { d with values := some x },
      Json.field "policy" policy.read fun x d => { d with policy := x },
      Json.field "other_value" text.read fun x d => { d with other := x }]
    ⟨none, none, .closed, Definition.defaultOther⟩ depth t
  let key ← Json.required d.key
  let values ← Json.required d.values
  .ok ⟨key, values, d.policy, d.other⟩

/-- A definition. -/
def definition : Codec Definition where
  read := readDefinition
  write d := .object [("key", text.write d.key), ("values", (list text).write d.values),
    ("policy", policy.write d.policy), ("other_value", text.write d.other)]

/-- The fields of an event as far as they were met. -/
structure EventDraft where
  id : Option String
  label : Option String
  definition : Json.Value

/-- Reads an event. -/
def readEvent : Json.Reader ContentFault TrackedEvent := fun depth t => do
  let d ← Json.record
    [Json.field "id" text.read fun x (d : EventDraft) => { d with id := some x },
      Json.field "label" Json.string? fun x d => { d with label := x },
      Json.field "definition" Json.value fun x d => { d with definition := x }]
    ⟨none, none, .null⟩ depth t
  let id ← Json.required d.id
  .ok ⟨id, d.label, d.definition⟩

/-- An event. -/
def event : Codec TrackedEvent where
  read := readEvent
  write e := .object [("id", text.write e.id), ("label", e.label.elim .null text.write),
    ("definition", e.definition)]

/-- The fields of a shape as far as they were met. -/
structure ShapeDraft where
  mode : Option TemporalMode
  source : Option String
  target : Option String
  visited : List String
  excluded : List String

/-- Reads a shape. -/
def readShape : Json.Reader ContentFault Shape := fun depth t => do
  let d ← Json.record
    [Json.field "mode" mode.read fun x (d : ShapeDraft) => { d with mode := some x },
      Json.field "from" text.read fun x d => { d with source := some x },
      Json.field "to" text.read fun x d => { d with target := some x },
      Json.field "visited" (list text).read fun x d => { d with visited := x },
      Json.field "excluded" (list text).read fun x d => { d with excluded := x }]
    ⟨none, none, none, [], []⟩ depth t
  let mode ← Json.required d.mode
  let source ← Json.required d.source
  let target ← Json.required d.target
  .ok ⟨mode, source, target, d.visited, d.excluded⟩

/-- A shape. -/
def shape : Codec Shape where
  read := readShape
  write s := .object [("mode", mode.write s.mode), ("from", text.write s.source),
    ("to", text.write s.target), ("visited", (list text).write s.visited),
    ("excluded", (list text).write s.excluded)]

/-- The fields of a question as far as they were met. -/
structure QuestionDraft where
  connection : Option String
  events : List TrackedEvent
  filters : List String
  shape : Option Shape

/-- Reads a question. -/
def readQuestion : Json.Reader ContentFault Question := fun depth t => do
  let d ← Json.record
    [Json.field "connection" text.read fun x (d : QuestionDraft) => { d with connection := some x },
      Json.field "events" (list event).read fun x d => { d with events := x },
      Json.field "filters" (list text).read fun x d => { d with filters := x },
      Json.field "shape" shape.read fun x d => { d with shape := some x }]
    ⟨none, [], [], none⟩ depth t
  let connection ← Json.required d.connection
  let shape ← Json.required d.shape
  .ok ⟨connection, d.events, d.filters, shape⟩

/-- A question. -/
def question : Codec Question where
  read := readQuestion
  write q := .object [("connection", text.write q.connection),
    ("events", (list event).write q.events), ("filters", (list text).write q.filters),
    ("shape", shape.write q.shape)]

end Codec

end MetricCube
