/-
  MetricCube.Plan.Planner
  ───────────────────────
  **Planning a request over cached slices.**  Planning runs in four steps.

    1. Screening.  Of the slices that satisfy the request, those whose signature
       does not fit the question as it is asked now are put aside.
    2. The exact slice, if there is one: it answers the request, or names what
       it lacks.
    3. The families of the remaining slices, by the keys beyond the request.
       Each is judged on its own: its grid, the coverage of each member, and
       then the sum.
    4. The conclusion.  The first complete family answers; failing that, what
       the exact slice or else the first wanting family lacks is fetched;
       failing that, the first incomplete family answers; failing all, the whole
       window is fetched.

  Each step yields a value that says what was found, and the outcome, the trace
  and the events are all read off these findings.
-/
import MetricCube.Plan.Outcome
import MetricCube.Telemetry

namespace MetricCube

/-- What a planner may do beyond adding up. -/
structure PlannerSettings where
  /-- A count over a longer window may be shared out by days. -/
  prorateAggregates : Bool
  /-- Missing cells of a grid are fetched. -/
  fetchMissingValues : Bool
deriving DecidableEq

/-- Settings and the dimensions as they are defined now. -/
structure Planner where
  settings : PlannerSettings
  registry : Registry

namespace Planner

/-- The signature of a slice made now: the core hash and the hash of each defined dimension
    of the assignment. -/
def signatureFor (p : Planner) (core : String) (a : Assignment) : Signature :=
  .make core (a.keys.filterMap fun key => (p.registry.find? key).map fun d => (key, d.hash))

/-- The signature that the request asks under. -/
def querySignature (p : Planner) (req : Request) : Signature :=
  p.signatureFor req.core req.assignment

/-- A new item of the request. -/
def item (p : Planner) (req : Request) (a : Assignment) (range : DateRange) : FetchItem :=
  .make req.metric a range (p.signatureFor req.core a)

/-! ## §1. Screening. -/

/-- The slice was made under another definition of the dimension than the current one. -/
def isStale (p : Planner) (s : Slice) (key : String) : Bool :=
  match p.registry.find? key with
  | none => false
  | some d => s.signature.dimension? key != some d.hash

/-- Why the signature of a slice does not fit the request; none if it does. -/
def rejection? (p : Planner) (req : Request) (s : Slice) : Option Mismatch :=
  match s.signature.mismatch? (p.querySignature req) with
  | some reason => some reason
  | none =>
    ((s.assignment.extraKeys req.assignment).find? (p.isStale s)).map .definitionChanged

/-- The slices that satisfy the request, each with the reason against it, if there is one. -/
def screen (p : Planner) (slices : List Slice) (req : Request) :
    List (Slice × Option Mismatch) :=
  (slices.filter fun s => s.assignment.satisfies req.assignment).map fun s =>
    (s, p.rejection? req s)

/-- The slices that may be used. -/
def compatible (p : Planner) (slices : List Slice) (req : Request) : List Slice :=
  (p.screen slices req).filterMap fun e => if e.2.isNone then some e.1 else none

/-- The records of screening. -/
def screenTrace (screened : List (Slice × Option Mismatch)) : Trace :=
  screened.filterMap fun e =>
    e.2.map fun reason => .reject .signatureFilter e.1.assignment.text reason.message

/-- The events of screening. -/
def screenEvents (req : Request) (screened : List (Slice × Option Mismatch)) :
    List Telemetry.Event :=
  screened.filterMap fun e => e.2.map fun _ => .signatureRejected req.metric

/-! ## §2. What one slice can show. -/

/-- What a payload shows of a requested range. -/
inductive View where
  /-- Every day. -/
  | daily (clipped : Series)
  /-- One count over exactly the range. -/
  | window (counts : Count)
  /-- A share of a count over a longer window. -/
  | share (counts : Count) (cached : DateRange)
  /-- Days are missing. -/
  | gaps (missing : List DateRange)
  /-- A window that does not hold the range. -/
  | beside (cached : DateRange)

/-- What a payload shows of a range. -/
def view (p : Planner) (range : DateRange) : Payload → View
  | .daily s =>
    let coverage := Coverage.ofSeries s range
    if coverage.isFull then .daily (s.clip range) else .gaps coverage.gaps
  | .aggregate w =>
    match w.cover range p.settings.prorateAggregates with
    | .exact counts => .window counts
    | .prorated counts cached => .share counts cached
    | .uncovered => .beside w.range

namespace View

/-- The payload over exactly the range. -/
def payload? (range : DateRange) : View → Option Payload
  | .daily s => some (.daily s)
  | .window counts => some (.aggregate ⟨range, counts⟩)
  | .share counts _ => some (.aggregate ⟨range, counts⟩)
  | .gaps _ => none
  | .beside _ => none

/-- The ranges that have to be fetched. -/
def wanted (range : DateRange) : View → List DateRange
  | .gaps missing => missing
  | .beside _ => [range]
  | _ => []

/-- What has to be disclosed about a share. -/
def disclosure? (range : DateRange) : View → Option Disclosure
  | .share _ cached => some (.prorated cached range)
  | _ => none

end View

/-! ## §3. The exact slice. -/

/-- The slice of exactly the requested assignment. -/
inductive ExactChoice where
  | absent
  /-- Chosen over a number of older ones by its signature. -/
  | chosen (slice : Slice) (older : Nat)
  | ambiguous

/-- Of several exact slices, the only one with the current signature is chosen. -/
def exactChoice (p : Planner) (usable : List Slice) (req : Request) : ExactChoice :=
  match Family.exact Slice.assignment usable req.assignment with
  | [] => .absent
  | [s] => .chosen s 0
  | several =>
    match several.filter fun s => s.signature = p.querySignature req with
    | [s] => .chosen s (several.length - 1)
    | _ => .ambiguous

/-- The record of the choice. -/
def ExactChoice.trace : ExactChoice → Trace
  | .chosen s (older + 1) =>
    [.accept .signatureFilter s.assignment.text
      ("current signature preferred over " ++ Text.decimal (older + 1) ++ " older")]
  | _ => []

/-- What the exact slice comes to. -/
inductive ExactFinding where
  | answered (answer : Answer) (disclosure : Disclosure)
  | wanting (items : List FetchItem)
  | overflow

/-- The answer of the exact slice, or the items that it lacks. -/
def exactFinding (p : Planner) (req : Request) (s : Slice) : ExactFinding :=
  let v := p.view req.range s.payload
  match v with
  | .daily clipped =>
    match clipped.total with
    | .ok total => .answered ⟨req.range, some clipped, total⟩ .exact
    | .error _ => .overflow
  | .window counts => .answered ⟨req.range, none, counts⟩ .exact
  | .share counts cached => .answered ⟨req.range, none, counts⟩ (.prorated cached req.range)
  | .gaps _ | .beside _ =>
    .wanting ((v.wanted req.range).map fun range => p.item req s.assignment range)

/-- The record of the coverage of the exact slice. -/
def exactTrace (p : Planner) (req : Request) (s : Slice) : TraceRecord :=
  let subject := s.assignment.text
  match p.view req.range s.payload with
  | .daily _ => .accept .coverageCheck subject "exact slice covers window"
  | .window _ => .accept .coverageCheck subject "exact aggregate window"
  | .share _ cached => .accept .coverageCheck subject ("prorated from " ++ cached.text)
  | .gaps missing =>
    let held := (s.payload.daily?.map fun series => series.runs.length).getD 0
    .reject .coverageCheck subject
      ("exact slice holds " ++ Text.decimal held ++ " run(s), missing "
        ++ Text.decimal missing.length ++ " range(s)")
  | .beside cached =>
    .reject .coverageCheck subject
      ("aggregate window " ++ cached.text ++ " cannot answer " ++ req.range.text)

/-! ## §4. Families. -/

/-- What a family comes to. -/
inductive Verdict where
  /-- It cannot be isolated. -/
  | mixed (error : IsolationError)
  /-- A fault of the cached data, found before or after the coverage check. -/
  | faulted (covered : Bool) (fault : PlanFault)
  /-- Some dimension cannot be summed over. -/
  | unsuitable (failures : List DimensionFailure)
  /-- Items are lacking: for `cells` missing cells, and for gaps of members, which leave
      `gaps` gaps in their joint coverage. -/
  | wanting (cells gaps : Nat) (items : List FetchItem)
  /-- The grid does not allow a sum. -/
  | blocked (obstacles : List Obstacle)
  /-- A sum left the counter range, after the reduction was found complete or not, if it
      got so far. -/
  | overflow (complete : Option Bool)
  | complete (answer : Answer) (shares : List Disclosure)
  | incomplete (answer : Answer) (disclosures : List Disclosure)

/-- The judgement on a family. -/
structure Finding where
  keys : List String
  members : Nat
  verdict : Verdict

/-- The answer that a summed payload gives. -/
def answerOf (range : DateRange) : Payload → Except Overflow Answer
  | .daily s => s.total.map fun total => ⟨range, some s, total⟩
  | .aggregate w => .ok ⟨range, none, w.counts⟩

/-- What has to be disclosed about a sum that lacks values. -/
def incompleteDisclosure (r : Reduction) : Disclosure :=
  let missing := r.partials.filterMap fun d =>
    match d.status with
    | .lacking values => some (d.key, values)
    | .complete => none
  .incomplete (r.partials.map DimensionStatus.key) (Table.ofPairs missing)

/-- The verdict on members that all cover the range. -/
def sumVerdict (p : Planner) (req : Request) (family : Family Slice) : Verdict :=
  let views := family.members.map fun s => (s, p.view req.range s.payload)
  let slices := views.filterMap fun e =>
    (e.2.payload? req.range).map fun payload => { e.1 with payload := payload }
  let shares := (views.filterMap fun e => e.2.disclosure? req.range).eraseDups
  match reduce p.registry slices family.keys with
  | .error (.ambiguous cell) => .faulted true (.ambiguous cell)
  | .error (.failed failure) => .faulted true (.unsummable failure)
  | .error (.overflow _) => .overflow none
  | .ok (.blocked obstacles) => .blocked obstacles
  | .ok (.reduced r) =>
    match answerOf req.range r.payload with
    | .error _ => .overflow (some r.isComplete)
    | .ok answer =>
      if r.isComplete then .complete answer shares
      else .incomplete answer (incompleteDisclosure r :: shares)

/-- The items that a family lacks: its missing cells, then the gaps of its members. -/
def lackingItems (p : Planner) (req : Request) (cells : List Assignment)
    (members : List Slice) : List FetchItem :=
  (cells.map fun cell => p.item req (req.assignment.merged cell) req.range)
    ++ members.flatMap fun s =>
      ((p.view req.range s.payload).wanted req.range).map fun range => p.item req s.assignment range

/-- The verdict on an isolated family. -/
def verdict (p : Planner) (req : Request) (family : Family Slice) : Verdict :=
  match Grid.assess p.registry (family.members.map Slice.assignment) family.keys with
  | .error cell => .faulted false (.ambiguous cell)
  | .ok grid =>
    if !grid.failures.isEmpty then .unsuitable grid.failures
    else
      -- Cells that are not to be fetched are left to the disclosure of the sum.
      let cells := if p.settings.fetchMissingValues then grid.missing else []
      let items := p.lackingItems req cells family.members
      if items.isEmpty then p.sumVerdict req family
      else
        let joint := Coverage.joint
          (family.members.filterMap fun s => s.payload.daily?) req.range
        .wanting cells.length joint.gaps.length items

/-- Judges a family. -/
def judge (p : Planner) (req : Request) (family : Family Slice) : Finding :=
  match Family.isolate Slice.assignment family.members req.assignment with
  | .error e => ⟨family.keys, 0, .mixed e⟩
  | .ok isolated => ⟨family.keys, isolated.members.length, p.verdict req isolated⟩

namespace Finding

/-- Why planning ends with this family, if it does: an overflow or a fault. -/
def halt? (f : Finding) : Option (Except Overflow PlanFault) :=
  match f.verdict with
  | .mixed e => some (.ok (.isolation e))
  | .faulted _ fault => some (.ok fault)
  | .overflow _ => some (.error .counts)
  | _ => none

/-- The items that the family lacks. -/
def items? (f : Finding) : Option (List FetchItem) :=
  match f.verdict with
  | .wanting _ _ items => some items
  | _ => none

/-- Keys, answer and shares of a complete family. -/
def complete? (f : Finding) : Option (List String × Answer × List Disclosure) :=
  match f.verdict with
  | .complete answer shares => some (f.keys, answer, shares)
  | _ => none

/-- Answer and disclosures of an incomplete family. -/
def incomplete? (f : Finding) : Option (Answer × List Disclosure) :=
  match f.verdict with
  | .incomplete answer disclosures => some (answer, disclosures)
  | _ => none

/-- The records of a family. -/
def trace (f : Finding) : Trace :=
  let subject := ",".intercalate f.keys
  let isolated := TraceRecord.accept .isolate subject (Text.decimal f.members ++ " slice(s)")
  let covered := TraceRecord.accept .coverageCheck subject "every member covers window"
  match f.verdict with
  | .mixed _ => []
  | .faulted false _ => [isolated]
  | .faulted true _ => [isolated, covered]
  | .unsuitable failures =>
    isolated :: failures.map fun d =>
      .reject .exactOrReduce subject (d.key ++ ": " ++ d.failure.message)
  | .wanting cells gaps items =>
    isolated
      :: (if cells = 0 then []
        else [.reject .exactOrReduce subject (Text.decimal cells ++ " missing cell(s)")])
      ++ [.reject .coverageCheck subject
        ("combined coverage has " ++ Text.decimal gaps ++ " gap(s); "
          ++ Text.decimal items.length ++ " fetch item(s)")]
  | .blocked obstacles =>
    isolated :: covered :: obstacles.map fun o => .reject .exactOrReduce subject o.message
  | .overflow _ => [isolated, covered]
  | .complete _ _ => [isolated, covered, .accept .exactOrReduce subject "complete partition"]
  | .incomplete _ _ =>
    [isolated, covered, .accept .exactOrReduce subject "partial partition, disclosed"]

/-- The events of a family. -/
def events (metric : String) (f : Finding) : List Telemetry.Event :=
  match f.verdict with
  | .complete _ _ => [.reduced metric true]
  | .incomplete _ _ => [.reduced metric false]
  | .overflow (some complete) => [.reduced metric complete]
  | _ => []

end Finding

/-- Judges families in order, up to and including the first that ends planning. -/
def survey (p : Planner) (req : Request) : List (Family Slice) → List Finding
  | [] => []
  | family :: rest =>
    let f := p.judge req family
    if f.halt?.isSome then [f] else f :: survey p req rest

/-! ## §5. The conclusion. -/

/-- Drops items whose id occurred before. -/
def dropRepeatedIds : (seen : List UInt64) → List FetchItem → List FetchItem
  | _, [] => []
  | seen, i :: is =>
    if seen.contains i.id then dropRepeatedIds seen is else i :: dropRepeatedIds (i.id :: seen) is

/-- The outcome that asks for the given items, each once. -/
def fetch (items : List FetchItem) : Outcome :=
  .needsFetch (dropRepeatedIds [] items)

/-- What the findings come to, given what the exact slice lacks; nothing if there is nothing
    to go by. -/
def conclusion? (lacking : Option (List FetchItem)) (findings : List Finding) : Option Outcome :=
  match findings.filterMap Finding.complete? with
  -- Findings are in ascending order of keys, so the first complete one answers.
  | (keys, answer, shares) :: others =>
    some (.satisfied answer (.complete keys (others.map fun o => o.1) :: shares))
  | [] =>
    -- What the exact slice lacks goes before what a family lacks.
    match lacking.or (findings.findSome? Finding.items?) with
    | some items => some (fetch items)
    | none => (findings.findSome? Finding.incomplete?).map fun r => .satisfied r.1 r.2

/-- The record of a refusal. -/
def refusal (req : Request) (fault : PlanFault) : TraceRecord :=
  .reject .exactOrReduce req.assignment.text fault.message

/-- The record of having nothing to go by. -/
def nothingUsable (req : Request) : TraceRecord :=
  .reject .exactOrReduce req.assignment.text "no usable slice; fetching the full window"

/-- The plan that the families lead to, after the given records. -/
def conclude (p : Planner) (req : Request) (lacking : Option (List FetchItem)) (before : Trace)
    (findings : List Finding) : Except Overflow Plan :=
  let trace := before ++ findings.flatMap Finding.trace
  match findings.findSome? Finding.halt? with
  | some (.error e) => .error e
  | some (.ok fault) => .ok ⟨.refused fault, trace ++ [refusal req fault]⟩
  | none =>
    match conclusion? lacking findings with
    | some outcome => .ok ⟨outcome, trace⟩
    | none => .ok ⟨fetch [p.item req req.assignment req.range], trace ++ [nothingUsable req]⟩

/-- What planning reports, and its result. -/
structure Planning where
  events : List Telemetry.Event
  result : Except Overflow Plan

/-- The event that planning ends with. -/
def endEvent (req : Request) : Outcome → Telemetry.Event
  | .satisfied _ _ => .planFinished req.metric .satisfied 0
  | .needsFetch items => .planFinished req.metric .needsFetch items.length
  | .refused _ => .planFinished req.metric .refused 0

/-- Adds the event that planning ends with. -/
def finish (req : Request) (events : List Telemetry.Event) (result : Except Overflow Plan) :
    Planning :=
  match result with
  | .ok plan => ⟨events ++ [endEvent req plan.outcome], .ok plan⟩
  | .error e => ⟨events, .error e⟩

/-- Plans over the families, given what the exact slice lacks. -/
def planFamilies (p : Planner) (req : Request) (usable : List Slice)
    (lacking : Option (List FetchItem)) (before : Trace) (events : List Telemetry.Event) :
    Planning :=
  let findings := p.survey req (Family.partition Slice.assignment usable req.assignment)
  finish req (events ++ findings.flatMap (Finding.events req.metric))
    (p.conclude req lacking before findings)

/-- Plans a request over cached slices. -/
def plan (p : Planner) (slices : List Slice) (req : Request) : Planning :=
  let screened := p.screen slices req
  let usable := p.compatible slices req
  let events := screenEvents req screened
  let choice := p.exactChoice usable req
  let before := screenTrace screened ++ choice.trace
  match choice with
  | .ambiguous =>
    let fault := PlanFault.ambiguous req.assignment
    finish req events (.ok ⟨.refused fault, before ++ [refusal req fault]⟩)
  | .absent => p.planFamilies req usable none before events
  | .chosen s _ =>
    let before := before ++ [p.exactTrace req s]
    match p.exactFinding req s with
    | .answered answer disclosure =>
      finish req events (.ok ⟨.satisfied answer [disclosure], before⟩)
    | .overflow => finish req events (.error .counts)
    | .wanting items => p.planFamilies req usable (some items) before events

end Planner

end MetricCube
