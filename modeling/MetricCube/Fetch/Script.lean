/-
  MetricCube.Fetch.Script
  ───────────────────────
  **Scripted sources.**  A script queues cues for assignments.  A scripted source
  plays the first cue of the assignment that it is asked for, and makes up a
  series when there is none.
-/
import MetricCube.Fetch.Source

namespace MetricCube.Fetch

/-- How a scripted call ends. -/
inductive CueEnd where
  /-- The call never ends. -/
  | hang
  | reply (r : Reply)
  /-- The source makes up a series. -/
  | improvise

/-- What a scripted call does: it may cancel all fetches, and then it ends. -/
structure Cue where
  cancels : Bool
  ending : CueEnd

/-- The cues of a source, in order. -/
abbrev Script := List (Assignment × Cue)

namespace Script

/-- Queues cues for an assignment. -/
def queue (s : Script) (a : Assignment) (cues : List Cue) : Script :=
  s ++ cues.map fun c => (a, c)

/-- The first cue for an assignment, and the script without it. -/
def next? : Script → Assignment → Option (Cue × Script)
  | [], _ => none
  | (b, c) :: rest, a =>
    if a = b then some (c, rest) else (next? rest a).map fun r => (r.1, (b, c) :: r.2)

/-- What a cue makes the source answer. -/
def play (improvise : FetchItem → Series) (item : FetchItem) (c : Cue) : Answer :=
  match c.ending with
  | .hang => ⟨c.cancels, none⟩
  | .reply r => ⟨c.cancels, some r⟩
  | .improvise => ⟨c.cancels, some (.series (improvise item))⟩

/-- The source that plays a script. -/
def source (improvise : FetchItem → Series) : Source Script := fun script item =>
  match script.next? item.assignment with
  | some (cue, rest) => (play improvise item cue, rest)
  | none => (⟨false, some (.series (improvise item))⟩, script)

end Script

end MetricCube.Fetch
