/-
  MetricCube.Fetch.Source
  ───────────────────────
  **Sources.**  A source answers a fetch item with a series, with an error that
  may pass or one that will not, or by breaking down.  A series has to stay
  within the days that were asked for.
-/
import MetricCube.Plan.Item

namespace MetricCube.Fetch

/-- Why a source has no series. -/
inductive SourceError where
  | retryable (message : String)
  | terminal (message : String)
deriving DecidableEq

namespace SourceError

/-- The fetch may be tried again. -/
def isRetryable : SourceError → Bool
  | .retryable _ => true
  | .terminal _ => false

/-- The wording of a source error. -/
def message : SourceError → String
  | .retryable m => "retryable source failure: " ++ m
  | .terminal m => "source failure: " ++ m

end SourceError

/-- How a call of a source ends. -/
inductive Reply where
  | series (s : Series)
  | error (e : SourceError)
  /-- The source broke down. -/
  | crash (message : String)
deriving DecidableEq

/-- What a call of a source does: it may cancel all fetches, and then it ends or not. -/
structure Answer where
  cancels : Bool
  reply : Option Reply

/-- A source with a memory of its own. -/
abbrev Source (τ : Type) := τ → FetchItem → Answer × τ

/-- The series, unless it has a day that was not asked for. -/
def withinRange (item : FetchItem) (s : Series) : Except SourceError Series :=
  match s.dates.find? fun d => !item.range.contains d with
  | some d => .error (.terminal
      ("source returned " ++ d.text ++ " outside requested " ++ item.range.text))
  | none => .ok s

/-- The series of a reply, if it is one and stays within the days that were asked for. -/
def accepted (item : FetchItem) : Reply → Option (Except SourceError Series)
  | .series s => some (withinRange item s)
  | .error e => some (.error e)
  | .crash _ => none

end MetricCube.Fetch
