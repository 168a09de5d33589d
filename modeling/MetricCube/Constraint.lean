/-
  MetricCube.Constraint
  ─────────────────────
  **Constraint texts.**  A constraint is a sequence of clauses, a name with a
  body in parentheses, parted by points:

      context(channel:google).window(2025-01-01:-1d)

  `context` fixes a dimension, `window` and `cohort` give the days and how they
  are counted.  `clauses` splits a text into its clauses up to the first fault;
  `parse` reads them in order, so that of several faults the first in the text
  is reported.
-/
import MetricCube.Assignment
import MetricCube.Calendar.DateRange
import MetricCube.Question

namespace MetricCube

/-- What is asked for: days of an assignment, and how they are counted. -/
structure Constraint where
  assignment : Assignment
  range : DateRange
  mode : TemporalMode
deriving DecidableEq

/-- A fault in the order of tokens. -/
inductive ClauseFault where
  | expectedOpen
  | expectedName
  | unclosed
  | trailingPoint
  | expectedPoint
deriving DecidableEq, Repr

/-- The wording of a clause fault. -/
def ClauseFault.message : ClauseFault → String
  | .expectedOpen => "expected '('"
  | .expectedName => "expected clause name"
  | .unclosed => "unclosed '('"
  | .trailingPoint => "trailing '.'"
  | .expectedPoint => "expected '.' between clauses"

/-- Why a text is no constraint. -/
inductive ConstraintError where
  | clause (offset : Nat) (fault : ClauseFault)
  | unknownClause (name : String)
  | malformedContext (body : String)
  | duplicateContext (key : String)
  | invalidDate (token : String)
  | conflictingRange
  | missingRange
  | range (error : RangeError)
deriving DecidableEq

/-- The wording of a constraint error. -/
def ConstraintError.message : ConstraintError → String
  | .clause offset fault =>
    "syntax error at byte " ++ Text.decimal offset ++ ": " ++ fault.message
  | .unknownClause name => "unknown clause '" ++ name ++ "'"
  | .malformedContext body => "malformed context clause '" ++ body ++ "', expected key:value"
  | .duplicateContext key => "dimension '" ++ key ++ "' constrained more than once"
  | .invalidDate token => "invalid date '" ++ token ++ "'"
  | .conflictingRange => "window and cohort are mutually exclusive and may appear once"
  | .missingRange => "no window or cohort clause"
  | .range e => e.message

namespace Constraint

/-! ## §1. Clauses. -/

/-- A name and the text in its parentheses. -/
structure Clause where
  name : List Char
  body : List Char
deriving DecidableEq

/-- The character may occur in a clause name. -/
def isNameChar (c : Char) : Bool :=
  c.isAlpha || c == '_'

/-- What stands in front of a text: nothing but blanks, a fault together with the rest of the
    text from which it is reported, or a clause and what follows it. -/
inductive Head where
  | finished
  | fault (fault : ClauseFault) (rest : List Char)
  | clause (clause : Clause) (rest : List Char)

/-- Reads what may follow a clause: the end, or a point and more. -/
def separator (c : Clause) (rest : List Char) : Head :=
  match Text.dropBlanks rest with
  | [] => .clause c []
  | '.' :: more => if more.all Text.isBlank then .fault .trailingPoint more else .clause c more
  | other => .fault .expectedPoint other

/-- Reads one clause with its separator. -/
def head (text : List Char) : Head :=
  let trimmed := Text.dropBlanks text
  if trimmed.isEmpty then .finished
  else
    match trimmed.dropWhile (· != '(') with
    | [] => .fault .expectedOpen trimmed
    | opening :: inner =>
      let name := Text.trimChars (trimmed.takeWhile (· != '('))
      if name.isEmpty || !name.all isNameChar then .fault .expectedName trimmed
      else
        match inner.dropWhile (· != ')') with
        | [] => .fault .unclosed (opening :: inner)
        | _ :: rest => separator ⟨name, inner.takeWhile (· != ')')⟩ rest

theorem length_dropBlanks_le (cs : List Char) : (Text.dropBlanks cs).length ≤ cs.length :=
  (List.dropWhile_sublist _).length_le

theorem length_separator {c d : Clause} {cs rest : List Char} (h : separator c cs = .clause d rest) :
    rest.length ≤ cs.length := by
  have hle := length_dropBlanks_le cs
  unfold separator at h
  split at h
  · cases h; exact Nat.zero_le _
  · rename_i more heq
    split at h
    · cases h
    · cases h
      rw [heq] at hle
      simp only [List.length_cons] at hle
      omega
  · cases h

theorem length_head {text rest : List Char} {c : Clause} (h : head text = .clause c rest) :
    rest.length < text.length := by
  unfold head at h
  simp only at h
  split at h
  · cases h
  · split at h
    · cases h
    · rename_i opening inner hopen
      split at h
      · cases h
      · split at h
        · cases h
        · rename_i closing after hclose
          have h₁ := length_separator h
          have h₂ := length_dropBlanks_le text
          have h₃ := ((Text.dropBlanks text).dropWhile_sublist (· != '(')).length_le
          have h₄ := (inner.dropWhile_sublist (· != ')')).length_le
          rw [hopen] at h₃
          rw [hclose] at h₄
          simp only [List.length_cons] at h₃ h₄
          omega

/-- The clauses of a text up to its end or its first fault; a fault is given with the rest of
    the text from which it is reported. -/
def clauses (text : List Char) : List Clause × Option (ClauseFault × List Char) :=
  match _h : head text with
  | .finished => ([], none)
  | .fault f rest => ([], some (f, rest))
  | .clause c rest =>
    let r := clauses rest
    (c :: r.1, r.2)
termination_by text.length
decreasing_by exact length_head _h

/-! ## §2. Dates and ranges. -/

/-- The largest number of days back. -/
def maxDaysBack : Int := 36525

/-- The number between a leading hyphen and a final `d`. -/
def relativeDigits? : List Char → Option (List Char)
  | '-' :: cs => if cs.getLast? = some 'd' then some cs.dropLast else none
  | _ => none

/-- The day that a token stands for. -/
def day (token : List Char) (today : Date) : Except ConstraintError Date :=
  let token := Text.trimChars token
  let invalid := ConstraintError.invalidDate (String.ofList token)
  match relativeDigits? token with
  | some digits =>
    match Text.signed? 2147483647 digits with
    | some n => if 0 ≤ n ∧ n ≤ maxDaysBack then .ok (today.addDays (-n)) else .error invalid
    | none => .error invalid
  | none =>
    match Date.any? (String.ofList token) with
    | some d => .ok d
    | none => .error invalid

/-- The two sides of the first colon. -/
def splitColon? (cs : List Char) : Option (List Char × List Char) :=
  match cs.dropWhile (· != ':') with
  | [] => none
  | _ :: rest => some (cs.takeWhile (· != ':'), rest)

/-- The range that the body of a clause stands for; an end left open is today. -/
def rangeOf (body : List Char) (today : Date) : Except ConstraintError DateRange :=
  match splitColon? body with
  | none => .error (.invalidDate (String.ofList body))
  | some (first, last) => do
    let start ← day first today
    let stop ← if last.all Text.isBlank then .ok today else day last today
    (DateRange.make start stop).mapError .range

/-! ## §3. Whole texts. -/

/-- What the clauses said so far. -/
structure Draft where
  assignment : Assignment
  temporal : Option (TemporalMode × DateRange)

/-- Key and value of a `context` clause. -/
def context? (body : List Char) : Option (String × String) :=
  match splitColon? body with
  | none => none
  | some (key, value) =>
    if key.all Text.isBlank || value.all Text.isBlank then none
    else some (String.ofList key, String.ofList value)

/-- Takes up one clause. -/
def Draft.add (today : Date) (d : Draft) (c : Clause) : Except ConstraintError Draft :=
  let name := String.ofList c.name
  if name = "context" then
    match context? c.body with
    | none => .error (.malformedContext (String.ofList c.body))
    | some (key, value) =>
      if (d.assignment.replaced? key).isSome then .error (.duplicateContext (Text.foldKey key))
      else .ok { d with assignment := d.assignment.insert key value }
  else
    match TemporalMode.ofName? name with
    | none => .error (.unknownClause name)
    | some mode =>
      if d.temporal.isSome then .error .conflictingRange
      else (rangeOf c.body today).map fun r => { d with temporal := some (mode, r) }

/-- Takes up clauses in order. -/
def Draft.addAll (today : Date) (d : Draft) : List Clause → Except ConstraintError Draft
  | [] => .ok d
  | c :: cs =>
    match d.add today c with
    | .ok d => d.addAll today cs
    | .error e => .error e

/-- The constraint of a text, given the day it is read on. -/
def parse (text : String) (today : Date) : Except ConstraintError Constraint :=
  let chars := text.toList
  let (found, fault) := clauses chars
  match Draft.addAll today ⟨.empty, none⟩ found with
  | .error e => .error e
  | .ok d =>
    match fault with
    | some (f, rest) => .error (.clause (Text.utf8Length chars - Text.utf8Length rest) f)
    | none =>
      match d.temporal with
      | none => .error .missingRange
      | some (mode, range) => .ok ⟨d.assignment, range, mode⟩

/-- The text of a constraint. -/
def text (c : Constraint) : String :=
  (if c.assignment.isEmpty then "" else c.assignment.canonical ++ ".")
    ++ c.mode.name ++ "(" ++ c.range.text ++ ")"

end Constraint

end MetricCube
