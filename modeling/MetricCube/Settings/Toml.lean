/-
  MetricCube.Settings.Toml
  ────────────────────────
  **Settings documents** in the TOML format.  `statements?` lists the headers
  and entries of a document in order; a document that is not of this form has
  none.

  Containers nest at most 79 deep, and a key has at most 79 parts.  An entry of
  an inline table may name its value by a dotted key; tables that come into
  being this way can be added to by further dotted keys, all others are complete
  as they stand.
-/
import MetricCube.Settings.Toml.Moment
import MetricCube.Settings.Toml.Number
import MetricCube.Settings.Toml.Text

namespace MetricCube.Toml

/-- A value. -/
inductive Value where
  | boolean (b : Bool)
  | number (n : Number)
  | moment (m : Moment)
  | string (s : String)
  | array (items : List Value)
  /-- A table; `dotted` if only dotted keys have made it. -/
  | table (dotted : Bool) (entries : List (String × Value))

/-- A line that says something. -/
inductive Statement where
  /-- A table header, of an array of tables if `array` is set. -/
  | header (array : Bool) (path : List String)
  | entry (path : List String) (value : Value)

/-- The number of containers that may be open at a time, and of parts that a key may have. -/
def maxNesting : Nat := 79

/-! ## §1. Entries. -/

/-- The value under a name. -/
def lookup? (entries : List (String × Value)) (name : String) : Option Value :=
  (entries.find? fun e => e.1 = name).map Prod.snd

/-- The entries with another value under a name. -/
def replace (entries : List (String × Value)) (name : String) (v : Value) :
    List (String × Value) :=
  entries.map fun e => if e.1 = name then (name, v) else e

/-- Adds a value under a dotted key.  A name that is taken can only be passed through, and
    only if dotted keys have made its table. -/
def insertAt? : (path : List String) → Value → List (String × Value) →
    Option (List (String × Value))
  | [], _, _ => none
  | [name], v, entries =>
    match lookup? entries name with
    | none => some (entries ++ [(name, v)])
    | some _ => none
  | name :: path, v, entries =>
    match lookup? entries name with
    | none => (insertAt? path v []).map fun inner => entries ++ [(name, .table true inner)]
    | some (.table true inner) =>
      (insertAt? path v inner).map fun inner => replace entries name (.table true inner)
    | some _ => none

/-! ## §2. Values. -/

/-- A value without parts in front. -/
def takeScalar (cs : List Char) : Option (Value × List Char) :=
  match cs with
  | 't' :: 'r' :: 'u' :: 'e' :: cs => some (.boolean true, cs)
  | 'f' :: 'a' :: 'l' :: 's' :: 'e' :: cs => some (.boolean false, cs)
  | '"' :: _ | '\'' :: _ => (takeString cs).map fun r => (.string r.1, r.2)
  | _ =>
    match takeMoment cs with
    | some (m, cs) => some (.moment m, cs)
    | none => (takeNumber cs).map fun r => (.number r.1, r.2)

mutual

/-- A value in front; `depth` is the number of containers that may still be opened. -/
def takeValue : (fuel depth : Nat) → List Char → Option (Value × List Char)
  | 0, _, _ => none
  | _ + 1, 0, '[' :: _ | _ + 1, 0, '\x7b' :: _ => none
  | fuel + 1, depth + 1, '[' :: cs =>
    (takeItems fuel depth cs).map fun r => (.array r.1, r.2)
  | fuel + 1, depth + 1, '\x7b' :: cs =>
    match dropBlanks cs with
    | '\x7d' :: cs => some (.table false [], cs)
    | cs => (takeEntries fuel depth [] cs).map fun r => (.table false r.1, r.2)
  | _ + 1, _, cs => takeScalar cs

/-- The items of an array up to its closing bracket. -/
def takeItems : (fuel depth : Nat) → List Char → Option (List Value × List Char)
  | 0, _, _ => none
  | fuel + 1, depth, cs =>
    match dropLines (cs.length + 1) cs with
    | ']' :: cs => some ([], cs)
    | cs => do
      let (v, cs) ← takeValue fuel depth cs
      match dropLines (cs.length + 1) cs with
      | ',' :: cs => do
        let (vs, cs) ← takeItems fuel depth cs
        some (v :: vs, cs)
      | ']' :: cs => some ([v], cs)
      | _ => none

/-- Adds the entries of an inline table up to its closing brace; there is at least one. -/
def takeEntries : (fuel depth : Nat) → List (String × Value) → List Char →
    Option (List (String × Value) × List Char)
  | 0, _, _, _ => none
  | fuel + 1, depth, entries, cs => do
    let (path, cs) ← takePath maxNesting cs
    match dropBlanks cs with
    | '=' :: cs => do
      let (v, cs) ← takeValue fuel depth (dropBlanks cs)
      let entries ← insertAt? path v entries
      match dropBlanks cs with
      | ',' :: cs => takeEntries fuel depth entries cs
      | '\x7d' :: cs => some (entries, cs)
      | _ => none
    | _ => none

end

/-! ## §3. Documents. -/

/-- The statement in front. -/
def takeStatement (cs : List Char) : Option (Statement × List Char) :=
  match cs with
  | '[' :: '[' :: cs => do
    let (path, cs) ← takePath maxNesting cs
    match cs with
    | ']' :: ']' :: cs => some (.header true path, cs)
    | _ => none
  | '[' :: cs => do
    let (path, cs) ← takePath maxNesting cs
    match cs with
    | ']' :: cs => some (.header false path, cs)
    | _ => none
  | _ => do
    let (path, cs) ← takePath maxNesting cs
    match cs with
    | '=' :: cs => do
      let (v, cs) ← takeValue (2 * cs.length + 2) maxNesting (dropBlanks cs)
      some (.entry path v, cs)
    | _ => none

/-- The statements of a text. -/
def takeStatements : (fuel : Nat) → List Char → Option (List Statement)
  | 0, _ => none
  | fuel + 1, cs =>
    match dropLines (cs.length + 1) cs with
    | [] => some []
    | cs => do
      let (s, cs) ← takeStatement cs
      let cs ← restOfLine? cs
      let rest ← takeStatements fuel cs
      some (s :: rest)

/-- Drops a byte order mark in front. -/
def dropMark : List Char → List Char
  | c :: cs => if c.toNat = 0xFEFF then cs else c :: cs
  | [] => []

/-- The statements of a document in order, if it is one. -/
def statements? (text : String) : Option (List Statement) :=
  let cs := dropMark text.toList
  takeStatements (cs.length + 1) cs

end MetricCube.Toml
