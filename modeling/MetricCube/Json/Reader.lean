/-
  MetricCube.Json.Reader
  ──────────────────────
  **Reading values of a known shape.**  A reader walks a tree in the order of
  the text and stops at the first fault.  Faults are of two kinds: the text does
  not have the expected shape, or it has and its content is rejected for a cause
  of the domain.

  `depth` is the number of containers that may still be opened, plus one.  A
  record is an object with named fields or an array with the fields in order.
  A repeated field is a fault; of repeated keys in a map or value the last
  counts.
-/
import MetricCube.Json.Tree
import MetricCube.Table

namespace MetricCube.Json

/-- Why a text cannot be read. -/
inductive Fault (ε : Type) where
  | malformed
  | rejected (cause : ε)
deriving DecidableEq

/-- Reads a tree under a bound on its depth. -/
abbrev Reader (ε α : Type) := (depth : Nat) → Tree → Except (Fault ε) α

variable {ε α σ : Type}

/-- The depth limit of a text. -/
def maxDepth : Nat := 128

/-- The depth inside one more container, unless it is too deep. -/
def enter (depth : Nat) : Except (Fault ε) Nat :=
  if depth ≤ 1 then .error .malformed else .ok (depth - 1)

/-! ## §1. Scalars and containers. -/

/-- A string. -/
def string : Reader ε String
  | _, .string (some s) => .ok s
  | _, _ => .error .malformed

/-- A string or null. -/
def string? : Reader ε (Option String)
  | _, .null => .ok none
  | _, .string (some s) => .ok (some s)
  | _, _ => .error .malformed

/-- A whole number from zero to below `bound`. -/
def naturalBelow (bound : Nat) : Reader ε Nat
  | _, .number n =>
    match n.number? with
    | some (.whole (.ofNat k)) => if k < bound then .ok k else .error .malformed
    | _ => .error .malformed
  | _, _ => .error .malformed

/-- Reads trees one after the other. -/
def readAll (read : Reader ε α) (depth : Nat) : List Tree → Except (Fault ε) (List α)
  | [] => .ok []
  | t :: ts => do
    let a ← read depth t
    let as ← readAll read depth ts
    .ok (a :: as)

/-- Passes on a result if the container it was read from is closed. -/
def whenClosed (closed : Bool) (a : α) : Except (Fault ε) α :=
  if closed then .ok a else .error .malformed

/-- An array. -/
def list (read : Reader ε α) : Reader ε (List α)
  | depth, .array items closed => do
    let depth ← enter depth
    let as ← readAll read depth items
    whenClosed closed as
  | _, _ => .error .malformed

/-- Reads members one after the other. -/
def readMembers (read : Reader ε α) (depth : Nat) :
    List (Option String × Tree) → Except (Fault ε) (List (String × α))
  | [] => .ok []
  | (some key, t) :: ms => do
    let a ← read depth t
    let rest ← readMembers read depth ms
    .ok ((key, a) :: rest)
  | (none, _) :: _ => .error .malformed

/-- An object as a table. -/
def table (read : Reader ε α) : Reader ε (Table α)
  | depth, .object members closed => do
    let depth ← enter depth
    let pairs ← readMembers read depth members
    whenClosed closed (Table.ofPairs pairs)
  | _, _ => .error .malformed

/-- One of several names, as a string. -/
def plainName (ofName? : String → Option α) : Reader ε α
  | _, .string (some s) => (ofName? s).elim (.error .malformed) .ok
  | _, _ => .error .malformed

/-- One of several names, as a string or as an object with the name as its key and null. -/
def name (ofName? : String → Option α) : Reader ε α
  | depth, .object [(some s, .null)] true => do
    let _ ← enter depth
    (ofName? s).elim (.error .malformed) .ok
  | depth, t => plainName ofName? depth t

/-! ## §2. Any value. -/

mutual

/-- Any value; members of objects are ordered by key, and of repeated keys the last counts. -/
def value : (depth : Nat) → Tree → Except (Fault ε) Value
  | _, .null => .ok .null
  | _, .bool b => .ok (.bool b)
  | _, .number n => n.number?.elim (.error .malformed) fun x => .ok (.number x)
  | _, .string s => s.elim (.error .malformed) fun s => .ok (.string s)
  | depth, .array items closed => do
    let depth ← enter depth
    let vs ← valueItems depth items
    whenClosed closed (.array vs)
  | depth, .object members closed => do
    let depth ← enter depth
    let ms ← valueMembers depth members
    whenClosed closed (.object (Table.ofPairs ms).entries)
  | _, .torn => .error .malformed

/-- Any values. -/
def valueItems : (depth : Nat) → List Tree → Except (Fault ε) (List Value)
  | _, [] => .ok []
  | depth, t :: ts => do
    let v ← value depth t
    let vs ← valueItems depth ts
    .ok (v :: vs)

/-- Any members. -/
def valueMembers : (depth : Nat) → List (Option String × Tree) →
    Except (Fault ε) (List (String × Value))
  | _, [] => .ok []
  | depth, (some key, t) :: ms => do
    let v ← value depth t
    let rest ← valueMembers depth ms
    .ok ((key, v) :: rest)
  | _, (none, _) :: _ => .error .malformed

end

/-! ## §3. Records. -/

/-- A named field of a record that is put together in a state `σ`. -/
structure Field (ε σ : Type) where
  name : String
  read : Nat → Tree → σ → Except (Fault ε) σ

/-- The field that is read by `read` and stored by `store`. -/
def field (name : String) (read : Reader ε α) (store : α → σ → σ) : Field ε σ :=
  ⟨name, fun depth t s => (read depth t).map fun a => store a s⟩

/-- Reads the members of an object into a record.  Unknown members are passed over, or are
    a fault if `strict` is set. -/
def readNamed (fields : List (Field ε σ)) (strict : Bool) (depth : Nat) :
    (seen : List String) → List (Option String × Tree) → σ → Except (Fault ε) σ
  | _, [], s => .ok s
  | _, (none, _) :: _, _ => .error .malformed
  | seen, (some key, t) :: ms, s =>
    match fields.find? (·.name == key) with
    | some f =>
      if seen.contains key then .error .malformed
      else do
        let s ← f.read depth t s
        readNamed fields strict depth (key :: seen) ms s
    | none =>
      -- An unknown member is passed over unread, so only its brackets have to match.
      if strict || !t.isWhole then .error .malformed
      else readNamed fields strict depth seen ms s

/-- Reads the items of an array into a record, field by field. -/
def readPlaced (depth : Nat) : List (Field ε σ) → List Tree → σ → Except (Fault ε) σ
  | _, [], s => .ok s
  | [], _ :: _, _ => .error .malformed
  | f :: fs, t :: ts, s => do
    let s ← f.read depth t s
    readPlaced depth fs ts s

/-- A record, starting from `initial`. -/
def record (fields : List (Field ε σ)) (initial : σ) : Reader ε σ
  | depth, .object members closed => do
    let depth ← enter depth
    let s ← readNamed fields false depth [] members initial
    whenClosed closed s
  | depth, .array items closed => do
    let depth ← enter depth
    let s ← readPlaced depth fields items initial
    whenClosed closed s
  | _, _ => .error .malformed

/-- A field that has to be present. -/
def required (a : Option α) : Except (Fault ε) α :=
  a.elim (.error .malformed) .ok

/-! ## §4. Whole texts. -/

/-- Reads a text that holds one value. -/
def read (reader : Reader ε α) (text : String) : Except (Fault ε) α :=
  let (tree, clean) := Tree.ofChars text.toList
  match reader maxDepth tree with
  | .error e => .error e
  | .ok a => if clean then .ok a else .error .malformed

end MetricCube.Json
