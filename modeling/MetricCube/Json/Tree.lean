/-
  MetricCube.Json.Tree
  ────────────────────
  **JSON text as a tree,** read as far as it can be read.  Where the text breaks
  off or is not JSON, the tree ends in a `torn` node or in a container that is
  not closed.  A reader of the tree that walks it in the order of the text thus
  meets a break exactly where a reader of the text would.

  A string that holds a surrogate escape without its partner has no content.
-/
import MetricCube.Json.Numeral

namespace MetricCube.Json

/-- JSON text, as far as it can be read. -/
inductive Tree where
  | null
  | bool (b : Bool)
  | number (n : Numeral)
  | string (content : Option String)
  | array (items : List Tree) (closed : Bool)
  | object (members : List (Option String × Tree)) (closed : Bool)
  | torn

instance : Inhabited Tree := ⟨.torn⟩

/-- The tree is an array. -/
def Tree.isArray : Tree → Bool
  | .array _ _ => true
  | _ => false

/-! ## §1. Blanks and strings. -/

/-- The character may stand between tokens. -/
def isSpace (c : Char) : Bool :=
  c == ' ' || c == '\n' || c == '\t' || c == '\r'

/-- Drops the blanks in front. -/
def dropSpace (cs : List Char) : List Char :=
  cs.dropWhile isSpace

/-- A piece of a string: a character, or a 16-bit unit written as an escape. -/
inductive Piece where
  | char (c : Char)
  | unit (n : Nat)

/-- The value of a hexadecimal digit. -/
def hexValue? (c : Char) : Option Nat :=
  let n := c.toNat
  if 48 ≤ n ∧ n ≤ 57 then some (n - 48)
  else if 65 ≤ n ∧ n ≤ 70 then some (n - 55)
  else if 97 ≤ n ∧ n ≤ 102 then some (n - 87)
  else none

/-- The value of four hexadecimal digits. -/
def hexUnit? (a b c d : Char) : Option Nat := do
  let a ← hexValue? a
  let b ← hexValue? b
  let c ← hexValue? c
  let d ← hexValue? d
  some (((a * 16 + b) * 16 + c) * 16 + d)

/-- The character of a one-letter escape. -/
def simpleEscape? (c : Char) : Option Char :=
  match c with
  | '"' => some '"'
  | '\\' => some '\\'
  | '/' => some '/'
  | 'b' => some (Char.ofNat 8)
  | 'f' => some (Char.ofNat 12)
  | 'n' => some '\n'
  | 'r' => some '\r'
  | 't' => some '\t'
  | _ => none

/-- The pieces up to the closing quote, and what follows it. -/
def scanPieces? : List Char → Option (List Piece × List Char)
  | [] => none
  | '"' :: cs => some ([], cs)
  | '\\' :: 'u' :: a :: b :: c :: d :: cs => do
    let n ← hexUnit? a b c d
    let (ps, rest) ← scanPieces? cs
    some (.unit n :: ps, rest)
  | '\\' :: e :: cs => do
    let c ← simpleEscape? e
    let (ps, rest) ← scanPieces? cs
    some (.char c :: ps, rest)
  | c :: cs =>
    if c.toNat < 0x20 ∨ c = '\\' then none
    else do
      let (ps, rest) ← scanPieces? cs
      some (.char c :: ps, rest)

/-- The unit is the first of a surrogate pair. -/
def isHighSurrogate (n : Nat) : Bool :=
  0xD800 ≤ n && n ≤ 0xDBFF

/-- The unit is the second of a surrogate pair. -/
def isLowSurrogate (n : Nat) : Bool :=
  0xDC00 ≤ n && n ≤ 0xDFFF

/-- The characters of a list of pieces, unless a surrogate lacks its partner. -/
def joinPieces? : List Piece → Option (List Char)
  | [] => some []
  | .char c :: ps => (joinPieces? ps).map (c :: ·)
  | .unit n :: ps =>
    if isHighSurrogate n then
      match ps with
      | .unit m :: ps' =>
        if isLowSurrogate m then
          (joinPieces? ps').map (Char.ofNat (0x10000 + (n - 0xD800) * 0x400 + (m - 0xDC00)) :: ·)
        else none
      | _ => none
    else if isLowSurrogate n then none
    else (joinPieces? ps).map (Char.ofNat n :: ·)

/-- The content of a string after its opening quote, and what follows the string. -/
def scanString? (cs : List Char) : Option (Option String × List Char) :=
  (scanPieces? cs).map fun r => ((joinPieces? r.1).map String.ofList, r.2)

/-! ## §2. Values. -/

mutual

/-- The value in front and what follows it; nothing follows a break.  `fuel` bounds the
    number of nested calls. -/
def scanValue : (fuel : Nat) → List Char → Tree × Option (List Char)
  | 0, _ => (.torn, none)
  | fuel + 1, cs =>
    match dropSpace cs with
    | '"' :: cs =>
      match scanString? cs with
      | some (s, rest) => (.string s, some rest)
      | none => (.torn, none)
    | '[' :: cs =>
      match dropSpace cs with
      | ']' :: rest => (.array [] true, some rest)
      | cs => let r := scanItems fuel cs; (.array r.1 r.2.isSome, r.2)
    | '\x7b' :: cs =>
      match dropSpace cs with
      | '\x7d' :: rest => (.object [] true, some rest)
      | cs => let r := scanMembers fuel cs; (.object r.1 r.2.isSome, r.2)
    | 't' :: 'r' :: 'u' :: 'e' :: rest => (.bool true, some rest)
    | 'f' :: 'a' :: 'l' :: 's' :: 'e' :: rest => (.bool false, some rest)
    | 'n' :: 'u' :: 'l' :: 'l' :: rest => (.null, some rest)
    | cs =>
      match scanNumeral? cs with
      | some (n, rest) => (.number n, some rest)
      | none => (.torn, none)

/-- The items up to the closing bracket; there is at least one. -/
def scanItems : (fuel : Nat) → List Char → List Tree × Option (List Char)
  | 0, _ => ([], none)
  | fuel + 1, cs =>
    let (v, rest) := scanValue fuel cs
    match rest.map dropSpace with
    | some (',' :: cs) => let r := scanItems fuel cs; (v :: r.1, r.2)
    | some (']' :: rest) => ([v], some rest)
    | _ => ([v], none)

/-- The members up to the closing brace; there is at least one. -/
def scanMembers : (fuel : Nat) → List Char → List (Option String × Tree) × Option (List Char)
  | 0, _ => ([], none)
  | fuel + 1, cs =>
    match dropSpace cs with
    | '"' :: cs =>
      match scanString? cs with
      | none => ([], none)
      | some (key, rest) =>
        match dropSpace rest with
        | ':' :: cs =>
          let (v, rest) := scanValue fuel cs
          match rest.map dropSpace with
          | some (',' :: cs) => let r := scanMembers fuel cs; ((key, v) :: r.1, r.2)
          | some ('\x7d' :: rest) => ([(key, v)], some rest)
          | _ => ([(key, v)], none)
        | _ => ([(key, .torn)], none)
    | _ => ([], none)

end

/-- The tree of a text, and whether nothing but blanks follows it. -/
def Tree.ofChars (cs : List Char) : Tree × Bool :=
  let (v, rest) := scanValue (2 * cs.length + 2) cs
  (v, rest.all fun cs => (dropSpace cs).isEmpty)

/-! ## §3. Whole trees. -/

mutual

/-- The text of the value does not break off. -/
def Tree.isWhole : Tree → Bool
  | .array items closed => closed && areWhole items
  | .object members closed => closed && membersWhole members
  | .torn => false
  | _ => true

/-- No item breaks off. -/
def areWhole : List Tree → Bool
  | [] => true
  | t :: ts => t.isWhole && areWhole ts

/-- No member breaks off. -/
def membersWhole : List (Option String × Tree) → Bool
  | [] => true
  | (_, t) :: ms => t.isWhole && membersWhole ms

end

end MetricCube.Json
