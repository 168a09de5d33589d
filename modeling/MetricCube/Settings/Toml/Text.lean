/-
  MetricCube.Settings.Toml.Text
  ─────────────────────────────
  **Texts in settings documents**: blanks, comments and ends of lines, strings
  on one line or several, and keys.

      "…"        escapes are replaced
      '…'        every character stands for itself
      """…"""    escapes are replaced; a backslash at the end of a line joins
                 it with what follows
      '''…'''    every character stands for itself

  A newline right after three opening quotes does not count.  Of three to five
  closing quotes the last three end the string and the others belong to it.
-/
import MetricCube.Json.Tree

namespace MetricCube.Toml

/-! ## §1. Blanks and comments. -/

/-- The character is a blank within a line. -/
def isBlank (c : Char) : Bool :=
  c == ' ' || c == '\t'

/-- Drops the blanks in front. -/
def dropBlanks (cs : List Char) : List Char :=
  cs.dropWhile isBlank

/-- The character may occur in comments and strings. -/
def isPrintable (c : Char) : Bool :=
  c == '\t' || (0x20 ≤ c.toNat && c.toNat != 0x7F)

/-- Drops a comment in front. -/
def dropComment : List Char → List Char
  | '#' :: cs => cs.dropWhile isPrintable
  | cs => cs

/-- Drops a line break in front. -/
def lineBreak? : List Char → Option (List Char)
  | '\n' :: cs => some cs
  | '\r' :: '\n' :: cs => some cs
  | _ => none

/-- Drops the end of a line in front, which the end of the text is too. -/
def lineEnd? (cs : List Char) : Option (List Char) :=
  if cs.isEmpty then some [] else lineBreak? cs

/-- Drops blanks, a comment and the end of the line. -/
def restOfLine? (cs : List Char) : Option (List Char) :=
  lineEnd? (dropComment (dropBlanks cs))

/-- Drops blanks, comments and ends of lines. -/
def dropLines : (fuel : Nat) → List Char → List Char
  | 0, cs => cs
  | fuel + 1, cs =>
    let rest := dropComment (dropBlanks cs)
    match lineBreak? rest with
    | some rest => dropLines fuel rest
    | none => rest

/-- Drops blanks and line breaks. -/
def dropSpace : List Char → List Char
  | '\r' :: '\n' :: cs => dropSpace cs
  | c :: cs => if isBlank c || c == '\n' then dropSpace cs else c :: cs
  | [] => []

/-! ## §2. Escapes. -/

/-- The value of a number of hexadecimal digits in front. -/
def takeHex : (count acc : Nat) → List Char → Option (Nat × List Char)
  | 0, acc, cs => some (acc, cs)
  | _ + 1, _, [] => none
  | count + 1, acc, c :: cs =>
    match Json.hexValue? c with
    | some d => takeHex count (acc * 16 + d) cs
    | none => none

/-- The character with a given code point, if there is one. -/
def charOf? (n : Nat) : Option Char :=
  if n < 0xD800 ∨ (0xE000 ≤ n ∧ n < 0x110000) then some (Char.ofNat n) else none

/-- The character that an escape in front stands for. -/
def takeEscape : List Char → Option (Char × List Char)
  | 'b' :: cs => some (Char.ofNat 8, cs)
  | 't' :: cs => some ('\t', cs)
  | 'n' :: cs => some ('\n', cs)
  | 'f' :: cs => some (Char.ofNat 12, cs)
  | 'r' :: cs => some ('\r', cs)
  | '"' :: cs => some ('"', cs)
  | '\\' :: cs => some ('\\', cs)
  | 'u' :: cs => do
    let (n, cs) ← takeHex 4 0 cs
    let c ← charOf? n
    some (c, cs)
  | 'U' :: cs => do
    let (n, cs) ← takeHex 8 0 cs
    let c ← charOf? n
    some (c, cs)
  | _ => none

/-! ## §3. Strings. -/

/-- A character in front of what a scan has found. -/
def prepend (c : Char) (found : List Char × List Char) : List Char × List Char :=
  (c :: found.1, found.2)

/-- The rest of a string in double quotes. -/
def takeBasic : (fuel : Nat) → List Char → Option (List Char × List Char)
  | 0, _ => none
  | _ + 1, [] => none
  | _ + 1, '"' :: cs => some ([], cs)
  | fuel + 1, '\\' :: cs => do
    let (c, cs) ← takeEscape cs
    (takeBasic fuel cs).map (prepend c)
  | fuel + 1, c :: cs =>
    if isPrintable c then (takeBasic fuel cs).map (prepend c) else none

/-- The rest of a string in single quotes. -/
def takeLiteral : List Char → Option (List Char × List Char)
  | [] => none
  | '\'' :: cs => some ([], cs)
  | c :: cs => if isPrintable c then (takeLiteral cs).map (prepend c) else none

/-- What follows three quotes: up to two more belong to the string. -/
def takeLastQuotes (quote : Char) (cs : List Char) : List Char × List Char :=
  let extra := (cs.take 2).takeWhile (· == quote)
  (extra, cs.drop extra.length)

/-- The rest of a string in three double quotes. -/
def takeBasicLines : (fuel : Nat) → List Char → Option (List Char × List Char)
  | 0, _ => none
  | _ + 1, [] => none
  | _ + 1, '"' :: '"' :: '"' :: cs => some (takeLastQuotes '"' cs)
  | fuel + 1, '\\' :: cs =>
    match lineBreak? (dropBlanks cs) with
    | some cs => takeBasicLines fuel (dropSpace cs)
    | none => do
      let (c, cs) ← takeEscape cs
      (takeBasicLines fuel cs).map (prepend c)
  | fuel + 1, c :: cs =>
    match lineBreak? (c :: cs) with
    | some cs => (takeBasicLines fuel cs).map (prepend '\n')
    | none => if isPrintable c then (takeBasicLines fuel cs).map (prepend c) else none

/-- The rest of a string in three single quotes. -/
def takeLiteralLines : List Char → Option (List Char × List Char)
  | [] => none
  | '\'' :: '\'' :: '\'' :: cs => some (takeLastQuotes '\'' cs)
  | '\r' :: '\n' :: cs => (takeLiteralLines cs).map (prepend '\n')
  | c :: cs =>
    if c == '\n' || isPrintable c then (takeLiteralLines cs).map (prepend c) else none

/-- Drops a line break in front, if there is one. -/
def dropFirstBreak (cs : List Char) : List Char :=
  (lineBreak? cs).getD cs

/-- A string in front. -/
def takeString (cs : List Char) : Option (String × List Char) :=
  let found := match cs with
    | '"' :: '"' :: '"' :: cs => takeBasicLines (cs.length + 1) (dropFirstBreak cs)
    | '"' :: cs => takeBasic (cs.length + 1) cs
    | '\'' :: '\'' :: '\'' :: cs => takeLiteralLines (dropFirstBreak cs)
    | '\'' :: cs => takeLiteral cs
    | _ => none
  found.map fun r => (String.ofList r.1, r.2)

/-! ## §4. Keys. -/

/-- The character may occur in a key without quotes. -/
def isBareKey (c : Char) : Bool :=
  c.isAlphanum || c == '_' || c == '-'

/-- A key in front. -/
def takeKey (cs : List Char) : Option (String × List Char) :=
  match cs with
  | '"' :: rest => (takeBasic (rest.length + 1) rest).map fun r => (String.ofList r.1, r.2)
  | '\'' :: rest => (takeLiteral rest).map fun r => (String.ofList r.1, r.2)
  | _ =>
    let bare := cs.takeWhile isBareKey
    if bare.isEmpty then none else some (String.ofList bare, cs.dropWhile isBareKey)

/-- A key in front, with further keys after points; there are at most `limit`. -/
def takePath : (limit : Nat) → List Char → Option (List String × List Char)
  | 0, _ => none
  | limit + 1, cs => do
    let (key, cs) ← takeKey (dropBlanks cs)
    match dropBlanks cs with
    | '.' :: cs =>
      let (path, cs) ← takePath limit cs
      some (key :: path, cs)
    | cs => some ([key], cs)

end MetricCube.Toml
