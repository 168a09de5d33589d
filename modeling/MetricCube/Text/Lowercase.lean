/-
  MetricCube.Text.Lowercase
  ─────────────────────────
  **Full lower-casing of a text.**  Every character goes to its lower-case
  mapping.  Two letters need more than a table of single characters:

    • U+0130 (capital I with dot above) becomes two characters, `i` and the
      combining dot U+0307;
    • U+03A3 (capital sigma) becomes the final form U+03C2 at the end of a word
      and the medial form U+03C3 elsewhere.  A sigma ends a word when, passing
      over case-ignorable characters, a cased letter stands before it and none
      stands after it.

  `foldKey` is the identity of a dimension key: trimmed, then lower-cased.
-/
import MetricCube.Text.CaseTable
import MetricCube.Text.Blank

namespace MetricCube.Text

/-- The character has the Unicode property `Case_Ignorable`. -/
def isCaseIgnorable (c : Char) : Bool :=
  inRanges caseIgnorableRanges c.toNat

/-- The character has the Unicode property `Cased`. -/
def isCased (c : Char) : Bool :=
  inRanges casedRanges c.toNat

/-! ## §1. One character. -/

/-- The lower-case mapping of a single character that maps to one character. -/
def lowerOne (c : Char) : Char :=
  let n := c.toNat
  if n < 0x80 then
    if 0x41 ≤ n && n ≤ 0x5A then Char.ofNat (n + 32) else c
  else
    match caseRuns.find? (·.holds n) with
    | some r => Char.ofNat (n + r.shift).toNat
    | none => c

/-- Passing over case-ignorable characters, the next one is a cased letter. -/
def meetsCased (cs : List Char) : Bool :=
  match cs.dropWhile isCaseIgnorable with
  | [] => false
  | c :: _ => isCased c

/-- The lower-case form of a sigma between `before` (nearest first) and `after`. -/
def lowerSigma (before after : List Char) : Char :=
  if meetsCased before && !meetsCased after then Char.ofNat 0x3C2 else Char.ofNat 0x3C3

/-- The lower-case form of `c` between `before` (nearest first) and `after`. -/
def lowerAt (before : List Char) (c : Char) (after : List Char) : List Char :=
  if c.toNat = 0x3A3 then [lowerSigma before after]
  else if c.toNat = 0x130 then [Char.ofNat 0x69, Char.ofNat 0x307]
  else [lowerOne c]

/-! ## §2. A whole text. -/

/-- Lower-cases the characters that follow `before` (nearest first). -/
def lowerFrom (before : List Char) : List Char → List Char
  | [] => []
  | c :: after => lowerAt before c after ++ lowerFrom (c :: before) after

/-- The text in lower case. -/
def lowercase (s : String) : String :=
  String.ofList (lowerFrom [] s.toList)

/-- The identity of a key: blanks at the ends and letter case do not count. -/
def foldKey (s : String) : String :=
  lowercase (trim s)

end MetricCube.Text
