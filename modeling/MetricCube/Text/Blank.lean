/-
  MetricCube.Text.Blank
  ─────────────────────
  **White space and trimming.**  A character is blank when it has the Unicode
  property `White_Space`.  Trimming removes the longest blank run at either end
  of a text and nothing else.
-/

namespace MetricCube.Text

/-- The character has the Unicode property `White_Space`. -/
def isBlank (c : Char) : Bool :=
  let n := c.toNat
  (0x09 ≤ n && n ≤ 0x0D) || n == 0x20 || n == 0x85 || n == 0xA0 || n == 0x1680
    || (0x2000 ≤ n && n ≤ 0x200A) || n == 0x2028 || n == 0x2029 || n == 0x202F
    || n == 0x205F || n == 0x3000

/-! ## §1. Trimming lists of characters. -/

/-- Drops the blanks in front. -/
def dropBlanks (cs : List Char) : List Char :=
  cs.dropWhile isBlank

/-- Drops the blanks behind. -/
def dropBlanksEnd (cs : List Char) : List Char :=
  (cs.reverse.dropWhile isBlank).reverse

/-- Drops the blanks at both ends. -/
def trimChars (cs : List Char) : List Char :=
  dropBlanksEnd (dropBlanks cs)

/-! ## §2. Trimming texts. -/

/-- The text without the blanks at its two ends. -/
def trim (s : String) : String :=
  String.ofList (trimChars s.toList)

/-- The text holds blanks only. -/
def isBlankText (s : String) : Bool :=
  s.toList.all isBlank

end MetricCube.Text
