/-
  MetricCube.Text.Utf8
  ────────────────────
  **Texts as bytes.**  Offsets, lengths and digests are all taken over the UTF-8
  form of a text.
-/

namespace MetricCube.Text

/-- The number of bytes of the UTF-8 form of a list of characters. -/
def utf8Length (cs : List Char) : Nat :=
  (cs.map Char.utf8Size).foldl (· + ·) 0

/-- The bytes of the UTF-8 form of a text. -/
def utf8Bytes (s : String) : List UInt8 :=
  s.toUTF8.data.toList

end MetricCube.Text
