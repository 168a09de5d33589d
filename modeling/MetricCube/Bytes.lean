/-
  MetricCube.Bytes
  ────────────────
  **Byte strings to be digested.**  Texts enter a digest with their length in
  front, four bytes big-endian, so that no two different sequences of texts give
  the same bytes.  `hex` writes bytes in lower-case hexadecimal.
-/
import MetricCube.Text.Utf8

namespace MetricCube.Bytes

/-- The low 32 bits of a number, most significant byte first. -/
def word32 (n : Nat) : List UInt8 :=
  [(n / 16777216 % 256).toUInt8, (n / 65536 % 256).toUInt8, (n / 256 % 256).toUInt8,
    (n % 256).toUInt8]

/-- A signed number as 32 bits in two's complement, most significant byte first. -/
def signed32 (n : Int) : List UInt8 :=
  word32 (n % 4294967296).toNat

/-- A text with its length in bytes in front. -/
def text (s : String) : List UInt8 :=
  let bytes := Text.utf8Bytes s
  word32 bytes.length ++ bytes

/-- A list of texts with its length in front. -/
def texts (ss : List String) : List UInt8 :=
  word32 ss.length ++ ss.flatMap text

/-- The character of a hexadecimal digit below sixteen. -/
def hexDigit (d : Nat) : Char :=
  Char.ofNat (if d < 10 then 48 + d else 87 + d)

/-- The last `width` hexadecimal digits of a number, most significant first. -/
def hexDigits : (width n : Nat) → List Char
  | 0, _ => []
  | width + 1, n => hexDigits width (n / 16) ++ [hexDigit (n % 16)]

/-- Bytes as pairs of hexadecimal digits. -/
def hex (bytes : List UInt8) : String :=
  String.ofList (bytes.flatMap fun b => hexDigits 2 b.toNat)

/-- A 64-bit word as sixteen hexadecimal digits. -/
def hexWord64 (w : UInt64) : String :=
  String.ofList (hexDigits 16 w.toNat)

end MetricCube.Bytes
