/-
  MetricCube.Json.Value
  ─────────────────────
  **JSON values and their compact text.**  A number is a whole number or a
  double.  Members of an object keep the order they are given in; `canonical`
  orders them by key at every depth, so that the compact text of the canonical
  form depends on the value alone and not on how it was presented.
-/
import MetricCube.Bytes
import MetricCube.Decimal.Double
import MetricCube.Ordered

namespace MetricCube.Json

/-- A number: whole, or a double given by its bits. -/
inductive Number where
  | whole (n : Int)
  | double (bits : UInt64)
deriving DecidableEq

/-- A JSON value. -/
inductive Value where
  | null
  | bool (b : Bool)
  | number (n : Number)
  | string (s : String)
  | array (items : List Value)
  | object (members : List (String × Value))

instance : Inhabited Value := ⟨.null⟩

/-! ## §1. Scalars. -/

/-- A character inside quotes. -/
def escape (c : Char) : List Char :=
  match c.toNat with
  | 0x22 => ['\\', '"']
  | 0x5C => ['\\', '\\']
  | 0x08 => ['\\', 'b']
  | 0x0C => ['\\', 'f']
  | 0x0A => ['\\', 'n']
  | 0x0D => ['\\', 'r']
  | 0x09 => ['\\', 't']
  | n => if n < 0x20 then '\\' :: 'u' :: Bytes.hexDigits 4 n else [c]

/-- A text in quotes. -/
def quoted (s : String) : List Char :=
  '"' :: s.toList.flatMap escape ++ ['"']

/-- The characters of a number. -/
def Number.chars : Number → List Char
  | .whole n => (Text.decimalInt n).toList
  | .double bits => Decimal.doubleChars Decimal.valueFormat bits

/-! ## §2. Compact text. -/

mutual

/-- The compact text of a value. -/
def Value.chars : Value → List Char
  | .null => ['n', 'u', 'l', 'l']
  | .bool true => ['t', 'r', 'u', 'e']
  | .bool false => ['f', 'a', 'l', 's', 'e']
  | .number n => n.chars
  | .string s => quoted s
  | .array [] => ['[', ']']
  | .array (v :: vs) => '[' :: v.chars ++ itemChars vs
  | .object [] => ['\x7b', '\x7d']
  | .object ((k, v) :: ms) => '\x7b' :: quoted k ++ ':' :: v.chars ++ memberChars ms

/-- The further items of an array, each after a comma, and the closing bracket. -/
def itemChars : List Value → List Char
  | [] => [']']
  | v :: vs => ',' :: v.chars ++ itemChars vs

/-- The further members of an object, each after a comma, and the closing brace. -/
def memberChars : List (String × Value) → List Char
  | [] => ['\x7d']
  | (k, v) :: ms => ',' :: quoted k ++ ':' :: v.chars ++ memberChars ms

end

/-- The compact text of a value. -/
def Value.text (v : Value) : String :=
  String.ofList v.chars

/-! ## §3. Canonical order. -/

mutual

/-- The value with the members of every object ordered by key. -/
def Value.canonical : Value → Value
  | .array items => .array (canonicalItems items)
  | .object members =>
    .object (Ordered.sortWith (fun a b => !decide (b.1 < a.1)) (canonicalMembers members))
  | v => v

/-- The canonical form of every item. -/
def canonicalItems : List Value → List Value
  | [] => []
  | v :: vs => v.canonical :: canonicalItems vs

/-- The canonical form of every member's value. -/
def canonicalMembers : List (String × Value) → List (String × Value)
  | [] => []
  | (k, v) :: ms => (k, v.canonical) :: canonicalMembers ms

end

end MetricCube.Json
