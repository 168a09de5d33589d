/-
  MetricCube.Constraint.Cursor
  ────────────────────────────
  **Clauses met by a cursor.**  A cursor walks over a constraint text by byte
  offsets and yields one item at a time, a clause or a fault with its offset;
  after a fault it yields nothing more.  It cuts the text at offsets that it
  reckons from lengths, and it has no next step (`none`) where such an offset is
  no boundary of the text, or less than zero.

  `ofItems` reads the items of a cursor in order.
-/
import MetricCube.Constraint
import MetricCube.Text.Offset

namespace MetricCube.Constraint

/-- A clause, or a fault and its offset. -/
abbrev Item := Except (Nat × ClauseFault) Clause

/-- An offset in a text, and whether a fault has been met. -/
structure Cursor where
  text : List Char
  offset : Nat
  failed : Bool

/-- What a cursor does next. -/
inductive Step where
  | stop
  | item (item : Item) (cursor : Cursor)

namespace Cursor

/-- The cursor at the start of a text. -/
def start (text : List Char) : Cursor :=
  ⟨text, 0, false⟩

/-- Yields a fault, as the last item. -/
def fault (s : Cursor) (offset : Nat) (f : ClauseFault) : Step :=
  .item (.error (offset, f)) { s with failed := true }

/-- Yields the clause that ends at an offset, and goes to the next one. -/
def closeAt? (s : Cursor) (c : Clause) (offset : Nat) : Option Step := do
  let behind ← Text.dropBytes? offset s.text
  match Text.dropBlanks behind with
  | [] => some (.item (.ok c) { s with offset := offset })
  | '.' :: stripped => do
    let offset ← Text.lead? s.text stripped
    if stripped.all Text.isBlank then some (s.fault offset .trailingPoint)
    else some (.item (.ok c) { s with offset := offset })
  | after => (Text.lead? s.text after).map fun offset => s.fault offset .expectedPoint

/-- Yields the clause of a name whose body is opened in a piece of the text, which starts at an
    offset of its own. -/
def openAt? (s : Cursor) (name : List Char) (start opening : Nat) (piece : List Char) :
    Option Step := do
  let inner ← Text.dropBytes? opening piece
  match Text.offsetOf? ')' inner with
  | none => some (s.fault (start + opening) .unclosed)
  | some closing => do
    let body ← Text.cutBytes? (opening + 1) (opening + closing) piece
    s.closeAt? ⟨name, body⟩ (start + opening + closing + 1)

/-- The next step, if every cut is at boundaries. -/
def next (s : Cursor) : Option Step :=
  if s.failed then some .stop
  else do
    let rest ← Text.dropBytes? s.offset s.text
    let trimmed := Text.dropBlanks rest
    if trimmed.isEmpty then some .stop
    else
      let start := s.offset + (← Text.lead? rest trimmed)
      match Text.offsetOf? '(' trimmed with
      | none => some (s.fault start .expectedOpen)
      | some opening => do
        let name := Text.trimChars (← Text.takeBytes? opening trimmed)
        if name.isEmpty || !name.all isNameChar then some (s.fault start .expectedName)
        else s.openAt? name start opening trimmed

/-- The cursor yields the items and stops. -/
inductive Yields : Cursor → List Item → Prop
  | stop {s : Cursor} : s.next = some .stop → Yields s []
  | item {s s' : Cursor} {i : Item} {is : List Item} : s.next = some (.item i s') → Yields s' is →
      Yields s (i :: is)

end Cursor

/-- Takes up one item. -/
def Draft.addItem (today : Date) (d : Draft) : Item → Except ConstraintError Draft
  | .ok c => d.add today c
  | .error (offset, f) => .error (.clause offset f)

/-- The constraint of the items of a text, given the day it is read on. -/
def ofItems (today : Date) (items : List Item) : Except ConstraintError Constraint := do
  let d ← items.foldlM (Draft.addItem today) ⟨.empty, none⟩
  match d.temporal with
  | none => .error .missingRange
  | some (mode, range) => .ok ⟨d.assignment, range, mode⟩

end MetricCube.Constraint
