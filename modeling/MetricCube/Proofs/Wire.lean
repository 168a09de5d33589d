/-
  MetricCube.Proofs.Wire
  ──────────────────────
  **The text of a signature.**  A text is a written signature (`WrittenAs`) when it is a JSON
  object with a core hash under `c`, perhaps dimension hashes under `x`, and no other member.
  Blanks, escapes and the order of the two members are free.

  The text of a structured signature is such an object, and it is read back.  A text is read
  as structured exactly if, but for blanks around it, it is a written signature with a
  non-empty core hash; every other text is kept as it is.

  Main statement: `parse_text_parse`.
-/
import Mathlib
import MetricCube.Proofs.Grammar
import MetricCube.Proofs.Reading
import MetricCube.Signature.Wire

namespace MetricCube.Signature

open Json (memberTrees Tree)

/-! ## §1. Written signatures. -/

/-- A member of a written signature. -/
inductive Part where
  | core (hash : String)
  | dimensions (hashes : List (String × String))

namespace Part

/-- The key of a member. -/
def name : Part → String
  | .core _ => "c"
  | .dimensions _ => "x"

/-- The values of dimension hashes are strings. -/
def hashTree (hash : String) : Tree :=
  .string (some hash)

/-- The value of a member as the scanner takes it up. -/
def tree : Part → Tree
  | .core hash => .string (some hash)
  | .dimensions hashes => .object (memberTrees hashTree hashes) true

/-- What a member adds. -/
def store (w : Wire) : Part → Wire
  | .core hash => { w with core := some hash }
  | .dimensions hashes => { w with dimensions := some (Table.ofPairs hashes) }

/-- `cs` starts with the value of a member, and `rest` follows it. -/
def At (cs : List Char) (p : Part) (rest : List Char) : Prop :=
  match p with
  | .core hash => Json.StringAt cs hash rest
  | .dimensions hashes => Json.ObjectAt Json.StringAt cs hashes rest

theorem scans : Json.Scans At tree where
  suffix {start rest p} h := by
    cases p with
    | core hash => exact Json.scans_string.suffix h
    | dimensions hashes => exact Json.scans_string.object.suffix h
  sound {fuel cs rest p} h := by
    cases p with
    | core hash => exact Json.scans_string.sound h
    | dimensions hashes => exact Json.scans_string.object.sound h
  complete {fuel cs start rest p} hfuel hgap h := by
    cases p with
    | core hash => exact Json.scans_string.complete hfuel hgap h
    | dimensions hashes => exact Json.scans_string.object.complete hfuel hgap h

end Part

/-- The members state a core hash and dimension hashes, and nothing twice. -/
inductive States : List Part → String → List (String × String) → Prop
  | core {core : String} : States [.core core] core []
  | coreFirst {core : String} {hashes : List (String × String)} :
      States [.core core, .dimensions hashes] core hashes
  | coreLast {core : String} {hashes : List (String × String)} :
      States [.dimensions hashes, .core core] core hashes

/-- Members with their keys. -/
def entries (parts : List Part) : List (String × Part) :=
  parts.map fun p => (p.name, p)

/-- The text is a written signature with the given core hash and dimension hashes. -/
def WrittenAs (text : List Char) (core : String) (hashes : List (String × String)) : Prop :=
  ∃ parts, Json.ObjectAt Part.At text (entries parts) [] ∧ States parts core hashes

/-! ## §2. Reading. -/

section Readers

variable {depth : Nat}

theorem string_eq_ok_iff {t : Tree} {s : String} :
    Json.string (ε := Empty) depth t = .ok s ↔ t = .string (some s) := by
  constructor
  · intro h
    cases t with
    | string content =>
      cases content <;> cases h
      rfl
    | _ => cases h
  · rintro rfl
    rfl

theorem readMembers_eq_ok_iff {ms : List (Option String × Tree)} :
    ∀ {hashes : List (String × String)},
      Json.readMembers (ε := Empty) Json.string depth ms = .ok hashes
        ↔ ms = memberTrees Part.hashTree hashes := by
  induction ms with
  | nil =>
    intro hashes
    cases hashes <;> simp [Json.readMembers, memberTrees]
  | cons m ms ih =>
    intro hashes
    obtain ⟨_ | key, t⟩ := m
    · cases hashes <;> simp [Json.readMembers, memberTrees]
    · rw [Json.readMembers]
      constructor
      · intro h
        obtain ⟨hash, hhash, h⟩ := Json.exists_of_bind_eq_ok h
        obtain ⟨rest, hrest, h⟩ := Json.exists_of_bind_eq_ok h
        cases h
        rw [string_eq_ok_iff.1 hhash, ih.1 hrest]
        rfl
      · intro h
        cases hashes with
        | nil => cases h
        | cons e hashes =>
          obtain ⟨hm, hms⟩ := List.cons.inj h
          obtain ⟨hkey, rfl⟩ := Prod.mk.inj hm
          cases hkey
          rw [ih.2 hms]
          rfl

theorem table_eq_ok_iff (hdepth : 1 < depth) {t : Tree} {x : Table String} :
    Json.table (ε := Empty) Json.string depth t = .ok x
      ↔ ∃ hashes, t = .object (memberTrees Part.hashTree hashes) true
        ∧ x = Table.ofPairs hashes := by
  constructor
  · intro h
    cases t with
    | object members closed =>
      obtain ⟨_, _, h⟩ := Json.exists_of_bind_eq_ok h
      obtain ⟨hashes, hhashes, h⟩ := Json.exists_of_bind_eq_ok h
      cases closed <;> cases h
      exact ⟨hashes, by rw [readMembers_eq_ok_iff.1 hhashes], rfl⟩
    | _ => cases h
  · rintro ⟨hashes, rfl, rfl⟩
    rw [Json.table, Json.enter, if_neg (by omega)]
    show (do
      let pairs ← Json.readMembers (ε := Empty) Json.string (depth - 1)
        (memberTrees Part.hashTree hashes)
      Json.whenClosed true (Table.ofPairs pairs)) = _
    rw [readMembers_eq_ok_iff.2 rfl]
    rfl

/-- The field of a key reads the parts with that key. -/
theorem read_eq_ok_iff (hdepth : 1 < depth) {key : String} {f : Json.Field Empty Wire}
    (hf : wireFields.find? (·.name == key) = some f) {t : Tree} {w w' : Wire} :
    f.read depth t w = .ok w' ↔ ∃ p : Part, p.name = key ∧ p.tree = t ∧ p.store w = w' := by
  have hmap : ∀ {α : Type} {x : Except (Json.Fault Empty) α} {store : α → Wire},
      x.map store = .ok w' ↔ ∃ a, x = .ok a ∧ store a = w' := by
    intro α x store
    cases x <;> simp [Except.map]
  -- There are two fields, and no other key finds one.
  by_cases hc : "c" = key
  · subst hc
    cases hf
    refine hmap.trans ⟨?_, ?_⟩
    · rintro ⟨hash, hhash, hw⟩
      exact ⟨.core hash, rfl, (string_eq_ok_iff.1 hhash).symm, hw⟩
    · rintro ⟨_ | _, hname, ht, hw⟩
      · exact ⟨_, string_eq_ok_iff.2 ht.symm, hw⟩
      · exact absurd hname (show ¬ "x" = "c" by decide)
  · by_cases hx : "x" = key
    · subst hx
      cases hf
      refine hmap.trans ⟨?_, ?_⟩
      · rintro ⟨x, hx, hw⟩
        obtain ⟨hashes, ht, rfl⟩ := (table_eq_ok_iff hdepth).1 hx
        exact ⟨.dimensions hashes, rfl, ht.symm, hw⟩
      · rintro ⟨_ | hashes, hname, ht, hw⟩
        · exact absurd hname (show ¬ "c" = "x" by decide)
        · exact ⟨_, (table_eq_ok_iff hdepth).2 ⟨hashes, ht.symm, rfl⟩, hw⟩
    · have hnone : wireFields.find? (·.name == key) = none := by
        simp [wireFields, Json.field, hc, hx]
      rw [hnone] at hf
      cases hf

theorem name_ne_of_find?_eq_none {key : String}
    (hf : wireFields.find? (·.name == key) = none) (p : Part) : p.name ≠ key := by
  rw [List.find?_eq_none] at hf
  simp only [wireFields, List.forall_mem_cons, beq_iff_eq] at hf
  cases p with
  | core => exact hf.1
  | dimensions => exact hf.2.1

/-- A first member is read if its key is not among the seen ones, and then the rest with it
    among them. -/
theorem readNamed_cons_eq_ok_iff (hdepth : 1 < depth) {ms : List (Option String × Tree)}
    {key : String} {t : Tree} {seen : List String} {w w' : Wire} :
    Json.readNamed wireFields true depth seen ((some key, t) :: ms) w = .ok w'
      ↔ ∃ p : Part, p.name = key ∧ p.tree = t ∧ key ∉ seen
        ∧ Json.readNamed wireFields true depth (key :: seen) ms (p.store w) = .ok w' := by
  rw [Json.readNamed]
  constructor
  · intro h
    split at h
    · rename_i f hf
      split at h
      · cases h
      · rename_i hseen
        obtain ⟨w₁, hread, hrest⟩ := Json.exists_of_bind_eq_ok h
        obtain ⟨p, hname, htree, rfl⟩ := (read_eq_ok_iff hdepth hf).1 hread
        exact ⟨p, hname, htree, by simpa using hseen, hrest⟩
    · -- No other keys are allowed.
      cases h
  · rintro ⟨p, rfl, rfl, hseen, hrest⟩
    cases hf : wireFields.find? (·.name == p.name) with
    | none => exact absurd rfl (name_ne_of_find?_eq_none hf p)
    | some f =>
      have hseen : ¬ seen.contains p.name = true := by rwa [List.contains_iff_mem]
      have hread : f.read depth p.tree w = .ok (p.store w) :=
        (read_eq_ok_iff hdepth hf).2 ⟨p, rfl, rfl, rfl⟩
      show (if seen.contains p.name = true then _ else _) = _
      rw [if_neg hseen, hread]
      exact hrest

/-- Members are read one after the other, each key once. -/
theorem readNamed_eq_ok_iff (hdepth : 1 < depth) {ms : List (Option String × Tree)} :
    ∀ {seen : List String} {w w' : Wire},
      Json.readNamed wireFields true depth seen ms w = .ok w'
        ↔ ∃ parts : List Part, ms = memberTrees Part.tree (entries parts)
          ∧ (parts.map Part.name).Nodup ∧ (∀ p ∈ parts, p.name ∉ seen)
          ∧ parts.foldl Part.store w = w' := by
  induction ms with
  | nil =>
    intro seen w w'
    constructor
    · intro h
      cases h
      exact ⟨[], rfl, List.nodup_nil, by simp, rfl⟩
    · rintro ⟨parts, hms, _, _, rfl⟩
      rw [List.map_eq_nil_iff.1 (List.map_eq_nil_iff.1 hms.symm)]
      rfl
  | cons m ms ih =>
    intro seen w w'
    obtain ⟨_ | key, t⟩ := m
    · -- A key without content is read by no field and is no part's name.
      constructor
      · intro h
        cases h
      · rintro ⟨_ | ⟨p, parts⟩, hms, _⟩ <;> cases hms
    · rw [readNamed_cons_eq_ok_iff hdepth]
      constructor
      · rintro ⟨p, rfl, rfl, hseen, hrest⟩
        obtain ⟨parts, rfl, hnodup, hfresh, hstore⟩ := ih.1 hrest
        -- The rest is read with this key among the seen ones, so no later part has it.
        have hnot : p.name ∉ parts.map Part.name := by
          rintro hmem
          obtain ⟨q, hq, heq⟩ := List.mem_map.1 hmem
          exact hfresh q hq (heq ▸ List.mem_cons_self)
        refine ⟨p :: parts, rfl, List.nodup_cons.2 ⟨hnot, hnodup⟩, ?_, hstore⟩
        exact List.forall_mem_cons.2
          ⟨hseen, fun q hq hmem => hfresh q hq (List.mem_cons_of_mem _ hmem)⟩
      · rintro ⟨_ | ⟨p, parts⟩, hms, hnodup, hfresh, hstore⟩
        · cases hms
        · obtain ⟨hm, htail⟩ := List.cons.inj hms
          obtain ⟨hkey, ht⟩ := Prod.mk.inj hm
          obtain ⟨hnot, hrest⟩ := List.nodup_cons.1 hnodup
          obtain rfl : key = p.name := Option.some.inj hkey
          refine ⟨p, rfl, ht.symm, hfresh p List.mem_cons_self,
            ih.2 ⟨parts, htail, hrest, fun q hq hmem => ?_, hstore⟩⟩
          rcases List.mem_cons.1 hmem with heq | hmem
          · exact hnot (List.mem_map.2 ⟨q, hq, heq⟩)
          · exact hfresh q (List.mem_cons_of_mem _ hq) hmem

/-- Of members that state a core hash and repeat no key there are at most two. -/
theorem exists_states {parts : List Part} {core : String}
    (hnodup : (parts.map Part.name).Nodup)
    (hcore : (parts.foldl Part.store ⟨none, none⟩).core = some core) :
    ∃ hashes, States parts core hashes
      ∧ (parts.foldl Part.store ⟨none, none⟩).dimensions.getD Table.empty
        = Table.ofPairs hashes := by
  match parts, hnodup, hcore with
  | [.core _], _, rfl => exact ⟨[], .core, rfl⟩
  | [.core _, .dimensions hashes], _, rfl => exact ⟨hashes, .coreFirst, rfl⟩
  | [.dimensions hashes, .core _], _, rfl => exact ⟨hashes, .coreLast, rfl⟩
  | [.core _, .core _], hnodup, _ => exact absurd hnodup (by simp [Part.name])
  | [.dimensions _, .dimensions _], hnodup, _ => exact absurd hnodup (by simp [Part.name])
  -- There are two keys, so of three parts two have the same.
  | p :: q :: r :: _, hnodup, _ =>
    refine absurd hnodup ?_
    cases p <;> cases q <;> cases r <;> simp [Part.name]

/-- The object that is read as a structured signature. -/
theorem wire_eq_ok_iff (hdepth : 2 < depth) {t : Tree} {core : String} {dims : Table String} :
    wire depth t = .ok (core, dims)
      ↔ ∃ parts hashes, t = .object (memberTrees Part.tree (entries parts)) true
        ∧ States parts core hashes ∧ dims = Table.ofPairs hashes := by
  constructor
  · intro h
    cases t with
    | object members closed =>
      obtain ⟨inside, henter, h⟩ := Json.exists_of_bind_eq_ok h
      obtain ⟨w, hw, h⟩ := Json.exists_of_bind_eq_ok h
      obtain ⟨w', hclosed, h⟩ := Json.exists_of_bind_eq_ok h
      obtain ⟨c, hc, h⟩ := Json.exists_of_bind_eq_ok h
      rw [Json.enter, if_neg (by omega)] at henter
      cases henter
      cases closed <;> cases hclosed
      cases h
      obtain ⟨parts, rfl, hnodup, _, rfl⟩ := (readNamed_eq_ok_iff (by omega)).1 hw
      -- The core hash is required, the hashes of dimensions are not.
      have hcore : (parts.foldl Part.store ⟨none, none⟩).core = some core := by
        cases hfound : (parts.foldl Part.store ⟨none, none⟩).core <;> rw [hfound] at hc <;> cases hc
        rfl
      obtain ⟨hashes, hstates, hdims⟩ := exists_states hnodup hcore
      exact ⟨parts, hashes, rfl, hstates, hdims⟩
    | _ => cases h
  · rintro ⟨parts, hashes, rfl, hstates, rfl⟩
    have hread : Json.readNamed wireFields true (depth - 1) []
        (memberTrees Part.tree (entries parts)) ⟨none, none⟩
          = .ok (parts.foldl Part.store ⟨none, none⟩) := by
      refine (readNamed_eq_ok_iff (by omega)).2 ⟨parts, rfl, ?_, by simp, rfl⟩
      cases hstates <;> simp [Part.name]
    rw [wire, Json.enter, if_neg (by omega)]
    show (do
      let w ← Json.readNamed wireFields true (depth - 1) []
        (memberTrees Part.tree (entries parts)) ⟨none, none⟩
      let w ← Json.whenClosed true w
      let core ← Json.required w.core
      .ok (core, w.dimensions.getD Table.empty)) = _
    rw [hread]
    cases hstates <;> rfl

end Readers

/-- **A text without blanks around it is read exactly if it is a written signature.** -/
theorem read_wire_eq_ok_iff {text : String} (htext : Text.IsTrimmed text.toList) {core : String}
    {dims : Table String} :
    Json.read wire text = .ok (core, dims)
      ↔ ∃ hashes, WrittenAs text.toList core hashes ∧ dims = Table.ofPairs hashes := by
  rw [Json.read_eq_ok_iff]
  constructor
  · rintro ⟨t, hscan, hread⟩
    obtain ⟨parts, hashes, rfl, hstates, hdims⟩ := (wire_eq_ok_iff (by decide)).1 hread
    exact ⟨hashes, ⟨parts, (Part.scans.ofChars_eq_iff htext).1 hscan, hstates⟩, hdims⟩
  · rintro ⟨hashes, ⟨parts, hparts, hstates⟩, rfl⟩
    exact ⟨_, (Part.scans.ofChars_eq_iff htext).2 hparts,
      (wire_eq_ok_iff (by decide)).2 ⟨parts, hashes, rfl, hstates, rfl⟩⟩

theorem isTrimmed_trim (s : String) : Text.IsTrimmed (Text.trim s).toList := by
  rw [Text.trim, String.toList_ofList]
  exact Text.isTrimmed_trimChars s.toList

/-- **A text that is a written signature is read as it states;** of keys that fold alike, the
    greatest counts. -/
theorem parse_of_writtenAs {raw core : String} {hashes : List (String × String)}
    (h : WrittenAs (Text.trim raw).toList core hashes) (hcore : core ≠ "") :
    parse raw = make core (Table.ofPairs hashes).entries := by
  have hread := (read_wire_eq_ok_iff (isTrimmed_trim raw)).2 ⟨hashes, h, rfl⟩
  have hempty : core.isEmpty = false := by
    rw [Bool.eq_false_iff, ne_eq, String.isEmpty_iff]
    exact hcore
  unfold parse
  rw [hread]
  simp only [hempty, Bool.false_eq_true, if_false]

/-- A text is read as it states, or it states nothing and is kept. -/
theorem parse_cases (raw : String) :
    (∃ core hashes, WrittenAs (Text.trim raw).toList core hashes ∧ core ≠ ""
      ∧ parse raw = make core (Table.ofPairs hashes).entries)
    ∨ (∀ core hashes, WrittenAs (Text.trim raw).toList core hashes → core = "")
      ∧ parse raw = .legacy raw := by
  by_cases h : ∃ core hashes, WrittenAs (Text.trim raw).toList core hashes ∧ core ≠ ""
  · obtain ⟨core, hashes, hwritten, hcore⟩ := h
    exact .inl ⟨core, hashes, hwritten, hcore, parse_of_writtenAs hwritten hcore⟩
  · refine .inr ⟨fun core hashes hwritten => ?_, ?_⟩
    · by_contra hcore
      exact h ⟨core, hashes, hwritten, hcore⟩
    · unfold parse
      split
      · rename_i core dims hread
        obtain ⟨hashes, hwritten, _⟩ := (read_wire_eq_ok_iff (isTrimmed_trim raw)).1 hread
        split
        · rfl
        · rename_i hcore
          exact absurd ⟨core, hashes, hwritten, fun heq => hcore (String.isEmpty_iff.2 heq)⟩ h
      · rfl

/-! ## §3. Writing. -/

/-- The value of a member as it is written. -/
def Part.value : Part → Json.Value
  | .core hash => .string hash
  | .dimensions hashes => .object (Json.memberValues .string hashes)

/-- **The text of a structured signature is a written signature.** -/
theorem writtenAs_text (core : String) (dims : Table String) :
    WrittenAs (Signature.structured core dims).text.toList core dims.entries := by
  refine ⟨[.core core, .dimensions dims.entries], ?_, .coreFirst⟩
  have hvalue : ∀ (p : Part) (rest : List Char), Part.At (p.value.chars ++ rest) p rest := by
    intro p rest
    cases p with
    | core hash => exact Json.stringAt_quoted hash rest
    | dimensions hashes => exact Json.objectAt_chars Json.stringAt_quoted hashes rest
  have hobject := Json.objectAt_chars hvalue (entries [.core core, .dimensions dims.entries]) []
  rw [List.append_nil] at hobject
  rw [Signature.text, Json.Value.text, String.toList_ofList]
  exact hobject

theorem trim_text (core : String) (dims : Table String) :
    Text.trim (Signature.structured core dims).text = (Signature.structured core dims).text := by
  rw [Signature.text, wireValue, Json.Value.text, Text.trim, String.toList_ofList,
    Text.trimChars_eq_self (Json.isTrimmed_chars_object _)]

/-- A table whose keys are folded is made again from its entries. -/
theorem make_entries {core : String} {dims : Table String}
    (h : ∀ e ∈ dims.entries, Text.foldKey e.1 = e.1) :
    make core dims.entries = .structured core dims := by
  have hentry : ∀ e ∈ dims.entries, (Text.foldKey e.1, e.2) = e := by
    intro e he
    rw [h e he]
  rw [make, List.map_congr_left hentry, List.map_id', Table.ofPairs_entries]

/-- **Signatures are read back from their text.** -/
theorem parse_text_make {core : String} (hcore : core ≠ "") (hashes : List (String × String)) :
    parse (make core hashes).text = make core hashes := by
  have hfolded : ∀ e ∈ (Table.ofPairs (hashes.map fun e => (Text.foldKey e.1, e.2))).entries,
      Text.foldKey e.1 = e.1 := by
    intro e he
    rcases Table.mem_insertAll he with he | he
    · obtain ⟨d, _, rfl⟩ := List.mem_map.1 he
      exact Text.foldKey_foldKey d.1
    · cases he
  have hwritten := writtenAs_text core (Table.ofPairs (hashes.map fun e => (Text.foldKey e.1, e.2)))
  rw [← trim_text] at hwritten
  rw [make, parse_of_writtenAs hwritten hcore, Table.ofPairs_entries, make_entries hfolded]

/-! ## §4. Any text. -/

/-- **Signatures and their texts.**  A signature with a core hash is read back from its text; what
    is read from a text is read again from its own text; and a text is a structured signature
    exactly if it is written as one, and is kept unchanged otherwise. -/
theorem parse_text_parse {core : String} (hcore : core ≠ "") (hashes : List (String × String))
    (raw : String) :
    parse (make core hashes).text = make core hashes
      ∧ parse (parse raw).text = parse raw
      ∧ (∀ c es, c ≠ "" → WrittenAs (Text.trim raw).toList c es →
          parse raw = make c (Table.ofPairs es).entries)
      ∧ ((¬ ∃ c es, c ≠ "" ∧ WrittenAs (Text.trim raw).toList c es) → parse raw = .legacy raw) := by
  refine ⟨parse_text_make hcore hashes, ?_, fun c es hc h => parse_of_writtenAs h hc, ?_⟩
  · rcases parse_cases raw with ⟨c, es, _, hc, hraw⟩ | ⟨_, hraw⟩
    · rw [hraw, parse_text_make hc]
    · rw [hraw, text, hraw]
  · intro hnone
    rcases parse_cases raw with ⟨c, es, hwritten, hc, _⟩ | ⟨_, hraw⟩
    · exact absurd ⟨c, es, hc, hwritten⟩ hnone
    · exact hraw

namespace Sample

/-- A core hash with a quote, a backslash and a control character. -/
def awkwardCore : String :=
  "a\"\\\x07"

/-- A signature with blanks between its tokens, its members the other way round, and an escaped
    character in a key that is not folded. -/
def looseText : String :=
  " \x7b \"x\" : \x7b\"Ch\\u0061nnel\":\"h1\"\x7d ,\n\"c\":\"core\"\x7d "

theorem parse_looseText : parse looseText = make "core" [("channel", "h1")] := by
  decide +kernel

end Sample

/-- Awkward characters survive, and a loose text is read like the tidy one. -/
theorem parse_text_awkward :
    Sample.awkwardCore ≠ ""
      ∧ (make Sample.awkwardCore [(" Channel", "h\n1")]).text
        = "\x7b\"c\":\"a\\\"\\\\\\u0007\",\"x\":\x7b\"channel\":\"h\\n1\"\x7d\x7d"
      ∧ parse (make Sample.awkwardCore [(" Channel", "h\n1")]).text
        = make Sample.awkwardCore [(" Channel", "h\n1")]
      ∧ parse (make "core" [("channel", "h1")]).text = parse Sample.looseText := by
  have hcore : Sample.awkwardCore ≠ "" := by decide
  obtain ⟨hback, hagain, _⟩ := parse_text_parse hcore [(" Channel", "h\n1")] Sample.looseText
  rw [Sample.parse_looseText] at hagain ⊢
  exact ⟨hcore, by decide +kernel, hback, hagain⟩

/-- A repeated member makes no signature. -/
example : parse "\x7b\"c\":\"a\",\"c\":\"b\"\x7d" = .legacy "\x7b\"c\":\"a\",\"c\":\"b\"\x7d" := by
  decide +kernel

end MetricCube.Signature
