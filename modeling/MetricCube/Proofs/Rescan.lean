/-
  MetricCube.Proofs.Rescan
  ────────────────────────
  **Compact text is scanned back.**  The tree of a value is what is left of it in text: the
  digits of its numbers, the contents of its strings, and its containers, all closed.  If the
  numbers of a value are whole, the scanner finds this tree in the compact text of the value, and
  stops behind it:

      scanValue fuel (v.chars ++ rest) = (v.tree, some rest).

  Strings and containers end by their own marks.  A number ends where what follows it is none of
  its characters, which is said of `rest` (`Stops`).  The fuel bounds the depth of nested calls; it
  is enough that there is more of it than text.

  Main statements: `Value.rescans`, `read_text`.
-/
import Mathlib
import MetricCube.Json.Reader
import MetricCube.Proofs.Compact
import MetricCube.Proofs.DateToken

namespace MetricCube.Json

/-! ## §1. Digits. -/

/-- The decimal digits of a number, most significant first. -/
def digits (n : Nat) : List Nat :=
  (Nat.toDigits 10 n).map fun c => c.toNat - 48

theorem digits_of_lt {n : Nat} (h : n < 10) : digits n = [n] := by
  rw [digits, Nat.toDigits_of_lt_base h]
  interval_cases n <;> rfl

theorem digits_of_le {n : Nat} (h : 10 ≤ n) : digits n = digits (n / 10) ++ [n % 10] := by
  have hlast : (Nat.digitChar (n % 10)).toNat - 48 = n % 10 := by
    have hlt : n % 10 < 10 := Nat.mod_lt _ (by decide)
    generalize n % 10 = d at hlt ⊢
    interval_cases d <;> rfl
  rw [digits, Nat.toDigits_of_base_le (by decide) h, List.map_append, List.map_cons, hlast]
  rfl

/-- No number but zero starts with a zero. -/
theorem exists_digits_cons (n : Nat) : ∃ d ds, digits n = d :: ds ∧ (d = 0 → n = 0) := by
  induction n using Nat.strong_induction_on with
  | _ n ih =>
    by_cases hn : n < 10
    · exact ⟨n, [], digits_of_lt hn, id⟩
    · obtain ⟨d, ds, hds, hzero⟩ := ih (n / 10) (by omega)
      refine ⟨d, ds ++ [n % 10], by rw [digits_of_le (by omega), hds]; rfl, fun hd => ?_⟩
      have := hzero hd
      omega

theorem appendDigits_append {bound acc m : Nat} {ds : List Nat}
    (h : appendDigits bound acc ds = (m, [])) (es : List Nat) :
    appendDigits bound acc (ds ++ es) = appendDigits bound m es := by
  induction ds generalizing acc with
  | nil =>
    cases h
    rfl
  | cons d ds ih =>
    rw [appendDigits] at h
    rw [List.cons_append, appendDigits]
    split at h
    · rename_i hfits
      rw [if_pos hfits]
      exact ih h
    · cases h

/-- **The digits of a number give it back,** if it is within the bound. -/
theorem appendDigits_digits {bound n : Nat} (h : n ≤ bound) :
    appendDigits bound 0 (digits n) = (n, []) := by
  have hlast : ∀ {acc d : Nat}, acc * 10 + d ≤ bound →
      appendDigits bound acc [d] = (acc * 10 + d, []) := by
    intro acc d hfits
    rw [appendDigits, if_pos hfits]
    rfl
  induction n using Nat.strong_induction_on with
  | _ n ih =>
    by_cases hn : n < 10
    · rw [digits_of_lt hn, hlast (by omega), Nat.zero_mul, Nat.zero_add]
    · have hsplit : n / 10 * 10 + n % 10 = n := by omega
      rw [digits_of_le (by omega), appendDigits_append (ih (n / 10) (by omega) (by omega)),
        hlast (by omega), hsplit]

/-! ## §2. Numbers. -/

/-- The text ends here, or goes on with a comma or a closing bracket. -/
def Stops (cs : List Char) : Prop :=
  cs = [] ∨ ∃ c rest, cs = c :: rest ∧ (c = ',' ∨ c = ']' ∨ c = '\x7d')

theorem Stops.scanDigits_eq {rest : List Char} (h : Stops rest) : scanDigits rest = ([], rest) := by
  obtain rfl | ⟨c, rest, rfl, rfl | rfl | rfl⟩ := h <;> rfl

theorem Stops.scanFraction?_eq {rest : List Char} (h : Stops rest) :
    scanFraction? rest = some (none, rest) := by
  obtain rfl | ⟨c, rest, rfl, rfl | rfl | rfl⟩ := h <;> rfl

theorem Stops.scanExponent?_eq {rest : List Char} (h : Stops rest) :
    scanExponent? rest = some (none, rest) := by
  obtain rfl | ⟨c, rest, rfl, rfl | rfl | rfl⟩ := h <;> rfl

theorem scanDigits_append {ds rest : List Char} (hds : ∀ c ∈ ds, c.isDigit = true)
    (h : Stops rest) : scanDigits (ds ++ rest) = (ds.map fun c => c.toNat - 48, rest) := by
  induction ds with
  | nil => exact h.scanDigits_eq
  | cons c ds ih =>
    obtain ⟨hc, hds⟩ := List.forall_mem_cons.1 hds
    rw [List.cons_append, scanDigits, Text.digitValue?_eq_some_iff.2 ⟨hc, rfl⟩]
    simp only [ih hds]
    rfl

theorem isDigit_of_mem_decimal {n : Nat} {c : Char} (h : c ∈ (Text.decimal n).toList) :
    c.isDigit = true := by
  rw [Text.decimal, String.toList_ofList] at h
  exact Nat.isDigit_of_mem_toDigits (by decide) (by decide) h

theorem scanWhole?_decimal (n : Nat) {rest : List Char} (h : Stops rest) :
    scanWhole? ((Text.decimal n).toList ++ rest) = some (digits n, rest) := by
  have hscan : scanDigits ((Text.decimal n).toList ++ rest) = (digits n, rest) := by
    rw [scanDigits_append (fun _ => isDigit_of_mem_decimal) h, Text.decimal, String.toList_ofList]
    rfl
  rw [scanWhole?, hscan]
  obtain ⟨d, ds, hds, hzero⟩ := exists_digits_cons n
  by_cases hd : d = 0
  · rw [hzero hd]
    rfl
  · rw [hds]
    split
    · rename_i heq
      cases heq
    · rename_i heq
      cases heq
      exact absurd rfl hd
    · rfl

/-- A whole number as it is written. -/
def Numeral.ofInt (n : Int) : Numeral :=
  ⟨n < 0, digits n.natAbs, [], none, false⟩

theorem scanNumeral?_decimalInt (n : Int) {rest : List Char} (h : Stops rest) :
    scanNumeral? ((Text.decimalInt n).toList ++ rest) = some (Numeral.ofInt n, rest) := by
  have hwhole := scanWhole?_decimal n.natAbs h
  unfold Text.decimalInt Numeral.ofInt
  by_cases hn : n < 0
  · rw [if_pos hn, String.toList_append]
    show scanNumeral? ('-' :: ((Text.decimal n.natAbs).toList ++ rest)) = _
    simp only [scanNumeral?, hwhole, h.scanFraction?_eq, h.scanExponent?_eq, hn, decide_true,
      Option.bind_eq_bind, Option.bind_some, Option.getD_none, Option.isSome_none, Bool.or_self]
  · obtain ⟨c, cs, hcs⟩ := List.exists_cons_of_ne_nil (decimal_ne_nil n.natAbs)
    have hc : c.isDigit = true := by
      refine isDigit_of_mem_decimal (n := n.natAbs) ?_
      rw [hcs]
      exact List.mem_cons_self
    -- The scanner looks for a sign first, and a digit is none.
    have hminus : c ≠ '-' := by
      rintro rfl
      exact absurd hc (by decide)
    rw [hcs, List.cons_append] at hwhole
    rw [if_neg hn, hcs, List.cons_append, scanNumeral?]
    · simp only [hwhole, h.scanFraction?_eq, h.scanExponent?_eq, hn, decide_false,
        Option.bind_eq_bind, Option.bind_some, Option.getD_none, Option.isSome_none, Bool.or_self]
    · rintro cs' heq
      exact hminus (List.cons.inj heq).1

/-- A natural number of 64 bits is read back from its digits. -/
theorem number?_ofNat {n : Nat} (h : n ≤ significandMax) :
    (Numeral.ofInt n).number? = some (.whole n) := by
  have hfits : appendDigits significandMax 0 (digits n) = (n, []) := appendDigits_digits h
  have hsign : ¬ (n : Int) < 0 := by omega
  simp [Numeral.number?, Numeral.ofInt, hfits, hsign]

/-! ## §3. Values. -/

namespace Value

mutual

/-- What is left of a value in its text; doubles are left out of account. -/
def tree : Value → Tree
  | .null => .null
  | .bool b => .bool b
  | .number (.whole n) => .number (Numeral.ofInt n)
  | .number (.double _) => .torn
  | .string s => .string (some s)
  | .array items => .array (itemTrees items) true
  | .object members => .object (memberTrees members) true

/-- The trees of items. -/
def itemTrees : List Value → List Tree
  | [] => []
  | v :: vs => v.tree :: itemTrees vs

/-- The trees of members. -/
def memberTrees : List (String × Value) → List (Option String × Tree)
  | [] => []
  | (k, v) :: ms => (some k, v.tree) :: memberTrees ms

end

/-- The numbers in the value are whole. -/
def Whole (v : Value) : Prop :=
  ∀ n ∈ v.numbers, ∃ k, n = .whole k

/-- The scanner finds the tree of the value in its text, with fuel enough, and stops behind it. -/
def Rescans (v : Value) : Prop :=
  ∀ {fuel : Nat} {rest : List Char}, v.chars.length < fuel → Stops rest →
    scanValue fuel (v.chars ++ rest) = (v.tree, some rest)

theorem dropSpace_cons {c : Char} (h : isSpace c = false) (cs : List Char) :
    dropSpace (c :: cs) = c :: cs := by
  rw [dropSpace, List.dropWhile_cons, h]
  rfl

/-- A value starts with no blank. -/
theorem dropSpace_chars (v : Value) (rest : List Char) :
    dropSpace (v.chars ++ rest) = v.chars ++ rest := by
  obtain ⟨c, cs, hv, hc⟩ := v.exists_chars_cons
  have hspace : isSpace c = false := by
    rw [Bool.eq_false_iff]
    intro hspace
    simp only [isSpace, Bool.or_eq_true, beq_iff_eq] at hspace
    obtain ((rfl | rfl) | rfl) | rfl := hspace <;> cases hc
  rw [hv, List.cons_append, dropSpace_cons hspace]

theorem stops_itemChars (vs : List Value) (rest : List Char) : Stops (itemChars vs ++ rest) := by
  cases vs with
  | nil => exact .inr ⟨_, _, rfl, .inr (.inl rfl)⟩
  | cons v vs => exact .inr ⟨_, _, rfl, .inl rfl⟩

theorem scanItems_chars {vs : List Value} : ∀ {v : Value} {fuel : Nat} {rest : List Char},
    v.Rescans → (∀ w ∈ vs, w.Rescans) → (v.chars ++ itemChars vs).length < fuel →
      scanItems fuel (v.chars ++ (itemChars vs ++ rest)) = (itemTrees (v :: vs), some rest) := by
  -- The first item stands apart, without a comma, so it moves with the induction.
  induction vs with
  | nil =>
    intro v fuel rest hv _ hfuel
    cases fuel with
    | zero => cases hfuel
    | succ fuel =>
      simp only [itemChars, List.length_append, List.length_singleton] at hfuel
      rw [scanItems, hv (by omega) (stops_itemChars [] rest)]
      rfl
  | cons w vs ih =>
    intro v fuel rest hv hvs hfuel
    cases fuel with
    | zero => cases hfuel
    | succ fuel =>
      obtain ⟨hw, hvs⟩ := List.forall_mem_cons.1 hvs
      simp only [itemChars, List.length_append, List.length_cons] at hfuel
      have hnext : scanItems fuel (w.chars ++ (itemChars vs ++ rest))
          = (itemTrees (w :: vs), some rest) :=
        ih hw hvs (by rw [List.length_append]; omega)
      have hcomma : itemChars (w :: vs) ++ rest = ',' :: (w.chars ++ (itemChars vs ++ rest)) := by
        simp [itemChars]
      rw [scanItems, hv (by omega) (stops_itemChars (w :: vs) rest), hcomma]
      simp (disch := decide) only [Option.map_some, dropSpace_cons, hnext]
      rfl

/-- A member with more behind it. -/
theorem scanMembers_comma {k : String} {v : Value} {fuel : Nat} {cs : List Char} (hv : v.Rescans)
    (hfuel : v.chars.length < fuel) :
    scanMembers (fuel + 1) (quoted k ++ ':' :: (v.chars ++ ',' :: cs))
      = ((some k, v.tree) :: (scanMembers fuel cs).1, (scanMembers fuel cs).2) := by
  have hkey : quoted k ++ ':' :: (v.chars ++ ',' :: cs)
      = '"' :: (k.toList.flatMap escape ++ '"' :: ':' :: (v.chars ++ ',' :: cs)) := by
    simp [quoted]
  have hvalue := hv hfuel (.inr ⟨',', cs, rfl, .inl rfl⟩)
  rw [hkey, scanMembers]
  simp (disch := decide) only [dropSpace_cons, scanString?_quoted, hvalue, Option.map_some]

/-- The last member. -/
theorem scanMembers_brace {k : String} {v : Value} {fuel : Nat} {rest : List Char} (hv : v.Rescans)
    (hfuel : v.chars.length < fuel) :
    scanMembers (fuel + 1) (quoted k ++ ':' :: (v.chars ++ '\x7d' :: rest))
      = ([(some k, v.tree)], some rest) := by
  have hkey : quoted k ++ ':' :: (v.chars ++ '\x7d' :: rest)
      = '"' :: (k.toList.flatMap escape ++ '"' :: ':' :: (v.chars ++ '\x7d' :: rest)) := by
    simp [quoted]
  have hvalue := hv hfuel (.inr ⟨'\x7d', rest, rfl, .inr (.inr rfl)⟩)
  rw [hkey, scanMembers]
  simp (disch := decide) only [dropSpace_cons, scanString?_quoted, hvalue, Option.map_some]

theorem scanMembers_chars {ms : List (String × Value)} : ∀ {k : String} {v : Value} {fuel : Nat}
    {rest : List Char}, v.Rescans → (∀ m ∈ ms, m.2.Rescans) →
      (quoted k ++ ':' :: v.chars ++ memberChars ms).length < fuel →
      scanMembers fuel (quoted k ++ ':' :: (v.chars ++ (memberChars ms ++ rest)))
        = (memberTrees ((k, v) :: ms), some rest) := by
  -- As with items, the first member moves with the induction.
  induction ms with
  | nil =>
    intro k v fuel rest hv _ hfuel
    cases fuel with
    | zero => cases hfuel
    | succ fuel =>
      simp only [memberChars, List.length_append, List.length_cons, List.length_nil] at hfuel
      exact scanMembers_brace hv (by omega)
  | cons m ms ih =>
    intro k v fuel rest hv hms hfuel
    cases fuel with
    | zero => cases hfuel
    | succ fuel =>
      obtain ⟨l, w⟩ := m
      obtain ⟨hw, hms⟩ := List.forall_mem_cons.1 hms
      simp only [memberChars, List.length_append, List.length_cons] at hfuel
      have hnext : scanMembers fuel (quoted l ++ ':' :: (w.chars ++ (memberChars ms ++ rest)))
          = (memberTrees ((l, w) :: ms), some rest) :=
        ih hw hms (by simp only [List.length_append, List.length_cons]; omega)
      have hcomma : memberChars ((l, w) :: ms) ++ rest
          = ',' :: (quoted l ++ ':' :: (w.chars ++ (memberChars ms ++ rest))) := by
        simp [memberChars]
      rw [hcomma, scanMembers_comma hv (by omega), hnext]
      rfl

theorem rescans_array {vs : List Value} (h : ∀ v ∈ vs, v.Rescans) : (array vs).Rescans := by
  intro fuel rest hfuel _
  cases fuel with
  | zero => cases hfuel
  | succ fuel =>
    cases vs with
    | nil => rfl
    | cons v vs =>
      obtain ⟨hv, hvs⟩ := List.forall_mem_cons.1 h
      obtain ⟨c, cs, hchars, hlead⟩ := v.exists_chars_cons
      -- An array with items is not taken for an empty one.
      have hclosing : c ≠ ']' := by
        rintro rfl
        cases hlead
      have htext : (array (v :: vs)).chars ++ rest
          = '[' :: (v.chars ++ (itemChars vs ++ rest)) := by
        simp [chars]
      have hitems : scanItems fuel (v.chars ++ (itemChars vs ++ rest))
          = (itemTrees (v :: vs), some rest) :=
        scanItems_chars hv hvs
          (by simp only [chars, List.cons_append, List.length_cons] at hfuel; omega)
      have hdrop : dropSpace ('[' :: (v.chars ++ (itemChars vs ++ rest)))
          = '[' :: (v.chars ++ (itemChars vs ++ rest)) := rfl
      rw [htext, scanValue, hdrop]
      simp only [dropSpace_chars]
      split
      · rename_i heq
        rw [hchars] at heq
        exact absurd (List.cons.inj heq).1 hclosing
      · rw [hitems]
        rfl

theorem rescans_object {ms : List (String × Value)} (h : ∀ m ∈ ms, m.2.Rescans) :
    (object ms).Rescans := by
  intro fuel rest hfuel _
  cases fuel with
  | zero => cases hfuel
  | succ fuel =>
    rcases ms with _ | ⟨⟨k, v⟩, ms⟩
    · rfl
    · obtain ⟨hv, hms⟩ := List.forall_mem_cons.1 h
      have htext : (object ((k, v) :: ms)).chars ++ rest
          = '\x7b' :: (quoted k ++ ':' :: (v.chars ++ (memberChars ms ++ rest))) := by
        simp [chars]
      have hmembers : scanMembers fuel (quoted k ++ ':' :: (v.chars ++ (memberChars ms ++ rest)))
          = (memberTrees ((k, v) :: ms), some rest) :=
        scanMembers_chars hv hms
          (by simp only [chars, List.cons_append, List.length_cons] at hfuel ⊢; omega)
      -- A key starts with a quote, so the object is not taken for an empty one.
      have hquote : quoted k ++ ':' :: (v.chars ++ (memberChars ms ++ rest))
          = '"' :: (k.toList.flatMap escape ++ '"' :: ':' :: (v.chars ++ (memberChars ms ++ rest))) := by
        simp [quoted]
      rw [hquote] at hmembers
      rw [htext, hquote, scanValue]
      simp (disch := decide) only [dropSpace_cons]
      show (Tree.object (scanMembers fuel _).1 (scanMembers fuel _).2.isSome, (scanMembers fuel _).2) = _
      rw [hmembers]
      rfl

theorem rescans_number (n : Int) : (number (.whole n)).Rescans := by
  intro fuel rest hfuel hrest
  cases fuel with
  | zero => cases hfuel
  | succ fuel =>
    have hscan := scanNumeral?_decimalInt n hrest
    have hspace := dropSpace_chars (number (.whole n)) rest
    obtain ⟨c, cs, hchars, hlead⟩ := (number (.whole n)).exists_chars_cons
    have hdecimal : (Text.decimalInt n).toList = c :: cs := hchars
    rw [hdecimal] at hscan
    -- What starts a number starts nothing else.
    have hfirst : ∀ {d : Char} {ds : List Char}, c :: cs ++ rest = d :: ds →
        leadOf? d = some .number :=
      fun heq => (List.cons.inj heq).1 ▸ hlead
    rw [scanValue, hspace, hchars]
    split
    · rename_i heq
      cases hfirst heq
    · rename_i heq
      cases hfirst heq
    · rename_i heq
      cases hfirst heq
    · rename_i heq
      cases hfirst heq
    · rename_i heq
      cases hfirst heq
    · rename_i heq
      cases hfirst heq
    · rw [hscan]
      rfl

theorem mem_itemNumbers {vs : List Value} {n : Number} :
    n ∈ itemNumbers vs ↔ ∃ v ∈ vs, n ∈ v.numbers := by
  induction vs with
  | nil => simp [itemNumbers]
  | cons v vs ih => rw [itemNumbers, List.mem_append, ih, List.exists_mem_cons_iff]

theorem mem_memberNumbers {ms : List (String × Value)} {n : Number} :
    n ∈ memberNumbers ms ↔ ∃ m ∈ ms, n ∈ m.2.numbers := by
  induction ms with
  | nil => simp [memberNumbers]
  | cons m ms ih => rw [memberNumbers, List.mem_append, ih, List.exists_mem_cons_iff]

theorem whole_array {vs : List Value} : (array vs).Whole ↔ ∀ v ∈ vs, v.Whole :=
  ⟨fun h v hv n hn => h n (mem_itemNumbers.2 ⟨v, hv, hn⟩), fun h n hn => by
    obtain ⟨v, hv, hn⟩ := mem_itemNumbers.1 hn
    exact h v hv n hn⟩

theorem whole_object {ms : List (String × Value)} : (object ms).Whole ↔ ∀ m ∈ ms, m.2.Whole :=
  ⟨fun h m hm n hn => h n (mem_memberNumbers.2 ⟨m, hm, hn⟩), fun h n hn => by
    obtain ⟨m, hm, hn⟩ := mem_memberNumbers.1 hn
    exact h m hm n hn⟩

theorem whole_string (s : String) : (string s).Whole := by
  intro n hn
  cases hn

theorem whole_number (k : Int) : (number (.whole k)).Whole := by
  intro n hn
  exact ⟨k, List.mem_singleton.1 hn⟩

/-- **The scanner finds the tree of a value in its compact text,** if the numbers are whole. -/
theorem rescans (v : Value) (h : v.Whole) : v.Rescans := by
  induction v using induct with
  | null =>
    intro fuel rest hfuel _
    cases fuel with
    | zero => cases hfuel
    | succ fuel => rfl
  | bool b =>
    intro fuel rest hfuel _
    cases fuel with
    | zero => cases hfuel
    | succ fuel => cases b <;> rfl
  | number n =>
    obtain ⟨k, rfl⟩ := h n List.mem_cons_self
    exact rescans_number k
  | string s =>
    intro fuel rest hfuel _
    cases fuel with
    | zero => cases hfuel
    | succ fuel =>
      have htext : (string s).chars ++ rest = '"' :: (s.toList.flatMap escape ++ '"' :: rest) := by
        simp [chars, quoted]
      rw [htext, scanValue]
      simp (disch := decide) only [dropSpace_cons, scanString?_quoted]
      rfl
  | array vs ih => exact rescans_array fun v hv => ih v hv (whole_array.1 h v hv)
  | object ms ih => exact rescans_object fun m hm => ih m hm (whole_object.1 h m hm)

theorem ofChars_chars (v : Value) (h : v.Whole) : Tree.ofChars v.chars = (v.tree, true) := by
  have hscan : scanValue (2 * v.chars.length + 2) (v.chars ++ []) = (v.tree, some []) :=
    v.rescans h (by omega) (.inl rfl)
  rw [List.append_nil] at hscan
  rw [Tree.ofChars, hscan]
  rfl

end Value

/-! ## §4. Reading what was written. -/

section Read

variable {ε α σ : Type}

/-- **What is read of compact text is read of the tree of the value.** -/
theorem read_text (reader : Reader ε α) {v : Value} (h : v.Whole) :
    read reader v.text = reader maxDepth v.tree := by
  rw [read, Value.text, String.toList_ofList, v.ofChars_chars h]
  simp only [if_true]
  cases reader maxDepth v.tree <;> rfl

theorem enter_of_lt {depth : Nat} (h : 1 < depth) :
    (enter depth : Except (Fault ε) Nat) = .ok (depth - 1) :=
  if_neg (by omega)

theorem find?_name {fields : List (Field ε σ)} (h : (fields.map Field.name).Nodup) {f : Field ε σ}
    (hf : f ∈ fields) : fields.find? (·.name == f.name) = some f := by
  induction fields with
  | nil => cases hf
  | cons g fields ih =>
    obtain ⟨hg, h⟩ := List.nodup_cons.1 h
    rw [List.find?_cons]
    rcases List.mem_cons.1 hf with rfl | hf
    · rw [beq_self_eq_true]
    · have hne : (g.name == f.name) = false := by
        rw [beq_eq_false_iff_ne]
        intro heq
        exact hg (List.mem_map.2 ⟨f, hf, heq.symm⟩)
      rw [hne]
      exact ih h hf

/-- Members that are named like fields, in their order, are read by their place. -/
theorem readNamed_inOrder {fields : List (Field ε σ)} (h : (fields.map Field.name).Nodup)
    {strict : Bool} {depth : Nat} {fs : List (Field ε σ)} : ∀ {ts : List Tree} {seen : List String}
      {s : σ}, fs.length = ts.length → (∀ f ∈ fs, f ∈ fields) → (fs.map Field.name).Nodup →
      (∀ f ∈ fs, f.name ∉ seen) →
      readNamed fields strict depth seen (List.zipWith (fun f t => (some f.name, t)) fs ts) s
        = readPlaced depth fs ts s := by
  induction fs with
  | nil =>
    intro ts seen s hlength _ _ _
    obtain rfl := List.length_eq_zero_iff.1 hlength.symm
    rfl
  | cons f fs ih =>
    intro ts seen s hlength hfields hnodup hseen
    cases ts with
    | nil => cases hlength
    | cons t ts =>
      obtain ⟨hf, hfs⟩ := List.forall_mem_cons.1 hfields
      obtain ⟨hname, hnames⟩ := List.nodup_cons.1 hnodup
      obtain ⟨hfree, hfrees⟩ := List.forall_mem_cons.1 hseen
      -- The later fields have other names than this one, so none of them has been seen.
      have hnext : ∀ s, readNamed fields strict depth (f.name :: seen)
          (List.zipWith (fun f t => (some f.name, t)) fs ts) s = readPlaced depth fs ts s := by
        intro s
        refine ih (Nat.succ.inj hlength) hfs hnames fun g hg => ?_
        rw [List.mem_cons, not_or]
        exact ⟨fun heq => hname (List.mem_map.2 ⟨g, hg, heq⟩), hfrees g hg⟩
      rw [List.zipWith_cons_cons, readNamed, find?_name h hf, readPlaced]
      simp only [List.contains_iff_mem, hfree, if_false, hnext]

/-- **An object that holds the fields of a record in their order is read like an array.** -/
theorem record_object_inOrder {fields : List (Field ε σ)} (h : (fields.map Field.name).Nodup)
    {ts : List Tree} (hlength : fields.length = ts.length) (initial : σ) (depth : Nat)
    (closed : Bool) :
    record fields initial depth
        (.object (List.zipWith (fun f t => (some f.name, t)) fields ts) closed)
      = record fields initial depth (.array ts closed) := by
  have hread : ∀ depth, readNamed fields false depth []
      (List.zipWith (fun f t => (some f.name, t)) fields ts) initial
        = readPlaced depth fields ts initial :=
    fun depth => readNamed_inOrder h hlength (fun _ hf => hf) h (by simp)
  simp only [record, hread]

end Read

end MetricCube.Json
