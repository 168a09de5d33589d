/-
  MetricCube.Proofs.Compact
  ─────────────────────────
  **Compact text loses nothing.**  A string in quotes is read back by the reader of
  strings (`scanString?_quoted`), so it shows where it ends.  So do arrays and objects,
  by their brackets.  A number has no end of its own, but what follows one is never part
  of a number.  Text that starts with a value therefore says which value it is:

      v.chars ++ x = w.chars ++ y   →   v = w ∧ x = y

  Numbers are written by their digits, and this part is taken for granted: of the numbers in
  the two values, different ones have to be written differently (`WrittenApart`).

  Main statement: `Value.eq_of_text_eq`.
-/
import Mathlib
import MetricCube.Json.Tree

namespace MetricCube.Json

/-! ## §1. Strings in quotes. -/

/-- How a character is taken up by the reader of strings: a control character without a short
    escape as a 16-bit unit, every other one as itself. -/
def pieceOf (c : Char) : Piece :=
  match c.toNat with
  | 0x08 | 0x0C | 0x0A | 0x0D | 0x09 => .char c
  | n => if n < 0x20 then .unit n else .char c

theorem hexUnit?_hexDigits {n : Nat} (h : n < 0x20) : ∃ a b c d,
    Bytes.hexDigits 4 n = [a, b, c, d] ∧ hexUnit? a b c d = some n := by
  have hall : ∀ n < 0x20, hexUnit? '0' '0' (Bytes.hexDigit (n / 16 % 16)) (Bytes.hexDigit (n % 16))
      = some n := by decide
  refine ⟨'0', '0', _, _, ?_, hall n h⟩
  have hhigh : n / 16 / 16 = 0 := by omega
  simp only [Bytes.hexDigits, hhigh]
  rfl

theorem eq_ofNat_of_toNat {c : Char} {n : Nat} (h : c.toNat = n) : c = Char.ofNat n := by
  rw [← h, Char.ofNat_toNat]

theorem scanPieces?_short {e c : Char} (hu : e ≠ 'u') (he : simpleEscape? e = some c)
    (rest : List Char) :
    scanPieces? ('\\' :: e :: rest) = (scanPieces? rest).map fun r => (.char c :: r.1, r.2) := by
  rw [scanPieces?, he]
  · cases scanPieces? rest <;> rfl
  · intro a b c d cs h
    exact absurd h hu

theorem scanPieces?_plain {c : Char} (hlow : 0x20 ≤ c.toNat) (hquote : c ≠ '"') (hslash : c ≠ '\\')
    (rest : List Char) :
    scanPieces? (c :: rest) = (scanPieces? rest).map fun r => (.char c :: r.1, r.2) := by
  rw [scanPieces?, if_neg]
  · cases scanPieces? rest <;> rfl
  · intro h
    rcases h with h | h
    · omega
    · exact hslash h
  · exact hquote
  · intro a b c' d cs h
    exact absurd h hslash
  · intro e cs h
    exact absurd h hslash

theorem scanPieces?_unit {n : Nat} (h : n < 0x20) (rest : List Char) :
    scanPieces? ('\\' :: 'u' :: Bytes.hexDigits 4 n ++ rest)
      = (scanPieces? rest).map fun r => (.unit n :: r.1, r.2) := by
  obtain ⟨a, b, c, d, hdigits, hunit⟩ := hexUnit?_hexDigits h
  rw [hdigits]
  show scanPieces? ('\\' :: 'u' :: a :: b :: c :: d :: rest) = _
  rw [scanPieces?, hunit]
  cases scanPieces? rest <;> rfl

/-- The reader takes up an escaped character as its piece. -/
theorem scanPieces?_escape (c : Char) (rest : List Char) :
    scanPieces? (escape c ++ rest)
      = (scanPieces? rest).map fun r => (pieceOf c :: r.1, r.2) := by
  have hshort : ∀ {n : Nat} {e : Char}, c.toNat = n → e ≠ 'u' →
      simpleEscape? e = some (Char.ofNat n) → pieceOf (Char.ofNat n) = .char (Char.ofNat n) →
      scanPieces? (['\\', e] ++ rest)
        = (scanPieces? rest).map fun r => (pieceOf c :: r.1, r.2) := by
    intro n e hn hu he hpiece
    rw [eq_ofNat_of_toNat hn, hpiece]
    exact scanPieces?_short hu he rest
  -- Seven characters have a short escape; other control characters are written by number.
  unfold escape
  split
  · exact hshort ‹_› (by decide) rfl rfl
  · exact hshort ‹_› (by decide) rfl rfl
  · exact hshort ‹_› (by decide) rfl rfl
  · exact hshort ‹_› (by decide) rfl rfl
  · exact hshort ‹_› (by decide) rfl rfl
  · exact hshort ‹_› (by decide) rfl rfl
  · exact hshort ‹_› (by decide) rfl rfl
  · rename_i hquote hslash h8 hC hA hD h9
    have hpiece : pieceOf c = if c.toNat < 0x20 then .unit c.toNat else .char c := by
      unfold pieceOf
      split <;> simp_all
    rw [hpiece]
    split
    · exact scanPieces?_unit ‹_› rest
    · rename_i hlow
      refine scanPieces?_plain (by omega) (fun h => hquote ?_) (fun h => hslash ?_) rest <;>
        rw [h] <;> rfl

theorem joinPieces?_pieceOf (c : Char) (ps : List Piece) :
    joinPieces? (pieceOf c :: ps) = (joinPieces? ps).map (c :: ·) := by
  -- What is written by number is a control character, and so no surrogate.
  have hunit : c.toNat < 0x20 →
      joinPieces? (.unit c.toNat :: ps) = (joinPieces? ps).map (c :: ·) := by
    intro hlow
    have hhigh : isHighSurrogate c.toNat = false := by
      simp only [isHighSurrogate, Bool.and_eq_false_iff, decide_eq_false_iff_not]
      omega
    have hpartner : isLowSurrogate c.toNat = false := by
      simp only [isLowSurrogate, Bool.and_eq_false_iff, decide_eq_false_iff_not]
      omega
    rw [joinPieces?.eq_def]
    simp only [hhigh, hpartner, Char.ofNat_toNat]
    rfl
  unfold pieceOf
  split
  · rfl
  · rfl
  · rfl
  · rfl
  · rfl
  · split
    · exact hunit ‹_›
    · rfl

theorem scanPieces?_escapes (cs rest : List Char) :
    scanPieces? (cs.flatMap escape ++ '"' :: rest) = some (cs.map pieceOf, rest) := by
  induction cs with
  | nil => rfl
  | cons c cs ih => rw [List.flatMap_cons, List.append_assoc, scanPieces?_escape, ih]; rfl

theorem joinPieces?_pieces (cs : List Char) : joinPieces? (cs.map pieceOf) = some cs := by
  induction cs with
  | nil => rfl
  | cons c cs ih => rw [List.map_cons, joinPieces?_pieceOf, ih]; rfl

/-- **A text in quotes is read back,** and what follows it is left. -/
theorem scanString?_quoted (s : String) (rest : List Char) :
    scanString? (s.toList.flatMap escape ++ '"' :: rest) = some (some s, rest) := by
  simp [scanString?, scanPieces?_escapes, joinPieces?_pieces]

/-- A text in quotes shows where it ends. -/
theorem quoted_append_inj {s t : String} {x y : List Char} (h : quoted s ++ x = quoted t ++ y) :
    s = t ∧ x = y := by
  have hread : ∀ (s : String) (x : List Char),
      quoted s ++ x = '"' :: (s.toList.flatMap escape ++ '"' :: x) := by
    intro s x
    simp [quoted]
  rw [hread, hread, List.cons.injEq] at h
  have hscan := congrArg scanString? h.2
  rw [scanString?_quoted, scanString?_quoted] at hscan
  simpa using hscan

/-! ## §2. Numbers. -/

/-- The character may stand in a number. -/
def isNumeric (c : Char) : Bool :=
  c.isDigit || c == '-' || c == '+' || c == '.' || c == 'e'

theorem isNumeric_of_isDigit {c : Char} (h : c.isDigit = true) : isNumeric c = true := by
  simp [isNumeric, h]

theorem isNumeric_decimal {n : Nat} : ∀ c ∈ (Text.decimal n).toList, isNumeric c = true := by
  intro c hc
  rw [Text.decimal, String.toList_ofList] at hc
  exact isNumeric_of_isDigit (Nat.isDigit_of_mem_toDigits (by decide) (by decide) hc)

theorem decimal_ne_nil (n : Nat) : (Text.decimal n).toList ≠ [] := by
  rw [Text.decimal, String.toList_ofList]
  exact Nat.toDigits_ne_nil

theorem isNumeric_decimalInt {n : Int} : ∀ c ∈ (Text.decimalInt n).toList, isNumeric c = true := by
  intro c hc
  unfold Text.decimalInt at hc
  split at hc
  · rw [String.toList_append, List.mem_append] at hc
    rcases hc with hc | hc
    · have heq : c = '-' := List.mem_singleton.1 hc
      rw [heq]
      decide
    · exact isNumeric_decimal c hc
  · exact isNumeric_decimal c hc

/-- Laying out digits adds zeros, a point and an exponent. -/
theorem isNumeric_layout {digits : List Char} (h : ∀ c ∈ digits, isNumeric c = true) (k : Int) :
    ∀ c ∈ Decimal.layout Decimal.valueFormat digits k, isNumeric c = true := by
  have hzeros : ∀ n : Nat, ∀ c ∈ List.replicate n '0', isNumeric c = true := by
    intro n c hc
    rw [List.eq_of_mem_replicate hc]
    decide
  have hpoint : isNumeric '.' = true := by decide
  have hzero : isNumeric '0' = true := by decide
  have hplus : ∀ c ∈ "e+".toList, isNumeric c = true := List.all_eq_true.1 (by decide)
  have hminus : ∀ c ∈ "e-".toList, isNumeric c = true := List.all_eq_true.1 (by decide)
  -- The layouts: a whole number, a point within the digits, zeros in front, an exponent.
  unfold Decimal.layout
  simp only
  split
  · split
    · simp only [List.forall_mem_append, List.forall_mem_cons]
      exact ⟨⟨h, hzeros _⟩, hpoint, hzero, by simp⟩
    · split
      · rw [List.forall_mem_append, List.forall_mem_cons]
        exact ⟨fun c hc => h c (List.mem_of_mem_take hc), hpoint,
          fun c hc => h c (List.mem_of_mem_drop hc)⟩
      · simp only [List.cons_append, List.forall_mem_append, List.forall_mem_cons]
        exact ⟨hzero, hpoint, hzeros _, h⟩
  · rw [List.forall_mem_append, List.forall_mem_append]
    refine ⟨⟨?_, ?_⟩, isNumeric_decimal⟩
    · split
      · simp only [List.forall_mem_cons] at h ⊢
        exact ⟨h.1, hpoint, h.2⟩
      · exact h
    · split
      · exact hplus
      · exact hminus

/-- A double is written as zero or by laying out digits, with a sign or without. -/
theorem exists_doubleChars (bits : UInt64) : ∃ body : List Char,
    (Decimal.doubleChars Decimal.valueFormat bits = body
      ∨ Decimal.doubleChars Decimal.valueFormat bits = '-' :: body)
      ∧ (body = ['0', '.', '0']
        ∨ ∃ a k, body = Decimal.layout Decimal.valueFormat (Text.decimal a).toList k) := by
  have hsign : ∀ (b : Bool) (body : List Char), (if b then '-' :: body else body) = body
      ∨ (if b then '-' :: body else body) = '-' :: body := by
    intro b body
    cases b <;> simp
  unfold Decimal.doubleChars
  cases Decimal.magnitude? bits with
  | none => exact ⟨_, hsign _ _, .inl rfl⟩
  | some x => exact ⟨_, hsign _ _, .inr ⟨_, _, rfl⟩⟩

theorem isNumeric_doubleChars {bits : UInt64} :
    ∀ c ∈ Decimal.doubleChars Decimal.valueFormat bits, isNumeric c = true := by
  obtain ⟨body, hchars, hform⟩ := exists_doubleChars bits
  have hbody : ∀ c ∈ body, isNumeric c = true := by
    rcases hform with rfl | ⟨a, k, rfl⟩
    · exact List.all_eq_true.1 (by decide)
    · exact isNumeric_layout isNumeric_decimal k
  rcases hchars with hchars | hchars <;> rw [hchars]
  · exact hbody
  · exact List.forall_mem_cons.2 ⟨by decide, hbody⟩

/-- A number is written with characters of numbers. -/
theorem Number.isNumeric_chars (n : Number) : ∀ c ∈ n.chars, isNumeric c = true := by
  cases n with
  | whole n => exact isNumeric_decimalInt
  | double bits => exact isNumeric_doubleChars

theorem layout_ne_nil (digits : List Char) (k : Int) :
    Decimal.layout Decimal.valueFormat digits k ≠ [] := by
  unfold Decimal.layout
  simp only
  split
  · split
    · simp
    · split <;> simp
  · refine List.append_ne_nil_of_right_ne_nil _ (decimal_ne_nil _)

theorem Number.chars_ne_nil (n : Number) : n.chars ≠ [] := by
  cases n with
  | whole n =>
    show (Text.decimalInt n).toList ≠ []
    unfold Text.decimalInt
    split
    · rw [String.toList_append]
      exact List.append_ne_nil_of_right_ne_nil _ (decimal_ne_nil _)
    · exact decimal_ne_nil _
  | double bits =>
    show Decimal.doubleChars Decimal.valueFormat bits ≠ []
    obtain ⟨body, hchars, hform⟩ := exists_doubleChars bits
    rcases hchars with hchars | hchars <;> rw [hchars]
    · rcases hform with rfl | ⟨a, k, rfl⟩
      · simp
      · exact layout_ne_nil _ k
    · simp

/-- No number goes on here. -/
def Ends (cs : List Char) : Prop :=
  ∀ c, cs.head? = some c → isNumeric c = false

/-- What is written of a number shows where it ends if no number goes on there. -/
theorem Number.chars_append_inj {m n : Number} {x y : List Char} (hx : Ends x) (hy : Ends y)
    (h : m.chars ++ x = n.chars ++ y) : m.chars = n.chars ∧ x = y := by
  have htake : ∀ (n : Number) {x : List Char}, Ends x →
      (n.chars ++ x).takeWhile isNumeric = n.chars := by
    intro n x hx
    rw [List.takeWhile_append_of_pos n.isNumeric_chars]
    cases x with
    | nil => simp
    | cons c x => simp [hx c rfl]
  have hchars : m.chars = n.chars := by
    rw [← htake m hx, h, htake n hy]
  rw [hchars] at h
  exact ⟨hchars, List.append_cancel_left h⟩

/-! ## §3. Values. -/

namespace Value

/-- Induction over values: arrays from their items, objects from the values of their members. -/
theorem induct {P : Value → Prop} (null : P .null) (bool : ∀ b, P (.bool b))
    (number : ∀ n, P (.number n)) (string : ∀ s, P (.string s))
    (array : ∀ items, (∀ v ∈ items, P v) → P (.array items))
    (object : ∀ members, (∀ m ∈ members, P m.2) → P (.object members)) (v : Value) : P v :=
  @Value.rec P (fun items => ∀ v ∈ items, P v) (fun members => ∀ m ∈ members, P m.2)
    (fun m => P m.2) null bool number string array object (by simp)
    (fun _ _ hv hvs => List.forall_mem_cons.2 ⟨hv, hvs⟩) (by simp)
    (fun _ _ hm hms => List.forall_mem_cons.2 ⟨hm, hms⟩) (fun _ _ hv => hv) v

mutual

/-- The numbers in a value, in the order they are written in. -/
def numbers : Value → List Number
  | .number n => [n]
  | .array items => itemNumbers items
  | .object members => memberNumbers members
  | _ => []

/-- The numbers in items. -/
def itemNumbers : List Value → List Number
  | [] => []
  | v :: vs => v.numbers ++ itemNumbers vs

/-- The numbers in members. -/
def memberNumbers : List (String × Value) → List Number
  | [] => []
  | (_, v) :: ms => v.numbers ++ memberNumbers ms

end

/-- Different numbers are written differently. -/
def WrittenApart (ms ns : List Number) : Prop :=
  ∀ m ∈ ms, ∀ n ∈ ns, m.chars = n.chars → m = n

instance (ms ns : List Number) : Decidable (WrittenApart ms ns) :=
  inferInstanceAs (Decidable (∀ m ∈ ms, ∀ n ∈ ns, m.chars = n.chars → m = n))

theorem WrittenApart.mono {ms ms' ns ns' : List Number} (h : WrittenApart ms ns)
    (hms : ms' ⊆ ms) (hns : ns' ⊆ ns) : WrittenApart ms' ns' :=
  fun m hm n hn => h m (hms hm) n (hns hn)

/-- How the text of a value begins. -/
inductive Lead where
  | null
  | bool (b : Bool)
  | number
  | string
  | array
  | object

/-- What a character begins; closing brackets and commas begin no value. -/
def leadOf? (c : Char) : Option Lead :=
  match c with
  | 'n' => some .null
  | 't' => some (.bool true)
  | 'f' => some (.bool false)
  | '"' => some .string
  | '[' => some .array
  | '\x7b' => some .object
  | c => if isNumeric c then some .number else none

/-- How a value begins. -/
def lead : Value → Lead
  | .null => .null
  | .bool b => .bool b
  | .number _ => .number
  | .string _ => .string
  | .array _ => .array
  | .object _ => .object

theorem leadOf?_of_isNumeric {c : Char} (h : isNumeric c = true) : leadOf? c = some .number := by
  unfold leadOf?
  split
  · exact absurd h (by decide)
  · exact absurd h (by decide)
  · exact absurd h (by decide)
  · exact absurd h (by decide)
  · exact absurd h (by decide)
  · exact absurd h (by decide)
  · rw [if_pos h]

/-- The first character of a value says of what kind it is. -/
theorem exists_chars_cons (v : Value) : ∃ c cs, v.chars = c :: cs ∧ leadOf? c = some v.lead := by
  cases v with
  | null => exact ⟨_, _, rfl, rfl⟩
  | bool b => cases b <;> exact ⟨_, _, rfl, rfl⟩
  | number n =>
    obtain ⟨c, cs, hcs⟩ := List.exists_cons_of_ne_nil n.chars_ne_nil
    refine ⟨c, cs, hcs, leadOf?_of_isNumeric (n.isNumeric_chars c ?_)⟩
    rw [hcs]
    exact List.mem_cons_self
  | string s => exact ⟨_, _, rfl, rfl⟩
  | array items => cases items <;> exact ⟨_, _, rfl, rfl⟩
  | object members => rcases members with _ | ⟨⟨_, _⟩, _⟩ <;> exact ⟨_, _, rfl, rfl⟩

theorem lead_eq_of_append_eq {v w : Value} {x y : List Char} (h : v.chars ++ x = w.chars ++ y) :
    v.lead = w.lead := by
  obtain ⟨c, cs, hv, hc⟩ := v.exists_chars_cons
  obtain ⟨d, ds, hw, hd⟩ := w.exists_chars_cons
  rw [hv, hw, List.cons_append, List.cons_append, List.cons.injEq] at h
  rw [h.1, hd] at hc
  exact (Option.some.inj hc).symm

/-- No value begins with a closing bracket. -/
theorem chars_append_ne {v : Value} {x y : List Char} {c : Char} (hc : leadOf? c = none) :
    v.chars ++ x ≠ c :: y := by
  intro h
  obtain ⟨d, ds, hv, hd⟩ := v.exists_chars_cons
  rw [hv, List.cons_append, List.cons.injEq] at h
  rw [h.1, hc] at hd
  cases hd

/-- Text that starts with the value says so, if numbers are written apart. -/
def Legible (v : Value) : Prop :=
  ∀ {w : Value} {x y : List Char}, WrittenApart v.numbers w.numbers → Ends x → Ends y →
    v.chars ++ x = w.chars ++ y → v = w ∧ x = y

theorem ends_itemChars (vs : List Value) (x : List Char) : Ends (itemChars vs ++ x) := by
  intro c hc
  cases vs <;> cases hc <;> decide

theorem ends_memberChars (ms : List (String × Value)) (x : List Char) :
    Ends (memberChars ms ++ x) := by
  intro c hc
  rcases ms with _ | ⟨_, _⟩ <;> cases hc <;> decide

theorem itemChars_append_inj {vs : List Value} (h : ∀ v ∈ vs, v.Legible) :
    ∀ {ws : List Value} {x y : List Char}, WrittenApart (itemNumbers vs) (itemNumbers ws) →
      itemChars vs ++ x = itemChars ws ++ y → vs = ws ∧ x = y := by
  -- Items are read off in front, and what is left is the same text for both.
  induction vs with
  | nil =>
    intro ws x y _ heq
    cases ws with
    | nil => exact ⟨rfl, (List.cons.inj heq).2⟩
    | cons w ws => exact absurd (List.cons.inj heq).1 (by decide)
  | cons v vs ih =>
    intro ws x y hapart heq
    cases ws with
    | nil => exact absurd (List.cons.inj heq).1 (by decide)
    | cons w ws =>
      have heq : v.chars ++ (itemChars vs ++ x) = w.chars ++ (itemChars ws ++ y) := by
        simpa [itemChars] using heq
      obtain ⟨hvw, hrest⟩ := h v List.mem_cons_self
        (hapart.mono (List.subset_append_left _ _) (List.subset_append_left _ _))
        (ends_itemChars vs x) (ends_itemChars ws y) heq
      obtain ⟨hvws, hxy⟩ := ih (fun v hv => h v (List.mem_cons_of_mem _ hv))
        (hapart.mono (List.subset_append_right _ _) (List.subset_append_right _ _)) hrest
      exact ⟨by rw [hvw, hvws], hxy⟩

theorem memberChars_append_inj {ms : List (String × Value)} (h : ∀ m ∈ ms, m.2.Legible) :
    ∀ {ns : List (String × Value)} {x y : List Char},
      WrittenApart (memberNumbers ms) (memberNumbers ns) →
      memberChars ms ++ x = memberChars ns ++ y → ms = ns ∧ x = y := by
  induction ms with
  | nil =>
    intro ns x y _ heq
    rcases ns with _ | ⟨⟨l, w⟩, ns⟩
    · exact ⟨rfl, (List.cons.inj heq).2⟩
    · exact absurd (List.cons.inj heq).1 (by decide)
  | cons m ms ih =>
    obtain ⟨k, v⟩ := m
    intro ns x y hapart heq
    rcases ns with _ | ⟨⟨l, w⟩, ns⟩
    · exact absurd (List.cons.inj heq).1 (by decide)
    · have heq : quoted k ++ (':' :: (v.chars ++ (memberChars ms ++ x)))
          = quoted l ++ (':' :: (w.chars ++ (memberChars ns ++ y))) := by
        simpa [memberChars] using heq
      obtain ⟨hkey, hrest⟩ := quoted_append_inj heq
      obtain ⟨hvw, hrest⟩ := h (k, v) List.mem_cons_self
        (hapart.mono (List.subset_append_left _ _) (List.subset_append_left _ _))
        (ends_memberChars ms x) (ends_memberChars ns y) (List.cons.inj hrest).2
      obtain ⟨hmns, hxy⟩ := ih (fun m hm => h m (List.mem_cons_of_mem _ hm))
        (hapart.mono (List.subset_append_right _ _) (List.subset_append_right _ _)) hrest
      have hvw : v = w := hvw
      exact ⟨by rw [hkey, hvw, hmns], hxy⟩

theorem array_append_inj {vs ws : List Value} {x y : List Char} (h : ∀ v ∈ vs, v.Legible)
    (hapart : WrittenApart (itemNumbers vs) (itemNumbers ws))
    (heq : (array vs).chars ++ x = (array ws).chars ++ y) : array vs = array ws ∧ x = y := by
  cases vs with
  | nil =>
    cases ws with
    | nil => exact ⟨rfl, List.append_cancel_left heq⟩
    | cons w ws =>
      have heq : ']' :: x = w.chars ++ (itemChars ws ++ y) := by
        simpa [chars] using heq
      exact absurd heq.symm (chars_append_ne (by decide))
  | cons v vs =>
    cases ws with
    | nil =>
      have heq : v.chars ++ (itemChars vs ++ x) = ']' :: y := by
        simpa [chars] using heq
      exact absurd heq (chars_append_ne (by decide))
    | cons w ws =>
      -- The first items follow the bracket as further ones follow a comma.
      have heq : itemChars (v :: vs) ++ x = itemChars (w :: ws) ++ y := by
        simpa [chars, itemChars] using heq
      obtain ⟨hvws, hxy⟩ := itemChars_append_inj h hapart heq
      exact ⟨by rw [hvws], hxy⟩

theorem object_append_inj {ms ns : List (String × Value)} {x y : List Char}
    (h : ∀ m ∈ ms, m.2.Legible) (hapart : WrittenApart (memberNumbers ms) (memberNumbers ns))
    (heq : (object ms).chars ++ x = (object ns).chars ++ y) :
    object ms = object ns ∧ x = y := by
  rcases ms with _ | ⟨⟨k, v⟩, ms⟩
  · rcases ns with _ | ⟨⟨l, w⟩, ns⟩
    · exact ⟨rfl, List.append_cancel_left heq⟩
    · simp [chars, quoted] at heq
  · rcases ns with _ | ⟨⟨l, w⟩, ns⟩
    · simp [chars, quoted] at heq
    · have heq : memberChars ((k, v) :: ms) ++ x = memberChars ((l, w) :: ns) ++ y := by
        simpa [chars, memberChars] using heq
      obtain ⟨hmns, hxy⟩ := memberChars_append_inj h hapart heq
      exact ⟨by rw [hmns], hxy⟩

/-- **Text that starts with a value says which value it is.** -/
theorem legible (v : Value) : v.Legible := by
  -- Both values begin in the same way, so they are of the same kind.
  induction v using induct with
  | null =>
    intro w x y _ _ _ h
    cases w <;> cases lead_eq_of_append_eq h
    exact ⟨rfl, List.append_cancel_left h⟩
  | bool b =>
    intro w x y _ _ _ h
    cases w <;> cases lead_eq_of_append_eq h
    exact ⟨rfl, List.append_cancel_left h⟩
  | number m =>
    intro w x y hapart hx hy h
    cases w <;> cases lead_eq_of_append_eq h
    rename_i n
    obtain ⟨hchars, hxy⟩ := Number.chars_append_inj hx hy h
    have hmn : m = n := hapart m List.mem_cons_self n List.mem_cons_self hchars
    exact ⟨by rw [hmn], hxy⟩
  | string s =>
    intro w x y _ _ _ h
    cases w <;> cases lead_eq_of_append_eq h
    obtain ⟨hst, hxy⟩ := quoted_append_inj h
    exact ⟨by rw [hst], hxy⟩
  | array vs ih =>
    intro w x y hapart _ _ h
    cases w <;> cases lead_eq_of_append_eq h
    exact array_append_inj ih hapart h
  | object ms ih =>
    intro w x y hapart _ _ h
    cases w <;> cases lead_eq_of_append_eq h
    exact object_append_inj ih hapart h

/-- **Values with the same compact text are equal,** if their numbers are written apart. -/
theorem eq_of_text_eq {v w : Value} (hapart : WrittenApart v.numbers w.numbers)
    (h : v.text = w.text) : v = w := by
  have hchars : v.chars ++ [] = w.chars ++ [] := by
    rw [String.ofList_injective h]
  have hends : Ends [] := fun c hc => absurd hc (by simp)
  exact (v.legible hapart hends hends hchars).1

end Value

end MetricCube.Json
