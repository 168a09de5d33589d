/-
  MetricCube.Proofs.DateToken
  ───────────────────────────
  **The forms of a day in a constraint.**  A token stands for a day in one of three forms: a
  number of days back, the ISO form, or the short form.  Each is described by the texts that have
  it (`IsoText`, `ShortText`, `Token`), and read exactly from these.

  Numbers are read with an optional sign.  The forms are therefore given with a parameter: with
  signs let through they are what is read, and without them they are what is meant.
-/
import Mathlib
import MetricCube.Constraint
import MetricCube.Proofs.Clauses

namespace MetricCube

namespace Text

/-! ## §1. Numbers. -/

/-- `ds` is a run of ASCII digits, at least one, and `n` is its value. -/
structure Spells (ds : List Char) (n : Nat) : Prop where
  nonempty : ds ≠ []
  digits : ∀ c ∈ ds, c.isDigit = true
  value : ds.foldl (fun acc c => acc * 10 + (c.toNat - 48)) 0 = n

/-- `cs` is a run of digits, behind a plus sign if signs are let through. -/
inductive Numeral (signs : Bool) : (cs : List Char) → Nat → Prop
  | plain {ds : List Char} {n : Nat} : Spells ds n → Numeral signs ds n
  | plus {ds : List Char} {n : Nat} : signs = true → Spells ds n → Numeral signs ('+' :: ds) n

theorem isDigit_iff {c : Char} : c.isDigit = true ↔ 48 ≤ c.toNat ∧ c.toNat ≤ 57 := by
  simp only [Char.isDigit, Bool.and_eq_true, decide_eq_true_eq, ge_iff_le, UInt32.le_iff_toNat_le]
  exact Iff.rfl

theorem digitValue?_eq_some_iff {c : Char} {d : Nat} :
    digitValue? c = some d ↔ c.isDigit = true ∧ c.toNat - 48 = d := by
  rw [isDigit_iff, digitValue?, Option.ite_none_right_eq_some, Option.some.injEq]

theorem digitsValue?_eq_some_iff {acc : Nat} {ds : List Char} {n : Nat} :
    digitsValue? acc ds = some n
      ↔ (∀ c ∈ ds, c.isDigit = true) ∧ ds.foldl (fun acc c => acc * 10 + (c.toNat - 48)) acc = n := by
  induction ds generalizing acc with
  | nil => simp [digitsValue?]
  | cons c ds ih =>
    rw [digitsValue?, List.forall_mem_cons, List.foldl_cons]
    cases hc : digitValue? c with
    | none =>
      have hnot : ¬ c.isDigit = true := fun h => by
        rw [digitValue?_eq_some_iff.2 ⟨h, rfl⟩] at hc
        cases hc
      simp [hnot]
    | some d =>
      obtain ⟨hdigit, rfl⟩ := digitValue?_eq_some_iff.1 hc
      rw [ih]
      simp [hdigit]

theorem natural?_eq_some_iff {ds : List Char} {n : Nat} : natural? ds = some n ↔ Spells ds n := by
  simp only [natural?, List.isEmpty_iff, Option.ite_none_left_eq_some, digitsValue?_eq_some_iff]
  exact ⟨fun ⟨h₁, h₂, h₃⟩ => ⟨h₁, h₂, h₃⟩, fun h => ⟨h.nonempty, h.digits, h.value⟩⟩

theorem takeDigits_eq_some_iff {width acc : Nat} {cs rest : List Char} {n : Nat} :
    takeDigits width acc cs = some (n, rest)
      ↔ ∃ ds, cs = ds ++ rest ∧ ds.length = width ∧ digitsValue? acc ds = some n := by
  -- Induction on the width; the value of the digits so far moves along in `acc`.
  induction width generalizing acc cs with
  | zero =>
    simp only [takeDigits, Option.some.injEq, Prod.mk.injEq, List.length_eq_zero_iff]
    constructor
    · rintro ⟨rfl, rfl⟩
      exact ⟨[], rfl, rfl, rfl⟩
    · rintro ⟨ds, rfl, rfl, hn⟩
      cases hn
      exact ⟨rfl, rfl⟩
  | succ width ih =>
    cases cs with
    | nil =>
      simp only [takeDigits, reduceCtorEq, false_iff]
      rintro ⟨ds, hds, hlength, _⟩
      rw [(List.append_eq_nil_iff.1 hds.symm).1] at hlength
      cases hlength
    | cons c cs =>
      rw [takeDigits]
      cases hc : digitValue? c with
      | none =>
        simp only [reduceCtorEq, false_iff]
        rintro ⟨ds, hds, hlength, hvalue⟩
        cases ds with
        | nil => cases hlength
        | cons e ds =>
          cases hds
          simp [digitsValue?, hc] at hvalue
      | some d =>
        simp only [ih]
        constructor
        · rintro ⟨ds, rfl, hlength, hvalue⟩
          exact ⟨c :: ds, rfl, by rw [List.length_cons, hlength], by rw [digitsValue?, hc]; exact hvalue⟩
        · rintro ⟨ds, hds, hlength, hvalue⟩
          cases ds with
          | nil => cases hlength
          | cons e ds =>
            cases hds
            rw [digitsValue?, hc] at hvalue
            exact ⟨ds, rfl, Nat.succ.inj hlength, hvalue⟩

theorem takeDigits_zero_eq_some_iff {width : Nat} (hwidth : 0 < width) {cs rest : List Char} {n : Nat} :
    takeDigits width 0 cs = some (n, rest)
      ↔ ∃ ds, cs = ds ++ rest ∧ ds.length = width ∧ Spells ds n := by
  rw [takeDigits_eq_some_iff]
  refine exists_congr fun ds => and_congr_right fun _ => and_congr_right fun hlength => ?_
  rw [← natural?_eq_some_iff, natural?, if_neg]
  rw [List.isEmpty_iff_length_eq_zero]
  omega

theorem Spells.head_isDigit {c : Char} {ds : List Char} {n : Nat} (h : Spells (c :: ds) n) :
    c.isDigit = true :=
  h.digits c List.mem_cons_self

/-- Each digit multiplies what may have been read before by ten, and adds less than ten. -/
theorem foldl_digits_lt {ds : List Char} (h : ∀ c ∈ ds, c.isDigit = true) : ∀ acc : Nat,
    ds.foldl (fun acc c => acc * 10 + (c.toNat - 48)) acc < (acc + 1) * 10 ^ ds.length := by
  induction ds with
  | nil => intro acc; simp
  | cons c ds ih =>
    intro acc
    obtain ⟨hc, hds⟩ := List.forall_mem_cons.1 h
    have hdigit := isDigit_iff.1 hc
    calc ds.foldl (fun acc c => acc * 10 + (c.toNat - 48)) (acc * 10 + (c.toNat - 48))
        < (acc * 10 + (c.toNat - 48) + 1) * 10 ^ ds.length := ih hds _
      _ ≤ ((acc + 1) * 10) * 10 ^ ds.length := Nat.mul_le_mul_right _ (by omega)
      _ = (acc + 1) * 10 ^ (c :: ds).length := by
          rw [List.length_cons, Nat.pow_succ']
          exact Nat.mul_assoc _ _ _

theorem Spells.lt_pow {ds : List Char} {n : Nat} (h : Spells ds n) : n < 10 ^ ds.length := by
  have hvalue := foldl_digits_lt h.digits 0
  rwa [h.value, Nat.zero_add, Nat.one_mul] at hvalue

theorem Spells.getLast?_append {ds : List Char} {n : Nat} (h : Spells ds n) (front : List Char) :
    ∃ c, (front ++ ds).getLast? = some c ∧ c.isDigit = true := by
  have hlast := List.getLast?_eq_some_getLast h.nonempty
  refine ⟨_, ?_, h.digits _ (List.getLast_mem h.nonempty)⟩
  rw [List.getLast?_append, hlast, Option.some_or]

theorem Numeral.mem {signs : Bool} {cs : List Char} {n : Nat} (h : Numeral signs cs n) :
    ∀ c ∈ cs, (signs = true ∧ c = '+') ∨ c.isDigit = true := by
  intro c hc
  cases h with
  | plain h => exact .inr (h.digits c hc)
  | plus hsigns h =>
    rcases List.mem_cons.1 hc with rfl | hc
    · exact .inl ⟨hsigns, rfl⟩
    · exact .inr (h.digits c hc)

theorem Numeral.lt_pow {signs : Bool} {cs : List Char} {n : Nat} (h : Numeral signs cs n) :
    n < 10 ^ cs.length := by
  cases h with
  | plain h => exact h.lt_pow
  | plus _ h => exact h.lt_pow.trans (Nat.pow_lt_pow_right (by decide) (Nat.lt_succ_self _))

theorem Numeral.notMem_hyphen {signs : Bool} {cs : List Char} {n : Nat} (h : Numeral signs cs n) :
    '-' ∉ cs := by
  intro hmem
  rcases h.mem _ hmem with ⟨_, he⟩ | hdigit
  · exact absurd he (by decide)
  · exact absurd hdigit (by decide)

/-- A text that ends in a number ends in a digit. -/
theorem Numeral.getLast?_append {signs : Bool} {cs : List Char} {n : Nat} (h : Numeral signs cs n)
    (front : List Char) : ∃ c, (front ++ cs).getLast? = some c ∧ c.isDigit = true := by
  cases h with
  | plain h => exact h.getLast?_append front
  | plus _ h =>
    rw [List.append_cons]
    exact h.getLast?_append (front ++ ['+'])

theorem Numeral.with_signs {cs : List Char} {n : Nat} (h : Numeral false cs n) :
    Numeral true cs n := by
  cases h with
  | plain h => exact .plain h
  | plus hsigns _ => cases hsigns

theorem Numeral.without_signs {cs : List Char} {n : Nat} (h : Numeral true cs n)
    (hplus : '+' ∉ cs) : Numeral false cs n := by
  cases h with
  | plain h => exact .plain h
  | plus _ _ => exact absurd List.mem_cons_self hplus

theorem Numeral.notMem_plus {cs : List Char} {n : Nat} (h : Numeral false cs n) : '+' ∉ cs := by
  intro hmem
  rcases h.mem _ hmem with ⟨hsigns, _⟩ | hdigit
  · cases hsigns
  · exact absurd hdigit (by decide)

theorem Numeral.utf8Length_eq {signs : Bool} {cs : List Char} {n : Nat} (h : Numeral signs cs n) :
    utf8Length cs = cs.length := by
  have hsize : ∀ c ∈ cs, c.utf8Size = 1 := by
    intro c hc
    rw [Char.utf8Size_eq_one_iff, UInt32.le_iff_toNat_le]
    rcases h.mem c hc with ⟨_, rfl⟩ | hdigit
    · decide
    · exact (isDigit_iff.1 hdigit).2.trans (by decide)
  rw [utf8Length_eq_sum, List.map_congr_left hsize, List.map_const', List.sum_replicate,
    smul_eq_mul, mul_one]

theorem unsigned?_plus (bound : Nat) (ds : List Char) :
    unsigned? bound ('+' :: ds) = (natural? ds).filter (· ≤ bound) := rfl

theorem unsigned?_of_ne_plus (bound : Nat) {cs : List Char} (h : ∀ ds, cs ≠ '+' :: ds) :
    unsigned? bound cs = (natural? cs).filter (· ≤ bound) := by
  unfold unsigned?
  split
  · exact absurd rfl (h _)
  · rfl

theorem unsigned?_eq_some_iff {bound : Nat} {cs : List Char} {n : Nat} :
    unsigned? bound cs = some n ↔ Numeral true cs n ∧ n ≤ bound := by
  by_cases hplus : ∃ ds, cs = '+' :: ds
  · obtain ⟨ds, rfl⟩ := hplus
    rw [unsigned?_plus, Option.filter_eq_some_iff, natural?_eq_some_iff, decide_eq_true_eq]
    refine and_congr_left fun _ => ⟨.plus rfl, fun h => ?_⟩
    cases h with
    | plain h => exact absurd h.head_isDigit (by decide)
    | plus _ h => exact h
  · rw [unsigned?_of_ne_plus _ fun ds he => hplus ⟨ds, he⟩, Option.filter_eq_some_iff,
      natural?_eq_some_iff, decide_eq_true_eq]
    refine and_congr_left fun _ => ⟨.plain, fun h => ?_⟩
    cases h with
    | plain h => exact h
    | plus _ h => exact absurd ⟨_, rfl⟩ hplus

theorem signed?_minus (bound : Nat) (ds : List Char) : signed? bound ('-' :: ds)
    = ((natural? ds).filter (· ≤ bound + 1)).map fun n : Nat => -(n : Int) := by
  simp only [signed?]
  cases (natural? ds).filter (· ≤ bound + 1) <;> rfl

theorem signed?_of_ne_minus (bound : Nat) {cs : List Char} (h : ∀ ds, cs ≠ '-' :: ds) :
    signed? bound cs = (unsigned? bound cs).map fun n : Nat => (n : Int) := by
  unfold signed?
  split
  · exact absurd rfl (h _)
  · cases unsigned? bound cs <;> rfl

theorem Numeral.ne_minus {signs : Bool} {cs ds : List Char} {n : Nat} (h : Numeral signs cs n) :
    cs ≠ '-' :: ds := by
  rintro rfl
  cases h with
  | plain h => exact absurd h.head_isDigit (by decide)

theorem signed?_eq_some_iff {bound : Nat} {cs : List Char} {z : Int} :
    signed? bound cs = some z
      ↔ (∃ n : Nat, Numeral true cs n ∧ n ≤ bound ∧ z = n)
        ∨ ∃ (ds : List Char) (n : Nat), cs = '-' :: ds ∧ Spells ds n ∧ n ≤ bound + 1 ∧ z = -n := by
  -- Only a minus sign in front allows for one more than the bound.
  by_cases hminus : ∃ ds, cs = '-' :: ds
  · obtain ⟨ds, rfl⟩ := hminus
    simp only [signed?_minus, Option.map_eq_some_iff, Option.filter_eq_some_iff,
      natural?_eq_some_iff, decide_eq_true_eq]
    constructor
    · rintro ⟨n, ⟨hn, hle⟩, rfl⟩
      exact .inr ⟨ds, n, rfl, hn, hle, rfl⟩
    · rintro (⟨n, hn, _⟩ | ⟨ds', n, hds, hn, hle, rfl⟩)
      · exact absurd rfl hn.ne_minus
      · cases hds
        exact ⟨n, ⟨hn, hle⟩, rfl⟩
  · rw [signed?_of_ne_minus _ fun ds he => hminus ⟨ds, he⟩]
    simp only [Option.map_eq_some_iff, unsigned?_eq_some_iff]
    constructor
    · rintro ⟨n, ⟨hn, hle⟩, rfl⟩
      exact .inl ⟨n, hn, hle, rfl⟩
    · rintro (⟨n, hn, hle, rfl⟩ | ⟨ds, n, hds, _⟩)
      · exact ⟨n, ⟨hn, hle⟩, rfl⟩
      · exact absurd ⟨ds, hds⟩ hminus

end Text

namespace Date

open Text (Spells Numeral)

/-! ## §2. The ISO form. -/

/-- The signs of a year, and whether they make it negative. -/
def yearSigns : List (List Char × Bool) :=
  [([], false), (['+'], false), (['-'], true)]

/-- `cs` is year, month and day of `c` in four, two and two digits, parted by hyphens, with a sign
    in front if need be. -/
inductive IsoText : (cs : List Char) → Civil → Prop
  | intro {s : List Char × Bool} {ys ms ds : List Char} {y m d : Nat} : s ∈ yearSigns →
      Spells ys y → ys.length = 4 → Spells ms m → ms.length = 2 → Spells ds d → ds.length = 2 →
      IsoText (s.1 ++ ys ++ '-' :: ms ++ '-' :: ds) ⟨if s.2 then -(y : Int) else y, m, d⟩

theorem takeSign_yearSigns {s : List Char × Bool} (hs : s ∈ yearSigns) {c : Char}
    (hc : c.isDigit = true) (cs : List Char) : takeSign (s.1 ++ c :: cs) = (s.2, c :: cs) := by
  have hplus : c ≠ '+' := by rintro rfl; exact absurd hc (by decide)
  have hminus : c ≠ '-' := by rintro rfl; exact absurd hc (by decide)
  simp only [yearSigns, List.mem_cons, List.not_mem_nil, or_false] at hs
  rcases hs with rfl | rfl | rfl
  · rw [List.nil_append, takeSign]
    · rintro rest he
      exact hplus (List.cons.inj he).1
    · rintro rest he
      exact hminus (List.cons.inj he).1
  · rfl
  · rfl

theorem exists_takeSign (cs : List Char) :
    ∃ s ∈ yearSigns, cs = s.1 ++ (takeSign cs).2 ∧ s.2 = (takeSign cs).1 := by
  unfold takeSign
  split
  · exact ⟨(['+'], false), by simp [yearSigns], rfl, rfl⟩
  · exact ⟨(['-'], true), by simp [yearSigns], rfl, rfl⟩
  · exact ⟨([], false), by simp [yearSigns], rfl, rfl⟩

theorem takeHyphen_eq_some_iff {cs rest : List Char} :
    takeHyphen cs = some rest ↔ cs = '-' :: rest := by
  unfold takeHyphen
  split
  · simp
  · rename_i hne
    simp only [reduceCtorEq, false_iff]
    exact hne rest

/-- **Exactly the ISO form is read as such.** -/
theorem isoCivil?_eq_some_iff {cs : List Char} {c : Civil} :
    isoCivil? cs = some c ↔ IsoText cs c := by
  simp only [isoCivil?, Option.bind_eq_bind, Option.bind_eq_some_iff, Prod.exists,
    Text.takeDigits_zero_eq_some_iff (show 0 < 4 by decide),
    Text.takeDigits_zero_eq_some_iff (show 0 < 2 by decide), takeHyphen_eq_some_iff,
    Option.ite_none_right_eq_some, List.isEmpty_iff, Option.some.injEq]
  constructor
  · rintro ⟨y, _, ⟨ys, hcs, hys, hy⟩, _, rfl, m, _, ⟨ms, rfl, hms, hm⟩, _, rfl, d, _, ⟨ds, rfl, hds, hd⟩,
      rfl, rfl⟩
    obtain ⟨s, hs, hcs', hneg⟩ := exists_takeSign cs
    rw [hcs] at hcs'
    have htext : cs = s.1 ++ ys ++ '-' :: ms ++ '-' :: ds := by simp [hcs']
    rw [← hneg, htext]
    exact .intro hs hy hys hm hms hd hds
  · intro h
    cases h with
    | @intro s ys ms ds y m d hs hy hys hm hms hd hds =>
      obtain ⟨c, ys', rfl⟩ := List.exists_cons_of_ne_nil hy.nonempty
      have hsign : takeSign (s.1 ++ (c :: ys') ++ '-' :: ms ++ '-' :: ds)
          = (s.2, (c :: ys') ++ '-' :: (ms ++ '-' :: ds)) := by
        simp only [List.append_assoc, List.cons_append]
        exact takeSign_yearSigns hs hy.head_isDigit _
      rw [hsign]
      exact ⟨y, _, ⟨_, rfl, hys, hy⟩, _, rfl, m, _, ⟨ms, rfl, hms, hm⟩, _, rfl, d, [],
        ⟨ds, (List.append_nil ds).symm, hds, hd⟩, rfl, rfl⟩

/-! ## §3. The short form. -/

theorem splitHyphens_ne_nil (cs : List Char) : splitHyphens cs ≠ [] := by
  cases cs with
  | nil => exact List.cons_ne_nil _ _
  | cons c cs =>
    rw [splitHyphens]
    split
    · exact List.cons_ne_nil _ _
    · split <;> exact List.cons_ne_nil _ _

theorem splitHyphens_cons {c : Char} {cs piece : List Char} {more : List (List Char)}
    (h : splitHyphens cs = piece :: more) :
    splitHyphens (c :: cs) = if c = '-' then [] :: piece :: more else (c :: piece) :: more := by
  rw [splitHyphens, h]

theorem splitHyphens_of_notMem {cs : List Char} (h : '-' ∉ cs) : splitHyphens cs = [cs] := by
  induction cs with
  | nil => rfl
  | cons c cs ih =>
    rw [List.mem_cons, not_or] at h
    rw [splitHyphens_cons (ih h.2), if_neg (Ne.symm h.1)]

theorem splitHyphens_append {piece : List Char} (h : '-' ∉ piece) (rest : List Char) :
    splitHyphens (piece ++ '-' :: rest) = piece :: splitHyphens rest := by
  induction piece with
  | nil =>
    obtain ⟨p, more, hmore⟩ := List.exists_cons_of_ne_nil (splitHyphens_ne_nil rest)
    rw [List.nil_append, splitHyphens_cons hmore, if_pos rfl, hmore]
  | cons c piece ih =>
    rw [List.mem_cons, not_or] at h
    rw [List.cons_append, splitHyphens_cons (ih h.2), if_neg (Ne.symm h.1)]

/-- The first piece ends where the text ends, or at the first hyphen. -/
theorem first_of_splitHyphens {cs : List Char} : ∀ {piece : List Char} {more : List (List Char)},
    splitHyphens cs = piece :: more → '-' ∉ piece
      ∧ (more = [] ∧ cs = piece ∨ ∃ rest, cs = piece ++ '-' :: rest ∧ splitHyphens rest = more) := by
  -- A piece grows in front, so the pieces behind it stay as they are.
  induction cs with
  | nil =>
    intro piece more h
    cases h
    exact ⟨List.not_mem_nil, .inl ⟨rfl, rfl⟩⟩
  | cons c cs ih =>
    intro piece more h
    obtain ⟨p, ps, hps⟩ := List.exists_cons_of_ne_nil (splitHyphens_ne_nil cs)
    rw [splitHyphens_cons hps] at h
    split at h
    · rename_i hc
      cases h
      exact ⟨List.not_mem_nil, .inr ⟨cs, by rw [hc, List.nil_append], hps⟩⟩
    · rename_i hc
      cases h
      obtain ⟨hp, hcs⟩ := ih hps
      refine ⟨fun hmem => (List.mem_cons.1 hmem).elim (fun he => hc he.symm) hp, ?_⟩
      rcases hcs with ⟨hnil, hcs⟩ | ⟨rest, hcs, hrest⟩
      · exact .inl ⟨hnil, by rw [hcs]⟩
      · exact .inr ⟨rest, by rw [hcs, List.cons_append], hrest⟩

/-- Three pieces are three texts without a hyphen, parted by two. -/
theorem splitHyphens_eq_three_iff {cs p q r : List Char} :
    splitHyphens cs = [p, q, r]
      ↔ '-' ∉ p ∧ '-' ∉ q ∧ '-' ∉ r ∧ cs = p ++ '-' :: (q ++ '-' :: r) := by
  constructor
  · intro h
    obtain ⟨hp, ⟨hnil, _⟩ | ⟨cs₁, rfl, h₁⟩⟩ := first_of_splitHyphens h
    · cases hnil
    obtain ⟨hq, ⟨hnil, _⟩ | ⟨cs₂, rfl, h₂⟩⟩ := first_of_splitHyphens h₁
    · cases hnil
    obtain ⟨hr, ⟨_, rfl⟩ | ⟨cs₃, _, h₃⟩⟩ := first_of_splitHyphens h₂
    · exact ⟨hp, hq, hr, rfl⟩
    · exact absurd h₃ (splitHyphens_ne_nil cs₃)
  · rintro ⟨hp, hq, hr, rfl⟩
    rw [splitHyphens_append hp, splitHyphens_append hq, splitHyphens_of_notMem hr]

theorem nodup_monthNames : monthNames.Nodup := by
  decide

theorem monthOfName?_eq_some_iff {name : List Char} {m : Nat} :
    monthOfName? name = some m ↔ ∃ i, monthNames[i]? = some (name.map Char.toLower) ∧ m = i + 1 := by
  rw [monthOfName?, Option.map_eq_some_iff]
  refine exists_congr fun i => and_congr ?_ eq_comm
  rw [List.findIdx?_eq_some_iff_getElem]
  constructor
  · rintro ⟨hi, heq, _⟩
    rw [List.getElem?_eq_getElem hi, eq_of_beq heq]
  · intro h
    obtain ⟨hi, heq⟩ := List.getElem?_eq_some_iff.1 h
    refine ⟨hi, by rw [heq, beq_self_eq_true], fun j hj hjeq => ?_⟩
    have hij := (nodup_monthNames.getElem_inj_iff).1 (heq.trans (eq_of_beq hjeq).symm)
    omega

/-- `cs` is a day number, an English month abbreviation in any letter case, and a number of two
    characters, which counts the years from 2000. -/
inductive ShortText (signs : Bool) : (cs : List Char) → Civil → Prop
  | intro {ds name ys : List Char} {d i y : Nat} : Numeral signs ds d →
      monthNames[i]? = some (name.map Char.toLower) → Numeral signs ys y → ys.length = 2 →
      ShortText signs (ds ++ '-' :: name ++ '-' :: ys) ⟨2000 + y, i + 1, d⟩

theorem isAlpha_of_month {name : List Char} {i : Nat}
    (h : monthNames[i]? = some (name.map Char.toLower)) {a : Char} (ha : a ∈ name) :
    a.isAlpha = true := by
  by_cases hupper : a.isUpper = true
  · rw [Char.isAlpha, hupper, Bool.true_or]
  · have hlower : a.toLower = a := by
      rw [Char.toLower, dif_neg]
      simpa [Char.isUpper] using hupper
    have hmem : a ∈ name.map Char.toLower := List.mem_map.2 ⟨a, ha, hlower⟩
    have hall : ∀ month ∈ monthNames, ∀ a ∈ month, a.isAlpha = true := by simp [monthNames]
    exact hall _ (List.mem_of_getElem? h) a hmem

theorem ne_nil_of_month {name : List Char} {i : Nat}
    (h : monthNames[i]? = some (name.map Char.toLower)) : name ≠ [] := by
  rintro rfl
  have hall : ∀ month ∈ monthNames, month ≠ [] := by decide
  exact hall _ (List.mem_of_getElem? h) rfl

theorem notMem_hyphen_of_month {name : List Char} {i : Nat}
    (h : monthNames[i]? = some (name.map Char.toLower)) : '-' ∉ name :=
  fun hmem => absurd (isAlpha_of_month h hmem) (by decide)

/-- **Exactly the short form is read as such, with plus signs let through.** -/
theorem shortCivil?_eq_some_iff {cs : List Char} {c : Civil} :
    shortCivil? cs = some c ↔ ShortText true cs c ∧ c.day ≤ 255 := by
  constructor
  · intro h
    unfold shortCivil? at h
    split at h
    · rename_i ds name ys hpieces
      obtain ⟨_, _, hys, rfl⟩ := splitHyphens_eq_three_iff.1 hpieces
      simp only [Option.bind_eq_bind, Option.bind_eq_some_iff, Option.ite_none_left_eq_some, ne_eq,
        not_not, Text.unsigned?_eq_some_iff, monthOfName?_eq_some_iff, Option.some.injEq] at h
      obtain ⟨d, ⟨hd, hbound⟩, hlength, y, hy, m, ⟨i, hname, rfl⟩, rfl⟩ := h
      -- A year with a minus sign would have been split in front of it.
      rcases Text.signed?_eq_some_iff.1 hy with ⟨n, hn, _, rfl⟩ | ⟨rest, n, rfl, _⟩
      · rw [hn.utf8Length_eq] at hlength
        have hshort := ShortText.intro hd hname hn hlength
        simp only [List.append_assoc, List.cons_append] at hshort
        exact ⟨hshort, hbound⟩
      · exact absurd List.mem_cons_self hys
    · cases h
  · rintro ⟨h, hbound⟩
    cases h with
    | @intro ds name ys d i y hd hname hy hlength =>
      have hpieces : splitHyphens (ds ++ '-' :: name ++ '-' :: ys) = [ds, name, ys] := by
        rw [splitHyphens_eq_three_iff]
        refine ⟨hd.notMem_hyphen, notMem_hyphen_of_month hname, hy.notMem_hyphen, ?_⟩
        simp only [List.append_assoc, List.cons_append]
      -- Two characters are far from the bound of the integer type.
      have hyear : y ≤ 2147483647 := by
        have hlt := hy.lt_pow
        rw [hlength] at hlt
        omega
      simp only [shortCivil?, hpieces, Text.unsigned?_eq_some_iff.2 ⟨hd, hbound⟩,
        hy.utf8Length_eq, hlength, Text.signed?_eq_some_iff.2 (.inl ⟨y, hy, hyear, rfl⟩),
        monthOfName?_eq_some_iff.2 ⟨i, hname, rfl⟩, Option.bind_eq_bind, Option.bind_some,
        ne_eq, not_true, if_false]

theorem monthLength_le (y : Int) (m : Nat) : Civil.monthLength y m ≤ 31 := by
  have hall : ∀ n ∈ Civil.monthLengths y, n ≤ 31 := by
    have hfebruary : (if Civil.isLeap y = true then 29 else 28) ≤ 31 := by split <;> decide
    simp [Civil.monthLengths, hfebruary]
  rw [Civil.monthLength]
  split
  · exact Nat.zero_le _
  · rw [List.getD_eq_getElem?_getD]
    cases hn : (Civil.monthLengths y)[m - 1]? with
    | none => exact Nat.zero_le _
    | some n => exact hall n (List.mem_of_getElem? hn)

theorem day_le_of_ofCivil? {c : Civil} {d : Date} (h : ofCivil? c = some d) : c.day ≤ 31 := by
  rw [ofCivil?, Option.ite_none_right_eq_some] at h
  have hvalid := h.1
  simp only [Civil.isValid, Bool.and_eq_true, decide_eq_true_eq] at hvalid
  exact hvalid.2.trans (monthLength_le _ _)

theorem short?_eq_some_iff {s : String} {d : Date} :
    short? s = some d ↔ ∃ c, ShortText true s.toList c ∧ ofCivil? c = some d := by
  rw [short?, Option.bind_eq_some_iff]
  refine exists_congr fun c => and_congr_left fun hd => ?_
  rw [shortCivil?_eq_some_iff]
  exact and_iff_left ((day_le_of_ofCivil? hd).trans (by decide))

theorem iso?_eq_some_iff {s : String} {d : Date} :
    iso? s = some d ↔ ∃ c, IsoText s.toList c ∧ ofCivil? c = some d := by
  simp only [iso?, Option.bind_eq_some_iff, isoCivil?_eq_some_iff]

theorem IsoText.exists_sign {cs : List Char} {c : Civil} (h : IsoText cs c) :
    ∃ s ∈ yearSigns, ∃ behind, cs = s.1 ++ behind ∧ ∀ a ∈ behind, a = '-' ∨ a.isDigit = true := by
  cases h with
  | @intro s ys ms ds y m d hs hy _ hm _ hd _ =>
    refine ⟨s, hs, ys ++ '-' :: ms ++ '-' :: ds, by simp only [List.append_assoc], ?_⟩
    intro a ha
    simp only [List.mem_append, List.mem_cons] at ha
    rcases ha with (ha | rfl | ha) | rfl | ha
    · exact .inr (hy.digits a ha)
    · exact .inl rfl
    · exact .inr (hm.digits a ha)
    · exact .inl rfl
    · exact .inr (hd.digits a ha)

theorem IsoText.mem {cs : List Char} {c : Civil} (h : IsoText cs c) :
    ∀ a ∈ cs, a = '+' ∨ a = '-' ∨ a.isDigit = true := by
  obtain ⟨s, hs, behind, rfl, hbehind⟩ := h.exists_sign
  simp only [yearSigns, List.mem_cons, List.not_mem_nil, or_false] at hs
  intro a ha
  rcases List.mem_append.1 ha with ha | ha
  · rcases hs with rfl | rfl | rfl
    · cases ha
    · exact .inl (List.mem_singleton.1 ha)
    · exact .inr (.inl (List.mem_singleton.1 ha))
  · exact .inr (hbehind a ha)

theorem IsoText.mem_tail {cs : List Char} {c : Civil} (h : IsoText cs c) :
    ∀ a ∈ cs.tail, a = '-' ∨ a.isDigit = true := by
  obtain ⟨s, hs, behind, rfl, hbehind⟩ := h.exists_sign
  simp only [yearSigns, List.mem_cons, List.not_mem_nil, or_false] at hs
  intro a ha
  rcases hs with rfl | rfl | rfl
  · exact hbehind a (List.mem_of_mem_tail ha)
  · exact hbehind a ha
  · exact hbehind a ha

/-- The ISO form holds no blank and no punctuation but signs. -/
theorem IsoText.isBlank_eq_false {cs : List Char} {c : Civil} (h : IsoText cs c) :
    ∀ a ∈ cs, Text.isBlank a = false := by
  intro a ha
  rcases h.mem a ha with rfl | rfl | hdigit
  · decide
  · decide
  · rw [Text.isDigit_iff] at hdigit
    simp only [Text.isBlank, Bool.or_eq_false_iff, Bool.and_eq_false_iff, decide_eq_false_iff_not,
      beq_eq_false_iff_ne]
    omega

theorem IsoText.isTrimmed {cs : List Char} {c : Civil} (h : IsoText cs c) : Text.IsTrimmed cs :=
  ⟨fun a ha => h.isBlank_eq_false a (List.mem_of_mem_head? ha),
    fun a ha => h.isBlank_eq_false a (List.mem_of_getLast? ha)⟩

theorem IsoText.getLast? {cs : List Char} {c : Civil} (h : IsoText cs c) :
    ∃ a, cs.getLast? = some a ∧ a.isDigit = true := by
  cases h with
  | intro _ _ _ _ _ hd _ =>
    have hday : Numeral false _ _ := .plain hd
    rw [List.append_cons]
    exact hday.getLast?_append _

theorem ShortText.getLast? {signs : Bool} {cs : List Char} {c : Civil} (h : ShortText signs cs c) :
    ∃ a, cs.getLast? = some a ∧ a.isDigit = true := by
  cases h with
  | intro _ _ hy _ =>
    rw [List.append_cons]
    exact hy.getLast?_append _

/-- No text has both forms. -/
theorem IsoText.not_short {signs : Bool} {cs : List Char} {c c' : Civil} (h : IsoText cs c) :
    ¬ ShortText signs cs c' := by
  intro hshort
  cases hshort with
  | @intro ds name ys d i y hd hname hy hlength =>
    -- The month begins with a letter.
    obtain ⟨a, name, rfl⟩ := List.exists_cons_of_ne_nil (ne_nil_of_month hname)
    have halpha := isAlpha_of_month hname List.mem_cons_self
    have hmem : a ∈ (ds ++ '-' :: a :: name ++ '-' :: ys).tail := by
      cases ds with
      | nil => simp
      | cons b ds => simp
    rcases h.mem_tail a hmem with rfl | hdigit
    · exact absurd halpha (by decide)
    · rw [Text.isDigit_iff] at hdigit
      simp only [Char.isAlpha, Char.isUpper, Char.isLower, Bool.or_eq_true, Bool.and_eq_true,
        decide_eq_true_eq, ge_iff_le, UInt32.le_iff_toNat_le] at halpha
      change 65 ≤ a.toNat ∧ a.toNat ≤ 90 ∨ 97 ≤ a.toNat ∧ a.toNat ≤ 122 at halpha
      omega

end Date

namespace Constraint

open Text (Spells Numeral trimChars)
open Date (IsoText ShortText)

/-! ## §4. Tokens. -/

/-- The forms of a day in a constraint: a number of days back from today, the ISO form, or the
    short form.  With `signs`, numbers may have a plus sign, and zero days back a minus sign. -/
inductive Token (signs : Bool) (today : Date) : (cs : List Char) → Date → Prop
  | back {cs : List Char} {n : Nat} : Numeral signs cs n → n ≤ 36525 →
      Token signs today ('-' :: cs ++ ['d']) (today.addDays (-n))
  | backZero {ds : List Char} : signs = true → Spells ds 0 →
      Token signs today ('-' :: '-' :: ds ++ ['d']) (today.addDays 0)
  | iso {cs : List Char} {c : Civil} {d : Date} : IsoText cs c → Date.ofCivil? c = some d →
      Token signs today cs d
  | short {cs : List Char} {c : Civil} {d : Date} : ShortText signs cs c →
      Date.ofCivil? c = some d → Token signs today cs d

theorem relativeDigits?_eq_some_iff {cs ds : List Char} :
    relativeDigits? cs = some ds ↔ cs = '-' :: ds ++ ['d'] := by
  unfold relativeDigits?
  split
  · rename_i rest
    rw [Option.ite_none_right_eq_some, Option.some.injEq, List.cons_append, List.cons.injEq]
    constructor
    · rintro ⟨hlast, rfl⟩
      exact ⟨rfl, (List.dropLast_append_getLast? _ hlast).symm⟩
    · rintro ⟨_, rfl⟩
      exact ⟨List.getLast?_concat, List.dropLast_concat⟩
  · rename_i hne
    simp only [reduceCtorEq, false_iff]
    exact hne _

/-- What may stand between a hyphen and a final `d`. -/
theorem back_iff {cs : List Char} {today d : Date} :
    Token true today ('-' :: cs ++ ['d']) d
      ↔ ∃ n, Text.signed? 2147483647 cs = some n ∧ (0 ≤ n ∧ n ≤ maxDaysBack)
          ∧ today.addDays (-n) = d := by
  -- The other forms end in a digit.
  have hlast : ∀ {a : Char}, ('-' :: cs ++ ['d']).getLast? = some a → ¬ a.isDigit = true := by
    intro a ha
    rw [List.getLast?_concat, Option.some.injEq] at ha
    subst ha
    decide
  constructor
  · generalize htext : '-' :: cs ++ ['d'] = text
    intro h
    cases h with
    | @back ds n hn hle =>
      have hds : cs = ds := List.append_cancel_right (List.cons.inj htext).2
      rw [hds]
      exact ⟨n, Text.signed?_eq_some_iff.2 (.inl ⟨n, hn, by omega, rfl⟩),
        ⟨Int.natCast_nonneg n, by unfold maxDaysBack; omega⟩, rfl⟩
    | @backZero ds _ hds =>
      have hcs : cs = '-' :: ds := List.append_cancel_right (List.cons.inj htext).2
      rw [hcs]
      exact ⟨0, Text.signed?_eq_some_iff.2 (.inr ⟨ds, 0, rfl, hds, by omega, rfl⟩),
        ⟨le_refl _, by decide⟩, rfl⟩
    | iso hc _ =>
      obtain ⟨a, ha, hdigit⟩ := hc.getLast?
      exact absurd hdigit (hlast (by rw [htext, ha]))
    | short hc _ =>
      obtain ⟨a, ha, hdigit⟩ := hc.getLast?
      exact absurd hdigit (hlast (by rw [htext, ha]))
  · rintro ⟨z, hz, ⟨hnonneg, hle⟩, rfl⟩
    unfold maxDaysBack at hle
    rcases Text.signed?_eq_some_iff.1 hz with ⟨n, hn, _, rfl⟩ | ⟨ds, n, rfl, hds, _, rfl⟩
    · exact .back hn (by omega)
    · -- Behind a minus sign, nothing but zero is no less than zero.
      obtain rfl : n = 0 := by omega
      exact .backZero rfl hds

/-- What is read as a date has one of the two forms. -/
theorem any?_eq_some_iff {cs : List Char} (hcs : Text.IsTrimmed cs) {d : Date} :
    Date.any? (String.ofList cs) = some d
      ↔ ∃ c, (IsoText cs c ∨ ShortText true cs c) ∧ Date.ofCivil? c = some d := by
  have htrim : Text.trim (String.ofList cs) = String.ofList cs := by
    rw [Text.trim, String.toList_ofList, Text.trimChars_eq_self hcs]
  have hiso := @Date.iso?_eq_some_iff (String.ofList cs)
  have hshort := @Date.short?_eq_some_iff (String.ofList cs)
  rw [String.toList_ofList] at hiso hshort
  simp only [Date.any?, htrim]
  -- The ISO form is tried first.  No text has both forms, so the order does not matter.
  cases h : Date.iso? (String.ofList cs) with
  | some e =>
    obtain ⟨c, hc, he⟩ := hiso.1 h
    rw [Option.some.injEq]
    constructor
    · rintro rfl
      exact ⟨c, .inl hc, he⟩
    · rintro ⟨c', hc' | hc', hd⟩
      · rw [hiso.2 ⟨c', hc', hd⟩, Option.some.injEq] at h
        exact h.symm
      · exact absurd hc' hc.not_short
  | none =>
    rw [hshort]
    constructor
    · rintro ⟨c, hc, hd⟩
      exact ⟨c, .inr hc, hd⟩
    · rintro ⟨c, hc | hc, hd⟩
      · rw [hiso.2 ⟨c, hc, hd⟩] at h
        cases h
      · exact ⟨c, hc, hd⟩

/-- **The tokens that stand for a day,** and the day they stand for. -/
theorem day_eq_ok_iff {token : List Char} {today d : Date} :
    day token today = .ok d ↔ Token true today (trimChars token) d := by
  have htrimmed := Text.isTrimmed_trimChars token
  simp only [day]
  generalize trimChars token = cs at htrimmed ⊢
  -- A token between a hyphen and a final letter is never tried as a date.
  cases hrel : relativeDigits? cs with
  | some ds =>
    obtain rfl := relativeDigits?_eq_some_iff.1 hrel
    rw [back_iff]
    cases hn : Text.signed? 2147483647 ds with
    | none => simp [hn]
    | some n =>
      by_cases hbound : 0 ≤ n ∧ n ≤ maxDaysBack
      · simp [hn, hbound]
      · simp [hn, hbound]
  | none =>
    have hany := any?_eq_some_iff htrimmed (d := d)
    have hforms : Token true today cs d ↔ Date.any? (String.ofList cs) = some d := by
      rw [hany]
      constructor
      · intro h
        cases h with
        | back _ _ => rw [relativeDigits?_eq_some_iff.2 rfl] at hrel; cases hrel
        | @backZero ds _ _ =>
          have hback : relativeDigits? ('-' :: '-' :: ds ++ ['d']) = some ('-' :: ds) :=
            relativeDigits?_eq_some_iff.2 rfl
          rw [hback] at hrel
          cases hrel
        | iso hc hd => exact ⟨_, .inl hc, hd⟩
        | short hc hd => exact ⟨_, .inr hc, hd⟩
      · rintro ⟨c, hc | hc, hd⟩
        · exact .iso hc hd
        · exact .short hc hd
    rw [hforms]
    cases Date.any? (String.ofList cs) <;> simp

theorem eq_of_day_error {token : List Char} {today : Date} {e : ConstraintError}
    (h : day token today = .error e) : e = .invalidDate (String.ofList (trimChars token)) := by
  simp only [day] at h
  repeat' split at h
  all_goals cases h
  all_goals rfl

/-! ## §5. Stray signs. -/

theorem Token.with_signs {today d : Date} {cs : List Char} (h : Token false today cs d) :
    Token true today cs d := by
  cases h with
  | back hn hle => exact .back hn.with_signs hle
  | backZero hsigns _ => cases hsigns
  | iso hc hd => exact .iso hc hd
  | short hc hd =>
    cases hc with
    | intro hday hname hyear hlength =>
      exact .short (.intro hday.with_signs hname hyear.with_signs hlength) hd

theorem Token.without_signs {today d : Date} {cs : List Char} (h : Token true today cs d)
    (hplus : '+' ∉ cs) (hminus : ¬ ['-', '-'] <+: cs) : Token false today cs d := by
  cases h with
  | back hn hle =>
    refine .back (hn.without_signs fun hmem => hplus ?_) hle
    exact List.mem_append_left _ (List.mem_cons_of_mem _ hmem)
  | backZero _ _ => exact absurd ⟨_, rfl⟩ hminus
  | iso hc hd => exact .iso hc hd
  | short hc hd =>
    cases hc with
    | intro hday hname hyear hlength =>
      have hfree := hplus
      simp only [List.mem_append, List.mem_cons, not_or] at hfree
      exact .short (.intro (hday.without_signs hfree.1.1) hname
        (hyear.without_signs hfree.2.2) hlength) hd

/-- Without stray signs, a plus sign stands in front only. -/
theorem Token.notMem_plus {today d : Date} {cs : List Char} (h : Token false today cs d) :
    '+' ∉ cs.tail := by
  intro hmem
  cases h with
  | back hn _ =>
    rcases List.mem_append.1 hmem with hmem | hmem
    · exact hn.notMem_plus hmem
    · exact absurd hmem (by decide)
  | backZero hsigns _ => cases hsigns
  | iso hc _ =>
    -- The sign of a year is its first character.
    rcases hc.mem_tail _ hmem with he | hdigit
    · exact absurd he (by decide)
    · exact absurd hdigit (by decide)
  | short hc _ =>
    cases hc with
    | intro hday hname hyear _ =>
      have hmem := List.mem_of_mem_tail hmem
      simp only [List.mem_append, List.mem_cons] at hmem
      rcases hmem with (hmem | he | hmem) | he | hmem
      · exact hday.notMem_plus hmem
      · exact absurd he (by decide)
      · exact absurd (Date.isAlpha_of_month hname hmem) (by decide)
      · exact absurd he (by decide)
      · exact hyear.notMem_plus hmem

/-- **Tokens and days.**  A token stands for a day exactly if it has one of the forms of a day with
    signs let through.  Every form without signs is among them, and where the token has no plus
    sign and does not begin with two hyphens these are the only ones.  Every other token is
    reported as an invalid date. -/
theorem day_of_token (token : List Char) (today : Date) :
    (∀ d, day token today = .ok d ↔ Token true today (trimChars token) d)
      ∧ (∀ d, Token false today (trimChars token) d → day token today = .ok d)
      ∧ ('+' ∉ trimChars token → ¬ ['-', '-'] <+: trimChars token →
          ∀ d, day token today = .ok d ↔ Token false today (trimChars token) d)
      ∧ ∀ e, day token today = .error e →
          e = .invalidDate (String.ofList (trimChars token)) := by
  refine ⟨fun d => day_eq_ok_iff, fun d h => day_eq_ok_iff.2 h.with_signs, ?_,
    fun e => eq_of_day_error⟩
  intro hplus hminus d
  rw [day_eq_ok_iff]
  exact ⟨fun h => h.without_signs hplus hminus, Token.with_signs⟩

/-- Five days back from the 1970-01-11, with blanks around the token. -/
theorem day_of_padded_token :
    day [' ', '-', '0', '5', 'd', ' '] (.ofDays 10) = .ok (.ofDays 5)
      ∧ Token false (.ofDays 10) ['-', '0', '5', 'd'] (.ofDays 5) := by
  obtain ⟨_, _, hforms, _⟩ := day_of_token [' ', '-', '0', '5', 'd', ' '] (.ofDays 10)
  have hday : day [' ', '-', '0', '5', 'd', ' '] (.ofDays 10) = .ok (.ofDays 5) := by decide
  exact ⟨hday, (hforms (by decide) (by decide) _).1 hday⟩

/-- A year of one digit behind a plus sign is read, though it has not the short form. -/
theorem day_of_stray_plus :
    day ['1', '-', 'J', 'a', 'n', '-', '+', '5'] (.ofDays 20000) = .ok (.ofDays 12784)
      ∧ ¬ Token false (.ofDays 20000) (trimChars ['1', '-', 'J', 'a', 'n', '-', '+', '5'])
          (.ofDays 12784) := by
  refine ⟨by decide +kernel, fun h => ?_⟩
  exact absurd h.notMem_plus (by decide)

end Constraint

end MetricCube
