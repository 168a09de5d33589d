/-
  MetricCube.Proofs.Clauses
  ─────────────────────────
  **The grammar of constraint texts.**  A text is `Written` from clauses if it is these clauses,
  with any blanks around their names and behind their bodies, parted by points.  Splitting a text
  and writing it are inverse to each other:

      clauses text = (found, none)   ↔   Written found text        (`clauses_eq_iff`)

  The cursor is the same splitting by offsets.  Its invariant is `Cursor.At`: the offset is a
  boundary of the text, and what follows it is the rest that is still to be split.  One step does
  what stands in front of the rest (`Cursor.next_does`), so that no cut ever misses a boundary; a
  whole run yields the clauses and then the fault (`Cursor.yields_start`).
-/
import Mathlib
import MetricCube.Constraint.Cursor
import MetricCube.Proofs.Assignment

namespace MetricCube

namespace Text

/-! ## §1. Offsets. -/

@[simp] theorem utf8Length_nil : utf8Length [] = 0 := rfl

theorem utf8Length_eq_sum (cs : List Char) : utf8Length cs = (cs.map Char.utf8Size).sum :=
  List.sum_eq_foldl.symm

@[simp] theorem utf8Length_cons (c : Char) (cs : List Char) :
    utf8Length (c :: cs) = c.utf8Size + utf8Length cs := by
  simp [utf8Length_eq_sum]

@[simp] theorem utf8Length_append (cs ds : List Char) :
    utf8Length (cs ++ ds) = utf8Length cs + utf8Length ds := by
  simp [utf8Length_eq_sum]

theorem utf8Length_eq_zero_iff {cs : List Char} : utf8Length cs = 0 ↔ cs = [] := by
  cases cs with
  | nil => simp
  | cons c cs =>
    have hpos := c.utf8Size_pos
    simp only [utf8Length_cons, reduceCtorEq, iff_false]
    omega

/-- **A text is cut exactly where the characters in front take up the bytes of the offset.** -/
theorem dropBytes?_eq_some_iff {n : Nat} {cs rest : List Char} :
    dropBytes? n cs = some rest ↔ ∃ front, cs = front ++ rest ∧ utf8Length front = n := by
  induction cs generalizing n with
  | nil =>
    cases n with
    | zero => simp [dropBytes?, eq_comm]
    | succ n =>
      simp only [dropBytes?, reduceCtorEq, false_iff, not_exists, not_and]
      intro front hfront
      rw [(List.append_eq_nil_iff.1 hfront.symm).1]
      simp
  | cons c cs ih =>
    cases n with
    | zero => simp [dropBytes?, utf8Length_eq_zero_iff]
    | succ n =>
      -- A character takes up a byte at least, so the offset falls with the induction.
      have hpos := c.utf8Size_pos
      rw [dropBytes?]
      constructor
      · intro h
        split at h
        · obtain ⟨front, hcs, hn⟩ := ih.1 h
          exact ⟨c :: front, by rw [hcs, List.cons_append], by rw [utf8Length_cons]; omega⟩
        · cases h
      · rintro ⟨front, hcs, hn⟩
        cases front with
        | nil => simp at hn
        | cons d front =>
          obtain ⟨rfl, hcs'⟩ := List.cons.inj hcs
          rw [utf8Length_cons] at hn
          rw [if_pos (by omega)]
          exact ih.2 ⟨front, hcs', by omega⟩

theorem dropBytes?_append (front rest : List Char) :
    dropBytes? (utf8Length front) (front ++ rest) = some rest :=
  dropBytes?_eq_some_iff.2 ⟨front, rfl, rfl⟩

theorem lead?_append (front rest : List Char) :
    lead? (front ++ rest) rest = some (utf8Length front) := by
  rw [lead?, utf8Length_append, if_pos (Nat.le_add_left _ _), Nat.add_sub_cancel]

theorem takeBytes?_append (front rest : List Char) :
    takeBytes? (utf8Length front) (front ++ rest) = some front := by
  induction front with
  | nil => rw [utf8Length_nil, takeBytes?]
  | cons c front ih =>
    have hpos := c.utf8Size_pos
    obtain ⟨n, hn⟩ : ∃ n, utf8Length (c :: front) = n + 1 :=
      Nat.exists_eq_succ_of_ne_zero (by rw [utf8Length_cons]; omega)
    have hrest : n + 1 - c.utf8Size = utf8Length front := by
      rw [← hn, utf8Length_cons, Nat.add_sub_cancel_left]
    rw [hn, List.cons_append, takeBytes?, hrest, ih, if_pos]
    · rfl
    · rw [← hn, utf8Length_cons]
      omega

theorem cutBytes?_append (front middle rest : List Char) :
    cutBytes? (utf8Length front) (utf8Length front + utf8Length middle) (front ++ (middle ++ rest))
      = some middle := by
  rw [cutBytes?, if_pos (Nat.le_add_right _ _), dropBytes?_append, Nat.add_sub_cancel_left]
  exact takeBytes?_append middle rest

theorem offsetOf?_eq_none {c : Char} {cs : List Char} (h : cs.dropWhile (· != c) = []) :
    offsetOf? c cs = none := by
  induction cs with
  | nil => rfl
  | cons d cs ih =>
    by_cases hd : d = c
    · simp [hd] at h
    · rw [List.dropWhile_cons_of_pos (by simpa using hd)] at h
      rw [offsetOf?, if_neg hd, ih h]
      rfl

theorem offsetOf?_eq_some {c d : Char} {cs rest : List Char}
    (h : cs.dropWhile (· != c) = d :: rest) :
    offsetOf? c cs = some (utf8Length (cs.takeWhile (· != c))) := by
  induction cs with
  | nil => cases h
  | cons e cs ih =>
    by_cases he : e = c
    · simp [offsetOf?, he]
    · rw [List.dropWhile_cons_of_pos (by simpa using he)] at h
      rw [offsetOf?, if_neg he, ih h, List.takeWhile_cons_of_pos (by simpa using he)]
      simp

/-! ## §2. Blanks, and texts parted by a character. -/

theorem dropBlanks_eq_nil_iff {cs : List Char} : dropBlanks cs = [] ↔ cs.all isBlank = true := by
  rw [dropBlanks, List.dropWhile_eq_nil_iff, List.all_eq_true]

theorem dropBlanks_append {w : List Char} (hw : w.all isBlank = true) (cs : List Char) :
    dropBlanks (w ++ cs) = dropBlanks cs :=
  List.dropWhile_append_of_pos (List.all_eq_true.1 hw)

theorem exists_dropBlanks (cs : List Char) :
    ∃ w, w.all isBlank = true ∧ cs = w ++ dropBlanks cs :=
  ⟨cs.takeWhile isBlank, List.all_takeWhile, List.takeWhile_append_dropWhile.symm⟩

theorem exists_dropBlanksEnd (cs : List Char) :
    ∃ w, w.all isBlank = true ∧ cs = dropBlanksEnd cs ++ w := by
  obtain ⟨w, hw, hcs⟩ := exists_dropBlanks cs.reverse
  refine ⟨w.reverse, by rwa [List.all_reverse], ?_⟩
  rw [← List.reverse_inj, hcs, List.reverse_append, List.reverse_reverse]
  exact congrArg (w ++ ·) (List.reverse_reverse _).symm

theorem exists_trimChars (cs : List Char) :
    ∃ w w', w.all isBlank = true ∧ w'.all isBlank = true ∧ cs = w ++ trimChars cs ++ w' := by
  obtain ⟨w, hw, hcs⟩ := exists_dropBlanks cs
  obtain ⟨w', hw', hcs'⟩ := exists_dropBlanksEnd (dropBlanks cs)
  exact ⟨w, w', hw, hw', by rw [List.append_assoc, trimChars, ← hcs', ← hcs]⟩

theorem dropBlanksEnd_append {w : List Char} (hw : w.all isBlank = true) (cs : List Char) :
    dropBlanksEnd (cs ++ w) = dropBlanksEnd cs := by
  rw [dropBlanksEnd, List.reverse_append,
    List.dropWhile_append_of_pos (List.all_eq_true.1 (by rwa [List.all_reverse])), dropBlanksEnd]

/-- Two texts that differ in blanks at their ends have the same trimmed form. -/
theorem trimChars_append {cs w w' : List Char} (h : IsTrimmed cs) (hw : w.all isBlank = true)
    (hw' : w'.all isBlank = true) : trimChars (w ++ cs ++ w') = cs := by
  cases cs with
  | nil =>
    have hall : (w ++ [] ++ w').all isBlank = true := by simp [hw, hw']
    rw [trimChars, dropBlanks_eq_nil_iff.2 hall]
    rfl
  | cons c cs =>
    have hfront : dropBlanks (c :: cs ++ w') = c :: cs ++ w' := dropBlanks_eq_self h.1
    rw [List.append_assoc, trimChars, dropBlanks_append hw, hfront, dropBlanksEnd_append hw']
    exact (congrArg dropBlanksEnd (dropBlanks_eq_self h.1)).symm.trans (trimChars_eq_self h)

theorem takeWhile_ne_append {c : Char} {front : List Char} (h : c ∉ front) (rest : List Char) :
    (front ++ c :: rest).takeWhile (· != c) = front := by
  have hfront : ∀ d ∈ front, (d != c) = true := fun d hd => bne_iff_ne.2 fun e => h (e ▸ hd)
  rw [List.takeWhile_append_of_pos hfront, List.takeWhile_cons_of_neg (by simp), List.append_nil]

theorem dropWhile_ne_append {c : Char} {front : List Char} (h : c ∉ front) (rest : List Char) :
    (front ++ c :: rest).dropWhile (· != c) = c :: rest := by
  have hfront : ∀ d ∈ front, (d != c) = true := fun d hd => bne_iff_ne.2 fun e => h (e ▸ hd)
  rw [List.dropWhile_append_of_pos hfront, List.dropWhile_cons_of_neg (by simp)]

theorem notMem_takeWhile_ne (c : Char) (cs : List Char) : c ∉ cs.takeWhile (· != c) := by
  intro h
  simpa using List.mem_takeWhile_imp h

/-- What is dropped in front of the first occurrence of a character. -/
theorem eq_append_of_dropWhile_ne {c d : Char} {cs rest : List Char}
    (h : cs.dropWhile (· != c) = d :: rest) :
    d = c ∧ cs = cs.takeWhile (· != c) ++ c :: rest := by
  have hd : d = c := by
    have hnot := List.head?_dropWhile_not (· != c) cs
    rw [h] at hnot
    simpa using hnot
  refine ⟨hd, ?_⟩
  calc cs = cs.takeWhile (· != c) ++ cs.dropWhile (· != c) := List.takeWhile_append_dropWhile.symm
    _ = cs.takeWhile (· != c) ++ c :: rest := by rw [h, hd]

end Text

namespace Constraint

open Text (isBlank dropBlanks trimChars utf8Length)

/-! ## §3. The grammar. -/

/-- `cs` is a clause, with blanks around its name and behind its body. -/
inductive ClauseText : Clause → (cs : List Char) → Prop
  | intro {w₁ w₂ w₃ name body : List Char} : w₁.all isBlank = true → w₂.all isBlank = true →
      w₃.all isBlank = true → name ≠ [] → name.all isNameChar = true → ')' ∉ body →
      ClauseText ⟨name, body⟩ (w₁ ++ name ++ w₂ ++ '(' :: body ++ ')' :: w₃)

/-- `cs` is a sequence of clauses parted by points; without clauses, it holds blanks only. -/
inductive Written : List Clause → (cs : List Char) → Prop
  | none {cs : List Char} : cs.all isBlank = true → Written [] cs
  | last {c : Clause} {cs : List Char} : ClauseText c cs → Written [c] cs
  | more {c d : Clause} {found : List Clause} {cs rest : List Char} : ClauseText c cs →
      Written (d :: found) rest → Written (c :: d :: found) (cs ++ '.' :: rest)

theorem toNat_of_isNameChar {c : Char} (h : isNameChar c = true) :
    0x41 ≤ c.toNat ∧ c.toNat ≤ 0x7A := by
  simp only [isNameChar, Char.isAlpha, Char.isUpper, Char.isLower, Bool.or_eq_true,
    Bool.and_eq_true, decide_eq_true_eq, beq_iff_eq, ge_iff_le, UInt32.le_iff_toNat_le] at h
  rcases h with (⟨h₁, h₂⟩ | ⟨h₁, h₂⟩) | rfl
  · exact ⟨h₁, h₂.trans (by decide)⟩
  · exact ⟨le_trans (by decide) h₁, h₂⟩
  · decide

theorem isBlank_of_isNameChar {c : Char} (h : isNameChar c = true) : isBlank c = false := by
  have hc := toNat_of_isNameChar h
  simp only [isBlank, Bool.or_eq_false_iff, Bool.and_eq_false_iff, decide_eq_false_iff_not,
    beq_eq_false_iff_ne]
  omega

theorem isTrimmed_of_isNameChar {name : List Char} (h : name.all isNameChar = true) :
    Text.IsTrimmed name := by
  rw [List.all_eq_true] at h
  constructor
  · exact fun c hc => isBlank_of_isNameChar (h c (List.mem_of_mem_head? hc))
  · exact fun c hc => isBlank_of_isNameChar (h c (List.mem_of_getLast? hc))

theorem notMem_name {name w : List Char} (h : name.all isNameChar = true)
    (hw : w.all isBlank = true) : '(' ∉ name ++ w := by
  rw [List.all_eq_true] at h hw
  intro hmem
  rcases List.mem_append.1 hmem with hmem | hmem
  · exact absurd (toNat_of_isNameChar (h _ hmem)) (by decide)
  · exact absurd (hw _ hmem) (by decide)

/-- **A clause in front of a text is read, and then its separator.** -/
theorem head_clauseText {c : Clause} {cs : List Char} (h : ClauseText c cs) (rest : List Char) :
    head (cs ++ rest) = separator c rest := by
  cases h with
  | @intro w₁ w₂ w₃ name body hw₁ hw₂ hw₃ hne hname hbody =>
    obtain ⟨a, as, rfl⟩ := List.exists_cons_of_ne_nil hne
    -- Neither a name nor blanks hold a bracket, so the name ends where the clause opens.
    have hopen := notMem_name hname hw₂
    have htrimmed : dropBlanks (w₁ ++ (a :: as) ++ w₂ ++ '(' :: body ++ ')' :: w₃ ++ rest)
        = a :: as ++ w₂ ++ '(' :: (body ++ ')' :: (w₃ ++ rest)) := by
      have hfirst : isBlank a = false := (isTrimmed_of_isNameChar hname).1 a rfl
      simp only [List.append_assoc, List.cons_append]
      rw [Text.dropBlanks_append hw₁]
      exact Text.dropBlanks_eq_self fun d hd => by cases hd; exact hfirst
    have hfront : trimChars (a :: as ++ w₂) = a :: as :=
      Text.trimChars_append (isTrimmed_of_isNameChar hname) (w := []) rfl hw₂
    have hbehind : separator ⟨a :: as, body⟩ (w₃ ++ rest) = separator ⟨a :: as, body⟩ rest := by
      rw [separator, Text.dropBlanks_append hw₃, separator]
    have hstart : (a :: as ++ w₂ ++ '(' :: (body ++ ')' :: (w₃ ++ rest))).isEmpty = false := rfl
    have hnamed : ((a :: as).isEmpty || !(a :: as).all isNameChar) = false := by rw [hname]; rfl
    simp only [head, htrimmed, hstart, Text.dropWhile_ne_append hopen,
      Text.takeWhile_ne_append hopen, hfront, hnamed, Text.dropWhile_ne_append hbody,
      Text.takeWhile_ne_append hbody, Bool.false_eq_true, if_false]
    exact hbehind

theorem separator_blank (c : Clause) {behind : List Char} (h : behind.all isBlank = true) :
    separator c behind = .clause c [] := by
  simp only [separator, Text.dropBlanks_eq_nil_iff.2 h]

theorem separator_of_point (c : Clause) {behind more : List Char}
    (h : dropBlanks behind = '.' :: more) : separator c behind
      = if more.all isBlank then .fault .trailingPoint more else .clause c more := by
  simp only [separator, h]

theorem separator_of_other (c : Clause) {d : Char} {behind more : List Char}
    (h : dropBlanks behind = d :: more) (hd : d ≠ '.') :
    separator c behind = .fault .expectedPoint (d :: more) := by
  simp only [separator, h]
  split
  · rename_i hnil
    cases hnil
  · rename_i hpoint
    cases hpoint
    exact absurd rfl hd
  · rfl

/-- Behind a clause that is read stands the end, or a point and more. -/
theorem behind_of_separator {c d : Clause} {behind rest : List Char}
    (h : separator c behind = .clause d rest) :
    d = c ∧ ∃ w, w.all isBlank = true ∧
      (behind = w ∧ rest = [] ∨ behind = w ++ '.' :: rest ∧ rest.all isBlank = false) := by
  obtain ⟨w, hw, hbehind⟩ := Text.exists_dropBlanks behind
  cases hafter : dropBlanks behind with
  | nil =>
    have hblank := Text.dropBlanks_eq_nil_iff.1 hafter
    rw [separator_blank c hblank] at h
    cases h
    exact ⟨rfl, behind, hblank, .inl ⟨rfl, rfl⟩⟩
  | cons e more =>
    by_cases he : e = '.'
    · subst he
      rw [separator_of_point c hafter] at h
      split at h
      · cases h
      · rename_i hblank
        cases h
        exact ⟨rfl, w, hw, .inr ⟨by rw [hbehind, hafter], by simpa using hblank⟩⟩
    · rw [separator_of_other c hafter he] at h
      cases h

/-- A text whose first clause is read starts with that clause. -/
theorem clauseText_of_head {c : Clause} {text rest : List Char} (h : head text = .clause c rest) :
    ∃ cs, ClauseText c cs ∧
      (text = cs ∧ rest = [] ∨ text = cs ++ '.' :: rest ∧ rest.all isBlank = false) := by
  obtain ⟨w₁, hw₁, htext⟩ := Text.exists_dropBlanks text
  unfold head at h
  simp only at h
  split at h
  · cases h
  split at h
  · cases h
  rename_i opening inner hopen
  obtain ⟨rfl, htrimmed⟩ := Text.eq_append_of_dropWhile_ne hopen
  split at h
  · cases h
  rename_i hname
  split at h
  · cases h
  rename_i closing behind hclose
  obtain ⟨rfl, hinner⟩ := Text.eq_append_of_dropWhile_ne hclose
  obtain ⟨rfl, w₃, hw₃, hbehind⟩ := behind_of_separator h
  have hbody := Text.notMem_takeWhile_ne ')' inner
  obtain ⟨w, w₂, hw, hw₂, hfront⟩ := Text.exists_trimChars ((dropBlanks text).takeWhile (· != '('))
  simp only [Bool.or_eq_true, Bool.not_eq_true', not_or, Bool.not_eq_true,
    Bool.not_eq_false, List.isEmpty_eq_false_iff] at hname
  -- The text, put together from its parts.
  generalize trimChars ((dropBlanks text).takeWhile (· != '(')) = name at hname hfront ⊢
  generalize inner.takeWhile (· != ')') = body at hbody hinner ⊢
  rw [htrimmed, hfront, hinner] at htext
  have hclause : ClauseText ⟨name, body⟩ (w₁ ++ w ++ name ++ w₂ ++ '(' :: body ++ ')' :: w₃) :=
    .intro (by rw [List.all_append, hw₁, hw]; rfl) hw₂ hw₃ hname.1 hname.2 hbody
  refine ⟨_, hclause, ?_⟩
  rcases hbehind with ⟨rfl, hrest⟩ | ⟨rfl, hrest⟩
  · exact .inl ⟨by rw [htext]; simp only [List.append_assoc, List.cons_append], hrest⟩
  · exact .inr ⟨by rw [htext]; simp only [List.append_assoc, List.cons_append], hrest⟩

theorem separator_ne_finished (c : Clause) (cs : List Char) : separator c cs ≠ .finished := by
  unfold separator
  split
  · exact Head.noConfusion
  · split <;> exact Head.noConfusion
  · exact Head.noConfusion

theorem head_eq_finished_iff {text : List Char} :
    head text = .finished ↔ text.all isBlank = true := by
  rw [← Text.dropBlanks_eq_nil_iff, ← List.isEmpty_iff]
  constructor
  · intro h
    by_contra hne
    unfold head at h
    simp only [if_neg hne] at h
    split at h
    · cases h
    split at h
    · cases h
    split at h
    · cases h
    exact separator_ne_finished _ _ h
  · intro h
    simp only [head, h, if_true]

/-! ## §4. Texts without a fault. -/

theorem clauses_finished {text : List Char} (h : head text = .finished) :
    clauses text = ([], none) := by
  rw [clauses]
  split <;> simp_all

theorem clauses_fault {text rest : List Char} {f : ClauseFault} (h : head text = .fault f rest) :
    clauses text = ([], some (f, rest)) := by
  rw [clauses]
  split <;> simp_all

theorem clauses_clause {text rest : List Char} {c : Clause} (h : head text = .clause c rest) :
    clauses text = (c :: (clauses rest).1, (clauses rest).2) := by
  rw [clauses]
  split <;> simp_all

theorem clauses_of_blank {text : List Char} (h : text.all isBlank = true) :
    clauses text = ([], none) :=
  clauses_finished (head_eq_finished_iff.2 h)

theorem ClauseText.mem_open {c : Clause} {cs : List Char} (h : ClauseText c cs) : '(' ∈ cs := by
  cases h
  simp

theorem Written.mem_open {c : Clause} {found : List Clause} {text : List Char}
    (h : Written (c :: found) text) : '(' ∈ text := by
  cases h with
  | last hc => exact hc.mem_open
  | more hc _ => exact List.mem_append_left _ hc.mem_open

theorem Written.not_blank {c : Clause} {found : List Clause} {text : List Char}
    (h : Written (c :: found) text) : text.all isBlank = false :=
  List.all_eq_false.2 ⟨'(', h.mem_open, by decide⟩

theorem clauses_of_written {found : List Clause} {text : List Char} (h : Written found text) :
    clauses text = (found, none) := by
  induction h with
  | none hblank => exact clauses_of_blank hblank
  | @last c cs hc =>
    have hhead : head cs = .clause c [] := by
      rw [← List.append_nil cs, head_clauseText hc, separator_blank c rfl]
    have hend : clauses [] = ([], none) := clauses_of_blank rfl
    rw [clauses_clause hhead, hend]
  | @more c d found cs rest hc hrest ih =>
    have hhead : head (cs ++ '.' :: rest) = .clause c rest := by
      have hpoint : dropBlanks ('.' :: rest) = '.' :: rest :=
        Text.dropBlanks_eq_self fun d hd => by cases hd; decide
      rw [head_clauseText hc, separator_of_point c hpoint, hrest.not_blank]
      rfl
    rw [clauses_clause hhead, ih]

theorem written_of_clauses {text : List Char} : ∀ {found : List Clause},
    clauses text = (found, none) → Written found text := by
  fun_induction clauses text with
  | case1 text hhead =>
    intro found h
    cases h
    exact .none (head_eq_finished_iff.1 hhead)
  | case2 text f rest hhead =>
    intro found h
    cases h
  | case3 text c rest hhead r =>
    rename_i ih
    intro found h
    obtain ⟨rfl, hnone⟩ := Prod.mk.inj h
    have hrest : Written r.1 rest := ih (Prod.ext rfl hnone)
    obtain ⟨cs, hc, ⟨rfl, rfl⟩ | ⟨rfl, hblank⟩⟩ := clauseText_of_head hhead
    · -- The text ends with the clause.
      have hr : r.1 = [] := by rw [show r = ([], none) from clauses_of_blank rfl]
      rw [hr]
      exact .last hc
    · -- What follows a point holds a clause.
      cases hr : r.1 with
      | nil =>
        rw [hr] at hrest
        cases hrest with
        | none hall => rw [hall] at hblank; cases hblank
      | cons d found =>
        rw [hr] at hrest
        exact .more hc hrest

/-- **A text splits into clauses without a fault exactly if it is written from them.** -/
theorem clauses_eq_iff {found : List Clause} {text : List Char} :
    clauses text = (found, none) ↔ Written found text :=
  ⟨written_of_clauses, clauses_of_written⟩

/-! ## §5. The cursor. -/

namespace Cursor

/-- The cursor stands in front of `rest`, and no fault has been met. -/
structure At (s : Cursor) (rest : List Char) : Prop where
  going : s.failed = false
  cut : Text.dropBytes? s.offset s.text = some rest

/-- The step does what stands in front of a text. -/
inductive Does (s : Cursor) : Head → Step → Prop
  | stop : s.Does .finished .stop
  | fault {f : ClauseFault} {front rest : List Char} : s.text = front ++ rest →
      s.Does (.fault f rest) (s.fault (utf8Length front) f)
  | clause {c : Clause} {rest rest' : List Char} {offset : Nat} :
      At { s with offset := offset } rest' → clauses rest' = clauses rest →
      s.Does (.clause c rest) (.item (.ok c) { s with offset := offset })

theorem closeAt?_point {s : Cursor} {n offset : Nat} {behind more : List Char}
    (hcut : Text.dropBytes? n s.text = some behind) (hmore : dropBlanks behind = '.' :: more)
    (hoffset : Text.lead? s.text more = some offset) (c : Clause) : s.closeAt? c n
      = some (if more.all isBlank then s.fault offset .trailingPoint
          else .item (.ok c) { s with offset := offset }) := by
  simp only [closeAt?, hcut, hmore, hoffset, Option.bind_eq_bind, Option.bind_some]
  exact (apply_ite some _ _ _).symm

theorem closeAt?_other {s : Cursor} {n offset : Nat} {d : Char} {behind more : List Char}
    (hcut : Text.dropBytes? n s.text = some behind) (hmore : dropBlanks behind = d :: more)
    (hoffset : Text.lead? s.text (d :: more) = some offset) (hd : d ≠ '.') (c : Clause) :
    s.closeAt? c n = some (s.fault offset .expectedPoint) := by
  simp only [closeAt?, hcut, hmore, Option.bind_eq_bind, Option.bind_some]
  split
  · rename_i hnil
    cases hnil
  · rename_i hpoint
    cases hpoint
    exact absurd rfl hd
  · rw [hoffset]
    rfl

theorem closeAt?_does {s : Cursor} (hs : s.failed = false) {front behind : List Char}
    (htext : s.text = front ++ behind) (c : Clause) :
    ∃ step, s.closeAt? c (utf8Length front) = some step ∧ s.Does (separator c behind) step := by
  obtain ⟨w, hw, hbehind⟩ := Text.exists_dropBlanks behind
  have hcut : Text.dropBytes? (utf8Length front) s.text = some behind := by
    rw [htext, Text.dropBytes?_append]
  cases hafter : dropBlanks behind with
  | nil =>
    have hblank : behind.all isBlank = true := Text.dropBlanks_eq_nil_iff.1 hafter
    refine ⟨.item (.ok c) { s with offset := utf8Length front }, ?_, ?_⟩
    · simp only [closeAt?, hcut, hafter, Option.bind_eq_bind, Option.bind_some]
    · -- The cursor stays in front of blanks, where there is no more clause either.
      rw [separator_blank c hblank]
      exact .clause ⟨hs, hcut⟩ (by rw [clauses_of_blank hblank, clauses_of_blank rfl])
  | cons d more =>
    have hparts : s.text = (front ++ w) ++ d :: more := by
      rw [htext, List.append_assoc, ← hafter, ← hbehind]
    by_cases hd : d = '.'
    · subst hd
      have hmore : s.text = (front ++ w ++ ['.']) ++ more := by
        rw [hparts, List.append_assoc _ ['.'] more, List.cons_append, List.nil_append]
      have hoffset : Text.lead? s.text more = some (utf8Length (front ++ w ++ ['.'])) := by
        rw [hmore, Text.lead?_append]
      have hcut' : Text.dropBytes? (utf8Length (front ++ w ++ ['.'])) s.text = some more := by
        rw [hmore, Text.dropBytes?_append]
      refine ⟨_, closeAt?_point hcut hafter hoffset c, ?_⟩
      rw [separator_of_point c hafter]
      split
      · exact .fault hmore
      · exact .clause ⟨hs, hcut'⟩ rfl
    · have hoffset : Text.lead? s.text (d :: more) = some (utf8Length (front ++ w)) := by
        rw [hparts, Text.lead?_append]
      refine ⟨_, closeAt?_other hcut hafter hoffset hd c, ?_⟩
      rw [separator_of_other c hafter hd]
      exact .fault hparts

theorem openAt?_does {s : Cursor} (hs : s.failed = false) {front lead inner : List Char}
    (htext : s.text = front ++ (lead ++ '(' :: inner)) (name : List Char) :
    ∃ step, s.openAt? name (utf8Length front) (utf8Length lead) (lead ++ '(' :: inner) = some step
      ∧ s.Does (match inner.dropWhile (· != ')') with
        | [] => .fault .unclosed ('(' :: inner)
        | _ :: rest => separator ⟨name, inner.takeWhile (· != ')')⟩ rest) step := by
  have hskip : ('(' :: inner).dropWhile (· != ')') = inner.dropWhile (· != ')') :=
    List.dropWhile_cons_of_pos (by decide)
  simp only [openAt?, Text.dropBytes?_append, Option.bind_eq_bind, Option.bind_some]
  cases hclose : inner.dropWhile (· != ')') with
  | nil =>
    rw [Text.offsetOf?_eq_none (hskip.trans hclose), ← Text.utf8Length_append]
    exact ⟨_, rfl, .fault (by rw [htext, List.append_assoc])⟩
  | cons closing behind =>
    obtain ⟨rfl, hinner⟩ := Text.eq_append_of_dropWhile_ne hclose
    rw [Text.offsetOf?_eq_some (hskip.trans hclose), List.takeWhile_cons_of_pos (by decide)]
    generalize inner.takeWhile (· != ')') = body at hinner ⊢
    subst hinner
    -- All offsets are the lengths, in bytes, of the texts that have been passed.
    have hopened : utf8Length lead + 1 = utf8Length (lead ++ ['(']) := by
      rw [Text.utf8Length_append]
      rfl
    have hclosed : utf8Length lead + utf8Length ('(' :: body)
        = utf8Length (lead ++ ['(']) + utf8Length body := by
      rw [← Text.utf8Length_append, ← Text.utf8Length_append, List.append_assoc]
      rfl
    have hbody : Text.cutBytes? (utf8Length lead + 1) (utf8Length lead + utf8Length ('(' :: body))
        (lead ++ '(' :: (body ++ ')' :: behind)) = some body := by
      rw [hopened, hclosed, ← Text.cutBytes?_append (lead ++ ['(']) body (')' :: behind),
        List.append_assoc lead]
      rfl
    have hend : utf8Length front + utf8Length lead + utf8Length ('(' :: body) + 1
        = utf8Length (front ++ lead ++ '(' :: body ++ [')']) := by
      simp only [Text.utf8Length_append]
      rfl
    simp only [hbody, Option.bind_some]
    rw [hend]
    refine closeAt?_does hs ?_ _
    rw [htext]
    simp only [List.append_assoc, List.cons_append, List.nil_append]

/-- **A cursor always has a next step,** and it does what stands in front of the rest. -/
theorem next_does {s : Cursor} {rest : List Char} (h : s.At rest) :
    ∃ step, s.next = some step ∧ s.Does (head rest) step := by
  obtain ⟨front, htext, hoffset⟩ := Text.dropBytes?_eq_some_iff.1 h.cut
  obtain ⟨w, hw, hrest⟩ := Text.exists_dropBlanks rest
  simp only [next, head, h.going, h.cut, Bool.false_eq_true, if_false, Option.bind_eq_bind,
    Option.bind_some]
  generalize dropBlanks rest = trimmed at hrest ⊢
  have hparts : s.text = (front ++ w) ++ trimmed := by rw [htext, hrest, List.append_assoc]
  have hlead : Text.lead? rest trimmed = some (utf8Length w) := by rw [hrest, Text.lead?_append]
  have hstart : s.offset + utf8Length w = utf8Length (front ++ w) := by
    rw [← hoffset, Text.utf8Length_append]
  simp only [hlead, Option.bind_some, hstart]
  -- The tests of a step, in its order: for the end, for a bracket and for the name.
  by_cases hempty : trimmed.isEmpty = true
  · exact ⟨_, if_pos hempty, by simpa only [if_pos hempty] using .stop⟩
  rw [if_neg hempty, if_neg hempty]
  cases hopen : trimmed.dropWhile (· != '(') with
  | nil =>
    rw [Text.offsetOf?_eq_none hopen]
    exact ⟨_, rfl, .fault hparts⟩
  | cons opening inner =>
    obtain ⟨rfl, htrimmed⟩ := Text.eq_append_of_dropWhile_ne hopen
    rw [Text.offsetOf?_eq_some hopen]
    generalize trimmed.takeWhile (· != '(') = lead at htrimmed ⊢
    subst htrimmed
    simp only [Text.takeBytes?_append, Option.bind_some]
    by_cases hname : ((trimChars lead).isEmpty || !(trimChars lead).all isNameChar) = true
    · exact ⟨_, if_pos hname, by simpa only [if_pos hname] using .fault hparts⟩
    · rw [if_neg hname, if_neg hname]
      exact openAt?_does h.going hparts _

/-- **What one step can do:** stop at the end, meet the fault, or yield the first clause. -/
theorem next_cases {s : Cursor} {rest : List Char} (h : s.At rest) :
    (s.next = some .stop ∧ clauses rest = ([], none))
      ∨ (∃ f front behind, s.text = front ++ behind
          ∧ s.next = some (s.fault (utf8Length front) f) ∧ clauses rest = ([], some (f, behind)))
      ∨ ∃ c rest' offset, At { s with offset := offset } rest'
          ∧ s.next = some (.item (.ok c) { s with offset := offset })
          ∧ clauses rest = (c :: (clauses rest').1, (clauses rest').2) := by
  obtain ⟨step, hnext, hdoes⟩ := next_does h
  generalize hhead : head rest = first at hdoes
  cases hdoes with
  | stop => exact .inl ⟨hnext, clauses_finished hhead⟩
  | fault htext => exact .inr (.inl ⟨_, _, _, htext, hnext, clauses_fault hhead⟩)
  | clause hat hrest =>
    rw [clauses_clause hhead, ← hrest]
    exact .inr (.inr ⟨_, _, _, hat, hnext, rfl⟩)

/-- The items of a split text. -/
def items (text : List Char) (r : List Clause × Option (ClauseFault × List Char)) : List Item :=
  r.1.map .ok ++ r.2.toList.map fun p => .error (utf8Length text - utf8Length p.2, p.1)

/-- A whole run, by induction on the clauses that it yields. -/
theorem yields_of_at {fault : Option (ClauseFault × List Char)} : ∀ {found : List Clause}
    {s : Cursor} {rest : List Char}, s.At rest → clauses rest = (found, fault) →
    s.Yields (items s.text (found, fault)) := by
  intro found
  induction found with
  | nil =>
    intro s rest h hclauses
    rcases next_cases h with ⟨hnext, hnone⟩ | ⟨f, front, behind, htext, hnext, hfault⟩
      | ⟨c, rest', offset, hat, hnext, hsome⟩
    · rw [hnone] at hclauses
      cases hclauses
      exact .stop hnext
    · rw [hfault] at hclauses
      cases hclauses
      have hitems : items s.text ([], some (f, behind)) = [.error (utf8Length front, f)] := by
        simp [items, htext]
      rw [hitems]
      -- A cursor that has met a fault stops.
      exact .item hnext (.stop rfl)
    · rw [hsome] at hclauses
      cases hclauses
  | cons c found ih =>
    intro s rest h hclauses
    rcases next_cases h with ⟨hnext, hnone⟩ | ⟨f, front, behind, htext, hnext, hfault⟩
      | ⟨c, rest', offset, hat, hnext, hsome⟩
    · rw [hnone] at hclauses
      cases hclauses
    · rw [hfault] at hclauses
      cases hclauses
    · rw [hsome] at hclauses
      cases hclauses
      exact .item hnext (ih hat rfl)

/-- **The cursor of a text yields its clauses and then its fault.** -/
theorem yields_start (text : List Char) : (start text).Yields (items text (clauses text)) :=
  yields_of_at ⟨rfl, by rw [start, Text.dropBytes?]⟩ rfl

theorem Yields.unique {s : Cursor} {is js : List Item} (h : s.Yields is) (h' : s.Yields js) :
    is = js := by
  induction h generalizing js with
  | stop hstop =>
    cases h' with
    | stop => rfl
    | item hitem => rw [hstop] at hitem; cases hitem
  | item hitem _ ih =>
    cases h' with
    | stop hstop => rw [hitem] at hstop; cases hstop
    | item hitem' hrest =>
      rw [hitem] at hitem'
      cases hitem'
      rw [ih hrest]

theorem items_eq_iff {text : List Char} {found : List Clause} :
    items text (clauses text) = found.map .ok ↔ Written found text := by
  rw [← clauses_eq_iff]
  obtain ⟨found', fault⟩ := clauses text
  constructor
  · intro h
    cases fault with
    | none =>
      have hmap : found'.map (Except.ok (ε := Nat × ClauseFault)) = found.map .ok := by
        simpa [items] using h
      rw [List.map_injective_iff.2 (fun _ _ he => Except.ok.inj he) hmap]
    | some p =>
      -- The last item of the one list is a fault.
      have hlast : (Except.error (utf8Length text - utf8Length p.2, p.1) : Item) ∈ found.map .ok := by
        rw [← h]
        simp [items]
      obtain ⟨c, _, hc⟩ := List.mem_map.1 hlast
      cases hc
  · rintro h
    cases h
    simp [items]

/-- The offsets of faults are places in the text. -/
theorem Yields.offset_of_fault {s : Cursor} {is : List Item} (h : s.Yields is) :
    ∀ {rest : List Char}, s.At rest → ∀ {offset : Nat} {f : ClauseFault},
      .error (offset, f) ∈ is → ∃ front behind, s.text = front ++ behind ∧ offset = utf8Length front := by
  induction h with
  | stop =>
    intro rest _ offset f hmem
    cases hmem
  | @item s s' i is hitem hyields ih =>
    intro rest hat offset f hmem
    -- A fault is the last item, so it is this one or comes of a later step.
    rcases next_cases hat with ⟨hnext, _⟩ | ⟨f', front, behind, htext, hnext, _⟩
      | ⟨c, rest', offset', hat', hnext, _⟩
    · rw [hitem] at hnext
      cases hnext
    · rw [hitem] at hnext
      cases hnext
      have hnone : is = [] := hyields.unique (.stop rfl)
      rw [hnone, List.mem_singleton] at hmem
      cases hmem
      exact ⟨front, behind, htext, rfl⟩
    · rw [hitem] at hnext
      cases hnext
      rcases List.mem_cons.1 hmem with hmem | hmem
      · cases hmem
      · exact ih hat' hmem

end Cursor

end Constraint

end MetricCube
