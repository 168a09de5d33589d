/-
  MetricCube.Text.Folding
  ───────────────────────
  **Trimming and folding are done once and for all.**  A trimmed text stays as it
  is when it is trimmed again, and a folded key when it is folded again:

      trim (trim s) = trim s          foldKey (foldKey s) = foldKey s

  For keys this rests on two facts about characters.  What lower-casing writes,
  lower-casing leaves alone, and it writes no blank where there was none.  For the
  runs of `caseRuns` both are checked over the whole table, run against run.
-/
import MetricCube.Text.Lowercase

namespace MetricCube.Text

/-! ## §1. Trimming. -/

/-- Neither the first nor the last character is a blank. -/
def IsTrimmed (cs : List Char) : Prop :=
  (∀ c, cs.head? = some c → isBlank c = false) ∧ ∀ c, cs.getLast? = some c → isBlank c = false

theorem dropBlanks_eq_self {cs : List Char} (h : ∀ c, cs.head? = some c → isBlank c = false) :
    dropBlanks cs = cs := by
  cases cs with
  | nil => rfl
  | cons c cs => simp [dropBlanks, h c rfl]

theorem trimChars_eq_self {cs : List Char} (h : IsTrimmed cs) : trimChars cs = cs := by
  have hfront : dropBlanks cs = cs := dropBlanks_eq_self h.1
  have hback : dropBlanks cs.reverse = cs.reverse :=
    dropBlanks_eq_self (by rw [List.head?_reverse]; exact h.2)
  show (dropBlanks (dropBlanks cs).reverse).reverse = cs
  rw [hfront, hback, List.reverse_reverse]

theorem isBlank_of_head?_dropBlanks {cs : List Char} {c : Char}
    (h : (dropBlanks cs).head? = some c) : isBlank c = false := by
  have hnot := List.head?_dropWhile_not isBlank cs
  rw [show cs.dropWhile isBlank = dropBlanks cs from rfl, h] at hnot
  exact hnot

theorem dropBlanksEnd_prefix (cs : List Char) : dropBlanksEnd cs <+: cs := by
  have h := List.reverse_prefix.2 (List.dropWhile_suffix (l := cs.reverse) isBlank)
  rwa [List.reverse_reverse] at h

theorem isTrimmed_trimChars (cs : List Char) : IsTrimmed (trimChars cs) := by
  constructor
  · -- What is dropped behind leaves the first character in its place.
    intro c hc
    obtain ⟨t, ht⟩ := dropBlanksEnd_prefix (dropBlanks cs)
    have hfirst : (dropBlanks cs).head? = some c := by
      rw [← ht, List.head?_append, show dropBlanksEnd (dropBlanks cs) = trimChars cs from rfl, hc]
      rfl
    exact isBlank_of_head?_dropBlanks hfirst
  · intro c hc
    have hlast : (dropBlanks (dropBlanks cs).reverse).head? = some c := by
      rw [← hc]
      exact List.getLast?_reverse.symm
    exact isBlank_of_head?_dropBlanks hlast

theorem trim_trim (s : String) : trim (trim s) = trim s := by
  unfold trim
  rw [String.toList_ofList, trimChars_eq_self (isTrimmed_trimChars _)]

/-! ## §2. The table of mappings. -/

namespace CaseRun

/-- The first code point that the run writes. -/
def low (r : CaseRun) : Nat :=
  ((r.first : Int) + r.shift).toNat

/-- The last code point that the run writes. -/
def high (r : CaseRun) : Nat :=
  ((r.last : Int) + r.shift).toNat

/-- The distance of neighbours in the run; none if there is only one letter. -/
def stride (r : CaseRun) : Nat :=
  if r.first = r.last then 0 else r.step

/-- The run holds none of the code points `lo, lo + step, …, hi`. -/
def avoids (lo hi step : Nat) (r : CaseRun) : Bool :=
  Nat.blt hi r.first || Nat.blt r.last lo
    || (Nat.ble (step % r.step) 0 && Nat.ble r.first lo
      && Nat.blt 0 ((lo - r.first) % r.step))

end CaseRun

/-- Blanks, ASCII capitals, and the two letters with a rule of their own, as ranges. -/
def unwritten : List (Nat × Nat) :=
  [(0x09, 0x0D), (0x20, 0x20), (0x41, 0x5A), (0x85, 0x85), (0xA0, 0xA0), (0x130, 0x130),
    (0x3A3, 0x3A3), (0x1680, 0x1680), (0x2000, 0x200A), (0x2028, 0x2029), (0x202F, 0x202F),
    (0x205F, 0x205F), (0x3000, 0x3000)]

/-- The run writes characters, and none that is unwritten or held by a run. -/
def CaseRun.isClean (r : CaseRun) : Bool :=
  (r.high < 0xD800 || (0xDFFF < r.low && r.high < 0x110000)) && 0 ≤ (r.first : Int) + r.shift
    && unwritten.all (fun e => Nat.blt r.high e.1 || Nat.blt e.2 r.low)
    && caseRuns.all (CaseRun.avoids r.low r.high r.stride)

theorem caseRuns_isClean : caseRuns.all CaseRun.isClean = true := by
  decide +kernel

theorem CaseRun.written_of_holds {r : CaseRun} {n : Nat} (h : r.holds n = true)
    (hpos : 0 ≤ (r.first : Int) + r.shift) :
    ∃ j, ((n : Int) + r.shift).toNat = r.low + j * r.stride
      ∧ ((n : Int) + r.shift).toNat ≤ r.high := by
  simp only [holds, Bool.and_eq_true, decide_eq_true_eq, beq_iff_eq] at h
  obtain ⟨⟨hfirst, hlast⟩, hmod⟩ := h
  refine ⟨(n - r.first) / r.step, ?_, by unfold high; omega⟩
  have hdiv := Nat.div_add_mod (n - r.first) r.step
  rw [hmod, Nat.mul_comm, Nat.add_zero] at hdiv
  unfold stride low
  split
  · omega
  · rw [hdiv]
    omega

theorem CaseRun.holds_of_avoids {r : CaseRun} {lo hi step n j : Nat}
    (h : r.avoids lo hi step = true) (hn : n = lo + j * step) (hle : n ≤ hi) :
    r.holds n = false := by
  have hlo : lo ≤ n := by omega
  simp only [avoids, Bool.or_eq_true, Bool.and_eq_true, Nat.blt_eq, Nat.ble_eq] at h
  simp only [holds, Bool.and_eq_false_iff, decide_eq_false_iff_not, beq_eq_false_iff_ne]
  rcases h with (h | h) | ⟨⟨hstep, hfirst⟩, hmod⟩
  · exact Or.inl (Or.inl (by omega))
  · exact Or.inl (Or.inr (by omega))
  · -- The distances to the run's first letter agree modulo its step.
    refine Or.inr ?_
    obtain ⟨q, hq⟩ := Nat.dvd_of_mod_eq_zero (Nat.le_zero.1 hstep)
    have hsub : n - r.first = lo - r.first + r.step * (j * q) := by
      rw [hn, hq]
      have hcomm : j * (r.step * q) = r.step * (j * q) := by
        rw [← Nat.mul_assoc, Nat.mul_comm j, Nat.mul_assoc]
      omega
    rw [hsub, Nat.add_mul_mod_self_left]
    omega

/-! ## §3. What lower-casing writes. -/

/-- Lower-casing leaves the character alone, wherever it stands. -/
def IsFolded (c : Char) : Prop :=
  c.toNat ≠ 0x3A3 ∧ c.toNat ≠ 0x130 ∧ lowerOne c = c

theorem toNat_ofNat {n : Nat} (h : n < 0xD800 ∨ 0xDFFF < n ∧ n < 0x110000) :
    (Char.ofNat n).toNat = n := by
  have hvalid : n.isValidChar := h
  rw [Char.ofNat, dif_pos hvalid]
  rfl

/-- A character outside the unwritten ranges that no run holds is left alone and no blank. -/
theorem folded_of_not_unwritten {c : Char}
    (h : ∀ e ∈ unwritten, c.toNat < e.1 ∨ e.2 < c.toNat)
    (hruns : ∀ r ∈ caseRuns, r.holds c.toNat = false) : IsFolded c ∧ isBlank c = false := by
  simp only [unwritten, List.forall_mem_cons] at h
  have hblank : isBlank c = false := by
    simp only [isBlank, Bool.or_eq_false_iff, Bool.and_eq_false_iff, decide_eq_false_iff_not,
      beq_eq_false_iff_ne]
    omega
  have hascii : ¬ (0x41 ≤ c.toNat ∧ c.toNat ≤ 0x5A) := by omega
  have hfind : caseRuns.find? (·.holds c.toNat) = none := by
    rw [List.find?_eq_none]
    intro r hr
    simp [hruns r hr]
  refine ⟨⟨by omega, by omega, ?_⟩, hblank⟩
  simp [lowerOne, hfind, hascii]

/-- What a run writes is left alone and no blank. -/
theorem folded_of_holds {r : CaseRun} (hr : r ∈ caseRuns) {n : Nat} (h : r.holds n = true) :
    IsFolded (Char.ofNat (n + r.shift).toNat)
      ∧ isBlank (Char.ofNat (n + r.shift).toNat) = false := by
  have hclean := List.all_eq_true.1 caseRuns_isClean r hr
  simp only [CaseRun.isClean, Bool.and_eq_true, Bool.or_eq_true, decide_eq_true_eq] at hclean
  obtain ⟨⟨⟨hvalid, hpos⟩, hunwritten⟩, havoids⟩ := hclean
  obtain ⟨j, hj, hle⟩ := CaseRun.written_of_holds h hpos
  have hcode : (Char.ofNat (n + r.shift).toNat).toNat = (n + r.shift).toNat :=
    toNat_ofNat (by omega)
  refine folded_of_not_unwritten ?_ ?_
  · intro e he
    have hout := List.all_eq_true.1 hunwritten e he
    simp only [Bool.or_eq_true, Nat.blt_eq] at hout
    rw [hcode]
    omega
  · intro q hq
    rw [hcode]
    exact CaseRun.holds_of_avoids (List.all_eq_true.1 havoids q hq) hj hle

theorem folded_lowerOne {c : Char} (h₁ : c.toNat ≠ 0x3A3) (h₂ : c.toNat ≠ 0x130) :
    IsFolded (lowerOne c) ∧ (isBlank c = false → isBlank (lowerOne c) = false) := by
  -- Letters by arithmetic, other characters by the table of runs.
  by_cases hascii : c.toNat < 0x80
  · by_cases hupper : 0x41 ≤ c.toNat ∧ c.toNat ≤ 0x5A
    · have hcode : (Char.ofNat (c.toNat + 32)).toNat = c.toNat + 32 := toNat_ofNat (by omega)
      have hlower : lowerOne c = Char.ofNat (c.toNat + 32) := by
        simp [lowerOne, hascii, hupper]
      have hlower' : lowerOne (Char.ofNat (c.toNat + 32)) = Char.ofNat (c.toNat + 32) := by
        simp only [lowerOne, hcode]
        rw [if_pos (by omega), if_neg (by simp; omega)]
      rw [hlower]
      refine ⟨⟨by omega, by omega, hlower'⟩, fun _ => ?_⟩
      simp only [isBlank, hcode, Bool.or_eq_false_iff, Bool.and_eq_false_iff,
        decide_eq_false_iff_not, beq_eq_false_iff_ne]
      omega
    · have hlower : lowerOne c = c := by
        simp [lowerOne, hascii, hupper]
      rw [hlower]
      exact ⟨⟨h₁, h₂, hlower⟩, id⟩
  · cases hfind : caseRuns.find? (·.holds c.toNat) with
    | none =>
      have hlower : lowerOne c = c := by simp [lowerOne, hascii, hfind]
      rw [hlower]
      exact ⟨⟨h₁, h₂, hlower⟩, id⟩
    | some r =>
      have hlower : lowerOne c = Char.ofNat (c.toNat + r.shift).toNat := by
        simp [lowerOne, hascii, hfind]
      have hholds : r.holds c.toNat = true :=
        List.find?_some (p := fun q : CaseRun => q.holds c.toNat) hfind
      have hr := folded_of_holds (List.mem_of_find?_eq_some hfind) hholds
      rw [hlower]
      exact ⟨hr.1, fun _ => hr.2⟩

/-- Whatever stands around it, a character is written as folded ones, without a blank unless it
    is one. -/
theorem folded_lowerAt {before after : List Char} {c d : Char} (h : d ∈ lowerAt before c after) :
    IsFolded d ∧ (isBlank c = false → isBlank d = false) := by
  unfold lowerAt at h
  split at h
  · rw [List.mem_singleton] at h
    subst h
    unfold lowerSigma
    split <;> exact ⟨⟨by decide, by decide, by decide +kernel⟩, fun _ => by decide⟩
  · split at h
    · simp only [List.mem_cons, List.not_mem_nil, or_false] at h
      rcases h with rfl | rfl <;>
        exact ⟨⟨by decide, by decide, by decide +kernel⟩, fun _ => by decide⟩
    · rename_i h₁ h₂
      rw [List.mem_singleton] at h
      subst h
      exact folded_lowerOne h₁ h₂

/-! ## §4. Folding keys. -/

theorem folded_lowerFrom {cs : List Char} : ∀ (before : List Char),
    ∀ d ∈ lowerFrom before cs, IsFolded d := by
  induction cs with
  | nil => intro before d h; cases h
  | cons c cs ih =>
    intro before d h
    rcases List.mem_append.1 h with h | h
    · exact (folded_lowerAt h).1
    · exact ih _ d h

theorem lowerFrom_eq_self {cs : List Char} (h : ∀ c ∈ cs, IsFolded c) :
    ∀ before, lowerFrom before cs = cs := by
  induction cs with
  | nil => intro before; rfl
  | cons c cs ih =>
    intro before
    obtain ⟨h₁, h₂, h₃⟩ := h c List.mem_cons_self
    have hc : lowerAt before c cs = [c] := by simp [lowerAt, h₁, h₂, h₃]
    rw [lowerFrom, hc, ih fun d hd => h d (List.mem_cons_of_mem _ hd)]
    rfl

theorem lowerAt_ne_nil (before : List Char) (c : Char) (after : List Char) :
    lowerAt before c after ≠ [] := by
  unfold lowerAt
  split
  · exact List.cons_ne_nil _ _
  · split <;> exact List.cons_ne_nil _ _

theorem head?_lowerFrom {cs before : List Char} {d : Char}
    (h : (lowerFrom before cs).head? = some d) :
    ∃ c after, cs.head? = some c ∧ d ∈ lowerAt before c after := by
  cases cs with
  | nil => cases h
  | cons c cs =>
    refine ⟨c, cs, rfl, ?_⟩
    obtain ⟨e, es, hes⟩ := List.exists_cons_of_ne_nil (lowerAt_ne_nil before c cs)
    rw [lowerFrom, hes] at h
    cases h
    rw [hes]
    exact List.mem_cons_self

theorem getLast?_lowerFrom {cs : List Char} : ∀ {before : List Char} {d : Char},
    (lowerFrom before cs).getLast? = some d →
    ∃ c before' after, cs.getLast? = some c ∧ d ∈ lowerAt before' c after := by
  induction cs with
  | nil => intro before d h; cases h
  | cons c cs ih =>
    intro before d h
    cases cs with
    | nil =>
      refine ⟨c, before, [], rfl, ?_⟩
      rw [lowerFrom, lowerFrom, List.append_nil] at h
      exact List.mem_of_getLast? h
    | cons e cs =>
      have hne : lowerFrom (c :: before) (e :: cs) ≠ [] := by
        rw [lowerFrom]
        exact List.append_ne_nil_of_left_ne_nil (lowerAt_ne_nil _ _ _) _
      have hlast : (lowerFrom (c :: before) (e :: cs)).getLast? = some d := by
        rw [lowerFrom, List.getLast?_append, List.getLast?_eq_some_getLast hne] at h
        rwa [List.getLast?_eq_some_getLast hne]
      obtain ⟨c', before', after, hc', hd⟩ := ih hlast
      exact ⟨c', before', after, by simpa using hc', hd⟩

theorem isTrimmed_lowerFrom {cs before : List Char} (h : IsTrimmed cs) :
    IsTrimmed (lowerFrom before cs) := by
  constructor
  · intro d hd
    obtain ⟨c, after, hc, hmem⟩ := head?_lowerFrom hd
    exact (folded_lowerAt hmem).2 (h.1 c hc)
  · intro d hd
    obtain ⟨c, before', after, hc, hmem⟩ := getLast?_lowerFrom hd
    exact (folded_lowerAt hmem).2 (h.2 c hc)

/-- **Folding a key twice is folding it once.** -/
theorem foldKey_foldKey (s : String) : foldKey (foldKey s) = foldKey s := by
  have htrim : trimChars (lowerFrom [] (trimChars s.toList)) = lowerFrom [] (trimChars s.toList) :=
    trimChars_eq_self (isTrimmed_lowerFrom (isTrimmed_trimChars _))
  have hlower := lowerFrom_eq_self (@folded_lowerFrom (trimChars s.toList) []) []
  simp only [foldKey, lowercase, trim, String.toList_ofList]
  rw [htrim, hlower]

end MetricCube.Text
