/-
  MetricCube.Proofs.Folding
  ─────────────────────────
  **What trimming and folding keep.**  Folding a key lower-cases it, and lower-casing writes
  letters only: a character in front of the small letters, such as a colon or a bracket, stands
  in a folded key only if it stood in the key (`mem_of_mem_foldKey`).  A text that holds more
  than blanks still does when it is trimmed or folded.
-/
import Mathlib
import MetricCube.Proofs.Clauses
import MetricCube.Text.Folding

namespace MetricCube.Text

/-! ## §1. Characters in front of the small letters. -/

theorem caseRuns_low : caseRuns.all (fun r => Nat.ble 0x61 r.low) = true := by
  decide +kernel

/-- Lower-casing writes nothing in front of the small letters that did not stand there. -/
theorem lowerOne_eq_self {c : Char} (h : (lowerOne c).toNat < 0x61) : lowerOne c = c := by
  revert h
  unfold lowerOne
  simp only
  split
  · split
    · rename_i hupper
      simp only [Bool.and_eq_true, decide_eq_true_eq] at hupper
      rw [toNat_ofNat (by omega)]
      intro h
      omega
    · intro _
      rfl
  · split
    · rename_i r hfind
      have hr := List.mem_of_find?_eq_some hfind
      have hholds : r.holds c.toNat = true :=
        List.find?_some (p := fun q : CaseRun => q.holds c.toNat) hfind
      simp only [CaseRun.holds, Bool.and_eq_true, decide_eq_true_eq] at hholds
      obtain ⟨⟨hfirst, hlast⟩, _⟩ := hholds
      -- The table leads to no character in front of the small letters, and to no surrogate.
      have hlow := List.all_eq_true.1 caseRuns_low r hr
      rw [Nat.ble_eq, CaseRun.low] at hlow
      have hclean := List.all_eq_true.1 caseRuns_isClean r hr
      simp only [CaseRun.isClean, Bool.and_eq_true, Bool.or_eq_true, decide_eq_true_eq] at hclean
      obtain ⟨⟨⟨hvalid, _⟩, _⟩, _⟩ := hclean
      unfold CaseRun.high CaseRun.low at hvalid
      rw [toNat_ofNat (by omega)]
      intro h
      omega
    · intro _
      rfl

theorem eq_of_mem_lowerAt {before after : List Char} {c d : Char} (h : d ∈ lowerAt before c after)
    (hd : d.toNat < 0x61) : d = c := by
  unfold lowerAt at h
  split at h
  · rw [List.mem_singleton] at h
    subst h
    unfold lowerSigma at hd
    split at hd <;> exact absurd hd (by decide)
  · split at h
    · simp only [List.mem_cons, List.not_mem_nil, or_false] at h
      rcases h with rfl | rfl <;> exact absurd hd (by decide)
    · rw [List.mem_singleton] at h
      subst h
      exact lowerOne_eq_self hd

theorem mem_of_mem_lowerFrom {cs : List Char} {d : Char} (hd : d.toNat < 0x61) :
    ∀ {before : List Char}, d ∈ lowerFrom before cs → d ∈ cs := by
  induction cs with
  | nil => intro before h; cases h
  | cons c cs ih =>
    intro before h
    rcases List.mem_append.1 h with h | h
    · rw [eq_of_mem_lowerAt h hd]
      exact List.mem_cons_self
    · exact List.mem_cons_of_mem _ (ih h)

theorem mem_of_mem_trimChars {cs : List Char} {c : Char} (h : c ∈ trimChars cs) : c ∈ cs := by
  obtain ⟨w, w', _, _, hcs⟩ := exists_trimChars cs
  rw [hcs]
  exact List.mem_append_left _ (List.mem_append_right _ h)

theorem mem_of_mem_foldKey {key : String} {c : Char} (hc : c.toNat < 0x61)
    (h : c ∈ (foldKey key).toList) : c ∈ key.toList := by
  rw [foldKey, lowercase, trim, String.toList_ofList, String.toList_ofList] at h
  exact mem_of_mem_trimChars (mem_of_mem_lowerFrom hc h)

/-! ## §2. Texts that hold more than blanks. -/

theorem not_blank_of_isTrimmed {cs : List Char} (h : IsTrimmed cs) (hne : cs ≠ []) :
    cs.all isBlank = false := by
  obtain ⟨c, cs, rfl⟩ := List.exists_cons_of_ne_nil hne
  rw [List.all_cons, h.1 c rfl, Bool.false_and]

theorem trimChars_ne_nil {cs : List Char} (h : cs.all isBlank = false) : trimChars cs ≠ [] := by
  intro hnil
  obtain ⟨w, w', hw, hw', hcs⟩ := exists_trimChars cs
  rw [hcs, hnil, List.append_nil, List.all_append, hw, hw'] at h
  cases h

theorem lowerFrom_ne_nil {cs : List Char} (h : cs ≠ []) (before : List Char) :
    lowerFrom before cs ≠ [] := by
  obtain ⟨c, cs, rfl⟩ := List.exists_cons_of_ne_nil h
  rw [lowerFrom]
  exact List.append_ne_nil_of_left_ne_nil (lowerAt_ne_nil _ _ _) _

theorem not_blank_trim {s : String} (h : s.toList.all isBlank = false) :
    (trim s).toList.all isBlank = false := by
  rw [trim, String.toList_ofList]
  exact not_blank_of_isTrimmed (isTrimmed_trimChars _) (trimChars_ne_nil h)

theorem not_blank_foldKey {key : String} (h : key.toList.all isBlank = false) :
    (foldKey key).toList.all isBlank = false := by
  rw [foldKey, lowercase, trim, String.toList_ofList, String.toList_ofList]
  exact not_blank_of_isTrimmed (isTrimmed_lowerFrom (isTrimmed_trimChars _))
    (lowerFrom_ne_nil (trimChars_ne_nil h) _)

end MetricCube.Text
