/-
  MetricCube.Proofs.Canonical
  ───────────────────────────
  **The canonical text of a value says what the value means.**  Two values mean the same if
  they differ in the order of object members only, at whatever depth (`Value.Same`).  The
  keys of an object are distinct (`Value.Proper`), so there is only one way to put its
  members in order:

      v.canonical = w.canonical   ↔   v.Same w

  The compact text of the canonical form can be read back, which gives the main statement,
  `text_canonical_eq_iff`.

  Numbers are the same if they are equal: `1` and `1.0` are different numbers, and so are
  `0.0` and `-0.0`.
-/
import Mathlib
import MetricCube.Proofs.Compact
import MetricCube.Proofs.Table

namespace MetricCube.Json

namespace Value

/-! ## §1. Values that mean the same. -/

mutual

/-- The values differ in the order of object members only. -/
def Same : Value → Value → Prop
  | .null, .null => True
  | .bool b, .bool c => b = c
  | .number m, .number n => m = n
  | .string s, .string t => s = t
  | .array vs, .array ws => SameItems vs ws
  | .object ms, .object ns => ∃ ns', ns'.Perm ns ∧ SameMembers ms ns'
  | _, _ => False

/-- Items that mean the same, one by one. -/
def SameItems : List Value → List Value → Prop
  | [], [] => True
  | v :: vs, w :: ws => v.Same w ∧ SameItems vs ws
  | _, _ => False

/-- Members with the same keys whose values mean the same, one by one. -/
def SameMembers : List (String × Value) → List (String × Value) → Prop
  | [], [] => True
  | (k, v) :: ms, (l, w) :: ns => (k = l ∧ v.Same w) ∧ SameMembers ms ns
  | _, _ => False

end

mutual

/-- No object repeats a key, at whatever depth. -/
def Proper : Value → Prop
  | .array items => ProperItems items
  | .object members => (members.map Prod.fst).Nodup ∧ ProperMembers members
  | _ => True

/-- Every item is proper. -/
def ProperItems : List Value → Prop
  | [] => True
  | v :: vs => v.Proper ∧ ProperItems vs

/-- The value of every member is proper. -/
def ProperMembers : List (String × Value) → Prop
  | [] => True
  | (_, v) :: ms => v.Proper ∧ ProperMembers ms

end

/-! ## §2. Parts of a value, as lists. -/

theorem canonicalItems_eq_map (vs : List Value) : canonicalItems vs = vs.map canonical := by
  induction vs with
  | nil => rfl
  | cons v vs ih => rw [canonicalItems, ih, List.map_cons]

theorem canonicalMembers_eq_map (ms : List (String × Value)) :
    canonicalMembers ms = ms.map fun m => (m.1, m.2.canonical) := by
  induction ms with
  | nil => rfl
  | cons m ms ih => rw [canonicalMembers, ih, List.map_cons]

theorem sameItems_iff {vs ws : List Value} : SameItems vs ws ↔ List.Forall₂ Same vs ws := by
  induction vs generalizing ws with
  | nil => cases ws <;> simp [SameItems]
  | cons v vs ih => cases ws <;> simp [SameItems, ih]

theorem sameMembers_iff {ms ns : List (String × Value)} :
    SameMembers ms ns ↔ List.Forall₂ (fun m n => m.1 = n.1 ∧ m.2.Same n.2) ms ns := by
  induction ms generalizing ns with
  | nil => cases ns <;> simp [SameMembers]
  | cons m ms ih => cases ns <;> simp [SameMembers, ih]

theorem properItems_iff {vs : List Value} : ProperItems vs ↔ ∀ v ∈ vs, v.Proper := by
  induction vs with
  | nil => simp [ProperItems]
  | cons v vs ih => simp [ProperItems, ih]

theorem properMembers_iff {ms : List (String × Value)} :
    ProperMembers ms ↔ ∀ m ∈ ms, m.2.Proper := by
  induction ms with
  | nil => simp [ProperMembers]
  | cons m ms ih => simp [ProperMembers, ih]

theorem itemNumbers_eq_flatMap (vs : List Value) : itemNumbers vs = vs.flatMap numbers := by
  induction vs with
  | nil => rfl
  | cons v vs ih => rw [itemNumbers, ih, List.flatMap_cons]

theorem memberNumbers_eq_flatMap (ms : List (String × Value)) :
    memberNumbers ms = ms.flatMap fun m => m.2.numbers := by
  induction ms with
  | nil => rfl
  | cons m ms ih => rw [memberNumbers, ih, List.flatMap_cons]

/-! ## §3. The canonical form. -/

/-- The comparison of members by key. -/
abbrev keyLe (m n : String × Value) : Bool := !decide (n.1 < m.1)

/-- Members with distinct keys have one order. -/
theorem sortWith_eq_iff_perm {ms ns : List (String × Value)} (hnodup : (ms.map Prod.fst).Nodup) :
    Ordered.sortWith keyLe ms = Ordered.sortWith keyLe ns ↔ ms.Perm ns := by
  have hms := Ordered.perm_sortWith keyLe ms
  have hns := Ordered.perm_sortWith keyLe ns
  constructor
  · intro h
    rw [h] at hms
    exact hms.symm.trans hns
  · intro hperm
    have hantisymm : ∀ m n, m ∈ Ordered.sortWith keyLe ms → n ∈ Ordered.sortWith keyLe ns →
        m.1 ≤ n.1 → n.1 ≤ m.1 → m = n := by
      intro m n hm hn hmn hnm
      exact List.inj_on_of_nodup_map hnodup (hms.mem_iff.1 hm)
        (hperm.mem_iff.2 (hns.mem_iff.1 hn)) (le_antisymm hmn hnm)
    exact List.Perm.eq_of_pairwise hantisymm (Ordered.ascending_sortWith_text Prod.fst ms)
      (Ordered.ascending_sortWith_text Prod.fst ns) (hms.trans (hperm.trans hns.symm))

section Pointwise

variable {α β : Type}

theorem map_eq_map_iff {f : α → β} {as bs : List α} :
    as.map f = bs.map f ↔ List.Forall₂ (fun a b => f a = f b) as bs := by
  rw [← List.forall₂_eq_eq_eq, List.forall₂_map_left_iff, List.forall₂_map_right_iff]

theorem perm_map_iff {f : α → β} {as : List α} {bs : List β} :
    bs.Perm (as.map f) ↔ ∃ as' : List α, as'.Perm as ∧ bs = as'.map f := by
  have hcomp := congrFun (congrFun (List.eq_map_comp_perm f) bs) as
  exact (iff_of_eq hcomp).symm.trans (exists_congr fun as' => and_comm)

theorem forall₂_congr {R S : α → β → Prop} {as : List α} {bs : List β}
    (h : ∀ a ∈ as, ∀ b, R a b ↔ S a b) : List.Forall₂ R as bs ↔ List.Forall₂ S as bs := by
  induction as generalizing bs with
  | nil => cases bs <;> simp
  | cons a as ih =>
    cases bs with
    | nil => simp
    | cons b bs =>
      rw [List.forall₂_cons, List.forall₂_cons, h a List.mem_cons_self,
        ih fun a ha => h a (List.mem_cons_of_mem _ ha)]

end Pointwise

/-- **Values have one canonical form exactly if they mean the same.** -/
theorem canonical_eq_iff {v w : Value} (hv : v.Proper) :
    v.canonical = w.canonical ↔ v.Same w := by
  induction v using induct generalizing w with
  | null => cases w <;> simp [canonical, Same]
  | bool b => cases w <;> simp [canonical, Same]
  | number n => cases w <;> simp [canonical, Same]
  | string s => cases w <;> simp [canonical, Same]
  | array vs ih =>
    cases w with
    | array ws =>
      have hvs := properItems_iff.1 hv
      rw [canonical, canonical, array.injEq, Same, canonicalItems_eq_map, canonicalItems_eq_map,
        map_eq_map_iff, sameItems_iff]
      exact forall₂_congr fun v hmem w => ih v hmem (hvs v hmem)
    | _ => simp [canonical, Same]
  | object ms ih =>
    cases w with
    | object ns =>
      obtain ⟨hnodup, hms⟩ := hv
      have hms := properMembers_iff.1 hms
      rw [canonical, canonical, object.injEq, Same, canonicalMembers_eq_map,
        canonicalMembers_eq_map, sortWith_eq_iff_perm (by simpa [Function.comp_def] using hnodup),
        perm_map_iff]
      -- Both sides rearrange the members of the second object to go with the first one's.
      refine exists_congr fun ns' => and_congr_right fun _ => ?_
      rw [map_eq_map_iff, sameMembers_iff]
      refine forall₂_congr fun m hmem n => ?_
      rw [Prod.mk.injEq, ih m hmem (hms m hmem)]
    | _ => simp [canonical, Same]

theorem Same.refl {v : Value} (hv : v.Proper) : v.Same v :=
  (canonical_eq_iff hv).1 rfl

/-- Putting members in order changes no number. -/
theorem perm_numbers_canonical (v : Value) : v.canonical.numbers.Perm v.numbers := by
  induction v using induct with
  | array vs ih =>
    rw [canonical, numbers, numbers, itemNumbers_eq_flatMap, itemNumbers_eq_flatMap,
      canonicalItems_eq_map, List.flatMap_map]
    exact List.Perm.flatMap_left vs ih
  | object ms ih =>
    rw [canonical, numbers, numbers, memberNumbers_eq_flatMap, memberNumbers_eq_flatMap,
      canonicalMembers_eq_map]
    refine ((Ordered.perm_sortWith keyLe _).flatMap_right _).trans ?_
    rw [List.flatMap_map]
    exact List.Perm.flatMap_left ms ih
  | _ => exact List.Perm.refl _

/-- **The canonical text of a value says what the value means,** if numbers are written apart. -/
theorem text_canonical_eq_iff {v w : Value} (hv : v.Proper)
    (hapart : WrittenApart v.numbers w.numbers) :
    v.canonical.text = w.canonical.text ↔ v.Same w := by
  rw [← canonical_eq_iff hv]
  refine ⟨fun h => eq_of_text_eq (hapart.mono ?_ ?_) h, congrArg text⟩
  · exact v.perm_numbers_canonical.subset
  · exact w.perm_numbers_canonical.subset

end Value

end MetricCube.Json
