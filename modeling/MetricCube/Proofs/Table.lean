/-
  MetricCube.Proofs.Table
  ───────────────────────
  **What ordered lists and tables hold.**  `distinct` lists the members of a list,
  each once and in ascending order, and is the only such list; `sortOn` rearranges
  a list in ascending order of keys.  A table is described by `get?`:

    • `get?_insert`, `get?_union`, `get?_restrict` say what each operation holds;
    • `get?_insertAll_last`: of several pairs with one key the last one is kept;
    • `ext_get?`: tables that agree under every key are equal.
-/
import Mathlib
import MetricCube.Ordered
import MetricCube.Table

namespace MetricCube

/-! ## §1. Distinct members in ascending order. -/

namespace Ordered

section Distinct

variable {α : Type} [LT α] [DecidableLT α] [DecidableEq α]

theorem mem_insertDistinct {a b : α} {bs : List α} :
    b ∈ insertDistinct a bs ↔ b = a ∨ b ∈ bs := by
  induction bs with
  | nil => simp [insertDistinct]
  | cons c bs ih =>
    unfold insertDistinct
    split
    · simp
    · split
      · rename_i _ hac
        simp [hac]
      · rw [List.mem_cons, ih, List.mem_cons]
        exact or_left_comm

@[simp] theorem mem_distinct {b : α} {as : List α} : b ∈ distinct as ↔ b ∈ as := by
  induction as with
  | nil => simp [distinct]
  | cons a as ih =>
    show b ∈ insertDistinct a (distinct as) ↔ _
    rw [mem_insertDistinct, ih, List.mem_cons]

theorem length_distinct_le (as : List α) : (distinct as).length ≤ as.length := by
  have hinsert : ∀ (a : α) (bs : List α), (insertDistinct a bs).length ≤ bs.length + 1 := by
    intro a bs
    induction bs with
    | nil => simp [insertDistinct]
    | cons b bs ih =>
      unfold insertDistinct
      split
      · simp
      · split
        · simp
        · simpa using ih
  induction as with
  | nil => exact le_rfl
  | cons a as ih => exact (hinsert a _).trans (Nat.succ_le_succ ih)

variable [IsTrans α (· < ·)] [Std.Trichotomous fun a b : α => a < b]

theorem ascending_insertDistinct {a : α} {bs : List α} (h : bs.Pairwise (· < ·)) :
    (insertDistinct a bs).Pairwise (· < ·) := by
  induction bs with
  | nil => exact List.pairwise_singleton _ _
  | cons c bs ih =>
    unfold insertDistinct
    split
    · rename_i hac
      refine List.Pairwise.cons ?_ h
      intro d hd
      rcases List.mem_cons.1 hd with rfl | hd
      · exact hac
      · exact IsTrans.trans _ _ _ hac (List.rel_of_pairwise_cons h hd)
    · rename_i hac
      split
      · exact h
      · rename_i hne
        -- Neither less nor equal, so `a` belongs somewhere after `c`.
        refine List.Pairwise.cons ?_ (ih h.of_cons)
        intro d hd
        rcases mem_insertDistinct.1 hd with rfl | hd
        · exact ((trichotomous_of (· < ·) d c).resolve_left hac).resolve_left hne
        · exact List.rel_of_pairwise_cons h hd

theorem ascending_distinct (as : List α) : (distinct as).Pairwise (· < ·) := by
  induction as with
  | nil => exact List.Pairwise.nil
  | cons a as ih => exact ascending_insertDistinct ih

/-- **Two lists have the same different members exactly if they have the same members.** -/
theorem distinct_eq_iff [Std.Antisymm fun a b : α => a < b] [Std.Irrefl fun a b : α => a < b]
    {as bs : List α} : distinct as = distinct bs ↔ ∀ a, a ∈ as ↔ a ∈ bs := by
  constructor
  · intro h a
    rw [← mem_distinct, h, mem_distinct]
  · intro h
    refine List.Pairwise.eq_of_mem_iff (ascending_distinct as) (ascending_distinct bs) fun a => ?_
    rw [mem_distinct, mem_distinct, h a]

/-- The different members do not depend on the order of a list. -/
theorem distinct_of_perm [Std.Antisymm fun a b : α => a < b] [Std.Irrefl fun a b : α => a < b]
    {as bs : List α} (h : as.Perm bs) : distinct as = distinct bs :=
  distinct_eq_iff.2 fun _ => h.mem_iff

end Distinct

/-! ## §2. Sorted lists. -/

section Sorting

variable {α : Type}

theorem perm_insertWith (le : α → α → Bool) (a : α) (bs : List α) :
    (insertWith le a bs).Perm (a :: bs) := by
  induction bs with
  | nil => exact List.Perm.refl _
  | cons b bs ih =>
    unfold insertWith
    split
    · exact List.Perm.refl _
    · exact (ih.cons b).trans (List.Perm.swap a b bs)

theorem perm_sortWith (le : α → α → Bool) (as : List α) : (sortWith le as).Perm as := by
  induction as with
  | nil => exact List.Perm.refl _
  | cons a as ih => exact (perm_insertWith le a _).trans (ih.cons a)

theorem perm_sortOn (key : α → Nat) (as : List α) : (sortOn key as).Perm as :=
  perm_sortWith _ as

variable {le : α → α → Bool}

theorem pairwise_insertWith (total : ∀ a b, le a b = false → le b a = true)
    (trans : ∀ a b c, le a b = true → le b c = true → le a c = true) {a : α} {bs : List α}
    (h : bs.Pairwise fun x y => le x y = true) :
    (insertWith le a bs).Pairwise fun x y => le x y = true := by
  induction bs with
  | nil => exact List.pairwise_singleton _ _
  | cons b bs ih =>
    unfold insertWith
    split
    · rename_i hab
      refine List.Pairwise.cons (fun c hc => ?_) h
      rcases List.mem_cons.1 hc with rfl | hc
      · exact hab
      · exact trans _ _ _ hab (List.rel_of_pairwise_cons h hc)
    · rename_i hab
      have hba : le b a = true := total _ _ (Bool.eq_false_iff.2 hab)
      refine List.Pairwise.cons (fun c hc => ?_) (ih h.of_cons)
      rcases List.mem_cons.1 ((perm_insertWith le a bs).mem_iff.1 hc) with rfl | hc
      · exact hba
      · exact List.rel_of_pairwise_cons h hc

/-- Sorting by a linear comparison gives a sorted list. -/
theorem pairwise_sortWith (total : ∀ a b, le a b = false → le b a = true)
    (trans : ∀ a b c, le a b = true → le b c = true → le a c = true) (as : List α) :
    (sortWith le as).Pairwise fun x y => le x y = true := by
  induction as with
  | nil => exact List.Pairwise.nil
  | cons a as ih => exact pairwise_insertWith total trans ih

theorem ascending_sortOn (key : α → Nat) (as : List α) :
    (sortOn key as).Pairwise fun x y => key x ≤ key y := by
  refine (pairwise_sortWith ?_ ?_ as).imp of_decide_eq_true
  · intro a b h
    exact decide_eq_true (not_le.1 (of_decide_eq_false h)).le
  · intro a b c hab hbc
    exact decide_eq_true ((of_decide_eq_true hab).trans (of_decide_eq_true hbc))

/-- Sorting by a text: `a` may stand in front of `b` unless the text of `b` is smaller. -/
theorem ascending_sortWith_text (key : α → String) (as : List α) :
    (sortWith (fun a b => !decide (key b < key a)) as).Pairwise fun x y => key x ≤ key y := by
  have hle : ∀ {a b : α}, (!decide (key b < key a)) = true ↔ key a ≤ key b := by
    intro a b
    rw [Bool.not_eq_true', decide_eq_false_iff_not, not_lt]
  refine (pairwise_sortWith ?_ ?_ as).imp hle.1
  · intro a b h
    have hlt : key b < key a := by simpa using h
    exact hle.2 hlt.le
  · intro a b c hab hbc
    exact hle.2 ((hle.1 hab).trans (hle.1 hbc))

end Sorting

end Ordered

/-! ## §3. Looking up in a list of pairs. -/

section LastUnder

variable {β : Type}

/-- The value of the last pair with the key. -/
def lastUnder (key : String) (pairs : List (String × β)) : Option β :=
  (pairs.reverse.find? fun e => decide (e.1 = key)).map Prod.snd

/-- The first pair counts if no later one has its key. -/
theorem lastUnder_cons (key : String) (e : String × β) (pairs : List (String × β)) :
    lastUnder key (e :: pairs)
      = (lastUnder key pairs).or (if e.1 = key then some e.2 else none) := by
  unfold lastUnder
  rw [List.reverse_cons, List.find?_append, Option.map_or]
  by_cases hkey : e.1 = key
  · simp [hkey]
  · simp [hkey]

theorem mem_of_lastUnder {key : String} {value : β} {pairs : List (String × β)}
    (h : lastUnder key pairs = some value) : (key, value) ∈ pairs := by
  obtain ⟨e, he, hvalue⟩ := Option.map_eq_some_iff.1 h
  have hmem : e ∈ pairs := List.mem_reverse.1 (List.mem_of_find?_eq_some he)
  have hkey : e.1 = key := by simpa using List.find?_some he
  rw [← hkey, ← hvalue]
  exact hmem

end LastUnder

/-! ## §4. Looking up in a table. -/

namespace Table

variable {β : Type}

theorem find?_insertEntry (key other : String) (value : β) (es : List (String × β)) :
    find? other (insertEntry key value es) = if other = key then some value else find? other es := by
  induction es with
  | nil =>
    unfold insertEntry find?
    simp [find?, eq_comm]
  | cons e es ih =>
    unfold insertEntry
    -- An entry goes before the first greater key, so it is met before the rest is looked at.
    by_cases hother : other = key
    · subst hother
      split
      · simp [find?]
      · split
        · simp [find?]
        · rename_i hne
          simp [find?, Ne.symm hne, ih]
    · split
      · simp [find?, Ne.symm hother]
      · split
        · rename_i heq
          simp [find?, ← heq, Ne.symm hother]
        · simp [find?, hother, ih]

@[simp] theorem get?_insert (t : Table β) (key other : String) (value : β) :
    (t.insert key value).get? other = if other = key then some value else t.get? other :=
  find?_insertEntry key other value t.entries

@[simp] theorem get?_empty (key : String) : (empty : Table β).get? key = none := rfl

theorem find?_eq_some_iff {es : List (String × β)} (h : es.Pairwise fun a b => a.1 < b.1)
    {key : String} {value : β} : find? key es = some value ↔ (key, value) ∈ es := by
  induction es with
  | nil => simp [find?]
  | cons e es ih =>
    have hlt : ∀ d ∈ es, e.1 < d.1 := fun d hd => List.rel_of_pairwise_cons h hd
    unfold find?
    split
    · rename_i heq
      subst heq
      constructor
      · intro hv
        cases hv
        exact List.mem_cons_self
      · intro hmem
        rcases List.mem_cons.1 hmem with heq | hmem
        · rw [← heq]
        · -- Later keys are greater, so the key does not come again.
          exact absurd (hlt _ hmem) (lt_irrefl _)
    · rename_i hne
      rw [ih h.of_cons, List.mem_cons]
      constructor
      · exact Or.inr
      · rintro (heq | hmem)
        · exact absurd (congrArg Prod.fst heq).symm hne
        · exact hmem

theorem get?_eq_some_iff {t : Table β} {key : String} {value : β} :
    t.get? key = some value ↔ (key, value) ∈ t.entries :=
  find?_eq_some_iff t.ascending

theorem mem_keys {t : Table β} {key : String} : key ∈ t.keys ↔ ∃ value, t.get? key = some value := by
  simp only [keys, List.mem_map, get?_eq_some_iff]
  constructor
  · rintro ⟨e, he, rfl⟩
    exact ⟨e.2, he⟩
  · rintro ⟨value, h⟩
    exact ⟨_, h, rfl⟩

theorem ascending_keys (t : Table β) : t.keys.Pairwise (· < ·) :=
  List.pairwise_map.2 t.ascending

/-- **Tables that agree under every key are equal.** -/
theorem ext_get? {s t : Table β} (h : ∀ key, s.get? key = t.get? key) : s = t := by
  apply ext_entries
  have hirrefl : Std.Irrefl fun a b : String × β => a.1 < b.1 := ⟨fun a => lt_irrefl a.1⟩
  have hantisymm : Std.Antisymm fun a b : String × β => a.1 < b.1 :=
    ⟨fun a b hab hba => absurd hab (lt_asymm hba)⟩
  refine List.Pairwise.eq_of_mem_iff s.ascending t.ascending ?_
  rintro ⟨key, value⟩
  rw [← get?_eq_some_iff, ← get?_eq_some_iff, h key]

/-! ## §5. Several entries at once. -/

theorem find?_eq_none {key : String} {es : List (String × β)} (h : key ∉ es.map Prod.fst) :
    find? key es = none := by
  induction es with
  | nil => rfl
  | cons e es ih =>
    simp only [List.map_cons, List.mem_cons, not_or] at h
    rw [find?, if_neg (Ne.symm h.1), ih h.2]

theorem get?_insertAll {pairs : List (String × β)} : ∀ {t : Table β},
    (pairs.map Prod.fst).Nodup → ∀ key,
      (t.insertAll pairs).get? key = (find? key pairs).or (t.get? key) := by
  induction pairs with
  | nil => intro t _ key; rfl
  | cons e pairs ih =>
    intro t hnodup key
    obtain ⟨hnew, hrest⟩ := List.nodup_cons.1 hnodup
    show ((t.insert e.1 e.2).insertAll pairs).get? key = _
    rw [ih hrest key, get?_insert, find?]
    by_cases hkey : e.1 = key
    · -- The key of the first pair does not come again.
      subst hkey
      simp [find?_eq_none hnew]
    · simp [hkey, Ne.symm hkey]

/-- **Of several pairs with one key the last one is kept.** -/
theorem get?_insertAll_last (pairs : List (String × β)) : ∀ (t : Table β) (key : String),
    (t.insertAll pairs).get? key = (lastUnder key pairs).or (t.get? key) := by
  induction pairs with
  | nil => intro t key; rfl
  | cons e pairs ih =>
    intro t key
    show ((t.insert e.1 e.2).insertAll pairs).get? key = _
    rw [ih, get?_insert, lastUnder_cons, Option.or_assoc]
    by_cases hkey : e.1 = key
    · rw [if_pos hkey.symm, if_pos hkey, Option.some_or]
    · rw [if_neg (Ne.symm hkey), if_neg hkey, Option.none_or]

theorem get?_ofPairs (pairs : List (String × β)) (key : String) :
    (ofPairs pairs).get? key = lastUnder key pairs :=
  (get?_insertAll_last pairs empty key).trans Option.or_none

theorem nodup_keys (t : Table β) : (t.entries.map Prod.fst).Nodup :=
  (ascending_keys t).imp fun h => ne_of_lt h

/-- A table is made again from its entries. -/
theorem ofPairs_entries (t : Table β) : ofPairs t.entries = t :=
  ext_get? fun key => (get?_insertAll t.nodup_keys key).trans (Option.or_none)

@[simp] theorem get?_union (s t : Table β) (key : String) :
    (s.union t).get? key = (t.get? key).or (s.get? key) :=
  get?_insertAll t.nodup_keys key

@[simp] theorem get?_restrict (t : Table β) (keys : List String) (key : String) :
    (t.restrict keys).get? key = if key ∈ keys then t.get? key else none := by
  ext value
  have hmem : (t.restrict keys).get? key = some value
      ↔ (key, value) ∈ t.entries ∧ key ∈ keys := by
    rw [get?_eq_some_iff]
    simp [restrict, List.mem_filter]
  rw [hmem, ← get?_eq_some_iff]
  split
  · rename_i h
    simp [h]
  · rename_i h
    simp [h]

end Table

end MetricCube
