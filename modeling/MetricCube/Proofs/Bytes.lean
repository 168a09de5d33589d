/-
  MetricCube.Proofs.Bytes
  ───────────────────────
  **Byte strings are taken apart from the front.**  Whatever has no fixed length enters
  a digest with its length in front.  As long as lengths fit 32 bits, a text can be read
  off bytes that start with it:

      text s ++ x = text t ++ y   →   s = t ∧ x = y

  `Legible` states this for any way of writing.  Texts are legible, and so are lists that
  are written with their number of members in front (`Legible.counted`).  A byte string of
  several sections is read section by section.

  Hexadecimal text loses nothing (`hex_injective`), so different bytes with one hash are a
  collision of the digest.
-/
import Mathlib
import MetricCube.Bytes
import MetricCube.Calendar.Date
import MetricCube.Digest.Sha256
import MetricCube.Text.Blank

namespace MetricCube

namespace Bytes

/-! ## §1. Words and texts. -/

theorem word32_injective {m n : Nat} (hm : m < 4294967296) (hn : n < 4294967296)
    (h : word32 m = word32 n) : m = n := by
  have hbyte : ∀ {a b : Nat}, a < 256 → b < 256 → a.toUInt8 = b.toUInt8 → a = b := by
    intro a b ha hb heq
    have hnat := congrArg UInt8.toNat heq
    have hna : a.toUInt8.toNat = a := UInt8.toNat_ofNat_of_lt' ha
    have hnb : b.toUInt8.toNat = b := UInt8.toNat_ofNat_of_lt' hb
    omega
  unfold word32 at h
  simp only [List.cons.injEq, and_true] at h
  obtain ⟨h₁, h₂, h₃, h₄⟩ := h
  have e₁ := hbyte (by omega) (by omega) h₁
  have e₂ := hbyte (by omega) (by omega) h₂
  have e₃ := hbyte (by omega) (by omega) h₃
  have e₄ := hbyte (by omega) (by omega) h₄
  omega

/-- Days are 32-bit numbers, so their bytes tell them apart. -/
theorem signed32_injective {d e : Date} (h : signed32 d.days = signed32 e.days) : d = e := by
  have hd := d.lower
  have hd' := d.upper
  have he := e.lower
  have he' := e.upper
  have hnat := word32_injective (by omega) (by omega) h
  exact Date.ext_days (by omega)

theorem length_signed32 (n : Int) : (signed32 n).length = 4 := rfl

theorem utf8Bytes_injective {s t : String} (h : Text.utf8Bytes s = Text.utf8Bytes t) : s = t := by
  unfold Text.utf8Bytes at h
  exact String.toByteArray_inj.1 (ByteArray.ext (Array.toList_inj.1 h))

/-- A text is known from its bytes if it is known how many bytes follow. -/
theorem text_append_inj {s t : String} {x y : List UInt8} (hlength : x.length = y.length)
    (h : text s ++ x = text t ++ y) : s = t ∧ x = y := by
  -- The length in front may wrap, so the end is cut off first.
  obtain ⟨htext, hrest⟩ := List.append_inj' h hlength
  have hbytes := List.append_inj htext (by simp [word32])
  exact ⟨utf8Bytes_injective hbytes.2, hrest⟩

/-! ## §2. Lengths that fit. -/

/-- The text is shorter than 2 ^ 32 bytes. -/
def Fits (s : String) : Prop :=
  (Text.utf8Bytes s).length < 4294967296

instance (s : String) : Decidable (Fits s) :=
  inferInstanceAs (Decidable (_ < _))

/-- The list is shorter than 2 ^ 32, and so is each of its texts. -/
def AllFit (ss : List String) : Prop :=
  ss.length < 4294967296 ∧ ∀ s ∈ ss, Fits s

instance (ss : List String) : Decidable (AllFit ss) :=
  inferInstanceAs (Decidable (_ ∧ _))

theorem length_utf8Bytes (s : String) : (Text.utf8Bytes s).length = s.utf8ByteSize := by
  simp [Text.utf8Bytes]

/-- Trimming makes no text longer. -/
theorem Fits.trim {s : String} (h : Fits s) : Fits (Text.trim s) := by
  obtain ⟨front, hfront⟩ : ∃ front, front ++ Text.dropBlanks s.toList = s.toList :=
    List.dropWhile_suffix (l := s.toList) Text.isBlank
  obtain ⟨back, hback⟩ : ∃ back, Text.trimChars s.toList ++ back = Text.dropBlanks s.toList := by
    have hprefix := List.reverse_prefix.2
      (List.dropWhile_suffix (l := (Text.dropBlanks s.toList).reverse) Text.isBlank)
    rwa [List.reverse_reverse] at hprefix
  have hparts : s = String.ofList front ++ (Text.trim s ++ String.ofList back) := by
    apply String.toList_inj.1
    simp [Text.trim, String.toList_append, hback, hfront]
  have hsize := congrArg String.utf8ByteSize hparts
  rw [String.utf8ByteSize_append, String.utf8ByteSize_append] at hsize
  unfold Fits at h ⊢
  rw [length_utf8Bytes] at h ⊢
  omega

/-! ## §3. Reading from the front. -/

variable {α β : Type}

/-- If bytes start with some `a` of the domain as written by `write`, then what `view` shows of
    `a` and the bytes behind it are known. -/
def Legible (domain : α → Prop) (write : α → List UInt8) (view : α → β) : Prop :=
  ∀ {a b : α} {x y : List UInt8}, domain a → domain b → write a ++ x = write b ++ y →
    view a = view b ∧ x = y

theorem legible_word32 : Legible (fun n => n < 4294967296) word32 id := by
  intro m n x y hm hn h
  obtain ⟨hword, hrest⟩ := List.append_inj h rfl
  exact ⟨word32_injective hm hn hword, hrest⟩

/-- **A text can be read off the bytes that start with it.** -/
theorem legible_text : Legible Fits text id := by
  intro s t x y hs ht h
  unfold text at h
  rw [List.append_assoc, List.append_assoc] at h
  obtain ⟨hlength, hrest⟩ := legible_word32 hs ht h
  obtain ⟨hbytes, hrest⟩ := List.append_inj hrest hlength
  exact ⟨utf8Bytes_injective hbytes, hrest⟩

namespace Legible

variable {domain : α → Prop} {write : α → List UInt8} {view : α → β}

theorem flatMap (h : Legible domain write view) : ∀ {as bs : List α} {x y : List UInt8},
    as.length = bs.length → (∀ a ∈ as, domain a) → (∀ b ∈ bs, domain b) →
    as.flatMap write ++ x = bs.flatMap write ++ y → as.map view = bs.map view ∧ x = y := by
  intro as
  induction as with
  | nil =>
    intro bs x y hlength _ _ heq
    have hbs : bs = [] := List.eq_nil_of_length_eq_zero hlength.symm
    subst hbs
    exact ⟨rfl, heq⟩
  | cons a as ih =>
    intro bs x y hlength has hbs heq
    cases bs with
    | nil => simp at hlength
    | cons b bs =>
      simp only [List.flatMap_cons, List.append_assoc] at heq
      obtain ⟨hview, hrest⟩ := h (has a List.mem_cons_self) (hbs b List.mem_cons_self) heq
      obtain ⟨hviews, hrest⟩ := ih (by simpa using hlength)
        (fun a ha => has a (List.mem_cons_of_mem _ ha))
        (fun b hb => hbs b (List.mem_cons_of_mem _ hb)) hrest
      exact ⟨by rw [List.map_cons, List.map_cons, hview, hviews], hrest⟩

/-- **A list is legible with its number of members in front,** if each member is. -/
theorem counted (h : Legible domain write view) :
    Legible (fun as : List α => as.length < 4294967296 ∧ ∀ a ∈ as, domain a)
      (fun as => word32 as.length ++ as.flatMap write) (List.map view) := by
  intro as bs x y has hbs heq
  rw [List.append_assoc, List.append_assoc] at heq
  obtain ⟨hlength, hrest⟩ := legible_word32 has.1 hbs.1 heq
  exact h.flatMap hlength has.2 hbs.2 hrest

end Legible

theorem legible_texts : Legible AllFit texts id := by
  intro ss ts x y hss hts h
  obtain ⟨hmap, hrest⟩ := legible_text.counted hss hts h
  rw [List.map_id, List.map_id] at hmap
  exact ⟨hmap, hrest⟩

/-! ## §4. Hexadecimal text. -/

theorem hexDigit_injective {m n : Nat} (hm : m < 16) (hn : n < 16)
    (h : hexDigit m = hexDigit n) : m = n := by
  have hall : ∀ m < 16, ∀ n < 16, hexDigit m = hexDigit n → m = n := by decide
  exact hall m hm n hn h

theorem hex_injective {x y : List UInt8} (h : hex x = hex y) : x = y := by
  have hchars := String.ofList_injective h
  clear h
  -- Two digits for each byte, the high half first.
  induction x generalizing y with
  | nil =>
    cases y with
    | nil => rfl
    | cons c y => simp [hexDigits] at hchars
  | cons b x ih =>
    cases y with
    | nil => simp [hexDigits] at hchars
    | cons c y =>
      simp only [List.flatMap_cons, hexDigits, List.nil_append, List.cons_append,
        List.cons.injEq] at hchars
      obtain ⟨hhigh, hlow, hrest⟩ := hchars
      have hb := b.toNat_lt
      have hc := c.toNat_lt
      have e₁ := hexDigit_injective (by omega) (by omega) hhigh
      have e₂ := hexDigit_injective (by omega) (by omega) hlow
      have hbc : b = c := UInt8.toNat_inj.1 (by omega)
      rw [hbc, ih hrest]

end Bytes

/-! ## §5. Digests. -/

namespace Digest.Sha256

/-- Two byte strings differ and have the same digest. -/
def Collide (x y : List UInt8) : Prop :=
  x ≠ y ∧ digest x = digest y

theorem hex_digest_eq_iff {x y : List UInt8} :
    Bytes.hex (digest x) = Bytes.hex (digest y) ↔ x = y ∨ Collide x y := by
  constructor
  · intro h
    by_cases hxy : x = y
    · exact .inl hxy
    · exact .inr ⟨hxy, Bytes.hex_injective h⟩
  · intro h
    rcases h with rfl | h
    · rfl
    · rw [h.2]

end Digest.Sha256

end MetricCube
