/-
  MetricCube.Proofs.Grammar
  ─────────────────────────
  **A grammar of written objects.**  The relations of this module read "`cs` starts with a written
  form of `a`, and `rest` follows it":

    • `Literal` and `StringAt` for strings, with every way to spell a character;
    • `Gap` for blanks, which may stand between any two tokens;
    • `ObjectAt V` for objects, whose values are written according to a relation `V`.

  The scanner takes up exactly what the grammar allows.  This is said of one kind of value at a
  time (`Scans V tree`): the scanner turns every text that `V` relates to `a` into the tree of
  `a`, and nothing else into such a tree.  Strings are scanned (`scans_string`), and so are
  objects of what is scanned (`Scans.object`).

  Main statements: `Scans.ofChars_eq_iff`, `objectAt_chars`.
-/
import Mathlib
import MetricCube.Json.Tree
import MetricCube.Proofs.Compact
import MetricCube.Text.Folding

namespace MetricCube.Json

variable {α : Type}

/-! ## §1. Strings. -/

/-- `cs` starts with a spelling of one piece of a string, and `rest` follows it. -/
inductive PieceAt : (cs : List Char) → Piece → (rest : List Char) → Prop
  | plain {c : Char} {rest : List Char} : 0x20 ≤ c.toNat → c ≠ '"' → c ≠ '\\' →
      PieceAt (c :: rest) (.char c) rest
  | short {e c : Char} {rest : List Char} : simpleEscape? e = some c →
      PieceAt ('\\' :: e :: rest) (.char c) rest
  | unit {a b c d : Char} {n : Nat} {rest : List Char} : hexUnit? a b c d = some n →
      PieceAt ('\\' :: 'u' :: a :: b :: c :: d :: rest) (.unit n) rest

/-- `cs` spells the characters of a string up to a closing quote, and `rest` follows the quote.
    A character beyond sixteen bits may be spelled by a pair of surrogates, and a surrogate
    stands in such pairs only. -/
inductive Literal : (cs content rest : List Char) → Prop
  | close {rest : List Char} : Literal ('"' :: rest) [] rest
  | char {cs cs' s rest : List Char} {c : Char} : PieceAt cs (.char c) cs' → Literal cs' s rest →
      Literal cs (c :: s) rest
  | code {cs cs' s rest : List Char} {n : Nat} : PieceAt cs (.unit n) cs' →
      isHighSurrogate n = false → isLowSurrogate n = false → Literal cs' s rest →
      Literal cs (Char.ofNat n :: s) rest
  | pair {cs cs' cs'' s rest : List Char} {n m : Nat} : PieceAt cs (.unit n) cs' →
      PieceAt cs' (.unit m) cs'' → isHighSurrogate n = true → isLowSurrogate m = true →
      Literal cs'' s rest →
      Literal cs (Char.ofNat (0x10000 + (n - 0xD800) * 0x400 + (m - 0xDC00)) :: s) rest

theorem scanPieces?_of_pieceAt {cs rest : List Char} {p : Piece} (h : PieceAt cs p rest) :
    scanPieces? cs = (scanPieces? rest).map fun r => (p :: r.1, r.2) := by
  cases h with
  | plain hlow hquote hslash => exact scanPieces?_plain hlow hquote hslash rest
  | short he =>
    refine scanPieces?_short (fun hu => ?_) he rest
    rw [hu, show simpleEscape? 'u' = none from rfl] at he
    cases he
  | unit hn =>
    rw [scanPieces?, hn]
    cases scanPieces? rest <;> rfl

/-- What is scanned is the closing quote, or a piece in front of what is scanned further on. -/
theorem scanPieces?_cases {cs rest : List Char} {ps : List Piece}
    (h : scanPieces? cs = some (ps, rest)) :
    (ps = [] ∧ cs = '"' :: rest)
      ∨ ∃ p ps' cs', ps = p :: ps' ∧ PieceAt cs p cs' ∧ scanPieces? cs' = some (ps', rest) := by
  unfold scanPieces? at h
  split at h
  · cases h
  · cases h
    exact .inl ⟨rfl, rfl⟩
  · rename_i a b c d cs
    cases hn : hexUnit? a b c d <;> cases hrest : scanPieces? cs <;> rw [hn, hrest] at h <;> cases h
    exact .inr ⟨_, _, cs, rfl, .unit hn, hrest⟩
  · rename_i e cs _
    cases he : simpleEscape? e <;> cases hrest : scanPieces? cs <;> rw [he, hrest] at h <;> cases h
    exact .inr ⟨_, _, cs, rfl, .short he, hrest⟩
  · rename_i c cs hquote _ _
    split at h
    · cases h
    · rename_i hplain
      cases hrest : scanPieces? cs <;> rw [hrest] at h <;> cases h
      rw [not_or, not_lt] at hplain
      exact .inr ⟨_, _, cs, rfl, .plain hplain.1 hquote hplain.2, hrest⟩

/-- The first piece that is scanned is spelled in front. -/
theorem exists_pieceAt {cs rest : List Char} {p : Piece} {ps : List Piece}
    (h : scanPieces? cs = some (p :: ps, rest)) :
    ∃ cs', PieceAt cs p cs' ∧ scanPieces? cs' = some (ps, rest) := by
  rcases scanPieces?_cases h with ⟨hnil, _⟩ | ⟨q, qs, cs', heq, hpiece, hrest⟩
  · cases hnil
  · cases heq
    exact ⟨cs', hpiece, hrest⟩

theorem exists_scanPieces? {cs s rest : List Char} (h : Literal cs s rest) :
    ∃ ps, scanPieces? cs = some (ps, rest) ∧ joinPieces? ps = some s := by
  -- A pair of surrogates is two pieces and one character.
  induction h with
  | close => exact ⟨[], rfl, rfl⟩
  | @char _ _ _ _ c hpiece _ ih =>
    obtain ⟨ps, hps, hs⟩ := ih
    refine ⟨.char c :: ps, ?_, ?_⟩
    · rw [scanPieces?_of_pieceAt hpiece, hps]
      rfl
    · rw [joinPieces?, hs]
      rfl
  | @code _ _ _ _ n hpiece hhigh hlow _ ih =>
    obtain ⟨ps, hps, hs⟩ := ih
    refine ⟨.unit n :: ps, ?_, ?_⟩
    · rw [scanPieces?_of_pieceAt hpiece, hps]
      rfl
    · rw [joinPieces?.eq_def]
      simp [hhigh, hlow, hs]
  | @pair _ _ _ _ _ n m hfirst hsecond hhigh hlow _ ih =>
    obtain ⟨ps, hps, hs⟩ := ih
    refine ⟨.unit n :: .unit m :: ps, ?_, ?_⟩
    · rw [scanPieces?_of_pieceAt hfirst, scanPieces?_of_pieceAt hsecond, hps]
      rfl
    · rw [joinPieces?.eq_def]
      simp [hhigh, hlow, hs]

theorem literal_of_scanPieces? (ps : List Piece) : ∀ {cs s rest : List Char},
    scanPieces? cs = some (ps, rest) → joinPieces? ps = some s → Literal cs s rest := by
  induction ps using joinPieces?.induct with
  | case1 =>
    intro cs s rest hps hs
    cases hs
    rcases scanPieces?_cases hps with ⟨_, hcs⟩ | ⟨p, ps, cs', heq, _⟩
    · rw [hcs]
      exact .close
    · cases heq
  | case2 c ps ih =>
    intro cs s rest hps hs
    obtain ⟨cs', hpiece, hps⟩ := exists_pieceAt hps
    rw [joinPieces?] at hs
    obtain ⟨s', hs', rfl⟩ := Option.map_eq_some_iff.1 hs
    exact .char hpiece (ih hps hs')
  | case3 n hhigh m ps hlow ih =>
    intro cs s rest hps hs
    obtain ⟨cs', hfirst, hps⟩ := exists_pieceAt hps
    obtain ⟨cs'', hsecond, hps⟩ := exists_pieceAt hps
    rw [joinPieces?.eq_def] at hs
    simp only [hhigh, hlow, if_true] at hs
    obtain ⟨s', hs', rfl⟩ := Option.map_eq_some_iff.1 hs
    exact .pair hfirst hsecond hhigh hlow (ih hps hs')
  -- A high surrogate with no low one after it joins to nothing, and so does a low one alone.
  | case4 n hhigh m ps hlow =>
    intro cs s rest _ hs
    rw [joinPieces?.eq_def] at hs
    simp [hhigh, hlow] at hs
  | case5 n ps hhigh halone =>
    intro cs s rest _ hs
    rw [joinPieces?.eq_def] at hs
    simp [hhigh] at hs
  | case6 n ps hhigh hlow =>
    intro cs s rest _ hs
    rw [joinPieces?.eq_def] at hs
    simp [hhigh, hlow] at hs
  | case7 n ps hhigh hlow ih =>
    intro cs s rest hps hs
    obtain ⟨cs', hpiece, hps⟩ := exists_pieceAt hps
    rw [joinPieces?.eq_def] at hs
    simp only [hhigh, hlow] at hs
    obtain ⟨s', hs', rfl⟩ := Option.map_eq_some_iff.1 hs
    exact .code hpiece (by simpa using hhigh) (by simpa using hlow) (ih hps hs')

/-- A string starts here with the characters `s`, and `rest` follows it. -/
theorem scanString?_eq_some_iff {cs rest : List Char} {s : String} :
    scanString? cs = some (some s, rest) ↔ Literal cs s.toList rest := by
  unfold scanString?
  constructor
  · intro h
    obtain ⟨⟨ps, rest'⟩, hps, h⟩ := Option.map_eq_some_iff.1 h
    rw [Prod.mk.injEq] at h
    obtain ⟨chars, hchars, hs⟩ := Option.map_eq_some_iff.1 h.1
    rw [← hs, String.toList_ofList, ← h.2]
    exact literal_of_scanPieces? ps hps hchars
  · intro h
    obtain ⟨ps, hps, hs⟩ := exists_scanPieces? h
    rw [hps, Option.map_some, hs, Option.map_some, String.ofList_toList]

/-! ## §2. Blanks. -/

/-- Between `cs` and its end `rest` there are blanks only. -/
def Gap (cs rest : List Char) : Prop :=
  ∃ w, cs = w ++ rest ∧ ∀ c ∈ w, isSpace c = true

theorem Gap.refl (cs : List Char) : Gap cs cs :=
  ⟨[], rfl, by simp⟩

theorem Gap.suffix {cs rest : List Char} (h : Gap cs rest) : rest <:+ cs := by
  obtain ⟨w, rfl, _⟩ := h
  exact List.suffix_append w rest

theorem gap_dropSpace (cs : List Char) : Gap cs (dropSpace cs) :=
  ⟨cs.takeWhile isSpace, List.takeWhile_append_dropWhile.symm, fun _ hc =>
    List.mem_takeWhile_imp hc⟩

theorem Gap.dropSpace_eq {cs rest : List Char} {c : Char} (h : Gap cs (c :: rest))
    (hc : isSpace c = false) : dropSpace cs = c :: rest := by
  obtain ⟨w, rfl, hw⟩ := h
  rw [dropSpace, List.dropWhile_append_of_pos hw, List.dropWhile_cons_of_neg (by simp [hc])]

theorem dropSpace_dropSpace (cs : List Char) : dropSpace (dropSpace cs) = dropSpace cs :=
  List.dropWhile_idempotent _ _

/-- The first token after blanks. -/
theorem dropSpace_eq_cons_iff {cs rest : List Char} {c : Char} (hc : isSpace c = false) :
    dropSpace cs = c :: rest ↔ Gap cs (c :: rest) :=
  ⟨fun h => h ▸ gap_dropSpace cs, fun h => h.dropSpace_eq hc⟩

/-! ## §3. Objects. -/

/-- `cs` starts with a text in quotes, and `rest` follows it. -/
def StringAt (cs : List Char) (s : String) (rest : List Char) : Prop :=
  ∃ inner, cs = '"' :: inner ∧ Literal inner s.toList rest

section Objects

variable (V : List Char → α → List Char → Prop)

/-- `cs` starts with a member, a key and a value, and after blanks `rest` follows. -/
inductive MemberAt : (cs : List Char) → String × α → (rest : List Char) → Prop
  | mk {cs key colon after value stop rest : List Char} {m : String × α} :
      Gap cs key → StringAt key m.1 colon → Gap colon (':' :: after) →
      Gap after value → V value m.2 stop → Gap stop rest → MemberAt cs m rest

/-- `cs` starts with members, parted by commas, and a closing brace, and `rest` follows. -/
inductive MembersAt : (cs : List Char) → List (String × α) → (rest : List Char) → Prop
  | last {cs rest : List Char} {m : String × α} : MemberAt V cs m ('\x7d' :: rest) →
      MembersAt cs [m] rest
  | more {cs further rest : List Char} {m : String × α} {ms : List (String × α)} :
      MemberAt V cs m (',' :: further) → MembersAt further ms rest → MembersAt cs (m :: ms) rest

/-- `cs` starts with an object with the given members, and `rest` follows it. -/
inductive ObjectAt : (cs : List Char) → List (String × α) → (rest : List Char) → Prop
  | empty {inner rest : List Char} : Gap inner ('\x7d' :: rest) → ObjectAt ('\x7b' :: inner) [] rest
  | members {inner rest : List Char} {ms : List (String × α)} : MembersAt V inner ms rest →
      ObjectAt ('\x7b' :: inner) ms rest

end Objects

/-! ## §4. What the scanner takes up. -/

/-- A tree that is neither a string nor an object. -/
def Tree.IsOther (t : Tree) : Prop :=
  (∀ s, t ≠ .string s) ∧ ∀ ms closed, t ≠ .object ms closed

/-- What the scanner of values can have met when it went on after the value. -/
theorem scanValue_cases {fuel : Nat} {cs rest : List Char} {t : Tree}
    (h : scanValue (fuel + 1) cs = (t, some rest)) :
    (∃ inner s, Gap cs ('"' :: inner) ∧ scanString? inner = some (s, rest) ∧ t = .string s)
      ∨ (∃ inner, Gap cs ('\x7b' :: inner) ∧ Gap inner ('\x7d' :: rest) ∧ t = .object [] true)
      ∨ (∃ inner ms, Gap cs ('\x7b' :: inner) ∧ scanMembers fuel (dropSpace inner) = (ms, some rest)
          ∧ t = .object ms true)
      ∨ t.IsOther := by
  unfold scanValue at h
  split at h
  · rename_i inner hcs
    cases hs : scanString? inner <;> rw [hs] at h <;> cases h
    exact .inl ⟨inner, _, (dropSpace_eq_cons_iff (by decide)).1 hcs, hs, rfl⟩
  · refine .inr (.inr (.inr ?_))
    split at h <;> rw [← (Prod.mk.inj h).1] <;> exact ⟨by simp, by simp⟩
  · rename_i inner hcs
    have hgap := (dropSpace_eq_cons_iff (by decide)).1 hcs
    split at h
    · rename_i hinner
      cases h
      exact .inr (.inl ⟨inner, hgap, (dropSpace_eq_cons_iff (by decide)).1 hinner, rfl⟩)
    · obtain ⟨ht, hrest⟩ := Prod.mk.inj h
      refine .inr (.inr (.inl ⟨inner, _, hgap, Prod.ext rfl hrest, ?_⟩))
      rw [← ht, hrest, Option.isSome_some]
  · cases h
    exact .inr (.inr (.inr ⟨by simp, by simp⟩))
  · cases h
    exact .inr (.inr (.inr ⟨by simp, by simp⟩))
  · cases h
    exact .inr (.inr (.inr ⟨by simp, by simp⟩))
  · split at h <;> cases h
    exact .inr (.inr (.inr ⟨by simp, by simp⟩))

/-- What the scanner of members has met when it went on after the closing brace. -/
theorem scanMembers_cases {fuel : Nat} {cs rest : List Char} {ms : List (Option String × Tree)}
    (h : scanMembers (fuel + 1) cs = (ms, some rest)) :
    ∃ inner key colon after value stop, Gap cs ('"' :: inner)
      ∧ scanString? inner = some (key, colon) ∧ Gap colon (':' :: after)
      ∧ scanValue fuel after = (value, some stop)
      ∧ (Gap stop ('\x7d' :: rest) ∧ ms = [(key, value)]
        ∨ ∃ further ms', Gap stop (',' :: further) ∧ scanMembers fuel further = (ms', some rest)
          ∧ ms = (key, value) :: ms') := by
  -- All branches but two break off, which leaves no rest.
  unfold scanMembers at h
  split at h
  · rename_i inner hcs
    split at h
    · cases h
    · rename_i key colon hkey
      split at h
      · rename_i after hcolon
        cases hvalue : scanValue fuel after with
        | mk value stop? =>
          rw [hvalue] at h
          refine ⟨inner, key, colon, after, value, ?_⟩
          cases stop? with
          | none => cases h
          | some stop =>
            refine ⟨stop, (dropSpace_eq_cons_iff (by decide)).1 hcs, hkey,
              (dropSpace_eq_cons_iff (by decide)).1 hcolon, hvalue, ?_⟩
            simp only [Option.map_some] at h
            split at h
            · rename_i further hstop
              obtain ⟨hms, hrest⟩ := Prod.mk.inj h
              exact .inr ⟨further, _, (dropSpace_eq_cons_iff (by decide)).1 (Option.some.inj hstop),
                Prod.ext rfl hrest, hms.symm⟩
            · rename_i rest' hstop
              cases h
              exact .inl ⟨(dropSpace_eq_cons_iff (by decide)).1 (Option.some.inj hstop), rfl⟩
            · cases h
      · cases h
  · cases h

/-- The scanner of trees takes up what is written according to `V` as `tree`, and takes up
    nothing else in that way. -/
structure Scans (V : List Char → α → List Char → Prop) (tree : α → Tree) : Prop where
  /-- What follows is the end of the text. -/
  suffix {start rest : List Char} {a : α} : V start a rest → rest <:+ start
  sound {fuel : Nat} {cs rest : List Char} {a : α} :
    scanValue fuel cs = (tree a, some rest) → ∃ start, Gap cs start ∧ V start a rest
  complete {fuel : Nat} {cs start rest : List Char} {a : α} :
    cs.length < fuel → Gap cs start → V start a rest → scanValue fuel cs = (tree a, some rest)

theorem PieceAt.suffix {cs rest : List Char} {p : Piece} (h : PieceAt cs p rest) : rest <:+ cs := by
  cases h with
  | plain => exact List.suffix_append [_] rest
  | short => exact List.suffix_append [_, _] rest
  | unit => exact List.suffix_append [_, _, _, _, _, _] rest

theorem Literal.suffix {cs s rest : List Char} (h : Literal cs s rest) : rest <:+ cs := by
  induction h with
  | close => exact List.suffix_cons _ _
  | char hpiece _ ih => exact ih.trans hpiece.suffix
  | code hpiece _ _ _ ih => exact ih.trans hpiece.suffix
  | pair hfirst hsecond _ _ _ ih => exact ih.trans (hsecond.suffix.trans hfirst.suffix)

theorem StringAt.suffix {cs rest : List Char} {s : String} (h : StringAt cs s rest) :
    rest <:+ cs := by
  obtain ⟨inner, rfl, hinner⟩ := h
  exact hinner.suffix.trans (List.suffix_cons _ _)

theorem scans_string : Scans StringAt fun s => .string (some s) where
  suffix h := h.suffix
  sound {fuel cs rest s} h := by
    cases fuel with
    | zero => cases h
    | succ fuel =>
      rcases scanValue_cases h with ⟨inner, s', hgap, hs, heq⟩ | ⟨_, _, _, heq⟩ | ⟨_, _, _, _, heq⟩
        | hother
      · cases heq
        exact ⟨_, hgap, inner, rfl, scanString?_eq_some_iff.1 hs⟩
      · cases heq
      · cases heq
      · exact absurd rfl (hother.1 _)
  complete {fuel cs start rest s} hfuel hgap hs := by
    obtain ⟨inner, rfl, hs⟩ := hs
    cases fuel with
    | zero => exact absurd hfuel (Nat.not_lt_zero _)
    | succ fuel =>
      rw [scanValue, hgap.dropSpace_eq (by decide)]
      simp only [scanString?_eq_some_iff.2 hs]

section Objects

variable {V : List Char → α → List Char → Prop} {tree : α → Tree}

/-- The members of an object as the scanner takes them up. -/
def memberTrees (tree : α → Tree) (ms : List (String × α)) : List (Option String × Tree) :=
  ms.map fun m => (some m.1, tree m.2)

theorem Scans.membersAt (hV : Scans V tree) {fuel : Nat} : ∀ {cs rest : List Char}
    {ms : List (String × α)}, scanMembers fuel cs = (memberTrees tree ms, some rest) →
      MembersAt V cs ms rest := by
  induction fuel with
  | zero =>
    intro cs rest ms h
    rw [scanMembers] at h
    cases (Prod.mk.inj h).2
  | succ fuel ih =>
    intro cs rest ms h
    obtain ⟨inner, key, colon, after, value, stop, hcs, hkey, hcolon, hvalue, hstop⟩ :=
      scanMembers_cases h
    cases ms with
    | nil => rcases hstop with ⟨_, heq⟩ | ⟨_, _, _, _, heq⟩ <;> exact absurd heq (by simp [memberTrees])
    | cons m ms =>
      -- The first member is written in front, whatever follows it.
      have hmember : ∀ {next : List Char}, key = some m.1 → value = tree m.2 → Gap stop next →
          MemberAt V cs m next := by
        intro next hkey' hvalue' hnext
        rw [hkey'] at hkey
        rw [hvalue'] at hvalue
        obtain ⟨start, hstart, hm⟩ := hV.sound hvalue
        exact .mk hcs ⟨inner, rfl, scanString?_eq_some_iff.1 hkey⟩ hcolon hstart hm hnext
      rw [memberTrees, List.map_cons] at hstop
      rcases hstop with ⟨hstop, heq⟩ | ⟨further, ms', hstop, hmore, heq⟩
      · obtain ⟨hm, hnil⟩ := List.cons.inj heq
        obtain ⟨hk, hv⟩ := Prod.mk.inj hm
        rw [List.map_eq_nil_iff.1 hnil]
        exact .last (hmember hk.symm hv.symm hstop)
      · obtain ⟨hm, hms⟩ := List.cons.inj heq
        obtain ⟨hk, hv⟩ := Prod.mk.inj hm
        rw [← hms] at hmore
        exact .more (hmember hk.symm hv.symm hstop) (ih hmore)

theorem MemberAt.suffix (hV : Scans V tree) {cs rest : List Char} {m : String × α}
    (h : MemberAt V cs m rest) : rest <:+ cs := by
  obtain ⟨hkey, hm, hcolon, hvalue, hv, hrest⟩ := h
  exact hrest.suffix.trans ((hV.suffix hv).trans (hvalue.suffix.trans
    ((List.suffix_cons _ _).trans (hcolon.suffix.trans (hm.suffix.trans hkey.suffix)))))

theorem MembersAt.suffix (hV : Scans V tree) {cs rest : List Char} {ms : List (String × α)}
    (h : MembersAt V cs ms rest) : rest <:+ cs := by
  induction h with
  | last hm => exact (List.suffix_cons _ _).trans (hm.suffix hV)
  | more hm _ ih => exact (ih.trans (List.suffix_cons _ _)).trans (hm.suffix hV)

/-- Blanks in front of members may be added or dropped. -/
theorem MembersAt.dropSpace_iff {cs rest : List Char} {ms : List (String × α)} :
    MembersAt V (dropSpace cs) ms rest ↔ MembersAt V cs ms rest := by
  -- Only the first member has these blanks in front.
  have hmember : ∀ {m : String × α} {next : List Char},
      MemberAt V (dropSpace cs) m next ↔ MemberAt V cs m next := by
    intro m next
    constructor
    · rintro ⟨hkey, ⟨inner, rfl, hinner⟩, hcolon, hvalue, hv, hnext⟩
      rw [← dropSpace_eq_cons_iff (by decide), dropSpace_dropSpace] at hkey
      exact .mk ((dropSpace_eq_cons_iff (by decide)).1 hkey) ⟨inner, rfl, hinner⟩ hcolon hvalue hv hnext
    · rintro ⟨hkey, ⟨inner, rfl, hinner⟩, hcolon, hvalue, hv, hnext⟩
      rw [hkey.dropSpace_eq (by decide)]
      exact .mk (.refl _) ⟨inner, rfl, hinner⟩ hcolon hvalue hv hnext
  constructor
  · intro h
    cases h with
    | last hm => exact .last (hmember.1 hm)
    | more hm hms => exact .more (hmember.1 hm) hms
  · intro h
    cases h with
    | last hm => exact .last (hmember.2 hm)
    | more hm hms => exact .more (hmember.2 hm) hms

theorem MembersAt.exists_quote {cs rest : List Char} {ms : List (String × α)}
    (h : MembersAt V cs ms rest) : ∃ inner, dropSpace cs = '"' :: inner := by
  have hmember : ∀ {m : String × α} {next : List Char}, MemberAt V cs m next →
      ∃ inner, dropSpace cs = '"' :: inner := by
    rintro m next ⟨hkey, ⟨inner, rfl, _⟩, _⟩
    exact ⟨inner, hkey.dropSpace_eq (by decide)⟩
  cases h with
  | last hm => exact hmember hm
  | more hm _ => exact hmember hm

/-- The scanner of members takes up the member that is written in front, and goes on with what
    follows it. -/
theorem Scans.scanMembers_eq (hV : Scans V tree) {fuel : Nat} {cs next : List Char} {c : Char}
    {m : String × α} (hc : isSpace c = false) (h : MemberAt V cs m (c :: next))
    (hfuel : cs.length < fuel + 1) : scanMembers (fuel + 1) cs =
      match c :: next with
      | ',' :: cs => let r := scanMembers fuel cs; ((some m.1, tree m.2) :: r.1, r.2)
      | '\x7d' :: rest => ([(some m.1, tree m.2)], some rest)
      | _ => ([(some m.1, tree m.2)], none) := by
  obtain ⟨hkey, ⟨inner, rfl, hinner⟩, hcolon, hvalue, hv, hnext⟩ := h
  rename_i colon after value stop
  -- The value starts behind the key and the colon, so one step less of fuel is enough for it.
  have h₁ := hkey.suffix.length_le
  have h₂ := hinner.suffix.length_le
  have h₃ := hcolon.suffix.length_le
  simp only [List.length_cons] at h₁ h₃
  have hscan : scanValue fuel after = (tree m.2, some stop) := hV.complete (by omega) hvalue hv
  rw [scanMembers, hkey.dropSpace_eq (by decide)]
  simp only [scanString?_eq_some_iff.2 hinner, hcolon.dropSpace_eq (show isSpace ':' = false by decide),
    hscan, Option.map_some, hnext.dropSpace_eq hc]
  split <;> simp_all

theorem Scans.scanMembers_of_membersAt (hV : Scans V tree) {cs rest : List Char}
    {ms : List (String × α)} (h : MembersAt V cs ms rest) : ∀ {fuel : Nat}, cs.length < fuel →
      scanMembers fuel cs = (memberTrees tree ms, some rest) := by
  induction h with
  | last hm =>
    intro fuel hfuel
    cases fuel with
    | zero => exact absurd hfuel (Nat.not_lt_zero _)
    | succ fuel =>
      rw [hV.scanMembers_eq (by decide) hm hfuel]
      rfl
  | more hm _ ih =>
    intro fuel hfuel
    cases fuel with
    | zero => exact absurd hfuel (Nat.not_lt_zero _)
    | succ fuel =>
      have hlt := (hm.suffix hV).length_le
      simp only [List.length_cons] at hlt
      rw [hV.scanMembers_eq (by decide) hm hfuel]
      simp only [ih (show _ < fuel by omega)]
      rfl

/-- An object is taken up as its members. -/
theorem Scans.object (hV : Scans V tree) :
    Scans (ObjectAt V) fun ms => .object (memberTrees tree ms) true where
  suffix {start rest ms} h := by
    cases h with
    | empty hgap => exact (List.suffix_cons _ _).trans (hgap.suffix.trans (List.suffix_cons _ _))
    | members hms => exact (hms.suffix hV).trans (List.suffix_cons _ _)
  sound {fuel cs rest ms} h := by
    cases fuel with
    | zero => cases h
    | succ fuel =>
      rcases scanValue_cases h with ⟨_, _, _, _, heq⟩ | ⟨inner, hgap, hinner, heq⟩
        | ⟨inner, ms', hgap, hms, heq⟩ | hother
      · cases heq
      · obtain ⟨hnil, _⟩ := Tree.object.inj heq
        rw [List.map_eq_nil_iff.1 hnil]
        exact ⟨_, hgap, .empty hinner⟩
      · obtain ⟨rfl, _⟩ := Tree.object.inj heq
        exact ⟨_, hgap, .members (MembersAt.dropSpace_iff.1 (hV.membersAt hms))⟩
      · exact absurd rfl (hother.2 _ _)
  complete {fuel cs start rest ms} hfuel hgap h := by
    cases fuel with
    | zero => exact absurd hfuel (Nat.not_lt_zero _)
    | succ fuel =>
      have hle := hgap.suffix.length_le
      cases h with
      | empty hinner =>
        rw [scanValue, hgap.dropSpace_eq (by decide)]
        simp only [hinner.dropSpace_eq (show isSpace '\x7d' = false by decide)]
        rfl
      | @members inner _ _ hms =>
        simp only [List.length_cons] at hle
        -- The scanner looks for a closing brace first; a member starts with a quote instead.
        obtain ⟨quoted, hquoted⟩ := hms.exists_quote
        have hshort := (gap_dropSpace inner).suffix.length_le
        have hscan := hV.scanMembers_of_membersAt (MembersAt.dropSpace_iff.2 hms)
          (show _ < fuel by omega)
        rw [hquoted] at hscan
        rw [scanValue, hgap.dropSpace_eq (by decide)]
        simp only [hquoted]
        show (Tree.object (scanMembers fuel ('"' :: quoted)).1
          (scanMembers fuel ('"' :: quoted)).2.isSome, _) = _
        rw [hscan]
        rfl

/-- A text that breaks off does not become a tree that is closed. -/
theorem scanValue_none {fuel : Nat} {cs : List Char} {t : Tree}
    (h : scanValue fuel cs = (t, none)) :
    t = .torn ∨ (∃ items, t = .array items false) ∨ ∃ ms, t = .object ms false := by
  cases fuel with
  | zero =>
    rw [scanValue] at h
    exact .inl (Prod.mk.inj h).1.symm
  | succ fuel =>
    unfold scanValue at h
    split at h
    · split at h <;> cases h
      exact .inl rfl
    · split at h
      · cases h
      · obtain ⟨ht, hrest⟩ := Prod.mk.inj h
        rw [hrest] at ht
        exact .inr (.inl ⟨_, ht.symm⟩)
    · split at h
      · cases h
      · obtain ⟨ht, hrest⟩ := Prod.mk.inj h
        rw [hrest] at ht
        exact .inr (.inr ⟨_, ht.symm⟩)
    · cases h
    · cases h
    · cases h
    · split at h <;> cases h
      exact .inl rfl

theorem isBlank_of_isSpace {c : Char} (h : isSpace c = true) : Text.isBlank c = true := by
  simp only [isSpace, Bool.or_eq_true, beq_iff_eq] at h
  rcases h with ((rfl | rfl) | rfl) | rfl <;> decide

/-- **A text without blanks around it is taken up as an object exactly if it is written as one.** -/
theorem Scans.ofChars_eq_iff (hV : Scans V tree) {cs : List Char} {ms : List (String × α)}
    (hcs : Text.IsTrimmed cs) :
    Tree.ofChars cs = (.object (memberTrees tree ms) true, true) ↔ ObjectAt V cs ms [] := by
  unfold Tree.ofChars
  constructor
  · intro h
    cases hscan : scanValue (2 * cs.length + 2) cs with
    | mk t rest? =>
      rw [hscan] at h
      obtain ⟨rfl, hclean⟩ := Prod.mk.inj h
      cases rest? with
      | none =>
        rcases scanValue_none hscan with heq | ⟨_, heq⟩ | ⟨_, heq⟩ <;> cases heq
      | some rest =>
        obtain ⟨start, ⟨w, rfl, hw⟩, hobject⟩ := hV.object.sound hscan
        -- Neither in front of the object nor behind it there is room for blanks.
        have hfront : w = [] := by
          cases w with
          | nil => rfl
          | cons c w =>
            have hc := isBlank_of_isSpace (hw c List.mem_cons_self)
            rw [hcs.1 c rfl] at hc
            cases hc
        have hback : rest = [] := by
          by_contra hne
          have hspace : ∀ c ∈ rest, isSpace c = true := by
            simpa [dropSpace, List.isEmpty_iff, List.dropWhile_eq_nil_iff] using hclean
          have hlast : (w ++ start).getLast? = some (rest.getLast hne) := by
            obtain ⟨front, hfront⟩ := hV.object.suffix hobject
            rw [← hfront, ← List.append_assoc, List.getLast?_append_of_ne_nil _ hne,
              List.getLast?_eq_some_getLast hne]
          have hc := isBlank_of_isSpace (hspace _ (List.getLast_mem hne))
          rw [hcs.2 _ hlast] at hc
          cases hc
        rw [hback] at hobject
        rw [hfront]
        exact hobject
  · intro h
    have hscan := hV.object.complete (show cs.length < 2 * cs.length + 2 by omega) (.refl cs) h
    rw [hscan]
    rfl

end Objects

/-! ## §5. What is written. -/

theorem stringAt_quoted (s : String) (rest : List Char) : StringAt (quoted s ++ rest) s rest := by
  refine ⟨s.toList.flatMap escape ++ '"' :: rest, by simp [quoted], ?_⟩
  exact scanString?_eq_some_iff.1 (scanString?_quoted s rest)

section Writing

variable {V : List Char → α → List Char → Prop} {value : α → Value}

/-- The members of an object that is written. -/
def memberValues (value : α → Value) (ms : List (String × α)) : List (String × Value) :=
  ms.map fun m => (m.1, value m.2)

theorem memberAt_chars (h : ∀ a rest, V ((value a).chars ++ rest) a rest) (m : String × α)
    (rest : List Char) : MemberAt V (quoted m.1 ++ ':' :: (value m.2).chars ++ rest) m rest := by
  refine .mk (.refl _) ?_ (.refl _) (.refl _) (h m.2 rest) (.refl _)
  have hquoted := stringAt_quoted m.1 (':' :: ((value m.2).chars ++ rest))
  simpa using hquoted

theorem membersAt_chars (h : ∀ a rest, V ((value a).chars ++ rest) a rest)
    (ms : List (String × α)) : ∀ (m : String × α) (rest : List Char),
      MembersAt V (quoted m.1 ++ ':' :: (value m.2).chars ++ memberChars (memberValues value ms)
        ++ rest) (m :: ms) rest := by
  induction ms with
  | nil =>
    intro m rest
    have hm := memberAt_chars h m ('\x7d' :: rest)
    refine .last ?_
    simpa [memberValues, memberChars] using hm
  | cons n ms ih =>
    intro m rest
    have hm := memberAt_chars h m (',' :: (quoted n.1 ++ ':' :: (value n.2).chars
      ++ memberChars (memberValues value ms) ++ rest))
    refine .more ?_ (ih n rest)
    simpa [memberValues, memberChars] using hm

/-- **The compact text of an object is written according to the grammar.** -/
theorem objectAt_chars (h : ∀ a rest, V ((value a).chars ++ rest) a rest)
    (ms : List (String × α)) (rest : List Char) :
    ObjectAt V ((Value.object (memberValues value ms)).chars ++ rest) ms rest := by
  cases ms with
  | nil => exact .empty (.refl _)
  | cons m ms =>
    have hms := ObjectAt.members (membersAt_chars h ms m rest)
    simpa [memberValues, Value.chars] using hms

end Writing

theorem getLast?_memberChars (ms : List (String × Value)) :
    (memberChars ms).getLast? = some '\x7d' := by
  induction ms with
  | nil => rfl
  | cons m ms ih =>
    rw [memberChars, List.getLast?_append, ih]
    rfl

/-- There are no blanks around a written object. -/
theorem isTrimmed_chars_object (ms : List (String × Value)) :
    Text.IsTrimmed (Value.object ms).chars := by
  have hbrace : Text.isBlank '\x7b' = false ∧ Text.isBlank '\x7d' = false := by decide
  cases ms with
  | nil =>
    constructor <;> intro c hc <;> cases hc
    · exact hbrace.1
    · exact hbrace.2
  | cons m ms =>
    rw [Value.chars]
    constructor
    · intro c hc
      cases hc
      exact hbrace.1
    · intro c hc
      rw [List.getLast?_append, getLast?_memberChars] at hc
      cases hc
      exact hbrace.2

end MetricCube.Json
