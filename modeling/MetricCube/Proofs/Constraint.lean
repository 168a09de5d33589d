/-
  MetricCube.Proofs.Constraint
  ────────────────────────────
  **Reading and writing constraints.**  A clause that is taken up fixes a new dimension or gives
  the days, and nothing else (`Draft.Takes`).  Two clauses in a row may therefore change places,
  and with the grammar of clauses a constraint is read alike whatever their order
  (`items_follow_grammar`).

  Back the other way, a dimension that was read can be written (`Readable`): a body ends at its
  first bracket and a key at its first colon, and neither trimming nor folding writes a bracket or
  a colon.  The text of a constraint is thus made of clauses that say the same again:

      parse text today = .ok c   →   parse c.text later = .ok c        (`parse_text`)

  if both ends of the range survive their own text.
-/
import Mathlib
import MetricCube.Proofs.Clauses
import MetricCube.Proofs.DateToken
import MetricCube.Proofs.Folding
import MetricCube.Proofs.Identity

namespace MetricCube

namespace Constraint

open Text (isBlank dropBlanks trimChars utf8Length)

variable {today : Date}

/-! ## §1. One clause. -/

/-- The clause turns the draft `d` into another: it fixes a new dimension, or gives the days that
    are still missing. -/
inductive Draft.Takes (today : Date) (d : Draft) (c : Clause) : Draft → Prop
  | dimension {key value : String} : String.ofList c.name = "context" →
      context? c.body = some (key, value) → d.assignment.replaced? key = none →
      Takes today d c { d with assignment := d.assignment.insert key value }
  | days {mode : TemporalMode} {range : DateRange} :
      TemporalMode.ofName? (String.ofList c.name) = some mode →
      rangeOf c.body today = .ok range → d.temporal = none →
      Takes today d c { d with temporal := some (mode, range) }

/-- **What one clause can do.** -/
theorem Draft.add_eq_ok_iff {d d' : Draft} {c : Clause} :
    d.add today c = .ok d' ↔ d.Takes today c d' := by
  constructor
  · intro h
    unfold add at h
    simp only at h
    split at h
    · rename_i hname
      split at h
      · cases h
      · rename_i key value hbody
        split at h
        · cases h
        · rename_i hnew
          cases h
          exact .dimension hname hbody (by simpa using hnew)
    · split at h
      · cases h
      · rename_i mode hmode
        split at h
        · cases h
        · rename_i hnone
          cases hrange : rangeOf c.body today with
          | error e => rw [hrange] at h; cases h
          | ok range =>
            rw [hrange] at h
            cases h
            exact .days hmode hrange (by simpa using hnone)
  · intro h
    cases h with
    | dimension hname hbody hnew => simp [add, hname, hbody, hnew]
    | days hmode hrange hnone =>
      -- The name of a clause with days is a mode, and so not that of a dimension.
      have hname : String.ofList c.name ≠ "context" := by
        intro hname
        rw [hname] at hmode
        cases hmode
      simp [add, hname, hmode, hrange, hnone, Except.map]

/-- **Two clauses in a row may change places.** -/
theorem Draft.Takes.swap {d d₁ d₂ : Draft} {a b : Clause} (ha : d.Takes today a d₁)
    (hb : d₁.Takes today b d₂) : ∃ d', d.Takes today b d' ∧ d'.Takes today a d₂ := by
  cases ha with
  | @dimension key value hname hbody hnew =>
    cases hb with
    | @dimension key' value' hname' hbody' hnew' =>
      -- The second key was new beside the first, so that the two are different.
      rw [Assignment.replaced?_insert] at hnew'
      have hne : Text.foldKey key' ≠ Text.foldKey key := by
        intro he
        rw [if_pos he] at hnew'
        cases hnew'
      rw [if_neg hne] at hnew'
      refine ⟨_, .dimension hname' hbody' hnew', ?_⟩
      rw [d.assignment.insert_comm hne.symm]
      refine .dimension (d := { d with assignment := d.assignment.insert key' value' }) hname hbody ?_
      rw [Assignment.replaced?_insert, if_neg hne.symm, hnew]
    | days hmode hrange hnone => exact ⟨_, .days hmode hrange hnone, .dimension hname hbody hnew⟩
  | days hmode hrange hnone =>
    cases hb with
    | dimension hname hbody hnew => exact ⟨_, .dimension hname hbody hnew, .days hmode hrange hnone⟩
    -- The days are given once.
    | days hmode' hrange' hnone' => cases hnone'

/-! ## §2. All clauses. -/

theorem Draft.addAll_cons_iff {d d' : Draft} {c : Clause} {cs : List Clause} :
    d.addAll today (c :: cs) = .ok d' ↔ ∃ d₁, d.Takes today c d₁ ∧ d₁.addAll today cs = .ok d' := by
  simp only [← Draft.add_eq_ok_iff, addAll]
  cases d.add today c with
  | error e => simp
  | ok d₁ => simp

/-- **The order of clauses is irrelevant.** -/
theorem Draft.addAll_perm {cs cs' : List Clause} (h : cs.Perm cs') {d d' : Draft}
    (hcs : d.addAll today cs = .ok d') : d.addAll today cs' = .ok d' := by
  induction h generalizing d with
  | nil => exact hcs
  | cons c _ ih =>
    obtain ⟨d₁, hc, hrest⟩ := addAll_cons_iff.1 hcs
    exact addAll_cons_iff.2 ⟨d₁, hc, ih hrest⟩
  | swap b a cs =>
    obtain ⟨d₁, ha, hrest⟩ := addAll_cons_iff.1 hcs
    obtain ⟨d₂, hb, hrest⟩ := addAll_cons_iff.1 hrest
    obtain ⟨d₁', hb', ha'⟩ := ha.swap hb
    exact addAll_cons_iff.2 ⟨d₁', hb', addAll_cons_iff.2 ⟨d₂, ha', hrest⟩⟩
  | trans _ _ ih ih' => exact ih' (ih hcs)

/-- **A text is a constraint exactly if it is written from clauses that make up the constraint.** -/
theorem parse_eq_ok_iff {text : String} {c : Constraint} :
    parse text today = .ok c ↔ ∃ found, Written found text.toList
      ∧ Draft.addAll today ⟨.empty, none⟩ found = .ok ⟨c.assignment, some (c.mode, c.range)⟩ := by
  simp only [← clauses_eq_iff, parse]
  generalize clauses text.toList = r
  obtain ⟨found, fault⟩ := r
  constructor
  · intro h
    -- A clause that cannot be taken goes before a fault in the text behind it.
    cases hadd : Draft.addAll today ⟨.empty, none⟩ found with
    | error e => simp [hadd] at h
    | ok d =>
      cases fault with
      | some p => simp [hadd] at h
      | none =>
        cases htemporal : d.temporal with
        | none => simp [hadd, htemporal] at h
        | some p =>
          simp only [hadd, htemporal, Except.ok.injEq] at h
          subst h
          exact ⟨found, rfl, by rw [hadd, ← htemporal]⟩
  · rintro ⟨found', hfound, hadd⟩
    cases hfound
    simp only [hadd]

theorem foldlM_map_ok (found : List Clause) (d : Draft) :
    (found.map Except.ok).foldlM (Draft.addItem today) d = d.addAll today found := by
  induction found generalizing d with
  | nil => rfl
  | cons c found ih =>
    rw [List.map_cons, List.foldlM_cons, Draft.addAll, Draft.addItem]
    cases d.add today c with
    | error e => rfl
    | ok d₁ => exact ih d₁

/-- **Reading a text is reading what its cursor yields.** -/
theorem parse_eq_ofItems (text : String) (today : Date) :
    parse text today = ofItems today (Cursor.items text.toList (clauses text.toList)) := by
  simp only [parse, ofItems, Cursor.items, List.foldlM_append, foldlM_map_ok]
  generalize clauses text.toList = r
  obtain ⟨found, fault⟩ := r
  cases Draft.addAll today ⟨.empty, none⟩ found with
  | error e => rfl
  | ok d =>
    cases fault with
    | none => rfl
    | some p => rfl

/-- **Constraint texts follow a grammar.**  The cursor over any text stops after finitely many
    items, with every cut at a boundary.  It yields clauses without a fault exactly if the text is
    written from them, its faults are placed inside the text, and its items are what `parse`
    reads.  A constraint is therefore read alike from its clauses in any order and with any blanks
    around their tokens. -/
theorem items_follow_grammar (text : String) (today : Date) :
    (∃ items, (Cursor.start text.toList).Yields items
        ∧ (∀ items', (Cursor.start text.toList).Yields items' → items' = items)
        ∧ (∀ found, items = found.map .ok ↔ Written found text.toList)
        ∧ (∀ offset fault, .error (offset, fault) ∈ items → offset ≤ utf8Length text.toList)
        ∧ parse text today = ofItems today items)
      ∧ ∀ (found found' : List Clause) (text' : String) (c : Constraint),
          Written found text.toList → found.Perm found' → Written found' text'.toList →
          parse text today = .ok c → parse text' today = .ok c := by
  have hyields := Cursor.yields_start text.toList
  refine ⟨⟨_, hyields, fun _ h => h.unique hyields, fun _ => Cursor.items_eq_iff, ?_,
    parse_eq_ofItems text today⟩, ?_⟩
  · intro offset fault hmem
    obtain ⟨front, behind, htext, rfl⟩ :=
      hyields.offset_of_fault ⟨rfl, by rw [Cursor.start, Text.dropBytes?]⟩ hmem
    rw [show text.toList = front ++ behind from htext, Text.utf8Length_append]
    exact Nat.le_add_right _ _
  · intro found found' text' c hfound hperm hfound' hparse
    obtain ⟨found₁, hfound₁, hadd⟩ := parse_eq_ok_iff.1 hparse
    -- A text is written from one list of clauses only.
    have hsame : found₁ = found := by
      have h := (clauses_eq_iff.2 hfound₁).symm.trans (clauses_eq_iff.2 hfound)
      exact (Prod.mk.inj h).1
    subst hsame
    exact parse_eq_ok_iff.2 ⟨found', hfound', Draft.addAll_perm hperm hadd⟩

namespace Sample

/-- A dimension and three days. -/
def adsOfThreeDays : Constraint :=
  ⟨.ofPairs [("channel", "ads")], ⟨.ofDays 7, .ofDays 9, by decide⟩, .window⟩

/-- A text of the constraint on the eleventh day of the calendar. -/
def looseText : String :=
  " context( Channel :ads ).window(-3d:-1d)"

/-- The same clauses the other way round, with other blanks. -/
def turnedText : String :=
  "window\t(-3d:-1d) .\u2003context ( Channel :ads )\n"

/-- The first clause of the one text, and the last of the other. -/
def dimension : Clause :=
  ⟨"context".toList, " Channel :ads ".toList⟩

/-- The other clause. -/
def days : Clause :=
  ⟨"window".toList, "-3d:-1d".toList⟩

theorem parse_looseText : parse looseText (.ofDays 10) = .ok adsOfThreeDays := by
  decide +kernel

end Sample

/-- The clauses of a text, turned round. -/
theorem items_of_turnedText : Written [Sample.dimension, Sample.days] Sample.looseText.toList
    ∧ Written [Sample.days, Sample.dimension] Sample.turnedText.toList
    ∧ parse Sample.turnedText (.ofDays 10) = .ok Sample.adsOfThreeDays := by
  have hloose : Written [Sample.dimension, Sample.days] Sample.looseText.toList :=
    clauses_eq_iff.1 (by decide +kernel)
  have hturned : Written [Sample.days, Sample.dimension] Sample.turnedText.toList :=
    clauses_eq_iff.1 (by decide +kernel)
  obtain ⟨_, hperm⟩ := items_follow_grammar Sample.looseText (.ofDays 10)
  exact ⟨hloose, hturned,
    hperm _ _ _ _ hloose (.swap _ _ _) hturned Sample.parse_looseText⟩

/-- An offset counts bytes, so that a blank of three bytes counts three times. -/
example : parse "\u2003window(-1d:" (.ofDays 10) = .error (.clause 9 .unclosed) := by
  decide +kernel

/-! ## §3. What is read. -/

theorem splitColon?_eq_some_iff {cs first last : List Char} :
    splitColon? cs = some (first, last) ↔ ':' ∉ first ∧ cs = first ++ ':' :: last := by
  constructor
  · intro h
    unfold splitColon? at h
    split at h
    · cases h
    · rename_i colon rest hcolon
      cases h
      exact ⟨Text.notMem_takeWhile_ne ':' cs, (Text.eq_append_of_dropWhile_ne hcolon).2⟩
  · rintro ⟨hfirst, rfl⟩
    simp only [splitColon?, Text.dropWhile_ne_append hfirst, Text.takeWhile_ne_append hfirst]

theorem context?_eq_some_iff {body : List Char} {key value : String} :
    context? body = some (key, value)
      ↔ ':' ∉ key.toList ∧ body = key.toList ++ ':' :: value.toList
        ∧ key.toList.all isBlank = false ∧ value.toList.all isBlank = false := by
  constructor
  · intro h
    unfold context? at h
    split at h
    · cases h
    · rename_i first last hsplit
      rw [Option.ite_none_left_eq_some, Bool.or_eq_true, not_or, Bool.not_eq_true,
        Bool.not_eq_true] at h
      obtain ⟨hblank, he⟩ := h
      cases he
      rw [String.toList_ofList, String.toList_ofList]
      obtain ⟨hfirst, hbody⟩ := splitColon?_eq_some_iff.1 hsplit
      exact ⟨hfirst, hbody, hblank⟩
  · rintro ⟨hkey, rfl, hkey', hvalue⟩
    simp [context?, splitColon?_eq_some_iff.2 ⟨hkey, rfl⟩, hkey', hvalue]

/-- The pair is read back from its clause: the colon behind the key is the first one, the bracket
    behind the value is the first one, and neither key nor value is blank. -/
structure Readable (e : String × String) : Prop where
  key_colon : ':' ∉ e.1.toList
  key_bracket : ')' ∉ e.1.toList
  key_blank : e.1.toList.all isBlank = false
  value_bracket : ')' ∉ e.2.toList
  value_blank : e.2.toList.all isBlank = false

theorem readable_of_context? {body : List Char} {key value : String}
    (h : context? body = some (key, value)) (hbody : ')' ∉ body) :
    Readable (Text.foldKey key, Text.trim value) := by
  obtain ⟨hcolon, rfl, hkey, hvalue⟩ := context?_eq_some_iff.1 h
  simp only [List.mem_append, List.mem_cons, not_or] at hbody
  constructor
  · exact fun hmem => hcolon (Text.mem_of_mem_foldKey (by decide) hmem)
  · exact fun hmem => hbody.1 (Text.mem_of_mem_foldKey (by decide) hmem)
  · exact Text.not_blank_foldKey hkey
  · intro hmem
    simp only [Text.trim, String.toList_ofList] at hmem
    exact hbody.2.2 (Text.mem_of_mem_trimChars hmem)
  · exact Text.not_blank_trim hvalue

theorem Draft.Takes.readable {d d' : Draft} {c : Clause} (h : d.Takes today c d')
    (hbody : ')' ∉ c.body) (hd : ∀ e ∈ d.assignment.toList, Readable e) :
    ∀ e ∈ d'.assignment.toList, Readable e := by
  cases h with
  | dimension _ hcontext _ =>
    intro e he
    rcases Table.mem_insertEntry he with rfl | he
    · exact readable_of_context? hcontext hbody
    · exact hd e he
  | days => exact hd

theorem Draft.readable_of_addAll {cs : List Clause} (hcs : ∀ c ∈ cs, ')' ∉ c.body) : ∀ {d d' : Draft},
    d.addAll today cs = .ok d' → (∀ e ∈ d.assignment.toList, Readable e) →
    ∀ e ∈ d'.assignment.toList, Readable e := by
  induction cs with
  | nil =>
    intro d d' h hd
    cases h
    exact hd
  | cons c cs ih =>
    intro d d' h hd
    obtain ⟨hc, hrest⟩ := List.forall_mem_cons.1 hcs
    obtain ⟨d₁, htakes, hadd⟩ := addAll_cons_iff.1 h
    exact ih hrest hadd (htakes.readable hc hd)

theorem Written.notMem_bracket {found : List Clause} {text : List Char} (h : Written found text) :
    ∀ c ∈ found, ')' ∉ c.body := by
  have hclause : ∀ {c : Clause} {cs : List Char}, ClauseText c cs → ')' ∉ c.body := by
    intro c cs hc
    cases hc with
    | intro _ _ _ _ _ hbody => exact hbody
  induction h with
  | none => intro c hc; cases hc
  | last hc => exact List.forall_mem_cons.2 ⟨hclause hc, fun _ h => nomatch h⟩
  | more hc _ ih => exact List.forall_mem_cons.2 ⟨hclause hc, ih⟩

/-- **Every dimension of a constraint that was read can be written.** -/
theorem readable_of_parse {text : String} {c : Constraint} (h : parse text today = .ok c) :
    ∀ e ∈ c.assignment.toList, Readable e := by
  obtain ⟨found, hfound, hadd⟩ := parse_eq_ok_iff.1 h
  exact Draft.readable_of_addAll hfound.notMem_bracket hadd fun _ he => nomatch he

/-! ## §4. What is written. -/

/-- The clause of a dimension. -/
def dimensionClause (e : String × String) : Clause :=
  ⟨['c', 'o', 'n', 't', 'e', 'x', 't'], e.1.toList ++ ':' :: e.2.toList⟩

/-- The clause of the days. -/
def daysClause (c : Constraint) : Clause :=
  ⟨c.mode.name.toList, c.range.text.toList⟩

theorem clauseText_tight {name body : List Char} (hne : name ≠ []) (hname : name.all isNameChar = true)
    (hbody : ')' ∉ body) : ClauseText ⟨name, body⟩ (name ++ '(' :: (body ++ [')'])) := by
  have h := @ClauseText.intro [] [] [] name body rfl rfl rfl hne hname hbody
  simpa using h

theorem clauseText_dimension {e : String × String} (h : Readable e) :
    ClauseText (dimensionClause e) (Assignment.clause e).toList := by
  have hbody : ')' ∉ e.1.toList ++ ':' :: e.2.toList := by
    simp only [List.mem_append, List.mem_cons, not_or]
    exact ⟨h.key_bracket, by decide, h.value_bracket⟩
  have htext := clauseText_tight (show ['c', 'o', 'n', 't', 'e', 'x', 't'] ≠ [] by decide)
    (by decide) hbody
  rw [Assignment.toList_clause]
  simpa [dimensionClause] using htext

theorem written_dimensions {es : List (String × String)} (hes : ∀ e ∈ es, Readable e) {c : Clause}
    {rest : List Char} (h : ClauseText c rest) :
    Written (es.map dimensionClause ++ [c])
      (es.foldr (fun e cs => (Assignment.clause e).toList ++ '.' :: cs) rest) := by
  induction es with
  | nil => exact .last h
  | cons e es ih =>
    obtain ⟨he, hes⟩ := List.forall_mem_cons.1 hes
    have hwritten := ih hes
    rw [List.map_cons, List.cons_append, List.foldr_cons]
    cases hmore : es.map dimensionClause ++ [c] with
    | nil => exact absurd hmore (by simp)
    | cons d found =>
      rw [hmore] at hwritten
      exact .more (clauseText_dimension he) hwritten

theorem intercalate_clauses (e : String × String) (es : List (String × String)) (rest : List Char) :
    List.intercalate ['.'] (((e :: es).map Assignment.clause).map String.toList) ++ '.' :: rest
      = (e :: es).foldr (fun e cs => (Assignment.clause e).toList ++ '.' :: cs) rest := by
  induction es generalizing e with
  | nil => simp [List.intercalate]
  | cons f es ih =>
    rw [List.foldr_cons, ← ih f]
    simp [List.intercalate]

/-- The text of a constraint, clause by clause. -/
theorem toList_text (c : Constraint) : c.text.toList
    = c.assignment.toList.foldr (fun e cs => (Assignment.clause e).toList ++ '.' :: cs)
        (c.mode.name.toList ++ '(' :: (c.range.text.toList ++ [')'])) := by
  have hempty : c.assignment.isEmpty = c.assignment.toList.isEmpty := rfl
  simp only [text, hempty, Assignment.canonical, String.toList_append]
  cases c.assignment.toList with
  | nil => simp
  | cons e es =>
    rw [← intercalate_clauses]
    simp [String.toList_intercalate]

theorem isNameChar_name (mode : TemporalMode) : mode.name.toList.all isNameChar = true := by
  cases mode <;> decide

theorem name_ne_nil (mode : TemporalMode) : mode.name.toList ≠ [] := by
  cases mode <;> decide

/-- **The text of a constraint is written from its dimensions and its days.** -/
theorem written_text {c : Constraint} (hreadable : ∀ e ∈ c.assignment.toList, Readable e)
    (hrange : ')' ∉ c.range.text.toList) :
    Written (c.assignment.toList.map dimensionClause ++ [daysClause c]) c.text.toList := by
  rw [toList_text]
  exact written_dimensions hreadable
    (clauseText_tight (name_ne_nil c.mode) (isNameChar_name c.mode) hrange)

/-! ## §5. Reading what is written. -/

theorem day_of_iso {s : String} {d : Date} (h : Date.iso? s = some d) (today : Date) :
    day s.toList today = .ok d := by
  obtain ⟨c, hc, hd⟩ := Date.iso?_eq_some_iff.1 h
  rw [day_eq_ok_iff, Text.trimChars_eq_self hc.isTrimmed]
  exact .iso hc hd

/-- A date that survives its text is written without punctuation that a clause reads. -/
theorem notMem_of_iso {s : String} {d : Date} (h : Date.iso? s = some d) {a : Char}
    (ha : 0x3A ≤ a.toNat ∨ a.toNat = 0x29) : a ∉ s.toList := by
  obtain ⟨c, hc, _⟩ := Date.iso?_eq_some_iff.1 h
  intro hmem
  rcases hc.mem a hmem with rfl | rfl | hdigit
  · revert ha; decide
  · revert ha; decide
  · rw [Text.isDigit_iff] at hdigit
    omega

theorem not_blank_of_iso {s : String} {d : Date} (h : Date.iso? s = some d) :
    s.toList.all isBlank = false := by
  obtain ⟨c, hc, _⟩ := Date.iso?_eq_some_iff.1 h
  obtain ⟨a, ha, _⟩ := hc.getLast?
  exact List.all_eq_false.2 ⟨a, List.mem_of_getLast? ha, by
    rw [hc.isBlank_eq_false a (List.mem_of_getLast? ha)]; exact Bool.false_ne_true⟩

theorem toList_rangeText (r : DateRange) :
    r.text.toList = r.start.text.toList ++ ':' :: r.stop.text.toList := by
  simp [DateRange.text, String.toList_append]

theorem rangeOf_text {r : DateRange} (hstart : Date.iso? r.start.text = some r.start)
    (hstop : Date.iso? r.stop.text = some r.stop) (today : Date) :
    rangeOf r.text.toList today = .ok r := by
  have hsplit : splitColon? r.text.toList = some (r.start.text.toList, r.stop.text.toList) :=
    splitColon?_eq_some_iff.2 ⟨notMem_of_iso hstart (.inl (by decide)), toList_rangeText r⟩
  have hmake : DateRange.make r.start r.stop = .ok r := dif_pos r.ordered
  simp only [rangeOf, hsplit, day_of_iso hstart, day_of_iso hstop, not_blank_of_iso hstop]
  show (DateRange.make r.start r.stop).mapError ConstraintError.range = .ok r
  rw [hmake]
  rfl

theorem takes_dimension {d : Draft} {e : String × String} (he : Readable e)
    (hfolded : Text.foldKey e.1 = e.1) (hnew : d.assignment.get? e.1 = none) :
    d.Takes today (dimensionClause e) { d with assignment := d.assignment.insert e.1 e.2 } := by
  refine .dimension rfl (context?_eq_some_iff.2 ⟨he.key_colon, rfl, he.key_blank, he.value_blank⟩) ?_
  rw [Assignment.replaced?, hfolded, hnew]

theorem takes_days {c : Constraint} (hstart : Date.iso? c.range.start.text = some c.range.start)
    (hstop : Date.iso? c.range.stop.text = some c.range.stop) :
    Draft.Takes today ⟨c.assignment, none⟩ (daysClause c)
      ⟨c.assignment, some (c.mode, c.range)⟩ := by
  have hmode : TemporalMode.ofName? (String.ofList (daysClause c).name) = some c.mode := by
    rw [daysClause, String.ofList_toList]
    cases c.mode <;> rfl
  have hbody : rangeOf (daysClause c).body today = .ok c.range := by
    rw [daysClause, rangeOf_text hstart hstop]
  exact .days hmode hbody rfl

theorem addAll_dimensions {es : List (String × String)} (hes : ∀ e ∈ es, Readable e)
    (hfolded : ∀ e ∈ es, Text.foldKey e.1 = e.1) (hnodup : (es.map Prod.fst).Nodup)
    (rest : List Clause) : ∀ {d : Draft}, (∀ e ∈ es, d.assignment.get? e.1 = none) →
    d.addAll today (es.map dimensionClause ++ rest)
      = Draft.addAll today
          { d with assignment := es.foldl (fun a e => a.insert e.1 e.2) d.assignment } rest := by
  induction es with
  | nil => intro d _; rfl
  | cons e es ih =>
    intro d hnew
    obtain ⟨he, hes⟩ := List.forall_mem_cons.1 hes
    obtain ⟨hkey, hfolded⟩ := List.forall_mem_cons.1 hfolded
    obtain ⟨hfirst, hnew⟩ := List.forall_mem_cons.1 hnew
    obtain ⟨hout, hnodup⟩ := List.nodup_cons.1 hnodup
    have htake : d.add today (dimensionClause e)
        = .ok { d with assignment := d.assignment.insert e.1 e.2 } :=
      Draft.add_eq_ok_iff.2 (takes_dimension he hkey hfirst)
    rw [List.map_cons, List.cons_append, Draft.addAll, htake]
    refine ih hes hfolded hnodup fun f hf => ?_
    -- The keys that follow are others.
    have hne : f.1 ≠ Text.foldKey e.1 := by
      rw [hkey]
      rintro hkeys
      exact hout (hkeys ▸ List.mem_map_of_mem hf)
    rw [Assignment.get?_insert, if_neg hne, hnew f hf]

/-- **Constraints survive their text.**  Where a constraint was read and both ends of its range
    survive their own text, its text is read as the same constraint on any day. -/
theorem parse_text (text : String) (today : Date) (c : Constraint) (h : parse text today = .ok c)
    (hstart : Date.iso? c.range.start.text = some c.range.start)
    (hstop : Date.iso? c.range.stop.text = some c.range.stop) (later : Date) :
    parse c.text later = .ok c := by
  have hreadable := readable_of_parse h
  have hrange : ')' ∉ c.range.text.toList := by
    rw [toList_rangeText, List.mem_append, List.mem_cons, not_or, not_or]
    exact ⟨notMem_of_iso hstart (.inr rfl), by decide, notMem_of_iso hstop (.inr rfl)⟩
  refine parse_eq_ok_iff.2 ⟨_, written_text hreadable hrange, ?_⟩
  rw [addAll_dimensions hreadable (fun e he => (c.assignment.folded e he).1)
    c.assignment.cells.nodup_keys [daysClause c] fun _ _ => rfl]
  refine (congrArg (fun a => Draft.addAll later ⟨a, none⟩ [daysClause c])
    c.assignment.ofPairs_toList).trans ?_
  exact Draft.addAll_cons_iff.2 ⟨_, takes_days hstart hstop, rfl⟩

/-- A text with relative days is written with fixed ones, and means the same ever after. -/
theorem parse_text_sample :
    parse Sample.looseText (.ofDays 10) = .ok Sample.adsOfThreeDays
      ∧ Sample.adsOfThreeDays.text = "context(channel:ads).window(1970-01-08:1970-01-10)"
      ∧ parse Sample.adsOfThreeDays.text (.ofDays 500) = .ok Sample.adsOfThreeDays :=
  ⟨Sample.parse_looseText, by decide +kernel,
    parse_text Sample.looseText (.ofDays 10) Sample.adsOfThreeDays Sample.parse_looseText
      (by decide +kernel) (by decide +kernel) (.ofDays 500)⟩

end Constraint

end MetricCube
