/-
  MetricCube.Proofs.Question
  ──────────────────────────
  **What the hash of a question says.**  The bytes of a question can be taken apart
  (`hashBytes_eq_iff`), and the canonical text of a definition says what the definition
  means.  If the ids of events are distinct, equal bytes thus mean that the same is asked
  (`bytes_say_question`): blanks, order and repetition, labels and the order of object
  members make no difference, and everything else does.  That objects repeat no key is no
  restriction on questions that are read (`proper_of_decode`).

  Of several events with one id only the first one is hashed (`mem_orderedEvents`).  The
  order of events therefore makes no difference as long as events with one id have
  definitions that mean the same, and it makes one otherwise (`hash_of_rearranged`).
-/
import Mathlib
import MetricCube.Codec
import MetricCube.Plan.Outcome
import MetricCube.Proofs.Bytes
import MetricCube.Proofs.Canonical
import MetricCube.Proofs.Reading
import MetricCube.Proofs.Table

namespace MetricCube

theorem TemporalMode.tag_injective {m n : TemporalMode} (h : m.tag = n.tag) : m = n := by
  cases m <;> cases n <;> first | rfl | exact absurd h (by decide)

namespace Question

/-! ## §1. The first event of each id. -/

/-- The first event with an id. -/
def first? (events : List TrackedEvent) (id : String) : Option TrackedEvent :=
  events.find? fun e => e.id == id

variable {es fs : List TrackedEvent} {e f : TrackedEvent} {id : String}

theorem first?_cons : first? (e :: es) id = if e.id = id then some e else first? es id := by
  unfold first?
  rw [List.find?_cons]
  by_cases h : e.id = id
  · rw [if_pos h, beq_iff_eq.2 h]
  · rw [if_neg h, beq_eq_false_iff_ne.2 h]

theorem mem_of_first? (h : first? es id = some e) : e ∈ es ∧ e.id = id := by
  unfold first? at h
  exact ⟨List.mem_of_find?_eq_some h, by simpa using List.find?_some h⟩

/-- An event goes in front of those with its id, and does not get between others. -/
theorem first?_insertWith :
    first? (Ordered.insertWith (fun a b => !decide (b.id < a.id)) e es) id
      = if e.id = id then some e else first? es id := by
  induction es with
  | nil => exact first?_cons
  | cons f es ih =>
    unfold Ordered.insertWith
    split
    · exact first?_cons
    · rename_i hlt
      have hlt : f.id < e.id := by simpa using hlt
      rw [first?_cons, ih, first?_cons]
      by_cases hf : f.id = id
      · rw [if_pos hf, if_pos hf, if_neg fun he => hlt.ne (hf.trans he.symm)]
      · rw [if_neg hf, if_neg hf]

/-- Sorting by id keeps the first event of each id in front. -/
theorem first?_sortWith (es : List TrackedEvent) :
    first? (Ordered.sortWith (fun a b => !decide (b.id < a.id)) es) id = first? es id := by
  induction es with
  | nil => rfl
  | cons e es ih => rw [first?_cons, ← ih]; exact first?_insertWith

theorem sublist_dropRepeated (es : List TrackedEvent) : (dropRepeated es).Sublist es := by
  induction es with
  | nil => exact List.Sublist.slnil
  | cons e es ih =>
    unfold dropRepeated
    split
    · exact List.singleton_sublist.2 List.mem_cons_self
    · rename_i f rest hrest
      rw [hrest] at ih
      split
      · exact ((List.sublist_cons_self f rest).trans ih).cons_cons e
      · exact ih.cons_cons e

theorem ascending_dropRepeated (h : es.Pairwise fun a b => a.id ≤ b.id) :
    (dropRepeated es).Pairwise fun a b => a.id < b.id := by
  -- Of events with one id the later one is dropped, so the kept id stays in front.
  induction es with
  | nil => exact List.Pairwise.nil
  | cons e es ih =>
    have hkept := ih h.of_cons
    have hle : ∀ f ∈ dropRepeated es, e.id ≤ f.id := fun f hf =>
      List.rel_of_pairwise_cons h ((sublist_dropRepeated es).subset hf)
    unfold dropRepeated
    split
    · exact List.pairwise_singleton _ _
    · rename_i f rest hrest
      rw [hrest] at hkept hle
      split
      · rename_i heq
        exact hkept.of_cons.cons fun g hg => heq ▸ List.rel_of_pairwise_cons hkept hg
      · rename_i hne
        have hlt : e.id < f.id := lt_of_le_of_ne (hle f List.mem_cons_self) hne
        refine hkept.cons fun g hg => ?_
        rcases List.mem_cons.1 hg with rfl | hg
        · exact hlt
        · exact hlt.trans (List.rel_of_pairwise_cons hkept hg)

theorem mem_dropRepeated_cons (h : (e :: es).Pairwise fun a b => a.id ≤ b.id) :
    f ∈ dropRepeated (e :: es) ↔ f = e ∨ f ∈ dropRepeated es ∧ f.id ≠ e.id := by
  have hkept := ascending_dropRepeated h.of_cons
  have hle : ∀ f ∈ dropRepeated es, e.id ≤ f.id := fun f hf =>
    List.rel_of_pairwise_cons h ((sublist_dropRepeated es).subset hf)
  rw [dropRepeated]
  split
  · rename_i hnil
    simp [hnil]
  · rename_i g rest hrest
    rw [hrest] at hkept hle ⊢
    have hlater : ∀ f ∈ rest, e.id < f.id := fun f hf =>
      (hle g List.mem_cons_self).trans_lt (List.rel_of_pairwise_cons hkept hf)
    split
    · rename_i heq
      rw [List.mem_cons, List.mem_cons]
      refine or_congr_right ⟨fun hf => ⟨.inr hf, (hlater f hf).ne'⟩, fun hf => ?_⟩
      exact hf.1.resolve_left fun hfg => hf.2 (hfg ▸ heq.symm)
    · rename_i hne
      rw [List.mem_cons]
      refine or_congr_right (iff_self_and.2 fun hf => ?_)
      rcases List.mem_cons.1 hf with rfl | hf
      · exact Ne.symm hne
      · exact (hlater f hf).ne'

theorem mem_dropRepeated (h : es.Pairwise fun a b => a.id ≤ b.id) :
    e ∈ dropRepeated es ↔ first? es e.id = some e := by
  induction es with
  | nil => simp [dropRepeated, first?]
  | cons f es ih =>
    rw [mem_dropRepeated_cons h, ih h.of_cons, first?_cons]
    split
    · rename_i heq
      simp [heq, eq_comm]
    · rename_i hne
      constructor
      · rintro (rfl | hfirst)
        · exact absurd rfl hne
        · exact hfirst.1
      · exact fun hfirst => .inr ⟨hfirst, Ne.symm hne⟩

/-- **The events that are hashed are the first ones of each id,** -/
theorem mem_orderedEvents : e ∈ orderedEvents es ↔ first? es e.id = some e := by
  unfold orderedEvents
  rw [mem_dropRepeated (Ordered.ascending_sortWith_text TrackedEvent.id es), first?_sortWith]

/-- in ascending order of ids. -/
theorem ascending_orderedEvents (es : List TrackedEvent) :
    (orderedEvents es).Pairwise fun a b => a.id < b.id :=
  ascending_dropRepeated (Ordered.ascending_sortWith_text TrackedEvent.id es)

theorem length_orderedEvents_le (es : List TrackedEvent) :
    (orderedEvents es).length ≤ es.length :=
  (sublist_dropRepeated _).length_le.trans (Ordered.perm_sortWith _ es).length_eq.le

theorem exists_first? (h : e ∈ es) : ∃ f, first? es e.id = some f := by
  refine Option.isSome_iff_exists.1 ?_
  rw [first?, List.find?_isSome]
  exact ⟨e, h, beq_iff_eq.2 rfl⟩

/-- If ids are distinct, each event is the first one of its id. -/
theorem first?_of_mem (hids : (es.map TrackedEvent.id).Nodup) (h : e ∈ es) :
    first? es e.id = some e := by
  obtain ⟨f, hf⟩ := exists_first? h
  obtain ⟨hmem, hid⟩ := mem_of_first? hf
  rw [hf, List.inj_on_of_nodup_map hids hmem h hid]

/-! ## §2. What the bytes say. -/

/-- What the bytes say of an event: its id and the text of its definition. -/
def said (e : TrackedEvent) : String × String :=
  (e.id, definitionText e)

/-- The text of the first definition under an id. -/
def firstText? (events : List TrackedEvent) (id : String) : Option String :=
  (first? events id).map definitionText

theorem firstText?_eq_some (h : first? es id = some e) :
    firstText? es id = some (definitionText e) :=
  congrArg (Option.map definitionText) h

theorem mem_map_said {p : String × String} :
    p ∈ (orderedEvents es).map said ↔ firstText? es p.1 = some p.2 := by
  rw [List.mem_map]
  constructor
  · rintro ⟨e, he, rfl⟩
    exact firstText?_eq_some (mem_orderedEvents.1 he)
  · intro h
    obtain ⟨e, he, htext⟩ := Option.map_eq_some_iff.1 h
    obtain ⟨-, hid⟩ := mem_of_first? he
    refine ⟨e, mem_orderedEvents.2 (hid ▸ he), Prod.ext hid htext⟩

/-- The hashed events say which definition each id has first. -/
theorem map_said_eq_iff : (orderedEvents es).map said = (orderedEvents fs).map said
    ↔ ∀ id, firstText? es id = firstText? fs id := by
  constructor
  · intro h id
    ext text
    have hmem : (id, text) ∈ (orderedEvents es).map said
        ↔ (id, text) ∈ (orderedEvents fs).map said := by rw [h]
    exact mem_map_said.symm.trans (hmem.trans mem_map_said)
  · intro h
    have hascending : ∀ es, ((orderedEvents es).map said).Pairwise fun a b => a.1 < b.1 :=
      fun es => List.pairwise_map.2 (ascending_orderedEvents es)
    have hirrefl : Std.Irrefl fun a b : String × String => a.1 < b.1 := ⟨fun a => lt_irrefl a.1⟩
    have hantisymm : Std.Antisymm fun a b : String × String => a.1 < b.1 :=
      ⟨fun a b hab hba => absurd hab (lt_asymm hba)⟩
    refine List.Pairwise.eq_of_mem_iff (hascending es) (hascending fs) fun p => ?_
    rw [mem_map_said, mem_map_said, h]

/-- All texts of the question, with those of its definitions, and all of its lists are shorter
    than 2 ^ 32. -/
structure Measured (q : Question) : Prop where
  connection : Bytes.Fits q.connection
  events : q.events.length < 4294967296
  ids : ∀ e ∈ q.events, Bytes.Fits e.id
  definitions : ∀ e ∈ q.events, Bytes.Fits (definitionText e)
  filters : Bytes.AllFit q.filters
  source : Bytes.Fits q.shape.source
  target : Bytes.Fits q.shape.target
  visited : Bytes.AllFit q.shape.visited
  excluded : Bytes.AllFit q.shape.excluded

instance (q : Question) : Decidable q.Measured :=
  decidable_of_iff
    ((Bytes.Fits q.connection ∧ q.events.length < 4294967296)
      ∧ (∀ e ∈ q.events, Bytes.Fits e.id ∧ Bytes.Fits (definitionText e))
      ∧ Bytes.AllFit q.filters ∧ (Bytes.Fits q.shape.source ∧ Bytes.Fits q.shape.target)
      ∧ Bytes.AllFit q.shape.visited ∧ Bytes.AllFit q.shape.excluded)
    ⟨fun ⟨⟨hc, hl⟩, he, hf, ⟨hs, ht⟩, hv, hx⟩ =>
        ⟨hc, hl, fun e h => (he e h).1, fun e h => (he e h).2, hf, hs, ht, hv, hx⟩,
      fun h => ⟨⟨h.connection, h.events⟩, fun e he => ⟨h.ids e he, h.definitions e he⟩, h.filters,
        ⟨h.source, h.target⟩, h.visited, h.excluded⟩⟩

theorem allFit_trimmedSet {texts : List String} (h : Bytes.AllFit texts) :
    Bytes.AllFit (trimmedSet texts) := by
  refine ⟨(Ordered.length_distinct_le _).trans_lt (by simpa using h.1), fun s hs => ?_⟩
  obtain ⟨t, ht, rfl⟩ := List.mem_map.1 (Ordered.mem_distinct.1 hs)
  exact (h.2 t ht).trim

theorem legible_eventBytes :
    Bytes.Legible (fun e => Bytes.Fits e.id ∧ Bytes.Fits (definitionText e)) eventBytes said := by
  intro e f x y he hf heq
  unfold eventBytes at heq
  rw [List.append_assoc, List.append_assoc] at heq
  obtain ⟨hid, hrest⟩ := Bytes.legible_text he.1 hf.1 heq
  obtain ⟨htext, hrest⟩ := Bytes.legible_text he.2 hf.2 hrest
  exact ⟨Prod.ext hid htext, hrest⟩

theorem Measured.orderedEvents {q : Question} (h : q.Measured) :
    (orderedEvents q.events).length < 4294967296 ∧
      ∀ e ∈ orderedEvents q.events, Bytes.Fits e.id ∧ Bytes.Fits (definitionText e) := by
  refine ⟨(length_orderedEvents_le _).trans_lt h.events, fun e he => ?_⟩
  have hmem := (mem_of_first? (mem_orderedEvents.1 he)).1
  exact ⟨h.ids e hmem, h.definitions e hmem⟩

/-- The parts of two questions that enter their bytes are equal. -/
structure SameParts (q q' : Question) : Prop where
  connection : Text.trim q.connection = Text.trim q'.connection
  definitions : ∀ id, firstText? q.events id = firstText? q'.events id
  filters : trimmedSet q.filters = trimmedSet q'.filters
  mode : q.shape.mode = q'.shape.mode
  source : q.shape.source = q'.shape.source
  target : q.shape.target = q'.shape.target
  visited : trimmedSet q.shape.visited = trimmedSet q'.shape.visited
  excluded : trimmedSet q.shape.excluded = trimmedSet q'.shape.excluded

variable {q q' : Question}

theorem SameParts.hashBytes_eq (h : q.SameParts q') : q.hashBytes = q'.hashBytes := by
  have hsaid := map_said_eq_iff.2 h.definitions
  have hlength : (orderedEvents q.events).length = (orderedEvents q'.events).length := by
    simpa using congrArg List.length hsaid
  have hbytes : (orderedEvents q.events).flatMap eventBytes
      = (orderedEvents q'.events).flatMap eventBytes := by
    have hflat := congrArg (List.flatMap fun p => Bytes.text p.1 ++ Bytes.text p.2) hsaid
    rwa [List.flatMap_map, List.flatMap_map] at hflat
  unfold hashBytes
  simp only [h.connection, hlength, hbytes, h.filters, h.mode, h.source, h.target, h.visited,
    h.excluded]

/-- **The bytes of a question say its parts.** -/
theorem hashBytes_eq_iff (hq : q.Measured) (hq' : q'.Measured) :
    q.hashBytes = q'.hashBytes ↔ q.SameParts q' := by
  refine ⟨fun h => ?_, SameParts.hashBytes_eq⟩
  unfold hashBytes at h
  simp only [List.append_assoc, List.cons_append] at h
  -- Each section is taken off the front, after its tag.
  have hrest := (List.cons.inj (List.append_cancel_left h)).2
  obtain ⟨hconnection, hrest⟩ :=
    Bytes.legible_text hq.connection.trim hq'.connection.trim hrest
  have hrest := (List.cons.inj hrest).2
  rw [← List.append_assoc, ← List.append_assoc (Bytes.word32 _)] at hrest
  obtain ⟨hevents, hrest⟩ :=
    Bytes.Legible.counted legible_eventBytes hq.orderedEvents hq'.orderedEvents hrest
  obtain ⟨hfilters, hrest⟩ := Bytes.legible_texts (allFit_trimmedSet hq.filters)
    (allFit_trimmedSet hq'.filters) (List.cons.inj hrest).2
  obtain ⟨htag, hrest⟩ := List.cons.inj (List.cons.inj hrest).2
  obtain ⟨hsource, hrest⟩ := Bytes.legible_text hq.source hq'.source hrest
  obtain ⟨htarget, hrest⟩ := Bytes.legible_text hq.target hq'.target hrest
  obtain ⟨hvisited, hrest⟩ := Bytes.legible_texts (allFit_trimmedSet hq.visited)
    (allFit_trimmedSet hq'.visited) hrest
  rw [← List.append_nil (Bytes.texts _),
    ← List.append_nil (Bytes.texts (trimmedSet q'.shape.excluded))] at hrest
  obtain ⟨hexcluded, -⟩ := Bytes.legible_texts (allFit_trimmedSet hq.excluded)
    (allFit_trimmedSet hq'.excluded) hrest
  exact ⟨hconnection, map_said_eq_iff.1 hevents, hfilters, TemporalMode.tag_injective htag,
    hsource, htarget, hvisited, hexcluded⟩

/-! ## §3. What is asked. -/

/-- The first events of each id have definitions that mean the same. -/
def FirstsAgree (es fs : List TrackedEvent) : Prop :=
  ∀ id, Option.Rel (fun e f => e.definition.Same f.definition) (first? es id) (first? fs id)

/-- The numbers in the definitions of a question. -/
def numbers (q : Question) : List Json.Number :=
  q.events.flatMap fun e => e.definition.numbers

/-- The objects in the definitions of a question repeat no key. -/
def Proper (q : Question) : Prop :=
  ∀ e ∈ q.events, e.definition.Proper

theorem proper_of_readEvent {depth : Nat} {t : Json.Tree} (h : Codec.readEvent depth t = .ok e) :
    e.definition.Proper := by
  obtain ⟨d, hrecord, h⟩ := Json.exists_of_bind_eq_ok h
  obtain ⟨id, _, h⟩ := Json.exists_of_bind_eq_ok h
  cases h
  refine Json.holds_of_record (P := fun d => d.definition.Proper) (fun f hf => ?_) trivial hrecord
  simp only [List.mem_cons, List.not_mem_nil, or_false] at hf
  rcases hf with rfl | rfl | rfl
  · exact Json.keeps_field fun _ _ _ _ _ hd => hd
  · exact Json.keeps_field fun _ _ _ _ _ hd => hd
  · exact Json.keeps_field fun _ _ _ _ hvalue _ => Json.proper_of_value hvalue

/-- **A question that is read from a text is proper.** -/
theorem proper_of_decode {text : String} (h : Codec.question.decode text = .ok q) : q.Proper := by
  have hread : Codec.readQuestion Json.maxDepth _ = .ok q := Json.reader_of_read h
  obtain ⟨d, hrecord, h⟩ := Json.exists_of_bind_eq_ok hread
  obtain ⟨connection, _, h⟩ := Json.exists_of_bind_eq_ok h
  obtain ⟨shape, _, h⟩ := Json.exists_of_bind_eq_ok h
  cases h
  refine Json.holds_of_record (P := fun d => ∀ e ∈ d.events, e.definition.Proper)
    (fun f hf => ?_) (by simp) hrecord
  simp only [List.mem_cons, List.not_mem_nil, or_false] at hf
  rcases hf with rfl | rfl | rfl | rfl
  · exact Json.keeps_field fun _ _ _ _ _ hd => hd
  · exact Json.keeps_field fun _ _ _ _ hevents _ =>
      Json.forall_of_list (fun _ _ _ => proper_of_readEvent) hevents
  · exact Json.keeps_field fun _ _ _ _ _ hd => hd
  · exact Json.keeps_field fun _ _ _ _ _ hd => hd

theorem numbers_subset (h : e ∈ q.events) : e.definition.numbers ⊆ q.numbers :=
  fun _ hn => List.mem_flatMap.2 ⟨e, h, hn⟩

theorem definitionText_eq_of_same (he : e.definition.Proper)
    (h : e.definition.Same f.definition) : definitionText e = definitionText f :=
  congrArg Json.Value.text ((Json.Value.canonical_eq_iff he).2 h)

theorem FirstsAgree.definitions (hproper : q.Proper) (h : FirstsAgree q.events q'.events)
    (id : String) : firstText? q.events id = firstText? q'.events id := by
  have hid := h id
  unfold firstText?
  revert hid
  cases hfirst : first? q.events id <;> cases first? q'.events id <;> intro hid <;> cases hid
  · rfl
  · rename_i hsame
    have hmem := (mem_of_first? hfirst).1
    exact congrArg some (definitionText_eq_of_same (hproper _ hmem) hsame)

/-- Where numbers are written apart, the texts of definitions say what they mean. -/
theorem firstsAgree_iff (hproper : q.Proper)
    (hapart : Json.Value.WrittenApart q.numbers q'.numbers) :
    FirstsAgree q.events q'.events ↔ ∀ id, firstText? q.events id = firstText? q'.events id := by
  refine ⟨fun h => h.definitions hproper, fun h id => ?_⟩
  have hid := h id
  unfold firstText? at hid
  revert hid
  cases hfirst : first? q.events id <;> cases hfirst' : first? q'.events id <;> intro hid
  · exact .none
  · cases hid
  · cases hid
  · have hmem := (mem_of_first? hfirst).1
    have hmem' := (mem_of_first? hfirst').1
    have hnumbers := hapart.mono (numbers_subset hmem) (numbers_subset hmem')
    exact .some ((Json.Value.text_canonical_eq_iff (hproper _ hmem) hnumbers).1
      (Option.some.inj hid))

/-- If ids are distinct, first events agree exactly if the events are the same pairs of an id and
    a definition. -/
theorem firstsAgree_iff_of_nodup (hes : (es.map TrackedEvent.id).Nodup)
    (hfs : (fs.map TrackedEvent.id).Nodup) : FirstsAgree es fs
      ↔ (∀ e ∈ es, ∃ f ∈ fs, e.id = f.id ∧ e.definition.Same f.definition)
        ∧ ∀ f ∈ fs, ∃ e ∈ es, e.id = f.id ∧ e.definition.Same f.definition := by
  -- With distinct ids every event is the first one with its id.
  constructor
  · intro h
    constructor
    · intro e he
      have hid := h e.id
      rw [first?_of_mem hes he] at hid
      cases hfirst : first? fs e.id <;> rw [hfirst] at hid <;> cases hid
      rename_i f hsame
      obtain ⟨hf, hef⟩ := mem_of_first? hfirst
      exact ⟨f, hf, hef.symm, hsame⟩
    · intro f hf
      have hid := h f.id
      rw [first?_of_mem hfs hf] at hid
      cases hfirst : first? es f.id <;> rw [hfirst] at hid <;> cases hid
      rename_i e hsame
      obtain ⟨he, hef⟩ := mem_of_first? hfirst
      exact ⟨e, he, hef, hsame⟩
  · rintro ⟨hleft, hright⟩ id
    cases hfirst : first? es id with
    | some e =>
      obtain ⟨he, rfl⟩ := mem_of_first? hfirst
      obtain ⟨f, hf, hef, hsame⟩ := hleft e he
      rw [hef, first?_of_mem hfs hf]
      exact .some hsame
    | none =>
      cases hfirst' : first? fs id with
      | none => exact .none
      | some f =>
        obtain ⟨hf, rfl⟩ := mem_of_first? hfirst'
        obtain ⟨e, he, hef, -⟩ := hright f hf
        rw [← hef, first?_of_mem hes he] at hfirst
        cases hfirst

/-- The questions ask the same, if the ids of their events are distinct. -/
structure Agrees (q q' : Question) : Prop where
  connection : Text.trim q.connection = Text.trim q'.connection
  /-- Each event of the first one is an event of the second one, -/
  events : ∀ e ∈ q.events, ∃ e' ∈ q'.events, e.id = e'.id ∧ e.definition.Same e'.definition
  /-- and conversely. -/
  events' : ∀ e' ∈ q'.events, ∃ e ∈ q.events, e.id = e'.id ∧ e.definition.Same e'.definition
  filters : ∀ s, s ∈ q.filters.map Text.trim ↔ s ∈ q'.filters.map Text.trim
  mode : q.shape.mode = q'.shape.mode
  source : q.shape.source = q'.shape.source
  target : q.shape.target = q'.shape.target
  visited : ∀ s, s ∈ q.shape.visited.map Text.trim ↔ s ∈ q'.shape.visited.map Text.trim
  excluded : ∀ s, s ∈ q.shape.excluded.map Text.trim ↔ s ∈ q'.shape.excluded.map Text.trim

theorem sameParts_iff_agrees (hids : (q.events.map TrackedEvent.id).Nodup)
    (hids' : (q'.events.map TrackedEvent.id).Nodup) (hproper : q.Proper)
    (hapart : Json.Value.WrittenApart q.numbers q'.numbers) : q.SameParts q' ↔ q.Agrees q' := by
  have hevents := (firstsAgree_iff hproper hapart).symm.trans (firstsAgree_iff_of_nodup hids hids')
  constructor
  · intro h
    obtain ⟨hleft, hright⟩ := hevents.1 h.definitions
    exact ⟨h.connection, hleft, hright, Ordered.distinct_eq_iff.1 h.filters, h.mode, h.source,
      h.target, Ordered.distinct_eq_iff.1 h.visited, Ordered.distinct_eq_iff.1 h.excluded⟩
  · intro h
    exact ⟨h.connection, hevents.2 ⟨h.events, h.events'⟩, Ordered.distinct_eq_iff.2 h.filters,
      h.mode, h.source, h.target, Ordered.distinct_eq_iff.2 h.visited,
      Ordered.distinct_eq_iff.2 h.excluded⟩

theorem Measured.withMode (h : q.Measured) (mode : TemporalMode) : (q.withMode mode).Measured :=
  ⟨h.connection, h.events, h.ids, h.definitions, h.filters, h.source, h.target, h.visited,
    h.excluded⟩

/-- Questions that are put in different modes have one hash only if digests collide. -/
theorem collide_of_hash_withMode_eq (hq : q.Measured) (hq' : q'.Measured) {m n : TemporalMode}
    (hmode : m ≠ n) (h : (q.withMode m).hash = (q'.withMode n).hash) :
    Digest.Sha256.Collide (q.withMode m).hashBytes (q'.withMode n).hashBytes := by
  refine (Digest.Sha256.hex_digest_eq_iff.1 h).resolve_left fun hbytes => hmode ?_
  exact ((hashBytes_eq_iff (hq.withMode m) (hq'.withMode n)).1 hbytes).mode

/-- **The bytes of a question say what is asked.**  They are equal exactly if the questions ask
    the same, and requests for windows and for cohorts have one core only if digests collide. -/
theorem bytes_say_question (hq : q.Measured) (hq' : q'.Measured)
    (hids : (q.events.map TrackedEvent.id).Nodup) (hids' : (q'.events.map TrackedEvent.id).Nodup)
    (hproper : q.Proper) (hapart : Json.Value.WrittenApart q.numbers q'.numbers) :
    (q.hashBytes = q'.hashBytes ↔ q.Agrees q')
      ∧ ∀ (metric metric' : String) (c c' : Constraint), c.mode = .window → c'.mode = .cohort →
          (Request.ofConstraint metric c q).core = (Request.ofConstraint metric' c' q').core →
            Digest.Sha256.Collide (q.withMode .window).hashBytes
              (q'.withMode .cohort).hashBytes := by
  refine ⟨(hashBytes_eq_iff hq hq').trans (sameParts_iff_agrees hids hids' hproper hapart), ?_⟩
  intro metric metric' c c' hc hc' h
  unfold Request.ofConstraint at h
  rw [hc, hc'] at h
  exact collide_of_hash_withMode_eq hq hq' (by decide) h

namespace Sample

/-- A question with blanks, repetitions, and a nested definition that holds 2 and 1.5. -/
def loose : Question where
  connection := " amplitude"
  events := [
    ⟨"view", some "Page View", .object [("event", .string "View"), ("props", .object [
      ("b", .number (.whole 2)),
      ("a", .array [.null, .number (.double 0x3FF8000000000000)])])]⟩,
    ⟨"signup", none, .object [("event", .string "Sign \"Up\"")]⟩]
  filters := ["region = 'EU' ", "plan = 'pro'", "region = 'EU'"]
  shape := ⟨.window, "signup", "view", ["pricing"], ["refund", " refund"]⟩

/-- The same one, tidied. -/
def tidy : Question where
  connection := "amplitude"
  events := [
    ⟨"signup", some "Signed up", .object [("event", .string "Sign \"Up\"")]⟩,
    ⟨"view", none, .object [("props", .object [
      ("a", .array [.null, .number (.double 0x3FF8000000000000)]),
      ("b", .number (.whole 2))]), ("event", .string "View")]⟩]
  filters := ["plan = 'pro'", "region = 'EU'"]
  shape := ⟨.window, "signup", "view", ["pricing"], ["refund"]⟩

/-- One with 1.25 in the place of 1.5. -/
def other : Question where
  connection := "amplitude"
  events := [
    ⟨"signup", none, .object [("event", .string "Sign \"Up\"")]⟩,
    ⟨"view", none, .object [("event", .string "View"), ("props", .object [
      ("a", .array [.null, .number (.double 0x3FF4000000000000)]),
      ("b", .number (.whole 2))])]⟩]
  filters := ["plan = 'pro'", "region = 'EU'"]
  shape := ⟨.window, "signup", "view", ["pricing"], ["refund"]⟩

theorem measured_loose : loose.Measured := by decide +kernel

theorem measured_tidy : tidy.Measured := by decide +kernel

theorem measured_other : other.Measured := by decide +kernel

theorem proper_tidy : tidy.Proper := by
  simp [Question.Proper, tidy, Json.Value.Proper, Json.Value.ProperMembers,
    Json.Value.ProperItems]

end Sample

/-- Presentation makes no difference, another number does. -/
theorem bytes_say_question_tidy :
    (Sample.tidy.Measured ∧ Sample.loose.Measured ∧ Sample.other.Measured)
      ∧ Sample.tidy.hashBytes = Sample.loose.hashBytes ∧ Sample.tidy.Agrees Sample.loose
      ∧ ¬ Sample.tidy.Agrees Sample.other := by
  have hloose := (bytes_say_question Sample.measured_tidy Sample.measured_loose
    (by decide +kernel) (by decide +kernel) Sample.proper_tidy (by decide +kernel)).1
  have hother := (bytes_say_question Sample.measured_tidy Sample.measured_other
    (by decide +kernel) (by decide +kernel) Sample.proper_tidy (by decide +kernel)).1
  have heq : Sample.tidy.hashBytes = Sample.loose.hashBytes := by decide +kernel
  have hne : Sample.tidy.hashBytes ≠ Sample.other.hashBytes := by decide +kernel
  exact ⟨⟨Sample.measured_tidy, Sample.measured_loose, Sample.measured_other⟩, heq,
    hloose.1 heq, fun h => hne (hother.2 h)⟩

/-! ## §4. Presentation. -/

/-- The second question presents the first one in another way: events, filters and steps in
    another order, filters and steps repeated, other labels, and the members of objects in another
    order at whatever depth of a definition. -/
structure Rearranged (q q' : Question) : Prop where
  connection : q.connection = q'.connection
  events : ∃ es : List TrackedEvent, es.Perm q.events ∧
    List.Forall₂ (fun e e' => e.id = e'.id ∧ e.definition.Same e'.definition) es q'.events
  filters : ∀ s, s ∈ q.filters ↔ s ∈ q'.filters
  mode : q.shape.mode = q'.shape.mode
  source : q.shape.source = q'.shape.source
  target : q.shape.target = q'.shape.target
  visited : ∀ s, s ∈ q.shape.visited ↔ s ∈ q'.shape.visited
  excluded : ∀ s, s ∈ q.shape.excluded ↔ s ∈ q'.shape.excluded

theorem trimmedSet_eq_of_mem_iff {ss ts : List String} (h : ∀ s, s ∈ ss ↔ s ∈ ts) :
    trimmedSet ss = trimmedSet ts := by
  refine Ordered.distinct_eq_iff.2 fun s => ?_
  simp only [List.mem_map, h]

/-- Of a question that is presented in another way, only the first definitions can differ. -/
theorem Rearranged.sameParts (h : q.Rearranged q')
    (hdefinitions : ∀ id, firstText? q.events id = firstText? q'.events id) : q.SameParts q' :=
  ⟨congrArg Text.trim h.connection, hdefinitions, trimmedSet_eq_of_mem_iff h.filters, h.mode,
    h.source, h.target, trimmedSet_eq_of_mem_iff h.visited, trimmedSet_eq_of_mem_iff h.excluded⟩

/-- Events with one id have definitions that mean the same. -/
def Consistent (es : List TrackedEvent) : Prop :=
  ∀ e ∈ es, ∀ f ∈ es, e.id = f.id → e.definition.Same f.definition

theorem consistent_of_nodup (hproper : q.Proper) (hids : (q.events.map TrackedEvent.id).Nodup) :
    Consistent q.events := by
  intro e he f hf hid
  rw [List.inj_on_of_nodup_map hids he hf hid]
  exact .refl (hproper f hf)

theorem exists_of_forall₂ {R : TrackedEvent → TrackedEvent → Prop} (h : List.Forall₂ R es fs) :
    (∀ e ∈ es, ∃ f ∈ fs, R e f) ∧ ∀ f ∈ fs, ∃ e ∈ es, R e f := by
  induction h with
  | nil => simp
  | cons hR _ ih =>
    simp only [List.forall_mem_cons, List.exists_mem_cons_iff]
    exact ⟨⟨.inl hR, fun e he => .inr (ih.1 e he)⟩, .inl hR, fun f hf => .inr (ih.2 f hf)⟩

/-- If events with one id mean the same, it does not matter which of them is the first one. -/
theorem Rearranged.definitions (h : q.Rearranged q') (hproper : q.Proper)
    (hconsistent : Consistent q.events) (id : String) :
    firstText? q.events id = firstText? q'.events id := by
  obtain ⟨es, hperm, hpaired⟩ := h.events
  obtain ⟨hforth, hback⟩ := exists_of_forall₂ hpaired
  cases hfirst' : first? q'.events id with
  | some e' =>
    obtain ⟨hmem', rfl⟩ := mem_of_first? hfirst'
    obtain ⟨e, he, hid, hsame⟩ := hback e' hmem'
    obtain ⟨f, hfirst⟩ := exists_first? (hperm.mem_iff.1 he)
    obtain ⟨hf, hfid⟩ := mem_of_first? hfirst
    -- The first event on this side is another one perhaps, but it means the same.
    have hfe := hconsistent f hf e (hperm.mem_iff.1 he) hfid
    rw [firstText?_eq_some hfirst', ← hid, firstText?_eq_some hfirst,
      definitionText_eq_of_same (hproper f hf) hfe,
      definitionText_eq_of_same (hproper e (hperm.mem_iff.1 he)) hsame]
  | none =>
    cases hfirst : first? q.events id with
    | none => rw [firstText?, firstText?, hfirst, hfirst']
    | some e =>
      obtain ⟨hmem, rfl⟩ := mem_of_first? hfirst
      obtain ⟨e', he', hid, -⟩ := hforth e (hperm.mem_iff.2 hmem)
      obtain ⟨f, hf⟩ := exists_first? he'
      rw [← hid, hfirst'] at hf
      cases hf

/-- **What the hash says of a question that is presented in another way.**  It does not change if
    the first definitions under each id mean the same, as they do if events with one id mean the
    same, and certainly if ids are distinct.  Otherwise the hash does change. -/
theorem hash_of_rearranged (hproper : q.Proper) (h : q.Rearranged q') :
    (FirstsAgree q.events q'.events → q'.hash = q.hash)
      ∧ (Consistent q.events → q'.hash = q.hash)
      ∧ ((q.events.map TrackedEvent.id).Nodup → q'.hash = q.hash)
      ∧ (q.Measured → q'.Measured → Json.Value.WrittenApart q.numbers q'.numbers →
          (q'.hash = q.hash ↔ FirstsAgree q.events q'.events
            ∨ Digest.Sha256.Collide q'.hashBytes q.hashBytes)) := by
  have hhash : q.SameParts q' → q'.hash = q.hash := fun hparts => by
    rw [hash, hash, hparts.hashBytes_eq]
  have hkept : Consistent q.events → q'.hash = q.hash := fun hconsistent =>
    hhash (h.sameParts (h.definitions hproper hconsistent))
  refine ⟨fun hfirsts => hhash (h.sameParts (hfirsts.definitions hproper)), hkept,
    fun hids => hkept (consistent_of_nodup hproper hids), ?_⟩
  intro hq hq' hapart
  rw [firstsAgree_iff hproper hapart]
  refine Digest.Sha256.hex_digest_eq_iff.trans (or_congr_left ⟨fun hbytes => ?_, fun hfirsts => ?_⟩)
  · exact ((hashBytes_eq_iff hq hq').1 hbytes.symm).definitions
  · exact ((hashBytes_eq_iff hq hq').2 (h.sameParts hfirsts)).symm

namespace Sample

/-- A definition. -/
def definition : Json.Value :=
  .object [("event", .string "Sign Up"), ("step", .null)]

/-- The same definition with its members in the other order. -/
def turned : Json.Value :=
  .object [("step", .null), ("event", .string "Sign Up")]

/-- Another definition. -/
def changed : Json.Value :=
  .object [("event", .string "Register"), ("step", .null)]

/-- A question with two events under one id. -/
def twice (first second : Json.Value) (filters : List String) : Question where
  connection := "amplitude"
  events := [⟨"signup", none, first⟩, ⟨"signup", some "Sign-up", second⟩]
  filters := filters
  shape := ⟨.window, "signup", "signup", [], []⟩

theorem proper_definition : definition.Proper := by
  simp [definition, Json.Value.Proper, Json.Value.ProperMembers]

theorem proper_turned : turned.Proper := by
  simp [turned, Json.Value.Proper, Json.Value.ProperMembers]

theorem proper_changed : changed.Proper := by
  simp [changed, Json.Value.Proper, Json.Value.ProperMembers]

/-- The same events the other way round are presented in another way. -/
theorem rearranged_twice {v w : Json.Value} (hv : v.Proper) (hw : w.Proper) :
    (twice v w ["a", "b"]).Rearranged (twice w v ["b", "a", "b"]) where
  connection := rfl
  events := ⟨[⟨"signup", some "Sign-up", w⟩, ⟨"signup", none, v⟩], List.Perm.swap _ _ _,
    .cons ⟨rfl, .refl hw⟩ (.cons ⟨rfl, .refl hv⟩ .nil)⟩
  filters s := by
    simp only [twice, List.mem_cons, List.not_mem_nil, or_false]
    tauto
  mode := rfl
  source := rfl
  target := rfl
  visited _ := Iff.rfl
  excluded _ := Iff.rfl

theorem same_definition_turned : definition.Same turned :=
  (Json.Value.canonical_eq_iff proper_definition).1 (by rfl)

end Sample

/-- A question that is consistent keeps its hash. -/
theorem hash_of_turned :
    (Sample.twice Sample.definition Sample.turned ["a", "b"]).Proper
      ∧ (Sample.twice Sample.definition Sample.turned ["a", "b"]).Rearranged
          (Sample.twice Sample.turned Sample.definition ["b", "a", "b"])
      ∧ (Sample.twice Sample.turned Sample.definition ["b", "a", "b"]).hash
          = (Sample.twice Sample.definition Sample.turned ["a", "b"]).hash := by
  have hproper : (Sample.twice Sample.definition Sample.turned ["a", "b"]).Proper :=
    List.forall_mem_cons.2 ⟨Sample.proper_definition,
      List.forall_mem_singleton.2 Sample.proper_turned⟩
  have hrearranged := Sample.rearranged_twice Sample.proper_definition Sample.proper_turned
  refine ⟨hproper, hrearranged, (hash_of_rearranged hproper hrearranged).2.1 ?_⟩
  have hturned : Sample.turned.Same Sample.definition :=
    (Json.Value.canonical_eq_iff Sample.proper_turned).1 (by rfl)
  simp [Consistent, Sample.twice, Sample.same_definition_turned, hturned,
    Json.Value.Same.refl Sample.proper_definition, Json.Value.Same.refl Sample.proper_turned]

/-- The hash can depend on the order of events: of two events with one id only the first one is
    hashed. -/
theorem hash_of_rearranged_ne :
    ¬ ∀ q q' : Question, q.Proper → q.Rearranged q' → q'.hash = q.hash := by
  intro h
  have hproper : (Sample.twice Sample.definition Sample.changed ["a", "b"]).Proper :=
    List.forall_mem_cons.2 ⟨Sample.proper_definition,
      List.forall_mem_singleton.2 Sample.proper_changed⟩
  have hhash := h _ _ hproper
    (Sample.rearranged_twice Sample.proper_definition Sample.proper_changed)
  revert hhash
  decide +kernel

end Question

end MetricCube
