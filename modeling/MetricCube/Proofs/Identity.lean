/-
  MetricCube.Proofs.Identity
  ──────────────────────────
  **What the id of an item tells apart.**  An id is a digest of bytes, and these hold
  the metric, the written form of the assignment and the range.  Nothing is lost
  between the three (`idBytes_eq_iff`), so ids tell apart what written forms do.
  The written form does not tell apart everything:

      context(a:1).context(b:2).context(b:3)

  is that of a = `1`, b = `2).context(b:3` and that of a = `1).context(b:2`, b = `3`.
  It does so for plain values, which do not contain `).context(`
  (`eq_of_canonical_eq`).

  A plan drops an item if an earlier one has its id.  All items of a plan fix the same
  keys (`Asks.uniform`), so with plain values what is dropped is asked for by an
  earlier item; with other values a needed item can be lost (`dropped_unasked`).

  Main statement: `dropped_iff_same_text`.
-/
import Mathlib
import MetricCube.Proofs.Bytes
import MetricCube.Proofs.Items

namespace MetricCube

/-! ## §1. The bytes of an id. -/

/-- **The bytes of an id tell apart what the written form of the assignment and the range do.** -/
theorem FetchItem.idBytes_eq_iff {metric : String} {a b : Assignment} {r s : DateRange} :
    idBytes metric a r = idBytes metric b s ↔ a.canonical = b.canonical ∧ r = s := by
  unfold idBytes
  constructor
  · intro h
    simp only [List.append_assoc] at h
    have hafter := List.append_cancel_left (List.append_cancel_left h)
    -- The text has its length in front, and the two days have a fixed width.
    obtain ⟨htext, hdays⟩ := Bytes.text_append_inj
      (by simp only [List.length_append, Bytes.length_signed32]) hafter
    obtain ⟨hstart, hstop⟩ := List.append_inj hdays (by simp only [Bytes.length_signed32])
    have hs := Bytes.signed32_injective hstart
    have ht := Bytes.signed32_injective hstop
    refine ⟨htext, ?_⟩
    cases r
    cases s
    cases hs
    cases ht
    rfl
  · intro h
    rw [h.1, h.2]

/-! ## §2. Written forms. -/

namespace Assignment

/-- What stands between two values of a written form, up to the key of the second one. -/
def joint : List Char :=
  [')', '.', 'c', 'o', 'n', 't', 'e', 'x', 't', '(']

/-- The value does not look like the end of a clause and the start of another one. -/
def IsPlain (value : String) : Prop :=
  ¬ joint <:+: value.toList

/-- All values are plain. -/
def PlainValues (a : Assignment) : Prop :=
  ∀ e ∈ a.toList, IsPlain e.2

/-- No key contains a colon, which ends the key in the written form. -/
def PlainKeys (a : Assignment) : Prop :=
  ∀ e ∈ a.toList, ':' ∉ e.1.toList

/-- The clauses of a written form, each after a full stop. -/
def clausesAfter : List (String × String) → List Char
  | [] => []
  | e :: es => '.' :: (clause e).toList ++ clausesAfter es

theorem toList_clause (e : String × String) : (clause e).toList
    = ['c', 'o', 'n', 't', 'e', 'x', 't', '('] ++ (e.1.toList ++ ':' :: (e.2.toList ++ [')'])) := by
  simp [clause, String.toList_append]

/-- The written form with a full stop in front. -/
theorem clausesAfter_eq (e : String × String) (es : List (String × String)) :
    clausesAfter (e :: es)
      = '.' :: List.intercalate ['.'] (((e :: es).map clause).map String.toList) := by
  induction es generalizing e with
  | nil => simp [clausesAfter, List.intercalate]
  | cons f es ih =>
    rw [clausesAfter, ih f]
    simp [List.intercalate]

theorem clausesAfter_of_canonical_eq {a b : Assignment} (h : a.canonical = b.canonical) :
    clausesAfter a.toList = clausesAfter b.toList := by
  have htext := congrArg String.toList h
  unfold canonical at htext
  rw [String.toList_intercalate, String.toList_intercalate] at htext
  -- Only an assignment that fixes nothing has an empty written form.
  have hne : ∀ (e : String × String) (es : List (String × String)),
      List.intercalate ['.'] (((e :: es).map clause).map String.toList) ≠ [] := by
    intro e es hnil
    have hlength := congrArg List.length (clausesAfter_eq e es)
    rw [hnil, clausesAfter, toList_clause] at hlength
    simp at hlength
  cases ha : a.toList with
  | nil =>
    cases hb : b.toList with
    | nil => rfl
    | cons f fs =>
      rw [ha, hb] at htext
      exact absurd htext.symm (hne f fs)
  | cons e es =>
    cases hb : b.toList with
    | nil =>
      rw [ha, hb] at htext
      exact absurd htext (hne e es)
    | cons f fs =>
      rw [ha, hb] at htext
      rw [clausesAfter_eq, clausesAfter_eq]
      exact congrArg (List.cons '.') htext

theorem joint_isPrefix_of_append {u rest : List Char} {es : List (String × String)}
    (h : clausesAfter es = u ++ ')' :: rest) : joint <+: ')' :: u := by
  cases es with
  | nil => simp [clausesAfter] at h
  | cons e es =>
    -- What is read is a full stop and `context(`, in which no bracket closes.
    have hstart : ∃ tail, clausesAfter (e :: es)
        = ['.', 'c', 'o', 'n', 't', 'e', 'x', 't', '('] ++ tail := by
      refine ⟨e.1.toList ++ ':' :: (e.2.toList ++ [')']) ++ clausesAfter es, ?_⟩
      rw [clausesAfter, toList_clause]
      simp
    obtain ⟨tail, htail⟩ := hstart
    rw [htail, List.append_eq_append_iff] at h
    rcases h with ⟨as, hu, _⟩ | ⟨bs, hword, hrest⟩
    · exact ⟨as, by rw [hu]; rfl⟩
    · cases bs with
      | nil => exact ⟨[], by rw [List.append_nil] at hword; rw [← hword]; rfl⟩
      | cons c bs =>
        have hc : c = ')' := (List.cons.inj hrest).1.symm
        have hmem : ')' ∈ ['.', 'c', 'o', 'n', 't', 'e', 'x', 't', '('] := by
          rw [hword, hc]
          simp
        exact absurd hmem (by decide)

/-- **A plain value ends where its clause does.** -/
theorem value_eq_of_append_eq {v w : List Char} {es fs : List (String × String)}
    (hv : ¬ joint <:+: v) (hw : ¬ joint <:+: w)
    (h : v ++ ')' :: clausesAfter es = w ++ ')' :: clausesAfter fs) :
    v = w ∧ clausesAfter es = clausesAfter fs := by
  -- If one value goes on, it goes on through the end of the other one's clause.
  have hlonger : ∀ {v w : List Char} {es fs : List (String × String)} {u : List Char},
      ¬ joint <:+: w → w = v ++ u → ')' :: clausesAfter es = u ++ ')' :: clausesAfter fs →
      u = [] := by
    intro v w es fs u hw hwu hu
    cases u with
    | nil => rfl
    | cons c u =>
      rw [List.cons_append, List.cons.injEq] at hu
      obtain ⟨rfl, hrest⟩ := hu
      have hjoint := joint_isPrefix_of_append hrest
      exact absurd (hwu ▸ hjoint.isInfix.trans (List.suffix_append v _).isInfix) hw
  rcases List.append_eq_append_iff.1 h with ⟨u, hwu, hrest⟩ | ⟨u, hvu, hrest⟩
  · have hnil := hlonger hw hwu hrest
    subst hnil
    rw [List.append_nil] at hwu
    exact ⟨hwu.symm, (List.cons.inj hrest).2⟩
  · have hnil := hlonger hv hvu hrest
    subst hnil
    rw [List.append_nil] at hvu
    exact ⟨hvu, (List.cons.inj hrest).2.symm⟩

/-- A key ends at the first colon. -/
theorem key_eq_of_append_eq {k l x y : List Char} (hk : ':' ∉ k) (hl : ':' ∉ l)
    (h : k ++ ':' :: x = l ++ ':' :: y) : k = l := by
  rcases List.append_eq_append_iff.1 h with ⟨u, hlu, hrest⟩ | ⟨u, hku, hrest⟩
  · cases u with
    | nil => simpa using hlu.symm
    | cons c u =>
      have hc : ':' = c := (List.cons.inj hrest).1
      exact absurd (by rw [hlu, ← hc]; simp) hl
  · cases u with
    | nil => simpa using hku
    | cons c u =>
      have hc : ':' = c := (List.cons.inj hrest).1
      exact absurd (by rw [hku, ← hc]; simp) hk

/-- Pairs with plain values are known from their clauses, if their keys are known or plain. -/
theorem eq_of_clausesAfter_eq (es : List (String × String)) : ∀ {fs : List (String × String)},
    (∀ e ∈ es, IsPlain e.2) → (∀ f ∈ fs, IsPlain f.2) →
    (es.map Prod.fst = fs.map Prod.fst
      ∨ (∀ e ∈ es, ':' ∉ e.1.toList) ∧ ∀ f ∈ fs, ':' ∉ f.1.toList) →
    clausesAfter es = clausesAfter fs → es = fs := by
  -- One clause is read off both sides at a time: first its key, then its value.
  induction es with
  | nil =>
    intro fs _ _ _ h
    cases fs with
    | nil => rfl
    | cons f fs => simp [clausesAfter] at h
  | cons e es ih =>
    intro fs hes hfs hkeys h
    cases fs with
    | nil => simp [clausesAfter] at h
    | cons f fs =>
      rw [clausesAfter, clausesAfter, toList_clause, toList_clause] at h
      have hclause : e.1.toList ++ ':' :: (e.2.toList ++ ')' :: clausesAfter es)
          = f.1.toList ++ ':' :: (f.2.toList ++ ')' :: clausesAfter fs) := by
        simpa using h
      have hkey : e.1 = f.1 := by
        rcases hkeys with hkeys | ⟨hkes, hkfs⟩
        · exact (List.cons.inj hkeys).1
        · exact String.toList_inj.1 (key_eq_of_append_eq (hkes e List.mem_cons_self)
            (hkfs f List.mem_cons_self) hclause)
      rw [hkey] at hclause
      have hvalues := (List.cons.inj (List.append_cancel_left hclause)).2
      obtain ⟨hvalue, hafter⟩ := value_eq_of_append_eq (hes e List.mem_cons_self)
        (hfs f List.mem_cons_self) hvalues
      have hrest := ih (fun d hd => hes d (List.mem_cons_of_mem _ hd))
        (fun d hd => hfs d (List.mem_cons_of_mem _ hd))
        (hkeys.imp (fun h => (List.cons.inj h).2) fun h =>
          ⟨fun d hd => h.1 d (List.mem_cons_of_mem _ hd),
            fun d hd => h.2 d (List.mem_cons_of_mem _ hd)⟩) hafter
      rw [hrest, show e = f from Prod.ext hkey (String.toList_inj.1 hvalue)]

/-- **Plain values are known from the written form,** if the keys are known or plain. -/
theorem eq_of_canonical_eq {a b : Assignment} (ha : a.PlainValues) (hb : b.PlainValues)
    (hkeys : a.keys = b.keys ∨ a.PlainKeys ∧ b.PlainKeys) (h : a.canonical = b.canonical) :
    a = b :=
  ext_cells (Table.ext_entries
    (eq_of_clausesAfter_eq a.toList ha hb hkeys (clausesAfter_of_canonical_eq h)))

/-- Assignments that satisfy a query and have the same keys beyond it have the same keys. -/
theorem keys_eq_of_extraKeys_eq {a b query : Assignment} (ha : a.satisfies query = true)
    (hb : b.satisfies query = true) (h : a.extraKeys query = b.extraKeys query) :
    a.keys = b.keys := by
  refine List.Pairwise.eq_of_mem_iff (Table.ascending_keys a.cells) (Table.ascending_keys b.cells)
    fun key => ?_
  show key ∈ a.keys ↔ key ∈ b.keys
  rw [mem_keys_of_satisfies ha, mem_keys_of_satisfies hb, h]

end Assignment

namespace Planner

variable {p : Planner} {req : Request} {usable : List Slice}

/-! ## §3. What is dropped. -/

/-- Nothing is kept of the item when it comes after the given ones. -/
def DroppedAfter (front : List FetchItem) (i : FetchItem) : Prop :=
  dropRepeatedIds [] (front ++ [i]) = dropRepeatedIds [] front

theorem dropRepeatedIds_concat_eq_iff {i : FetchItem} {front : List FetchItem} :
    ∀ {seen : List UInt64}, dropRepeatedIds seen (front ++ [i]) = dropRepeatedIds seen front
      ↔ i.id ∈ seen ∨ ∃ j ∈ front, j.id = i.id := by
  induction front with
  | nil =>
    intro seen
    simp [dropRepeatedIds]
  | cons j front ih =>
    intro seen
    rw [List.cons_append, dropRepeatedIds, dropRepeatedIds]
    by_cases hj : seen.contains j.id = true
    · rw [if_pos hj, if_pos hj, ih, List.exists_mem_cons_iff]
      constructor
      · intro h
        exact h.imp_right .inr
      · intro h
        rcases h with hseen | heq | hfront
        · exact .inl hseen
        · -- An id that was seen already adds nothing.
          exact .inl (heq ▸ List.contains_iff_mem.1 hj)
        · exact .inr hfront
    · rw [if_neg hj, if_neg hj, List.cons.injEq, ih, List.exists_mem_cons_iff, List.mem_cons]
      constructor
      · intro h
        rcases h.2 with (heq | hseen) | hfront
        · exact .inr (.inl heq.symm)
        · exact .inl hseen
        · exact .inr (.inr hfront)
      · intro h
        refine ⟨rfl, ?_⟩
        rcases h with hseen | heq | hfront
        · exact .inl (.inr hseen)
        · exact .inl (.inl heq.symm)
        · exact .inr hfront

/-- **An item is dropped if an earlier one has its id.** -/
theorem droppedAfter_iff {front : List FetchItem} {i : FetchItem} :
    DroppedAfter front i ↔ ∃ j ∈ front, j.id = i.id := by
  rw [DroppedAfter, dropRepeatedIds_concat_eq_iff]
  simp

/-- What is kept of the first items is kept. -/
theorem dropRepeatedIds_isPrefix (front rest : List FetchItem) : ∀ seen : List UInt64,
    dropRepeatedIds seen front <+: dropRepeatedIds seen (front ++ rest) := by
  induction front with
  | nil => intro seen; exact List.nil_prefix
  | cons j front ih =>
    intro seen
    rw [List.cons_append, dropRepeatedIds, dropRepeatedIds]
    split
    · exact ih seen
    · exact (List.prefix_cons_inj j).2 (ih _)

/-! ## §4. The items of a plan. -/

/-- No digest is shared by different bytes. -/
def DistinctDigests (items : List FetchItem) : Prop :=
  ∀ i ∈ items, ∀ j ∈ items, i.id = j.id →
    FetchItem.idBytes i.metric i.assignment i.range
      = FetchItem.idBytes j.metric j.assignment j.range

/-- **All items of a plan are for the request's metric, and fix the same keys.** -/
theorem Asks.uniform {items : List FetchItem} (hall : AllSatisfy req usable)
    (h : p.Asks req usable items) :
    items = dropRepeatedIds [] (p.plannedItems req usable)
      ∧ (∀ i ∈ p.plannedItems req usable, i.metric = req.metric)
      ∧ ∀ i ∈ p.plannedItems req usable, ∀ j ∈ p.plannedItems req usable,
          i.assignment.keys = j.assignment.keys := by
  -- The items are for one slice, for the cells of one family, or for the request itself.
  cases h with
  | exact s older _ _ _ hitems =>
    have hown : ∀ i ∈ ((p.view req.range s.payload).wanted req.range).map (p.item req s.assignment),
        i.metric = req.metric ∧ i.assignment = s.assignment := by
      intro i hi
      obtain ⟨r, _, rfl⟩ := List.mem_map.1 hi
      exact ⟨rfl, rfl⟩
    refine ⟨rfl, fun i hi => (hown i (hitems ▸ hi)).1, fun i hi j hj => ?_⟩
    rw [(hown i (hitems ▸ hi)).2, (hown j (hitems ▸ hj)).2]
  | family keys _ _ hkeys _ hsuit _ hitems =>
    rw [hitems]
    have hissued : ∀ i ∈ p.lacking req (familyAt req usable keys),
        p.Issued req i ∧ i.assignment.extraKeys req.assignment = keys := fun i hi =>
      issued_of_lacking (belongs_familyAt hall hkeys) hsuit hi
    refine ⟨rfl, fun i hi => ?_, fun i hi j hj => ?_⟩
    · rw [(hissued i hi).1.2]
      rfl
    · obtain ⟨hi, hik⟩ := hissued i hi
      obtain ⟨hj, hjk⟩ := hissued j hj
      exact Assignment.keys_eq_of_extraKeys_eq hi.1 hj.1 (hik.trans hjk.symm)
  | whole _ _ _ hitems =>
    rw [hitems]
    refine ⟨rfl, fun i hi => ?_, fun i hi j hj => ?_⟩
    · rw [List.mem_singleton.1 hi]
      rfl
    · rw [List.mem_singleton.1 hi, List.mem_singleton.1 hj]

/-- **An item of a plan is dropped exactly if an earlier one has the same written assignment and
    the same range.**  With plain values, it then has the same assignment. -/
theorem dropped_iff_same_text {slices : List Slice} {items front rest : List FetchItem}
    {i : FetchItem} (h : p.outcomeOf slices req = .ok (.needsFetch items))
    (hdigests : DistinctDigests (p.plannedItems req (p.compatible slices req)))
    (hsplit : p.plannedItems req (p.compatible slices req) = front ++ i :: rest) :
    items = dropRepeatedIds [] (front ++ i :: rest)
      ∧ dropRepeatedIds [] (front ++ [i]) <+: items
      ∧ (DroppedAfter front i
          ↔ ∃ j ∈ front, j.assignment.canonical = i.assignment.canonical ∧ j.range = i.range)
      ∧ ((∀ j ∈ front ++ [i], j.assignment.PlainValues) → DroppedAfter front i →
          ∃ j ∈ front, j.assignment = i.assignment ∧ j.range = i.range)
      ∧ ∀ (metric : String) (a b : Assignment) (r s : DateRange),
          (FetchItem.idBytes metric a r = FetchItem.idBytes metric b s
            ↔ a.canonical = b.canonical ∧ r = s)
          ∧ (a.PlainKeys → a.PlainValues → b.PlainKeys → b.PlainValues →
              a.canonical = b.canonical → a = b) := by
  have hall := @allSatisfy_compatible p req slices
  rw [outcomeOf_eq] at h
  obtain ⟨hitems, hmetric, hkeys⟩ := (asks_of_outcome hall h).uniform hall
  rw [hsplit] at hitems hdigests hmetric hkeys
  have hi : i ∈ front ++ i :: rest := by simp
  have hfront : ∀ j ∈ front, j ∈ front ++ i :: rest := fun j hj => List.mem_append_left _ hj
  have hdropped : DroppedAfter front i
      ↔ ∃ j ∈ front, j.assignment.canonical = i.assignment.canonical ∧ j.range = i.range := by
    rw [droppedAfter_iff]
    refine exists_congr fun j => and_congr_right fun hj => ?_
    have hsame : j.metric = i.metric := (hmetric j (hfront j hj)).trans (hmetric i hi).symm
    constructor
    · intro hid
      have hbytes := hdigests j (hfront j hj) i hi hid
      rw [hsame] at hbytes
      exact FetchItem.idBytes_eq_iff.1 hbytes
    · intro htext
      unfold FetchItem.id
      rw [hsame, FetchItem.idBytes_eq_iff.2 htext]
  have hprefix := dropRepeatedIds_isPrefix (front ++ [i]) rest []
  rw [List.append_assoc, List.singleton_append, ← hitems] at hprefix
  refine ⟨hitems, hprefix, hdropped, fun hplain hdrop => ?_, fun metric a b r s =>
    ⟨FetchItem.idBytes_eq_iff, fun hak hav hbk hbv => Assignment.eq_of_canonical_eq hav hbv
      (.inr ⟨hak, hbk⟩)⟩⟩
  obtain ⟨j, hj, htext, hrange⟩ := hdropped.1 hdrop
  refine ⟨j, hj, Assignment.eq_of_canonical_eq (hplain j (by simp [hj])) (hplain i (by simp))
    (.inl (hkeys j (hfront j hj) i hi)) htext, hrange⟩

namespace Sample

/-- The same counts on each day of the request, under an assignment. -/
def covering (p : Planner) (a : Assignment) : Slice :=
  ⟨a, .daily (constant days (.wrap 1 0)), p.signatureFor "core" a⟩

/-- One value of the only dimension is listed twice, once with a blank in front. -/
def untrimmed : Planner :=
  ⟨⟨true, true⟩, .ofList [⟨"a", [" 1", "1", "2"], .closed, "other"⟩]⟩

/-- The slice of the other value. -/
def otherValue : Slice :=
  covering untrimmed (.ofPairs [("a", "2")])

/-- The item for the value that is listed twice. -/
def twiceListed : FetchItem :=
  untrimmed.item request (.ofPairs [("a", "1")]) days

theorem run_untrimmed :
    untrimmed.outcomeOf [otherValue] request = .ok (.needsFetch [twiceListed])
      ∧ untrimmed.plannedItems request
          (untrimmed.compatible [otherValue] request)
        = [twiceListed] ++ twiceListed :: [] := by
  decide +kernel

end Sample

/-- A value that is listed twice is asked for once. -/
theorem dropped_listed_twice :
    DistinctDigests (Sample.untrimmed.plannedItems Sample.request (Sample.untrimmed.compatible
        [Sample.otherValue] Sample.request))
      ∧ DroppedAfter [Sample.twiceListed] Sample.twiceListed
      ∧ ∃ j ∈ [Sample.twiceListed], j.assignment = Sample.twiceListed.assignment
        ∧ j.range = Sample.twiceListed.range := by
  obtain ⟨hplan, hitems⟩ := Sample.run_untrimmed
  have hdigests : DistinctDigests (Sample.untrimmed.plannedItems Sample.request
      (Sample.untrimmed.compatible [Sample.otherValue] Sample.request)) := by
    rw [hitems]
    intro i hi j hj _
    have hone : ∀ k ∈ [Sample.twiceListed] ++ Sample.twiceListed :: [],
        k = Sample.twiceListed := by simp
    rw [hone i hi, hone j hj]
  obtain ⟨_, _, hiff, hsame, _⟩ := dropped_iff_same_text hplan hdigests hitems
  have hdropped := hiff.2 ⟨Sample.twiceListed, by simp, rfl, rfl⟩
  have hplain : Sample.twiceListed.assignment.PlainValues := by
    unfold Assignment.PlainValues Assignment.IsPlain
    decide +kernel
  refine ⟨hdigests, hdropped, hsame (fun j hj => ?_) hdropped⟩
  have heq : j = Sample.twiceListed := by simpa using hj
  exact heq ▸ hplain

/-! ## §5. Values that read like clauses. -/

namespace Sample

/-- Two dimensions, each with a value that reads like the end of a clause and another clause. -/
def clauses : Planner :=
  ⟨⟨true, true⟩, .ofList [.make "a" ["1", "1).context(b:2"] .closed,
    .make "b" ["3", "2).context(b:3"] .closed]⟩

/-- The assignment of a value of each dimension. -/
def cellAt (a b : String) : Assignment :=
  .ofPairs [("a", a), ("b", b)]

/-- Two cells of the grid. -/
def diagonal : List Slice :=
  [covering clauses (cellAt "1" "3"), covering clauses (cellAt "1).context(b:2" "2).context(b:3")]

/-- The item that is kept, for one of the other two cells. -/
def keptItem : FetchItem :=
  clauses.item request (cellAt "1" "2).context(b:3") days

/-- The item that is lost, for the last cell. -/
def lostItem : FetchItem :=
  clauses.item request (cellAt "1).context(b:2" "3") days

theorem run_diagonal : clauses.outcomeOf diagonal request = .ok (.needsFetch [keptItem])
    ∧ clauses.plannedItems request (clauses.compatible diagonal request)
      = [keptItem] ++ lostItem :: []
    ∧ dropRepeatedIds [] ([keptItem] ++ [lostItem]) = dropRepeatedIds [] [keptItem]
    ∧ keptItem.assignment ≠ lostItem.assignment
    ∧ keptItem.assignment.canonical = lostItem.assignment.canonical := by
  decide +kernel

end Sample

/-- A plan can drop an item that no earlier one asks for. -/
theorem dropped_unasked :
    ¬ ∀ (p : Planner) (req : Request) (slices : List Slice) (items front rest : List FetchItem)
      (i : FetchItem), p.outcomeOf slices req = .ok (.needsFetch items) →
      DistinctDigests (p.plannedItems req (p.compatible slices req)) →
      p.plannedItems req (p.compatible slices req) = front ++ i :: rest → DroppedAfter front i →
      ∃ j ∈ front, j.assignment = i.assignment ∧ j.range = i.range := by
  intro h
  obtain ⟨hplan, hitems, hdropped, hne, htext⟩ := Sample.run_diagonal
  -- The two items have the same bytes, so nothing has to be known of digests.
  have hbytes : ∀ i ∈ [Sample.keptItem] ++ Sample.lostItem :: [],
      FetchItem.idBytes i.metric i.assignment i.range
        = FetchItem.idBytes "signups" Sample.lostItem.assignment Sample.days := by
    intro i hi
    simp only [List.cons_append, List.nil_append, List.mem_cons, List.not_mem_nil, or_false] at hi
    rcases hi with heq | heq
    · rw [heq]
      exact FetchItem.idBytes_eq_iff.2 ⟨htext, rfl⟩
    · rw [heq]
      rfl
  have hdigests : DistinctDigests (Sample.clauses.plannedItems Sample.request
      (Sample.clauses.compatible Sample.diagonal Sample.request)) := by
    rw [hitems]
    intro i hi j hj _
    rw [hbytes i hi, hbytes j hj]
  obtain ⟨j, hj, ha, _⟩ := h _ _ _ _ _ _ _ hplan hdigests hitems hdropped
  rw [List.mem_singleton.1 hj] at ha
  exact hne ha

end Planner

end MetricCube
