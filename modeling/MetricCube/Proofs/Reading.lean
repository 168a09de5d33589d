/-
  MetricCube.Proofs.Reading
  ─────────────────────────
  **What is known of what is read.**  A record is read field by field, in whatever order its
  members come.  What holds of the record at the start and is kept by every field holds of
  the record that is read (`holds_of_record`); what holds of each item that is read holds
  of all items of a list (`forall_of_list`).

  A value that is read is proper (`proper_of_value`): its objects are tables, and a table
  repeats no key.
-/
import Mathlib
import MetricCube.Json.Reader
import MetricCube.Proofs.Canonical
import MetricCube.Proofs.Table

namespace MetricCube.Json

variable {ε α β : Type}

theorem exists_of_bind_eq_ok {x : Except ε α} {f : α → Except ε β} {b : β}
    (h : x >>= f = .ok b) : ∃ a, x = .ok a ∧ f a = .ok b := by
  cases x with
  | error e => cases h
  | ok a => exact ⟨a, rfl, h⟩

theorem eq_of_whenClosed_eq_ok {closed : Bool} {a b : α}
    (h : (whenClosed closed a : Except (Fault ε) α) = .ok b) : a = b := by
  cases closed with
  | false => cases h
  | true => exact Except.ok.inj h

/-! ## §1. Records and lists. -/

section Record

variable {σ : Type} {P : σ → Prop} {fields : List (Field ε σ)} {depth : Nat} {s s' : σ}

/-- Reading the field keeps what is known of the record. -/
def Field.Keeps (P : σ → Prop) (f : Field ε σ) : Prop :=
  ∀ (depth : Nat) (t : Tree) (s s' : σ), P s → f.read depth t s = .ok s' → P s'

theorem keeps_field {name : String} {read : Reader ε α} {store : α → σ → σ}
    (h : ∀ depth t a s, read depth t = .ok a → P s → P (store a s)) :
    (field name read store).Keeps P := by
  intro depth t s s' hs hread
  have hread : (read depth t).map (fun a => store a s) = .ok s' := hread
  cases hvalue : read depth t <;> rw [hvalue] at hread <;> cases hread
  exact h depth t _ s hvalue hs

theorem holds_of_readNamed (hfields : ∀ f ∈ fields, f.Keeps P) {strict : Bool}
    {ms : List (Option String × Tree)} : ∀ {seen : List String} {s : σ}, P s →
      readNamed fields strict depth seen ms s = .ok s' → P s' := by
  -- The record so far moves with the induction, and keeps the property at each field.
  induction ms with
  | nil =>
    intro seen s hs h
    cases h
    exact hs
  | cons m ms ih =>
    obtain ⟨_ | key, t⟩ := m
    · intro seen s _ h
      cases h
    · intro seen s hs h
      rw [readNamed] at h
      split at h
      · rename_i f hfind
        split at h
        · cases h
        · obtain ⟨s₁, hread, hrest⟩ := exists_of_bind_eq_ok h
          exact ih (hfields f (List.mem_of_find?_eq_some hfind) _ _ _ _ hs hread) hrest
      · split at h
        · cases h
        · exact ih hs h

theorem holds_of_readPlaced {ts : List Tree} : ∀ {fields : List (Field ε σ)} {s : σ},
    (∀ f ∈ fields, f.Keeps P) → P s → readPlaced depth fields ts s = .ok s' → P s' := by
  induction ts with
  | nil =>
    intro fields s _ hs h
    cases fields <;> cases h <;> exact hs
  | cons t ts ih =>
    intro fields s hfields hs h
    cases fields with
    | nil => cases h
    | cons f fields =>
      obtain ⟨s₁, hread, hrest⟩ := exists_of_bind_eq_ok h
      exact ih (fun g hg => hfields g (List.mem_cons_of_mem _ hg))
        (hfields f List.mem_cons_self _ _ _ _ hs hread) hrest

/-- **What every field keeps holds of the record that is read.** -/
theorem holds_of_record (hfields : ∀ f ∈ fields, f.Keeps P) (hs : P s) {t : Tree}
    (h : record fields s depth t = .ok s') : P s' := by
  cases t with
  | object members closed =>
    obtain ⟨depth, _, h⟩ := exists_of_bind_eq_ok h
    obtain ⟨s₁, hread, h⟩ := exists_of_bind_eq_ok h
    rw [← eq_of_whenClosed_eq_ok h]
    exact holds_of_readNamed hfields hs hread
  | array items closed =>
    obtain ⟨depth, _, h⟩ := exists_of_bind_eq_ok h
    obtain ⟨s₁, hread, h⟩ := exists_of_bind_eq_ok h
    rw [← eq_of_whenClosed_eq_ok h]
    exact holds_of_readPlaced hfields hs hread
  | _ => cases h

theorem forall_of_readAll {P : α → Prop} {read : Reader ε α}
    (hread : ∀ depth t a, read depth t = .ok a → P a) {ts : List Tree} :
    ∀ {as : List α}, readAll read depth ts = .ok as → ∀ a ∈ as, P a := by
  induction ts with
  | nil =>
    intro as h
    cases h
    simp
  | cons t ts ih =>
    intro as h
    obtain ⟨a, ha, h⟩ := exists_of_bind_eq_ok h
    obtain ⟨as', has, h⟩ := exists_of_bind_eq_ok h
    cases h
    exact List.forall_mem_cons.2 ⟨hread _ _ _ ha, ih has⟩

theorem forall_of_list {P : α → Prop} {read : Reader ε α}
    (hread : ∀ depth t a, read depth t = .ok a → P a) {t : Tree} {as : List α}
    (h : list read depth t = .ok as) : ∀ a ∈ as, P a := by
  cases t with
  | array items closed =>
    obtain ⟨depth, _, h⟩ := exists_of_bind_eq_ok h
    obtain ⟨as', has, h⟩ := exists_of_bind_eq_ok h
    rw [← eq_of_whenClosed_eq_ok h]
    exact forall_of_readAll hread has
  | _ => cases h

/-- What is read of a text is read of its tree. -/
theorem reader_of_read {reader : Reader ε α} {text : String} {a : α}
    (h : read reader text = .ok a) : reader maxDepth (Tree.ofChars text.toList).1 = .ok a := by
  unfold read at h
  generalize Tree.ofChars text.toList = parsed at h ⊢
  obtain ⟨tree, clean⟩ := parsed
  simp only at h
  cases hread : reader maxDepth tree <;> rw [hread] at h
  · cases h
  · cases clean <;> cases h
    rfl

/-- A text is read exactly if its tree is, with nothing behind it. -/
theorem read_eq_ok_iff {reader : Reader ε α} {text : String} {a : α} :
    read reader text = .ok a
      ↔ ∃ t, Tree.ofChars text.toList = (t, true) ∧ reader maxDepth t = .ok a := by
  unfold read
  generalize Tree.ofChars text.toList = parsed
  obtain ⟨tree, clean⟩ := parsed
  cases hread : reader maxDepth tree <;> cases clean <;> simp [hread]

end Record

/-! ## §2. Values. -/

/-- Members that are put into a table keep their values and lose repeated keys. -/
theorem proper_object_ofPairs {ms : List (String × Value)} (h : ∀ m ∈ ms, m.2.Proper) :
    (Value.object (Table.ofPairs ms).entries).Proper := by
  refine ⟨Table.nodup_keys _, Value.properMembers_iff.2 fun m hm => ?_⟩
  exact (Table.mem_insertAll hm).elim (h m) fun hm => absurd hm (by simp [Table.empty])

mutual

/-- **What is read from a text is proper.** -/
theorem proper_of_value : ∀ {depth : Nat} {t : Tree} {v : Value},
    (value depth t : Except (Fault ε) Value) = .ok v → v.Proper
  | _, .null, _, h => by cases h; trivial
  | _, .bool _, _, h => by cases h; trivial
  | _, .number n, _, h => by
    rw [value] at h
    cases hn : n.number? <;> rw [hn] at h <;> cases h
    trivial
  | _, .string s, _, h => by
    cases s <;> cases h
    trivial
  | _, .array items _, _, h => by
    rw [value] at h
    obtain ⟨depth, _, h⟩ := exists_of_bind_eq_ok h
    obtain ⟨vs, hvs, h⟩ := exists_of_bind_eq_ok h
    rw [← eq_of_whenClosed_eq_ok h]
    exact Value.properItems_iff.2 (proper_of_valueItems hvs)
  | _, .object members _, _, h => by
    rw [value] at h
    obtain ⟨depth, _, h⟩ := exists_of_bind_eq_ok h
    obtain ⟨ms, hms, h⟩ := exists_of_bind_eq_ok h
    rw [← eq_of_whenClosed_eq_ok h]
    exact proper_object_ofPairs (proper_of_valueMembers hms)
  | _, .torn, _, h => by cases h

theorem proper_of_valueItems : ∀ {depth : Nat} {ts : List Tree} {vs : List Value},
    (valueItems depth ts : Except (Fault ε) (List Value)) = .ok vs → ∀ v ∈ vs, v.Proper
  | _, [], _, h => by cases h; simp
  | _, t :: ts, _, h => by
    rw [valueItems] at h
    obtain ⟨v, hv, h⟩ := exists_of_bind_eq_ok h
    obtain ⟨vs, hvs, h⟩ := exists_of_bind_eq_ok h
    cases h
    exact List.forall_mem_cons.2 ⟨proper_of_value hv, proper_of_valueItems hvs⟩

theorem proper_of_valueMembers : ∀ {depth : Nat} {ms : List (Option String × Tree)}
    {vs : List (String × Value)},
    (valueMembers depth ms : Except (Fault ε) (List (String × Value))) = .ok vs →
      ∀ m ∈ vs, m.2.Proper
  | _, [], _, h => by cases h; simp
  | _, (some key, t) :: ms, _, h => by
    rw [valueMembers] at h
    obtain ⟨v, hv, h⟩ := exists_of_bind_eq_ok h
    obtain ⟨vs, hvs, h⟩ := exists_of_bind_eq_ok h
    cases h
    exact List.forall_mem_cons.2 ⟨proper_of_value hv, proper_of_valueMembers hvs⟩
  | _, (none, _) :: _, _, h => by cases h

end

end MetricCube.Json
