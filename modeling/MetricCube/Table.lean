/-
  MetricCube.Table
  ────────────────
  **Finite maps with text keys.**  A table is its entries in strictly ascending
  order of keys (by code point); the order is part of the type, so that a table
  is determined by what `get?` says.  Inserting replaces the entry of an equal
  key.
-/

namespace MetricCube

/-- Entries by key, in strictly ascending order of keys. -/
structure Table (β : Type) where
  entries : List (String × β)
  ascending : entries.Pairwise fun a b => a.1 < b.1

namespace Table

variable {β γ : Type}

instance [DecidableEq β] : DecidableEq (Table β) := fun s t =>
  if h : s.entries = t.entries then
    isTrue (by cases s; cases t; cases h; rfl)
  else isFalse fun e => h (e ▸ rfl)

theorem ext_entries {s t : Table β} (h : s.entries = t.entries) : s = t := by
  cases s; cases t; cases h; rfl

/-- The table without entries. -/
def empty : Table β := ⟨[], List.Pairwise.nil⟩

instance : Inhabited (Table β) := ⟨empty⟩

/-! ## §1. Looking up. -/

/-- The value under a key in a list of entries. -/
def find? (key : String) : List (String × β) → Option β
  | [] => none
  | e :: es => if e.1 = key then some e.2 else find? key es

/-- The value under a key. -/
def get? (t : Table β) (key : String) : Option β :=
  find? key t.entries

/-- There is an entry under the key. -/
def contains (t : Table β) (key : String) : Bool :=
  (t.get? key).isSome

/-- The keys in ascending order. -/
def keys (t : Table β) : List String :=
  t.entries.map Prod.fst

/-- The number of entries. -/
def size (t : Table β) : Nat :=
  t.entries.length

/-- There are no entries. -/
def isEmpty (t : Table β) : Bool :=
  t.entries.isEmpty

/-! ## §2. Inserting. -/

/-- Puts an entry in its place in an ascending list, replacing one with an equal key. -/
def insertEntry (key : String) (value : β) : List (String × β) → List (String × β)
  | [] => [(key, value)]
  | e :: es =>
    if key < e.1 then (key, value) :: e :: es
    else if key = e.1 then (key, value) :: es
    else e :: insertEntry key value es

theorem mem_insertEntry {key : String} {value : β} {es : List (String × β)} {e : String × β}
    (h : e ∈ insertEntry key value es) : e = (key, value) ∨ e ∈ es := by
  induction es with
  | nil => exact Or.inl (List.mem_singleton.1 h)
  | cons d es ih =>
    unfold insertEntry at h
    split at h
    · exact (List.mem_cons.1 h)
    · split at h
      · exact (List.mem_cons.1 h).imp id (List.mem_cons_of_mem _)
      · rcases List.mem_cons.1 h with rfl | h
        · exact Or.inr List.mem_cons_self
        · exact (ih h).imp id (List.mem_cons_of_mem _)

theorem lt_of_not_lt_of_ne {a b : String} (h : ¬ a < b) (hne : a ≠ b) : b < a :=
  Std.lt_of_le_of_ne (String.not_lt.1 h) (Ne.symm hne)

theorem ascending_insertEntry {key : String} {value : β} {es : List (String × β)}
    (h : es.Pairwise fun a b => a.1 < b.1) :
    (insertEntry key value es).Pairwise fun a b => a.1 < b.1 := by
  -- The entry comes in front of the first greater key, in place of an equal one.
  induction es with
  | nil => exact List.pairwise_singleton _ _
  | cons e es ih =>
    unfold insertEntry
    split
    · rename_i hlt
      refine List.Pairwise.cons ?_ h
      intro d hd
      rcases List.mem_cons.1 hd with rfl | hd
      · exact hlt
      · exact String.lt_trans hlt (List.rel_of_pairwise_cons h hd)
    · rename_i hlt
      split
      · rename_i heq
        refine List.Pairwise.cons ?_ h.of_cons
        intro d hd
        exact heq ▸ List.rel_of_pairwise_cons h hd
      · rename_i hne
        refine List.Pairwise.cons ?_ (ih h.of_cons)
        intro d hd
        rcases mem_insertEntry hd with rfl | hd
        · exact lt_of_not_lt_of_ne hlt hne
        · exact List.rel_of_pairwise_cons h hd

/-- The table with `value` under `key`, in place of what was there. -/
def insert (t : Table β) (key : String) (value : β) : Table β :=
  ⟨insertEntry key value t.entries, ascending_insertEntry t.ascending⟩

/-- Inserts pairs from left to right, so that of two with an equal key the later wins. -/
def insertAll (t : Table β) (pairs : List (String × β)) : Table β :=
  pairs.foldl (fun t e => t.insert e.1 e.2) t

theorem mem_insertAll {pairs : List (String × β)} {e : String × β} : ∀ {t : Table β},
    e ∈ (t.insertAll pairs).entries → e ∈ pairs ∨ e ∈ t.entries := by
  induction pairs with
  | nil => intro t h; exact Or.inr h
  | cons d pairs ih =>
    intro t h
    rcases ih h with h | h
    · exact Or.inl (List.mem_cons_of_mem _ h)
    · rcases mem_insertEntry h with rfl | h
      · exact Or.inl List.mem_cons_self
      · exact Or.inr h

/-- The table of a list of pairs; of two with an equal key the later wins. -/
def ofPairs (pairs : List (String × β)) : Table β :=
  empty.insertAll pairs

/-- The union of two tables; on a common key the second one wins. -/
def union (s t : Table β) : Table β :=
  s.insertAll t.entries

/-- The entries under the given keys. -/
def restrict (t : Table β) (keys : List String) : Table β :=
  ⟨t.entries.filter fun e => keys.contains e.1, t.ascending.filter _⟩

end Table

end MetricCube
