/-
  MetricCube.Proofs.Screening
  ───────────────────────────
  **Which slices count.**  Screening asks three questions of a slice: does it satisfy
  the request, does its signature serve the question of the request, and is no key
  beyond the request stale?  Together they ask one thing (`isUsable_iff`): the slice
  satisfies the request, was made for its core question, and records the current
  hash of every defined dimension that it carries, on either side of the request.

      slices.filter Usable = slices'.filter Usable
        →  outcomeOf slices = outcomeOf slices'       (`outcomeOf_eq_of_usable`)

  So no other slice has a part in what a plan comes to, wherever it stands.
-/
import Mathlib
import MetricCube.Proofs.Soundness

namespace MetricCube

/-! ## §1. Signatures that serve a query. -/

namespace Signature

theorem usable?_eq_some_iff {s : Signature} {core : String} {dims : Table String} :
    s.usable? = some (core, dims) ↔ s = .structured core dims ∧ core ≠ "" := by
  cases s with
  | legacy raw =>
    constructor
    · intro h
      cases h
    · intro h
      obtain ⟨h, _⟩ := h
      cases h
  | structured c ds =>
    unfold usable?
    by_cases hc : c = ""
    · subst hc
      constructor
      · intro h
        cases h
      · intro h
        obtain ⟨h, hne⟩ := h
        cases h
        exact absurd rfl hne
    · have hempty : c.isEmpty = false := by simpa using hc
      simp only [hempty, Bool.false_eq_true, if_false, Option.some.injEq, Prod.mk.injEq,
        structured.injEq]
      constructor
      · intro h
        obtain ⟨rfl, rfl⟩ := h
        exact ⟨⟨rfl, rfl⟩, hc⟩
      · exact fun h => h.1

end Signature

theorem dimensionMismatch?_eq_none_iff {cached : Table String} {key hash : String} :
    dimensionMismatch? cached (key, hash) = none ↔ cached.get? key = some hash := by
  unfold dimensionMismatch?
  cases hget : cached.get? key with
  | none => simp
  | some found => simp

/-- **A cached signature serves a query** when both are of the same core question and the cache
    records what the query does. -/
theorem Signature.mismatch?_eq_none_iff {cache query : Signature} :
    cache.mismatch? query = none
      ↔ ∃ core dims dims', cache = .structured core dims ∧ query = .structured core dims'
        ∧ core ≠ "" ∧ ∀ key hash, dims'.get? key = some hash → dims.get? key = some hash := by
  constructor
  · intro h
    unfold mismatch? at h
    split at h
    · rename_i core dims core' dims' hcache hquery
      split at h
      · rename_i hcore
        subst hcore
        obtain ⟨hcache, hne⟩ := usable?_eq_some_iff.1 hcache
        obtain ⟨hquery, _⟩ := usable?_eq_some_iff.1 hquery
        refine ⟨core, dims, dims', hcache, hquery, hne, fun key hash hget => ?_⟩
        apply dimensionMismatch?_eq_none_iff.1
        exact List.findSome?_eq_none_iff.1 h _ (Table.get?_eq_some_iff.1 hget)
      · cases h
    · cases h
  · intro h
    obtain ⟨core, dims, dims', rfl, rfl, hne, hrecords⟩ := h
    have hcache : (Signature.structured core dims).usable? = some (core, dims) :=
      usable?_eq_some_iff.2 ⟨rfl, hne⟩
    have hquery : (Signature.structured core dims').usable? = some (core, dims') :=
      usable?_eq_some_iff.2 ⟨rfl, hne⟩
    simp only [mismatch?, hcache, hquery, if_true]
    -- Each dimension of the query is looked up in the cache.
    rw [List.findSome?_eq_none_iff]
    rintro ⟨key, hash⟩ he
    exact dimensionMismatch?_eq_none_iff.2 (hrecords key hash (Table.get?_eq_some_iff.2 he))

namespace Planner

variable {p : Planner} {req : Request}

/-! ## §2. Signatures made now. -/

/-- The hashes that the signature of an assignment records. -/
def hashes (p : Planner) (a : Assignment) : List (String × String) :=
  a.keys.filterMap fun key => (p.registry.find? key).map fun d => (key, d.hash)

theorem mem_hashes {a : Assignment} {key hash : String} : (key, hash) ∈ p.hashes a
    ↔ key ∈ a.keys ∧ ∃ d, p.registry.find? key = some d ∧ d.hash = hash := by
  simp only [hashes, List.mem_filterMap, Option.map_eq_some_iff, Prod.mk.injEq]
  constructor
  · intro h
    obtain ⟨k, hk, d, hd, rfl, rfl⟩ := h
    exact ⟨hk, d, hd, rfl⟩
  · intro h
    obtain ⟨hk, d, hd, rfl⟩ := h
    exact ⟨key, hk, d, hd, rfl, rfl⟩

theorem ascending_hashes (p : Planner) (a : Assignment) :
    (p.hashes a).Pairwise fun e f => e.1 < f.1 := by
  rw [hashes, List.pairwise_filterMap]
  refine (Table.ascending_keys a.cells).imp ?_
  intro j k hjk e he f hf
  obtain ⟨_, _, rfl⟩ := Option.map_eq_some_iff.1 he
  obtain ⟨_, _, rfl⟩ := Option.map_eq_some_iff.1 hf
  exact hjk

theorem foldKey_hashes (p : Planner) (a : Assignment) :
    ((p.hashes a).map fun e => (Text.foldKey e.1, e.2)) = p.hashes a := by
  refine (List.map_congr_left ?_).trans (List.map_id _)
  rintro ⟨key, hash⟩ he
  obtain ⟨value, hvalue⟩ := Assignment.mem_keys.1 (mem_hashes.1 he).1
  exact Prod.ext (Assignment.folded_of_get? hvalue).1 rfl

/-- What the signature of an assignment records. -/
theorem signatureFor_eq (p : Planner) (core : String) (a : Assignment) :
    ∃ dims : Table String, p.signatureFor core a = .structured core dims
      ∧ ∀ key hash, dims.get? key = some hash
        ↔ key ∈ a.keys ∧ ∃ d, p.registry.find? key = some d ∧ d.hash = hash := by
  have hnodup : ((p.hashes a).map Prod.fst).Nodup :=
    (List.pairwise_map.2 (p.ascending_hashes a)).imp fun h => ne_of_lt h
  refine ⟨Table.ofPairs (p.hashes a), ?_, fun key hash => ?_⟩
  · rw [signatureFor, Signature.make, ← hashes, foldKey_hashes]
  · rw [Table.ofPairs, Table.get?_insertAll hnodup, Table.get?_empty, Option.or_none,
      Table.find?_eq_some_iff (p.ascending_hashes a), mem_hashes]

/-! ## §3. Usable slices. -/

/-- The slice answers the question of the request, under the dimensions as they are defined now. -/
structure Usable (p : Planner) (req : Request) (s : Slice) : Prop where
  satisfies : s.assignment.satisfies req.assignment = true
  core : s.signature.core? = some req.core
  core_ne : req.core ≠ ""
  current : ∀ key ∈ s.assignment.keys, ∀ d, p.registry.find? key = some d →
    s.signature.dimension? key = some d.hash

theorem isStale_eq_false_iff {s : Slice} {key : String} :
    p.isStale s key = false
      ↔ ∀ d, p.registry.find? key = some d → s.signature.dimension? key = some d.hash := by
  unfold isStale
  cases p.registry.find? key with
  | none => simp
  | some d => simp

theorem rejection?_eq_none_iff {s : Slice} :
    p.rejection? req s = none
      ↔ s.signature.mismatch? (p.querySignature req) = none
        ∧ ∀ key ∈ s.assignment.extraKeys req.assignment, p.isStale s key = false := by
  unfold rejection?
  cases s.signature.mismatch? (p.querySignature req) with
  | none => simp
  | some reason => simp

/-- **The questions of screening come to one:** is every defined dimension of the slice recorded
    as it is now? -/
theorem isUsable_iff {s : Slice} : p.isUsable req s = true ↔ p.Usable req s := by
  obtain ⟨dims', hquery, hdims'⟩ := signatureFor_eq p req.core req.assignment
  rw [isUsable, Bool.and_eq_true, Option.isNone_iff_eq_none, rejection?_eq_none_iff,
    Signature.mismatch?_eq_none_iff, querySignature, hquery]
  constructor
  · intro h
    obtain ⟨hsat, ⟨core, dims, dims'', hsig, heq, hne, hrecords⟩, hfresh⟩ := h
    cases heq
    refine ⟨hsat, by rw [hsig]; rfl, hne, fun key hkey d hd => ?_⟩
    -- The comparison of signatures looks at the keys of the request, the other check beyond them.
    rcases (Assignment.mem_keys_of_satisfies hsat).1 hkey with hkey | hkey
    · rw [hsig]
      exact hrecords key d.hash ((hdims' key d.hash).2 ⟨hkey, d, hd, rfl⟩)
    · exact isStale_eq_false_iff.1 (hfresh key hkey) d hd
  · intro h
    obtain ⟨hsat, hcore, hne, hcurrent⟩ := h
    refine ⟨hsat, ?_, fun key hkey => ?_⟩
    · cases hsig : s.signature with
      | legacy raw =>
        rw [hsig] at hcore
        cases hcore
      | structured core dims =>
        rw [hsig] at hcore
        cases hcore
        refine ⟨req.core, dims, dims', rfl, rfl, hne, fun key hash hget => ?_⟩
        obtain ⟨hkey, d, hd, rfl⟩ := (hdims' key hash).1 hget
        have hrecorded := hcurrent key ((Assignment.mem_keys_of_satisfies hsat).2 (.inl hkey)) d hd
        rw [hsig] at hrecorded
        exact hrecorded
    · exact isStale_eq_false_iff.2 (hcurrent key ((Assignment.mem_keys_of_satisfies hsat).2 (.inr hkey)))

instance (s : Slice) : Decidable (p.Usable req s) :=
  decidable_of_iff _ isUsable_iff

theorem compatible_eq_filter_usable (slices : List Slice) :
    p.compatible slices req = slices.filter fun s => p.Usable req s := by
  rw [compatible_eq_filter]
  refine List.filter_congr fun s _ => ?_
  rw [Bool.eq_iff_iff, isUsable_iff, decide_eq_true_eq]

theorem mem_compatible {slices : List Slice} {s : Slice} :
    s ∈ p.compatible slices req ↔ s ∈ slices ∧ p.Usable req s := by
  rw [compatible_eq_filter_usable, List.mem_filter, decide_eq_true_eq]

/-- **A slice under the signature made now is usable.** -/
theorem isUsable_current {s : Slice} (hcore : req.core ≠ "")
    (hsat : s.assignment.satisfies req.assignment = true)
    (hsig : s.signature = p.signatureFor req.core s.assignment) : p.isUsable req s = true := by
  obtain ⟨dims, hs, hdims⟩ := signatureFor_eq p req.core s.assignment
  apply isUsable_iff.2
  refine ⟨hsat, by rw [hsig, hs]; rfl, hcore, fun key hkey d hd => ?_⟩
  rw [hsig, hs]
  exact (hdims key d.hash).2 ⟨hkey, d, hd, rfl⟩

/-! ## §4. Plans over slices that do not count. -/

/-- **Slices that are not usable do not count:** a plan comes to the same over any two lists of
    slices with the same usable ones, in the same order. -/
theorem outcomeOf_eq_of_usable {slices slices' : List Slice}
    (h : (slices.filter fun s => p.Usable req s) = slices'.filter fun s => p.Usable req s) :
    p.outcomeOf slices req = p.outcomeOf slices' req := by
  rw [outcomeOf_eq, outcomeOf_eq, compatible_eq_filter_usable, compatible_eq_filter_usable, h]

namespace Sample

/-- The two channels. -/
def channels : List Slice :=
  [slice "ads" days, slice "mail" days]

/-- The dimension before mail was added to it. -/
def formerChannel : Definition :=
  .make "channel" ["ads"] .closed

/-- The channels among slices that do not count: one under an uninterpreted signature, one made
    for another question, one made under a former definition, and one that records none. -/
def crowd : List Slice :=
  [⟨.empty, .daily (constant days (.wrap 70 7)), .legacy "v0"⟩,
    slice "ads" days,
    ⟨.empty, .daily (constant days (.wrap 80 8)), planner.signatureFor "elsewhere" .empty⟩,
    ⟨only "ads", .daily (constant days (.wrap 90 9)),
      .make "core" [("channel", formerChannel.hash)]⟩,
    slice "mail" days,
    ⟨only "mail", .daily (constant days (.wrap 95 9)), .make "core" []⟩]

end Sample

/-- The crowd comes to what the two channels come to. -/
theorem outcomeOf_crowd :
    Sample.planner.outcomeOf Sample.crowd Sample.request
      = .ok (.satisfied ⟨Sample.days, some (Sample.constant Sample.days (.wrap 3 1)), .wrap 9 3⟩
          [.complete ["channel"] []]) := by
  have hsame : (Sample.crowd.filter fun s => Sample.planner.Usable Sample.request s)
      = Sample.channels.filter fun s => Sample.planner.Usable Sample.request s := by
    decide +kernel
  rw [outcomeOf_eq_of_usable hsame]
  decide +kernel

end Planner

end MetricCube
