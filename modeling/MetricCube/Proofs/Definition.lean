/-
  MetricCube.Proofs.Definition
  ────────────────────────────
  **What the hash of a definition says.**  The bytes of a definition can be taken apart,
  so they say what it says (`hashBytes_eq_iff`): its key, its values, its policy, and the
  catch-all value where the policy has one.  A definition that is built is in normal form:
  the key is folded, values are trimmed, distinct and ascending.  Its bytes therefore say
  what is meant, however it was presented (`hashBytes_built_iff`).

  A definition that is read is not brought into normal form.  It is what was written,
  and agrees with the built one exactly where that was in normal form already
  (`read_as_built_iff`).  A key that is not folded is never found again, since a registry
  looks under the folded key.
-/
import Mathlib
import MetricCube.Codec
import MetricCube.Dimension.Registry
import MetricCube.Proofs.Bytes
import MetricCube.Proofs.Table
import MetricCube.Text.Folding

namespace MetricCube

/-! ## §1. What the bytes say. -/

theorem Policy.tag_injective {p q : Policy} (h : p.tag = q.tag) : p = q := by
  cases p <;> cases q <;> first | rfl | exact absurd h (by decide)

namespace Definition

variable {d e : Definition}

/-- All texts of the definition and its list of values are shorter than 2 ^ 32.  Folding can
    make a key longer, so the bound is on the key that is kept. -/
structure Measured (d : Definition) : Prop where
  key : Bytes.Fits d.key
  values : Bytes.AllFit d.values
  other : Bytes.Fits d.other

instance (d : Definition) : Decidable d.Measured :=
  decidable_of_iff (Bytes.Fits d.key ∧ Bytes.AllFit d.values ∧ Bytes.Fits d.other)
    ⟨fun ⟨hk, hv, ho⟩ => ⟨hk, hv, ho⟩, fun h => ⟨h.key, h.values, h.other⟩⟩

/-- The last text among the bytes. -/
theorem Measured.fits_catchAll (h : d.Measured) :
    Bytes.Fits (if d.policy.hasCatchAll then d.other else "") := by
  split
  · exact h.other
  · decide

/-- **The bytes of a definition say its key, its values, its policy, and the catch-all value
    where there is one.** -/
theorem hashBytes_eq_iff (hd : d.Measured) (he : e.Measured) :
    d.hashBytes = e.hashBytes ↔ d.key = e.key ∧ d.values = e.values ∧ d.policy = e.policy
      ∧ (d.policy.hasCatchAll = true → d.other = e.other) := by
  constructor
  · intro h
    unfold hashBytes at h
    simp only [List.append_assoc, List.cons_append] at h
    have hrest := List.append_cancel_left h
    -- Each part has its length in front, so that the parts are read off one by one.
    obtain ⟨hkey, hrest⟩ := Bytes.legible_text hd.key he.key (List.cons.inj hrest).2
    obtain ⟨hvalues, hrest⟩ := Bytes.legible_texts hd.values he.values (List.cons.inj hrest).2
    obtain ⟨htag, hrest⟩ := List.cons.inj hrest
    have hpolicy := Policy.tag_injective htag
    have hlast := (List.cons.inj hrest).2
    rw [← List.append_nil (Bytes.text _), ← List.append_nil (Bytes.text (if e.policy.hasCatchAll
      then e.other else ""))] at hlast
    have hother := (Bytes.legible_text hd.fits_catchAll he.fits_catchAll hlast).1
    refine ⟨hkey, hvalues, hpolicy, fun hcatch => ?_⟩
    rwa [← hpolicy, if_pos hcatch, if_pos hcatch] at hother
  · intro h
    obtain ⟨hkey, hvalues, hpolicy, hother⟩ := h
    unfold hashBytes
    rw [hkey, hvalues, hpolicy]
    rw [hpolicy] at hother
    by_cases hcatch : e.policy.hasCatchAll = true
    · rw [if_pos hcatch, if_pos hcatch, hother hcatch]
    · rw [if_neg hcatch, if_neg hcatch]

/-! ## §2. Definitions that are built. -/

/-- The definition of a key, values and a policy, with a catch-all value if one is named. -/
def built (key : String) (values : List String) (policy : Policy) (other : Option String) :
    Definition :=
  match other with
  | none => make key values policy
  | some other => (make key values policy).withOther other

variable {key key' : String} {values values' : List String} {policy policy' : Policy}
  {other other' : Option String}

@[simp] theorem key_built : (built key values policy other).key = Text.foldKey key := by
  cases other <;> rfl

@[simp] theorem values_built :
    (built key values policy other).values = Ordered.distinct (values.map Text.trim) := by
  cases other <;> rfl

@[simp] theorem other_built_some {other : String} :
    (built key values policy (some other)).other = Text.trim other := rfl

@[simp] theorem policy_built : (built key values policy other).policy = policy := by
  cases other <;> rfl

/-- **The bytes of a definition that is built say what is meant:** the folded key, which trimmed
    values there are, the policy, and the catch-all value where there is one. -/
theorem hashBytes_built_iff (h : (built key values policy other).Measured)
    (h' : (built key' values' policy' other').Measured) :
    (built key values policy other).hashBytes = (built key' values' policy' other').hashBytes
      ↔ Text.foldKey key = Text.foldKey key'
        ∧ (∀ v, v ∈ values.map Text.trim ↔ v ∈ values'.map Text.trim)
        ∧ policy = policy'
        ∧ (policy.hasCatchAll = true →
            (built key values policy other).other = (built key' values' policy' other').other) := by
  rw [hashBytes_eq_iff h h']
  simp only [key_built, values_built, policy_built, Ordered.distinct_eq_iff]

namespace Sample

/-- A definition with blanks, capitals and a repeated value. -/
def loose : Definition :=
  built " Channel" ["b ", "a", "b"] .computedOther (some " rest")

/-- The same one, tidied. -/
def tidy : Definition :=
  built "channel" ["a", "b"] .computedOther (some "rest")

/-- One with the usual catch-all value. -/
def usual : Definition :=
  built "channel" ["a", "b"] .computedOther none

theorem measured_loose : loose.Measured := by decide +kernel

theorem measured_tidy : tidy.Measured := by decide +kernel

theorem measured_usual : usual.Measured := by decide +kernel

end Sample

/-- Presentation makes no difference, another catch-all value does. -/
theorem hashBytes_of_loose :
    (Sample.loose.Measured ∧ Sample.tidy.Measured ∧ Sample.usual.Measured)
      ∧ Sample.loose.hashBytes = Sample.tidy.hashBytes
      ∧ Sample.tidy.hashBytes ≠ Sample.usual.hashBytes := by
  refine ⟨⟨Sample.measured_loose, Sample.measured_tidy, Sample.measured_usual⟩, ?_, ?_⟩
  · have hvalues : ∀ v, v ∈ ["b ", "a", "b"].map Text.trim ↔ v ∈ ["a", "b"].map Text.trim := by
      have htrim : ["b ", "a", "b"].map Text.trim = ["b", "a", "b"]
          ∧ ["a", "b"].map Text.trim = ["a", "b"] := by decide +kernel
      intro v
      rw [htrim.1, htrim.2]
      simp only [List.mem_cons, List.not_mem_nil, or_false]
      tauto
    exact (hashBytes_built_iff Sample.measured_loose Sample.measured_tidy).2
      ⟨by decide +kernel, hvalues, rfl, fun _ => by decide +kernel⟩
  · intro h
    have hother := ((hashBytes_built_iff Sample.measured_tidy Sample.measured_usual).1 h).2.2.2 rfl
    exact absurd hother (by decide +kernel)

end Definition

/-! ## §3. Definitions that are read. -/

namespace Definition

/-- A member of the object that stands for a definition. -/
inductive Member where
  | key (s : String)
  | values (ss : List String)
  | policy (p : Policy)
  | other (s : String)

namespace Member

/-- The name of a member. -/
def name : Member → String
  | .key _ => "key"
  | .values _ => "values"
  | .policy _ => "policy"
  | .other _ => "other_value"

/-- What is written under the name. -/
def tree : Member → Json.Tree
  | .key s | .other s => .string (some s)
  | .values ss => .array (ss.map fun s => .string (some s)) true
  | .policy p => .string (some p.name)

/-- A member as it is written. -/
def entry (m : Member) : Option String × Json.Tree :=
  (some m.name, m.tree)

/-- What a member adds to a definition that is being read. -/
def store (d : Codec.DefinitionDraft) : Member → Codec.DefinitionDraft
  | .key s => { d with key := some s }
  | .values ss => { d with values := some ss }
  | .policy p => { d with policy := p }
  | .other s => { d with other := s }

end Member

/-- The members of an object that states a definition in full. -/
def members (d : Definition) : List Member :=
  [.key d.key, .values d.values, .policy d.policy, .other d.other]

/-- The object with the given members. -/
def object (ms : List Member) : Json.Tree :=
  .object (ms.map Member.entry) true

/-- A definition of which nothing has been read. -/
def unread : Codec.DefinitionDraft :=
  ⟨none, none, .closed, defaultOther⟩

/-- The fields of a definition that is read. -/
def fields : List (Json.Field ContentFault Codec.DefinitionDraft) :=
  [Json.field "key" Codec.text.read fun x d => { d with key := some x },
    Json.field "values" (Codec.list Codec.text).read fun x d => { d with values := some x },
    Json.field "policy" Codec.policy.read fun x d => { d with policy := x },
    Json.field "other_value" Codec.text.read fun x d => { d with other := x }]

theorem readAll_strings (depth : Nat) (ss : List String) :
    Json.readAll (ε := ContentFault) Json.string depth (ss.map fun s => .string (some s))
      = .ok ss := by
  induction ss with
  | nil => rfl
  | cons s ss ih =>
    rw [List.map_cons, Json.readAll, ih]
    rfl

/-- The field of a member stores what the member adds. -/
theorem exists_field {depth : Nat} (hdepth : 1 < depth) (m : Member) :
    ∃ f, fields.find? (·.name == m.name) = some f
      ∧ ∀ d, f.read depth m.tree d = .ok (m.store d) := by
  cases m with
  | key s => exact ⟨_, rfl, fun d => rfl⟩
  | values ss =>
    refine ⟨_, rfl, fun d => ?_⟩
    have hlist : Json.list (ε := ContentFault) Json.string depth (Member.tree (.values ss))
        = .ok ss := by
      rw [Member.tree, Json.list, Json.enter, if_neg (by omega)]
      show (do
        let as ← Json.readAll (ε := ContentFault) Json.string (depth - 1)
          (ss.map fun s => .string (some s))
        Json.whenClosed true as) = _
      rw [readAll_strings]
      rfl
    exact congrArg (Except.map fun a => ({ d with values := some a } : Codec.DefinitionDraft)) hlist
  | policy p =>
    refine ⟨_, rfl, fun d => ?_⟩
    cases p <;> rfl
  | other s => exact ⟨_, rfl, fun d => rfl⟩

/-- Members with different names are read one after the other. -/
theorem readNamed_members {depth : Nat} (hdepth : 1 < depth) {ms : List Member} :
    ∀ {seen : List String} {d : Codec.DefinitionDraft}, (ms.map Member.name).Nodup →
      (∀ m ∈ ms, m.name ∉ seen) →
      Json.readNamed fields false depth seen (ms.map Member.entry) d
        = .ok (ms.foldl Member.store d) := by
  induction ms with
  | nil => intro seen d _ _; rfl
  | cons m ms ih =>
    intro seen d hnodup hseen
    obtain ⟨hnew, hrest⟩ := List.nodup_cons.1 hnodup
    obtain ⟨f, hfind, hread⟩ := exists_field hdepth m
    have hfresh : ¬ seen.contains m.name = true := by
      rw [List.contains_iff_mem]
      exact hseen m List.mem_cons_self
    rw [List.map_cons, Member.entry, Json.readNamed, hfind]
    show (if seen.contains m.name = true then _ else _) = _
    rw [if_neg hfresh, hread d]
    refine ih hrest fun n hn hmem => ?_
    rcases List.mem_cons.1 hmem with heq | hmem
    · exact hnew (heq ▸ List.mem_map_of_mem hn)
    · exact hseen n (List.mem_cons_of_mem _ hn) hmem

/-- **A definition is read as it stands,** in whatever order its members are given. -/
theorem read_object {depth : Nat} (hdepth : 2 < depth) {d : Definition} {ms : List Member}
    (h : ms.Perm d.members) : Codec.definition.read depth (object ms) = .ok d := by
  have hnames : (ms.map Member.name).Nodup := by
    refine (h.map Member.name).nodup_iff.2 ?_
    show ["key", "values", "policy", "other_value"].Nodup
    decide
  have hstore : ms.foldl Member.store unread
      = d.members.foldl Member.store unread := by
    -- Each member is stored in a place of its own.
    refine h.foldl_eq' (fun m hm n hn z => ?_) _
    have hm := h.mem_iff.1 hm
    have hn := h.mem_iff.1 hn
    simp only [members, List.mem_cons, List.not_mem_nil, or_false] at hm hn
    rcases hm with rfl | rfl | rfl | rfl <;> rcases hn with rfl | rfl | rfl | rfl <;> rfl
  have hread : Json.readNamed fields false (depth - 1) [] (ms.map Member.entry) unread
      = .ok (ms.foldl Member.store unread) := readNamed_members (by omega) hnames (by simp)
  rw [hstore] at hread
  have hrecord : Json.record fields unread depth (object ms)
      = .ok ⟨some d.key, some d.values, d.policy, d.other⟩ := by
    rw [object, Json.record, Json.enter, if_neg (by omega)]
    show (do
      let s ← Json.readNamed fields false (depth - 1) [] (ms.map Member.entry)
        unread
      Json.whenClosed true s) = _
    rw [hread]
    rfl
  show (do
    let s ← Json.record fields unread depth (object ms)
    let key ← Json.required s.key
    let values ← Json.required s.values
    .ok (⟨key, values, s.policy, s.other⟩ : Definition)) = _
  rw [hrecord]
  rfl

/-- A text that is such an object is read as it stands. -/
theorem decode_object {d : Definition} {ms : List Member} {text : String} (h : ms.Perm d.members)
    (htext : Json.Tree.ofChars text.toList = (object ms, true)) :
    Codec.definition.decode text = .ok d := by
  have hread := read_object (show 2 < Json.maxDepth by decide) h
  show Json.read Codec.definition.read text = _
  simp only [Json.read, htext, hread, if_true]

/-! ## §4. What is read and what is built. -/

/-- All texts that make up the dimension, as the definition has them. -/
def stated (d : Definition) : List String :=
  if d.policy.hasCatchAll then d.other :: d.values else d.values

theorem forall_mem_stated {d : Definition} {P : String → Prop} : (∀ v ∈ d.stated, P v)
    ↔ (∀ v ∈ d.values, P v) ∧ (d.policy.hasCatchAll = true → P d.other) := by
  unfold stated
  split
  · rename_i hcatch
    simp [hcatch, and_comm]
  · rename_i hcatch
    simp [hcatch]

theorem expected_built_some (d : Definition) :
    (built d.key d.values d.policy (some d.other)).expected
      = Ordered.distinct (d.stated.map Text.trim) := by
  rw [expected, policy_built, values_built, other_built_some, Ordered.distinct_eq_iff]
  intro v
  unfold stated
  split <;> simp

/-- **The expected values are those of the built definition exactly if all texts are trimmed.**
    Order and repetition make no difference. -/
theorem expected_eq_built_iff (d : Definition) :
    d.expected = (built d.key d.values d.policy (some d.other)).expected
      ↔ (∀ v ∈ d.values, Text.trim v = v)
        ∧ (d.policy.hasCatchAll = true → Text.trim d.other = d.other) := by
  rw [expected_built_some, ← forall_mem_stated (P := fun v => Text.trim v = v)]
  show Ordered.distinct d.stated = _ ↔ _
  rw [Ordered.distinct_eq_iff]
  constructor
  · intro h v hv
    obtain ⟨w, _, hw⟩ := List.mem_map.1 ((h v).1 hv)
    rw [← hw, Text.trim_trim]
  · intro h v
    rw [List.map_congr_left h, List.map_id']

/-- **The hash is that of the built definition exactly if the key is folded, the values are
    trimmed, distinct and ascending, and the catch-all value is trimmed where there is one,** or
    the digest collides. -/
theorem hash_eq_built_iff {d : Definition} (hd : d.Measured)
    (hbuilt : (built d.key d.values d.policy (some d.other)).Measured) :
    d.hash = (built d.key d.values d.policy (some d.other)).hash
      ↔ (Text.foldKey d.key = d.key ∧ Ordered.distinct (d.values.map Text.trim) = d.values
          ∧ (d.policy.hasCatchAll = true → Text.trim d.other = d.other))
        ∨ Digest.Sha256.Collide d.hashBytes
            (built d.key d.values d.policy (some d.other)).hashBytes := by
  unfold hash
  rw [Digest.Sha256.hex_digest_eq_iff, hashBytes_eq_iff hd hbuilt, key_built, values_built,
    policy_built, other_built_some]
  simp only [true_and, eq_comm]

end Definition

/-! ## §5. Registries. -/

namespace Registry

/-- Every definition stands under the key it carries. -/
def Keyed (r : Registry) : Prop :=
  ∀ key d, r.definitions.get? key = some d → d.key = key

theorem keyed_ofList (ds : List Definition) : (ofList ds).Keyed := by
  intro key d h
  rw [definitions_ofList, Table.get?_ofPairs] at h
  obtain ⟨e, _, heq⟩ := List.mem_map.1 (mem_of_lastUnder h)
  rw [Prod.mk.injEq] at heq
  rw [← heq.1, ← heq.2]

/-- **A definition is found under its own key exactly if the key is folded.** -/
theorem find?_insert_iff {r : Registry} (h : r.Keyed) (d : Definition) :
    (r.insert d).find? d.key = some d ↔ Text.foldKey d.key = d.key := by
  rw [find?, Registry.insert, Table.get?_insert]
  constructor
  · intro hfind
    split at hfind
    · assumption
    · exact (h _ _ hfind).symm
  · intro hkey
    rw [if_pos hkey]

end Registry

/-! ## §6. Reading against building. -/

namespace Definition

/-- **What is read stands for what is built exactly as far as it was in normal form.**  The
    hash asks for a folded key, for values that are trimmed, distinct and ascending, and for a
    trimmed catch-all value where there is one; the expected values ask for trimmed texts only;
    and the definition is found again exactly if its key is folded. -/
theorem read_as_built_iff {d : Definition} {ms : List Member} {text : String}
    (hms : ms.Perm d.members) (htext : Json.Tree.ofChars text.toList = (object ms, true))
    (hd : d.Measured) (hbuilt : (built d.key d.values d.policy (some d.other)).Measured) :
    Codec.definition.decode text = .ok d
      ∧ (d.hash = (built d.key d.values d.policy (some d.other)).hash
          ↔ (Text.foldKey d.key = d.key ∧ Ordered.distinct (d.values.map Text.trim) = d.values
              ∧ (d.policy.hasCatchAll = true → Text.trim d.other = d.other))
            ∨ Digest.Sha256.Collide d.hashBytes
                (built d.key d.values d.policy (some d.other)).hashBytes)
      ∧ (d.expected = (built d.key d.values d.policy (some d.other)).expected
          ↔ (∀ v ∈ d.values, Text.trim v = v)
            ∧ (d.policy.hasCatchAll = true → Text.trim d.other = d.other))
      ∧ ∀ ds : List Definition, ((Registry.ofList ds).insert d).find? d.key = some d
          ↔ Text.foldKey d.key = d.key :=
  ⟨decode_object hms htext, hash_eq_built_iff hd hbuilt, expected_eq_built_iff d,
    fun ds => Registry.find?_insert_iff (Registry.keyed_ofList ds) d⟩

namespace Sample

/-- A definition in normal form. -/
def normal : Definition :=
  ⟨"channel", ["ads", "mail"], .computedOther, "rest"⟩

/-- Its members in another order. -/
def normalMembers : List Member :=
  [.values normal.values, .other normal.other, .key normal.key, .policy normal.policy]

/-- The object with these members. -/
def normalText : String :=
  "\x7b\"values\":[\"ads\",\"mail\"],\"other_value\":\"rest\",\"key\":\"channel\","
    ++ "\"policy\":\"computed_other\"\x7d"

theorem tree_normalText :
    Json.Tree.ofChars normalText.toList = (object normalMembers, true) := by
  cbv

end Sample

/-- A definition in normal form means what the built one means. -/
theorem read_as_built_normal :
    Sample.normalMembers.Perm Sample.normal.members
      ∧ Json.Tree.ofChars Sample.normalText.toList = (object Sample.normalMembers, true)
      ∧ Sample.normal.Measured
      ∧ (built "channel" ["ads", "mail"] .computedOther (some "rest")).Measured
      ∧ Codec.definition.decode Sample.normalText = .ok Sample.normal
      ∧ Sample.normal.hash = (built "channel" ["ads", "mail"] .computedOther (some "rest")).hash
      ∧ Sample.normal.expected
        = (built "channel" ["ads", "mail"] .computedOther (some "rest")).expected
      ∧ (Registry.empty.insert Sample.normal).find? "channel" = some Sample.normal := by
  have hperm : Sample.normalMembers.Perm Sample.normal.members := by
    have hswap : Sample.normalMembers.Perm [.key Sample.normal.key, .policy Sample.normal.policy,
        .values Sample.normal.values, .other Sample.normal.other] :=
      List.perm_append_comm_assoc [_, _] [_, _] []
    refine hswap.trans ((List.Perm.cons _ ?_))
    refine (List.Perm.swap _ _ _).trans (List.Perm.cons _ (List.Perm.refl _))
  have hmeasured : Sample.normal.Measured := by decide +kernel
  have hbuilt : (built "channel" ["ads", "mail"] .computedOther (some "rest")).Measured := by
    decide +kernel
  obtain ⟨hread, hhash, hexpected, hfind⟩ :=
    read_as_built_iff hperm Sample.tree_normalText hmeasured hbuilt
  exact ⟨hperm, Sample.tree_normalText, hmeasured, hbuilt, hread,
    hhash.2 (.inl ⟨by decide +kernel, by decide +kernel, fun _ => by decide +kernel⟩),
    hexpected.2 ⟨by decide +kernel, fun _ => by decide +kernel⟩,
    (hfind []).2 (by decide +kernel)⟩

namespace Sample

/-- A definition with a capital, a blank, and values out of order. -/
def raw : Definition :=
  ⟨"Channel", ["mail", "ads "], .closed, "other"⟩

/-- The object that states it. -/
def rawText : String :=
  "\x7b\"key\":\"Channel\",\"values\":[\"mail\",\"ads \"],\"policy\":\"closed\","
    ++ "\"other_value\":\"other\"\x7d"

theorem tree_rawText : Json.Tree.ofChars rawText.toList = (object raw.members, true) := by
  cbv

end Sample

/-- What is read need not mean what the built definition means: hash and expected values can
    differ, and the definition may not be found. -/
theorem not_read_as_built :
    ¬ ∀ (key : String) (values : List String) (policy : Policy) (other text : String)
      (ms : List Member), ms.Perm (members ⟨key, values, policy, other⟩) →
      Json.Tree.ofChars text.toList = (object ms, true) →
      ∃ d, Codec.definition.decode text = .ok d
        ∧ d.hash = (built key values policy (some other)).hash
        ∧ d.expected = (built key values policy (some other)).expected
        ∧ ∀ r : Registry, (r.insert d).find? key = some d := by
  intro h
  obtain ⟨d, hread, hhash, _⟩ := h Sample.raw.key Sample.raw.values Sample.raw.policy
    Sample.raw.other Sample.rawText Sample.raw.members (List.Perm.refl _) Sample.tree_rawText
  rw [decode_object (List.Perm.refl _) Sample.tree_rawText] at hread
  cases hread
  revert hhash
  decide +kernel

end Definition

end MetricCube
