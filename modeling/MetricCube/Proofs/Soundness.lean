/-
  MetricCube.Proofs.Soundness
  ───────────────────────────
  **Planning is sound.**  If the usable slices hold true amounts, then an answer
  that discloses neither missing values nor shares of windows is true: its total
  is the true amount of the request, and its days, if it has them, are the days of
  the request with their true amounts (`answer_of_true_slices`).

  An answer comes from the exact slice (`true_of_exactFinding`) or from a complete
  family, whose members fill a grid and so add up to the request
  (`true_of_complete`).
-/
import Mathlib
import MetricCube.Proofs.Outcome

namespace MetricCube.Planner

variable {p : Planner} {req : Request} {usable : List Slice} {T : Truth}

/-- The answer has the true amounts of the assignment. -/
structure TrueAnswer (T : Truth) (a : Assignment) (range : DateRange) (answer : Answer) : Prop where
  total : answer.total.amount = T.total a range
  daily : ∀ series, answer.daily = some series → series.Holds range.days (T a)

/-! ## §1. The exact slice. -/

theorem mem_of_chosen {s : Slice} {older : Nat} (h : p.exactChoice usable req = .chosen s older) :
    s ∈ usable ∧ s.assignment = req.assignment := by
  -- A chosen slice is the only exact one, or the only one under the current signature.
  have hmem : s ∈ Family.exact Slice.assignment usable req.assignment := by
    unfold exactChoice at h
    split at h
    · cases h
    · rename_i hone
      cases h
      rw [hone]
      exact List.mem_cons_self
    · rename_i hsingle
      split at h
      · rename_i hcurrent
        cases h
        have : s ∈ (Family.exact Slice.assignment usable req.assignment).filter fun s =>
            s.signature = p.querySignature req := by
          rw [hcurrent]
          exact List.mem_cons_self
        exact (List.mem_filter.1 this).1
      · cases h
  obtain ⟨hs, ha⟩ := List.mem_filter.1 hmem
  exact ⟨hs, by simpa using ha⟩

theorem true_of_answerOf {range : DateRange} {payload : Payload} {answer : Answer}
    {a : Assignment} (hshows : payload.Shows range (T a))
    (h : answerOf range payload = .ok answer) : TrueAnswer T a range answer := by
  cases payload with
  | daily s =>
    simp only [answerOf] at h
    cases htotal : s.total with
    | error e => rw [htotal] at h; cases h
    | ok total =>
      rw [htotal] at h
      cases h
      refine ⟨hshows.total_eq_ok_iff.1 htotal, ?_⟩
      rintro series ⟨⟩
      exact hshows
  | aggregate w =>
    cases h
    exact ⟨hshows.2, fun series hseries => nomatch hseries⟩

/-- The exact slice answers as what it shows does. -/
theorem answerOf_of_exactFinding {s : Slice} {answer : Answer} {disclosure : Disclosure}
    (h : p.exactFinding req s = .answered answer disclosure) :
    ∃ shown, (p.view req.range s.payload).payload? req.range = some shown
      ∧ answerOf req.range shown = .ok answer
      ∧ ((p.view req.range s.payload).disclosure? req.range).getD .exact = disclosure := by
  unfold exactFinding at h
  simp only at h
  split at h
  · rename_i clipped hv
    split at h
    · rename_i total htotal
      cases h
      exact ⟨.daily clipped, by rw [hv]; rfl, by rw [answerOf, htotal]; rfl, by rw [hv]; rfl⟩
    · cases h
  · rename_i counts hv
    cases h
    exact ⟨_, by rw [hv]; rfl, rfl, by rw [hv]; rfl⟩
  · rename_i counts cached hv
    cases h
    exact ⟨_, by rw [hv]; rfl, rfl, by rw [hv]; rfl⟩
  · cases h
  · cases h

theorem true_of_exactFinding {s : Slice} {answer : Answer} {disclosure : Disclosure}
    (htrue : s.TruthfulTo T) (h : p.exactFinding req s = .answered answer disclosure)
    (hwhole : ∀ cached requested, disclosure ≠ .prorated cached requested) :
    TrueAnswer T s.assignment req.range answer := by
  obtain ⟨shown, hshown, hanswer, hdisclosure⟩ := answerOf_of_exactFinding h
  refine true_of_answerOf (shows_of_payload? htrue hshown ?_) hanswer
  cases hv : p.view req.range s.payload with
  | share counts cached =>
    rw [hv] at hdisclosure
    exact absurd hdisclosure.symm (hwhole cached req.range)
  | daily | window | gaps | beside => rfl

/-! ## §2. Complete families. -/

/-- What is disclosed about shares is disclosed about some member. -/
theorem mem_sharesOf {range : DateRange} {family : Family Slice} {d : Disclosure} :
    d ∈ p.sharesOf range family
      ↔ ∃ s ∈ family.members, (p.view range s.payload).disclosure? range = some d := by
  rw [sharesOf, List.mem_eraseDups, List.mem_filterMap]

theorem disclosure?_eq_none_of_sharesOf {range : DateRange} {family : Family Slice}
    (h : ∀ cached requested, Disclosure.prorated cached requested ∉ p.sharesOf range family)
    {s : Slice} (hs : s ∈ family.members) : (p.view range s.payload).disclosure? range = none := by
  cases hv : p.view range s.payload with
  | share counts cached =>
    exact absurd (mem_sharesOf.2 ⟨s, hs, by rw [hv]; rfl⟩) (h cached range)
  | daily | window | gaps | beside => rfl

/-- The members of a family that fills its grid add up to the request, day by day. -/
theorem sum_shownMembers {family : Family Slice} (hT : T.Additive p.registry)
    (hb : Belongs req.assignment family) (hnodup : NoRepeat family) (hfilled : p.Filled family)
    (day : Date) :
    ((p.shownMembers req.range family).map fun s => T s.assignment day).sum
      = T req.assignment day := by
  rw [← Grid.sum_members hT hb.kin hb.assignments (hb.kin.nodup_cells.1 hnodup) hfilled day,
    shownMembers, assignmentsOf, List.map_map, List.map_map]
  rfl

/-- What true members add up to, if no window is shared out. -/
theorem shows_of_members {family : Family Slice} {payload : Payload}
    (htrue : ∀ s ∈ family.members, s.TruthfulTo T)
    (hcovers : ∀ s ∈ family.members, p.Covers req.range s.payload)
    (hwhole : ∀ s ∈ family.members, (p.view req.range s.payload).disclosure? req.range = none)
    (hsum : sumPayloads (p.shownMembers req.range family) = .ok payload) :
    payload.Shows req.range fun day =>
      ((p.shownMembers req.range family).map fun s => T s.assignment day).sum := by
  refine shows_sumPayloads (fun s hs => ?_) hsum
  obtain ⟨t, ht, rfl⟩ := List.mem_map.1 hs
  exact shows_of_payload? (htrue t ht) (payload?_of_covers (hcovers t ht)) (hwhole t ht)

/-- The members of a family that fills its grid show the true amounts of the request. -/
theorem shows_of_filled {family : Family Slice} {payload : Payload} (hT : T.Additive p.registry)
    (hb : Belongs req.assignment family) (hnodup : NoRepeat family) (hfilled : p.Filled family)
    (htrue : ∀ s ∈ family.members, s.TruthfulTo T)
    (hcovers : ∀ s ∈ family.members, p.Covers req.range s.payload)
    (hwhole : ∀ s ∈ family.members, (p.view req.range s.payload).disclosure? req.range = none)
    (hsum : sumPayloads (p.shownMembers req.range family) = .ok payload) :
    payload.Shows req.range (T req.assignment) := by
  have hshows := shows_of_members htrue hcovers hwhole hsum
  rwa [funext (sum_shownMembers hT hb hnodup hfilled)] at hshows

theorem true_of_complete {family : Family Slice} {answer : Answer} {shares : List Disclosure}
    (hT : T.Additive p.registry) (hb : Belongs req.assignment family)
    (htrue : ∀ s ∈ family.members, s.TruthfulTo T)
    (hwhole : ∀ cached requested, Disclosure.prorated cached requested ∉ shares)
    (h : p.verdict req family = .complete answer shares) :
    TrueAnswer T req.assignment req.range answer := by
  have hj : p.Judged req family (p.verdict req family) := judged_verdict hb
  rw [h] at hj
  cases hj with
  | complete payload _ hsettled hfilled hsum hanswer =>
    exact true_of_answerOf (shows_of_filled hT hb hsettled.nodup hfilled htrue hsettled.covers
      (fun s hs => disclosure?_eq_none_of_sharesOf hwhole hs) hsum) hanswer

/-! ## §3. All answers. -/

theorem true_of_outcome {answer : Answer} {disclosures : List Disclosure}
    (hall : AllSatisfy req usable) (hT : T.Additive p.registry)
    (htrue : ∀ s ∈ usable, s.TruthfulTo T)
    (h : p.outcome req usable = .ok (.satisfied answer disclosures))
    (hcomplete : ∀ dims missing, Disclosure.incomplete dims missing ∉ disclosures)
    (hwhole : ∀ cached requested, Disclosure.prorated cached requested ∉ disclosures) :
    TrueAnswer T req.assignment req.range answer := by
  have hp := planned_outcome p hall
  rw [h] at hp
  -- Three ways lead to an answer; the disclosures rule out the last one.
  cases hp with
  | exact s older _ disclosure hchoice hfinding =>
    obtain ⟨hs, ha⟩ := mem_of_chosen hchoice
    rw [← ha]
    refine true_of_exactFinding (htrue s hs) hfinding fun cached requested heq => ?_
    exact hwhole cached requested (heq ▸ List.mem_cons_self)
  | complete lacking keys _ shares others _ _ hkeys hv =>
    refine true_of_complete hT (belongs_familyAt hall hkeys)
      (fun s hs => htrue s (mem_familyAt.1 hs).1) (fun cached requested hmem => ?_) hv
    exact hwhole cached requested (List.mem_cons_of_mem _ hmem)
  | incomplete keys _ _ _ _ _ hkeys hv =>
    have hj : p.Judged req _ (p.verdictAt req usable keys) :=
      judged_verdict (belongs_familyAt hall hkeys)
    rw [hv] at hj
    cases hj
    exact absurd List.mem_cons_self (hcomplete _ _)

/-- **Answers from true slices are true,** unless they say that values are missing or that a
    window was shared out. -/
theorem answer_of_true_slices {slices : List Slice} {answer : Answer}
    {disclosures : List Disclosure} (hT : T.Additive p.registry)
    (htrue : ∀ s ∈ p.compatible slices req, s.TruthfulTo T)
    (h : p.outcomeOf slices req = .ok (.satisfied answer disclosures))
    (hcomplete : ∀ dims missing, Disclosure.incomplete dims missing ∉ disclosures)
    (hwhole : ∀ cached requested, Disclosure.prorated cached requested ∉ disclosures) :
    answer.total.amount = T.total req.assignment req.range
      ∧ ∀ series, answer.daily = some series → series.Holds req.range.days (T req.assignment) := by
  rw [outcomeOf_eq] at h
  have ht := true_of_outcome (allSatisfy_compatible slices) hT htrue h hcomplete hwhole
  exact ⟨ht.total, ht.daily⟩

/-! ## §4. A cube of one dimension. -/

namespace Sample

/-- The only dimension, with two values. -/
def channel : Definition :=
  .make "channel" ["ads", "mail"] .closed

/-- Everything allowed, one dimension known. -/
def planner : Planner :=
  ⟨⟨true, true⟩, .ofList [channel]⟩

/-- The assignment of one channel. -/
def only (value : String) : Assignment :=
  .ofPairs [("channel", value)]

/-- Three days. -/
def days : DateRange :=
  ⟨.ofDays 1, .ofDays 3, by decide⟩

/-- All channels on three days. -/
def request : Request :=
  ⟨"signups", .empty, days, "core"⟩

/-- What a channel counts on each day. -/
def daily : String → Count
  | "ads" => .wrap 2 1
  | "mail" => .wrap 1 0
  | _ => .zero

/-- The channels add up. -/
def truth : Truth := fun a _ =>
  match a.get? "channel" with
  | none => (daily "ads").amount + (daily "mail").amount
  | some value => (daily value).amount

/-- The same count on each day of a range. -/
def constant (r : DateRange) (c : Count) : Series :=
  ⟨r.days.map fun d => ⟨d, c⟩, List.pairwise_map.2 r.ascending_days⟩

/-- The slice of a channel over a range. -/
def slice (value : String) (r : DateRange) : Slice :=
  ⟨only value, .daily (constant r (daily value)), planner.signatureFor "core" (only value)⟩

theorem find?_planner {key : String} {d : Definition} (h : planner.registry.find? key = some d) :
    Text.foldKey key = "channel" ∧ d = channel := by
  obtain ⟨hmem, hkey⟩ := Registry.mem_of_find?_ofList h
  cases List.mem_singleton.1 hmem
  exact ⟨hkey.symm, rfl⟩

theorem made_planner : planner.registry.Made := by
  intro key d hfind
  rw [(find?_planner hfind).2]
  exact ⟨"channel", ["ads", "mail"], .closed, .inl rfl⟩

theorem additive_truth : truth.Additive planner.registry := by
  intro key d hfind _ a hopen day
  obtain ⟨hkey, rfl⟩ := find?_planner hfind
  rw [Assignment.replaced?, hkey] at hopen
  have hexpected : channel.expected = ["ads", "mail"] := rfl
  have hads : Text.trim "ads" = "ads" := rfl
  have hmail : Text.trim "mail" = "mail" := rfl
  simp only [truth, hopen, hexpected, List.map_cons, List.map_nil, Assignment.get?_insert, hkey,
    if_true, hads, hmail, List.sum_cons, List.sum_nil, add_zero]

theorem dates_constant (r : DateRange) (c : Count) : (constant r c).dates = r.days := by
  rw [Series.dates, constant, List.map_map]
  exact List.map_id _

theorem truthful_constant {a : Assignment} {r : DateRange} {c : Count}
    (h : ∀ d, truth a d = c.amount) : (Payload.daily (constant r c)).TruthfulTo truth a := by
  intro pt hpt
  obtain ⟨d, _, rfl⟩ := List.mem_map.1 hpt
  exact (h d).symm

theorem truth_only (value : String) (h : (only value).get? "channel" = some value) (d : Date) :
    truth (only value) d = (daily value).amount := by
  simp only [truth, h]

theorem truthful_slices {r : DateRange} {s : Slice} (h : s ∈ [slice "ads" r, slice "mail" r]) :
    s.TruthfulTo truth := by
  simp only [List.mem_cons, List.not_mem_nil, or_false] at h
  rcases h with rfl | rfl
  · exact truthful_constant (truth_only "ads" rfl)
  · exact truthful_constant (truth_only "mail" rfl)

end Sample

/-- The two channels of the sample cube add up to the true answer. -/
theorem answer_of_sample :
    (Count.wrap 9 3).amount = Sample.truth.total Sample.request.assignment Sample.request.range
      ∧ (Sample.constant Sample.days (.wrap 3 1)).Holds Sample.request.range.days
        (Sample.truth Sample.request.assignment) := by
  have h : Sample.planner.outcomeOf [Sample.slice "ads" Sample.days, Sample.slice "mail" Sample.days]
      Sample.request
      = .ok (.satisfied ⟨Sample.days, some (Sample.constant Sample.days (.wrap 3 1)), .wrap 9 3⟩
          [.complete ["channel"] []]) := by
    decide +kernel
  have ht := answer_of_true_slices Sample.additive_truth
    (fun s hs => Sample.truthful_slices (List.mem_of_mem_filter (compatible_eq_filter _ ▸ hs))) h
    (by simp) (by simp)
  exact ⟨ht.1, ht.2 _ rfl⟩

end MetricCube.Planner
