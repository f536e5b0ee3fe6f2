import Mathlib.Data.List.Forall2
import Signpost.Proofs.Route.Table
import Signpost.Proofs.Text.Split

namespace Signpost

open Text

variable {segs : List Segment} {parts : List (List Char)} {vs : List String} {s : List Char}

namespace Segment

def fill : List Segment → List String → List (List Char)
  | [], _ => []
  | .literal t :: segs, vs => t.toList :: fill segs vs
  | .text :: segs, vs | .digits :: segs, vs => (vs.headD "").toList :: fill segs vs.tail

/-- A numeric placeholder stands for ASCII digits only. -/
def Suits (seg : Segment) (v : String) : Prop :=
  seg = .digits → ∀ c ∈ v.toList, c.isDigit = true

theorem captures_cons_of_isPlaceholder {seg : Segment} {part : List Char} (h : seg.isPlaceholder = true) :
    captures (seg :: segs) (part :: parts) = some vs ↔
      ∃ v vs', vs = v :: vs' ∧ v.toList = part ∧ seg.accepts part = true ∧ captures segs parts = some vs' := by
  rw [captures, h]
  constructor
  · intro hvs
    split at hvs
    · obtain ⟨found, hfound, rfl⟩ := Option.map_eq_some_iff.1 hvs
      exact ⟨_, found, rfl, String.toList_ofList, ‹_›, hfound⟩
    · cases hvs
  · rintro ⟨v, vs', rfl, rfl, haccepts, hvs'⟩
    rw [if_pos haccepts, hvs', Option.map_some, if_pos rfl, String.ofList_toList]

theorem captures_literal {t : String} {part : List Char} :
    captures (.literal t :: segs) (part :: parts) = some vs ↔ t.toList = part ∧ captures segs parts = some vs := by
  rw [captures]
  by_cases h : t.toList = part <;> simp [accepts, isPlaceholder, h, Ne.symm]

theorem captures_eq_some_iff : captures segs parts = some vs ↔
    fill segs vs = parts ∧
      List.Forall₂ (fun seg v => accepts seg v.toList = true) (segs.filter isPlaceholder) vs := by
  induction segs generalizing parts vs with
  | nil =>
      cases parts with
      | nil => rw [captures, Option.some.injEq, List.filter_nil, List.forall₂_nil_left_iff, eq_comm]; simp [fill]
      | cons part parts => simp [captures, fill]
  | cons seg segs ih =>
      cases parts with
      | nil => cases seg <;> simp [captures, fill]
      | cons part parts =>
          cases seg with
          | literal t =>
              rw [captures_literal, List.filter_cons_of_neg Bool.false_ne_true, fill, List.cons.injEq, and_assoc, ← ih]
          | text | digits =>
              rw [captures_cons_of_isPlaceholder rfl, List.filter_cons_of_pos rfl, List.forall₂_cons_left_iff]
              constructor
              · rintro ⟨v, vs', rfl, rfl, haccepts, hvs'⟩
                obtain ⟨rfl, htaken⟩ := ih.1 hvs'
                exact ⟨rfl, v, vs', haccepts, htaken, rfl⟩
              · rintro ⟨hfill, v, vs', haccepts, htaken, rfl⟩
                obtain ⟨rfl, hrest⟩ := List.cons.inj hfill
                exact ⟨v, vs', rfl, rfl, haccepts, ih.2 ⟨hrest, htaken⟩⟩

theorem fill_eq_nil_iff : fill segs vs = [] ↔ segs = [] := by
  cases segs with
  | nil => simp [fill]
  | cons seg segs => cases seg <;> simp [fill]

theorem forall_mem_fill {P : List Char → Prop} (h : vs.length = (segs.filter isPlaceholder).length) :
    (∀ part ∈ fill segs vs, P part) ↔ (∀ t, .literal t ∈ segs → P t.toList) ∧ ∀ v ∈ vs, P v.toList := by
  induction segs generalizing vs with
  | nil =>
      obtain rfl := List.length_eq_zero_iff.1 h
      simp [fill]
  | cons seg segs ih =>
      cases seg with
      | literal t =>
          rw [List.filter_cons_of_neg Bool.false_ne_true] at h
          simp [fill, ih h, or_imp, forall_and, and_assoc]
      | text | digits =>
          rw [List.filter_cons_of_pos rfl, List.length_cons] at h
          obtain ⟨v, vs, rfl⟩ := List.exists_cons_of_length_eq_add_one h
          simp [fill, ih (Nat.succ.inj h), and_left_comm]

theorem accepts_iff_suits {seg : Segment} (h : seg.isPlaceholder = true) (v : String) :
    seg.accepts v.toList = true ↔ v ≠ "" ∧ seg.Suits v := by
  cases seg with
  | literal t => cases h
  | text => simp [accepts, Suits]
  | digits => simp [accepts, Suits]

theorem forall₂_accepts_iff (h : ∀ seg ∈ segs, seg.isPlaceholder = true) :
    List.Forall₂ (fun seg v => accepts seg v.toList = true) segs vs ↔ (∀ v ∈ vs, v ≠ "") ∧ List.Forall₂ Suits segs vs := by
  induction segs generalizing vs with
  | nil => cases vs <;> simp
  | cons seg segs ih =>
      rw [List.forall_mem_cons] at h
      cases vs with
      | nil => simp
      | cons v vs => simp [accepts_iff_suits h.1, ih h.2, and_assoc, and_left_comm]

end Segment

namespace Pattern

variable {p : Pattern} {uri : String}

/-- The values, in the places of the placeholders, give back the path of a URI, which ends where a fragment starts. -/
structure Captured (p : Pattern) (uri : String) (vs : List String) : Prop where
  ne_nil : p.segments ≠ []
  literals : ∀ t, .literal t ∈ p.segments → '/' ∉ t.toList
  values : ∀ v ∈ vs, v ≠ "" ∧ '/' ∉ v.toList ∧ '#' ∉ v.toList
  -- one value for each placeholder
  suits : List.Forall₂ Segment.Suits (p.segments.filter Segment.isPlaceholder) vs
  path : uri.toList.takeWhile (· != '#') = '/' :: ['/'].intercalate (Segment.fill p.segments vs)

theorem parts?_eq_some_iff : parts? s = some parts ↔
    parts ≠ [] ∧ (∀ part ∈ parts, '/' ∉ part) ∧ s.takeWhile (· != '#') = '/' :: ['/'].intercalate parts := by
  have hpath : (cut (· == '#') s).1 = s.takeWhile (· != '#') := cut_fst _ s
  rw [parts?, hpath]
  split
  · rename_i rest hrest
    rw [hrest, Option.some.injEq, split_eq_iff, List.cons.injEq, and_iff_right rfl]
  · rename_i hrest
    simp only [reduceCtorEq, false_iff, not_and]
    exact fun _ _ h => hrest _ h

/-- No part of a path reaches into the fragment. -/
theorem no_hash_of_path (h : s.takeWhile (· != '#') = '/' :: ['/'].intercalate parts) {part : List Char}
    (hpart : part ∈ parts) : '#' ∉ part := by
  intro hhash
  have hmem : '#' ∈ s.takeWhile (· != '#') := by
    rw [h]
    exact List.mem_cons_of_mem _ (subset_intercalate hpart hhash)
  simpa using List.mem_takeWhile_imp hmem

theorem captures_iff_captured : p.captures uri = some vs ↔ p.Captured uri vs := by
  have hplaceholders : ∀ seg ∈ p.segments.filter Segment.isPlaceholder, seg.isPlaceholder = true :=
    fun seg hseg => (List.mem_filter.1 hseg).2
  rw [captures, Option.bind_eq_some_iff]
  simp only [parts?_eq_some_iff, Segment.captures_eq_some_iff, Segment.forall₂_accepts_iff hplaceholders]
  constructor
  · rintro ⟨_, ⟨hne, hslash, hpath⟩, rfl, hempty, hsuits⟩
    have hlength := hsuits.length_eq.symm
    have hhash := (Segment.forall_mem_fill hlength).1 fun part hpart => no_hash_of_path hpath hpart
    rw [Segment.forall_mem_fill hlength] at hslash
    exact ⟨fun h => hne (Segment.fill_eq_nil_iff.2 h), hslash.1,
      fun v hv => ⟨hempty v hv, hslash.2 v hv, hhash.2 v hv⟩, hsuits, hpath⟩
  · rintro ⟨hne, hliterals, hvalues, hsuits, hpath⟩
    have hslash : ∀ part ∈ Segment.fill p.segments vs, '/' ∉ part :=
      (Segment.forall_mem_fill hsuits.length_eq.symm).2 ⟨hliterals, fun v hv => (hvalues v hv).2.1⟩
    exact ⟨_, ⟨fun h => hne (Segment.fill_eq_nil_iff.1 h), hslash, hpath⟩, rfl, fun v hv => (hvalues v hv).1, hsuits⟩

theorem Captured.unique {vs' : List String} (h : p.Captured uri vs) (h' : p.Captured uri vs') : vs = vs' := by
  rw [← captures_iff_captured] at h h'
  exact Option.some.inj (h.symm.trans h')

end Pattern

theorem Match.params_eq (m : Match) :
    (∀ seg ∈ m.route.pattern.segments, seg.isPlaceholder = false) ∧ m.params = none ∨
    (∃ seg ∈ m.route.pattern.segments, seg.isPlaceholder = true) ∧ m.params = some m.captures := by
  rw [Match.params, Pattern.hasPlaceholder]
  cases h : m.route.pattern.segments.any Segment.isPlaceholder with
  | true => exact .inr ⟨List.any_eq_true.1 h, rfl⟩
  | false => exact .inl ⟨by simpa using h, rfl⟩

namespace Pattern

/-- A pattern captures the one list of values that gives back the path of the URI, if there is one. A match passes
the list on if its pattern has placeholders. -/
theorem captures_exactly (p : Pattern) (uri : String) :
    (∀ vs, p.captures uri = some vs ↔ p.Captured uri vs) ∧
    (∀ vs vs', p.Captured uri vs → p.Captured uri vs' → vs = vs') ∧
    ∀ (t : Table) (method : String) (m : Match), t.find? ⟨method, uri⟩ = some m →
      ∃ vs, m.route.pattern.Captured uri vs ∧
        ((∀ seg ∈ m.route.pattern.segments, seg.isPlaceholder = false) ∧ m.params = none ∨
          (∃ seg ∈ m.route.pattern.segments, seg.isPlaceholder = true) ∧ m.params = some vs) := by
  refine ⟨fun vs => captures_iff_captured, fun vs vs' => Captured.unique, fun t method m hm => ?_⟩
  obtain ⟨-, hcaptures⟩ := Table.find?_eq_some hm
  obtain ⟨-, hcaptures⟩ := Route.captures_eq_some_iff.1 hcaptures
  exact ⟨m.captures, captures_iff_captured.1 hcaptures, m.params_eq⟩

def profile : Pattern :=
  ⟨[.literal "user", .digits, .text], none⟩

theorem captures_exactly_profile :
    let route : Route := ⟨.any, profile, ⟨"User", "show"⟩⟩
    profile.Captured "/user/42/ü#top" ["42", "ü"] ∧
      Table.find? ⟨[route]⟩ ⟨"GET", "/user/42/ü#top"⟩ = some ⟨0, route, ["42", "ü"]⟩ ∧
      Match.params ⟨0, route, ["42", "ü"]⟩ = some ["42", "ü"] := by
  intro route
  obtain ⟨hiff, hunique, hmatch⟩ := captures_exactly profile "/user/42/ü#top"
  have hcaptured : profile.Captured "/user/42/ü#top" ["42", "ü"] := (hiff _).1 (by decide)
  have hfind : Table.find? ⟨[route]⟩ ⟨"GET", "/user/42/ü#top"⟩ = some ⟨0, route, ["42", "ü"]⟩ := by decide
  refine ⟨hcaptured, hfind, ?_⟩
  obtain ⟨vs, hvs, ⟨hplain, -⟩ | ⟨-, hparams⟩⟩ := hmatch ⟨[route]⟩ "GET" _ hfind
  · exact absurd (hplain .digits (by decide)) (by decide)
  · rw [hparams, hunique vs _ hvs hcaptured]

end Pattern
end Signpost
