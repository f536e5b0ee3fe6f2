import Mathlib.Data.List.Forall2
import Mathlib.Tactic.FinCases
import Signpost.Proofs.Except
import Signpost.Proofs.Text.Split
import Signpost.Route.Basic

namespace Signpost

open Text

namespace Grammar

def IsGap (s : List Char) : Prop :=
  s ≠ [] ∧ ∀ c ∈ s, c = ' ' ∨ c = '\t'

inductive IsMethod : Verb → List Char → Prop
  | get : IsMethod .get "GET".toList
  | post : IsMethod .post "POST".toList
  | any : IsMethod .any "*".toList

inductive IsSegment : Segment → List Char → Prop
  | literal {s} (h : ∀ c ∈ s, c.isAlphanum = true) : IsSegment (.literal (String.ofList s)) s
  | text : IsSegment .text "[string]".toList
  | digits : IsSegment .digits "[numeric]".toList

def IsPart (part : List Char) : Prop :=
  '/' ∉ part ∧ '#' ∉ part

instance (part : List Char) : Decidable (IsPart part) :=
  inferInstanceAs (Decidable ('/' ∉ part ∧ '#' ∉ part))

def IsPath (segments : List Segment) (s : List Char) : Prop :=
  ∃ parts, parts ≠ [] ∧ s = '/' :: ['/'].intercalate parts ∧ List.Forall₂ IsSegment segments parts

inductive IsAnchor : Option String → List Char → Prop
  | absent : IsAnchor none []
  | present {s} (hne : s ≠ []) (h : ∀ c ∈ s, c.isAlphanum = true) :
      IsAnchor (some (String.ofList s)) ('#' :: s)

inductive IsTarget : Target → List Char → Prop
  | intro {c d : Char} {s t : List Char} (hc : c.isAlpha = true) (hs : ∀ e ∈ s, e.isAlphanum = true ∨ e = '_')
      (hd : d.isAlpha = true ∨ d = '_') (ht : ∀ e ∈ t, e.isAlphanum = true ∨ e = '_') :
      IsTarget ⟨String.ofList (c :: s), String.ofList (d :: t)⟩ (c :: s ++ '-' :: '>' :: d :: t)

/-- Three fields, of which the second or the third may carry the anchor. -/
inductive IsDefinition : Route → List Char → Prop
  | intro {verb segments onPath target onTarget} {method gap path tail gap' name tail' : List Char}
      (hmethod : IsMethod verb method) (hgap : IsGap gap) (hpath : IsPath segments path)
      (htail : IsAnchor onPath tail) (hgap' : IsGap gap') (hname : IsTarget target name)
      (htail' : IsAnchor onTarget tail') (hone : onPath = none ∨ onTarget = none) :
      IsDefinition ⟨verb, ⟨segments, onPath.or onTarget⟩, target⟩
        (method ++ gap ++ (path ++ tail) ++ gap' ++ (name ++ tail'))

def IsInk (c : Char) : Prop :=
  0x21 ≤ c.toNat ∧ c.toNat < 0x7F

theorem IsInk.isBlank {c : Char} (h : IsInk c) : isBlank c = false := by
  obtain ⟨hlo, hhi⟩ := h
  simp [Text.isBlank]
  omega

theorem IsInk.isGap {c : Char} (h : IsInk c) : Route.isGap c = false := by
  cases hg : Route.isGap c with
  | false => rfl
  | true =>
      simp only [Route.isGap, Bool.or_eq_true, beq_iff_eq] at hg
      rcases hg with rfl | rfl <;> exact absurd h (by unfold IsInk; decide)

theorem isInk_of_isAlphanum {c : Char} (h : c.isAlphanum = true) : IsInk c := by
  have hc : c.isAlphanum = (decide ('A'.val ≤ c.val ∧ c.val ≤ 'Z'.val) ||
      decide ('a'.val ≤ c.val) && decide (c.val ≤ 'z'.val) ||
      decide ('0'.val ≤ c.val) && decide (c.val ≤ '9'.val)) := rfl
  simp only [hc, Bool.or_eq_true, Bool.and_eq_true, decide_eq_true_eq, UInt32.le_iff_toNat_le] at h
  change ((65 ≤ c.toNat ∧ c.toNat ≤ 90) ∨ 97 ≤ c.toNat ∧ c.toNat ≤ 122) ∨ 48 ≤ c.toNat ∧ c.toNat ≤ 57 at h
  unfold IsInk
  omega

theorem ofText?_eq_some_iff_isMethod {verb : Verb} {s : List Char} :
    Verb.ofText? (String.ofList s) = some verb ↔ IsMethod verb s := by
  rw [Verb.ofText?_eq_some_iff]
  constructor
  · intro h
    have hs : s = verb.text.toList := by rw [← h, String.toList_ofList]
    subst hs
    cases verb
    · exact .get
    · exact .post
    · exact .any
  · intro h
    cases h <;> rfl

theorem isSegment_of_ofChars {segment : Segment} {s : List Char} (h : Segment.ofChars s = .ok segment) :
    IsSegment segment s := by
  rw [Segment.ofChars] at h
  split at h
  · next hs => cases h; exact hs ▸ .text
  · split at h
    · next hs => cases h; exact hs ▸ .digits
    · split at h
      · next hs => cases h; exact .literal (by simpa using hs)
      · cases h

theorem ofChars_of_isSegment {segment : Segment} {s : List Char} (h : IsSegment segment s) :
    Segment.ofChars s = .ok segment := by
  cases h with
  | text => rfl
  | digits => rfl
  | literal hs =>
      have hall : s.all Char.isAlphanum = true := by simpa using hs
      have hbracket : '[' ∉ s := fun hm => absurd (hs '[' hm) (by decide)
      have htext : s ≠ "[string]".toList := fun he => hbracket (he ▸ by decide)
      have hdigits : s ≠ "[numeric]".toList := fun he => hbracket (he ▸ by decide)
      rw [Segment.ofChars, if_neg htext, if_neg hdigits, if_pos hall]

theorem IsSegment.chars {segment : Segment} {s : List Char} (h : IsSegment segment s) :
    ∀ c ∈ s, c.isAlphanum = true ∨ c = '[' ∨ c = ']' := by
  cases h with
  | literal hs => exact fun c hc => .inl (hs c hc)
  | text | digits =>
      intro c hc
      fin_cases hc <;> decide

theorem chars_of_forall₂ {segments : List Segment} {parts : List (List Char)}
    (h : List.Forall₂ IsSegment segments parts) :
    ∀ part ∈ parts, ∀ c ∈ part, c.isAlphanum = true ∨ c = '[' ∨ c = ']' := by
  induction h with
  | nil => nofun
  | cons hpart _ ih => exact List.forall_mem_cons.2 ⟨hpart.chars, ih⟩

theorem mapM_eq_ok_iff {parts : List (List Char)} {segments : List Segment} :
    parts.mapM Segment.ofChars = .ok segments ↔ List.Forall₂ IsSegment segments parts := by
  induction parts generalizing segments with
  | nil =>
      rw [List.mapM_nil, List.forall₂_nil_right_iff]
      constructor
      · rintro ⟨⟩
        rfl
      · rintro rfl
        rfl
  | cons part parts ih =>
      rw [List.mapM_cons, List.forall₂_cons_right_iff]
      constructor
      · intro h
        cases hp : Segment.ofChars part with
        | error e => rw [hp] at h; cases h
        | ok segment =>
            cases hps : parts.mapM Segment.ofChars with
            | error e => rw [hp, hps] at h; cases h
            | ok rest =>
                rw [hp, hps] at h
                cases h
                exact ⟨segment, rest, isSegment_of_ofChars hp, ih.1 hps, rfl⟩
      · rintro ⟨segment, rest, hp, hps, rfl⟩
        rw [ofChars_of_isSegment hp, ih.2 hps]
        rfl

theorem isPath_iff {segments : List Segment} {s : List Char} :
    IsPath segments s ↔ ∃ rest, s = '/' :: rest ∧ (split (· == '/') rest).mapM Segment.ofChars = .ok segments := by
  simp only [mapM_eq_ok_iff, split_eq_splitOnP, ← List.splitOn_eq_splitOnP]
  constructor
  · rintro ⟨parts, hne, rfl, hparts⟩
    refine ⟨_, rfl, ?_⟩
    rwa [List.splitOn_intercalate '/' ?_ hne]
    intro part hpart hslash
    rcases chars_of_forall₂ hparts part hpart '/' hslash with h | h | h <;> exact absurd h (by decide)
  · rintro ⟨rest, rfl, hparts⟩
    exact ⟨rest.splitOn '/', List.splitOn_ne_nil '/' rest, by rw [List.intercalate_splitOn], hparts⟩

theorem mem_intercalate {c d : Char} {parts : List (List Char)} (h : c ∈ [d].intercalate parts) :
    c = d ∨ ∃ part ∈ parts, c ∈ part := by
  induction parts with
  | nil => cases h
  | cons part parts ih =>
      cases parts with
      | nil => exact .inr ⟨part, List.mem_cons_self, by simpa using h⟩
      | cons next parts =>
          rw [List.intercalate_cons_cons, List.append_assoc, List.mem_append] at h
          rcases h with h | h
          · exact .inr ⟨part, List.mem_cons_self, h⟩
          · rcases List.mem_cons.1 h with rfl | h
            · exact .inl rfl
            · exact (ih h).imp_right fun ⟨found, hmem, hc⟩ => ⟨found, List.mem_cons_of_mem part hmem, hc⟩

theorem hash_not_mem_of_parts {parts : List (List Char)} (h : ∀ part ∈ parts, IsPart part) :
    '#' ∉ '/' :: ['/'].intercalate parts := by
  intro hmem
  rcases List.mem_cons.1 hmem with hc | hc
  · exact absurd hc (by decide)
  · rcases mem_intercalate hc with hc | ⟨part, hpart, hc⟩
    · exact absurd hc (by decide)
    · exact (h part hpart).2 hc

theorem IsPath.chars {segments : List Segment} {s : List Char} (h : IsPath segments s) :
    ∀ c ∈ s, c.isAlphanum = true ∨ c = '[' ∨ c = ']' ∨ c = '/' := by
  obtain ⟨parts, -, rfl, hparts⟩ := h
  intro c hc
  rcases List.mem_cons.1 hc with rfl | hc
  · exact .inr (.inr (.inr rfl))
  · rcases mem_intercalate hc with rfl | ⟨part, hpart, hc⟩
    · exact .inr (.inr (.inr rfl))
    · have h := chars_of_forall₂ hparts part hpart c hc
      tauto

theorem IsAnchor.chars {anchor : Option String} {s : List Char} (h : IsAnchor anchor s) :
    ∀ c ∈ s, c.isAlphanum = true ∨ c = '#' := by
  intro c hc
  cases h with
  | absent => cases hc
  | present _ hs =>
      rcases List.mem_cons.1 hc with rfl | hc
      · exact .inr rfl
      · exact .inl (hs c hc)

theorem IsAnchor.head {anchor : Option String} {s : List Char} (h : IsAnchor anchor s) : ∀ c ∈ s.head?, c = '#' := by
  cases h with
  | absent => simp
  | present => simp

theorem anchorOfChars_eq_ok_iff {s : List Char} {anchor : String} :
    Pattern.anchorOfChars s = .ok anchor ↔ IsAnchor (some anchor) ('#' :: s) := by
  rw [Pattern.anchorOfChars]
  constructor
  · intro h
    split at h
    · next hs =>
        cases h
        simp only [Bool.and_eq_true, Bool.not_eq_true', List.isEmpty_eq_false_iff, List.all_eq_true] at hs
        exact .present hs.1 hs.2
    · cases h
  · intro h
    cases h with
    | present hne hs => rw [if_pos (by simpa [hne] using hs)]

theorem ne_hash_iff {s : List Char} : (∀ c ∈ s, (c == '#') = false) ↔ '#' ∉ s := by
  constructor
  · intro h hm
    exact absurd (h '#' hm) (by decide)
  · intro h c hc
    exact beq_eq_false_iff_ne.2 fun he => h (he ▸ hc)

theorem splitAnchor_of_no_hash {s : List Char} (h : '#' ∉ s) : Pattern.splitAnchor s = .ok (s, none) := by
  rw [Pattern.splitAnchor, cut_of_unmarked (ne_hash_iff.2 h)]

/-- The first `#` of a field starts its anchor. -/
theorem splitAnchor_append_hash {front : List Char} (h : '#' ∉ front) (back : List Char) :
    Pattern.splitAnchor (front ++ '#' :: back) = (Pattern.anchorOfChars back).map fun anchor => (front, some anchor) := by
  rw [Pattern.splitAnchor, cut_append_cons (ne_hash_iff.2 h) rfl]
  dsimp only
  cases Pattern.anchorOfChars back <;> rfl

theorem splitAnchor_eq_ok_iff {s rest : List Char} {anchor : Option String} :
    Pattern.splitAnchor s = .ok (rest, anchor) ↔ '#' ∉ rest ∧ ∃ tail, IsAnchor anchor tail ∧ s = rest ++ tail := by
  constructor
  · intro h
    by_cases hs : '#' ∈ s
    · obtain ⟨front, back, rfl, hfront⟩ := List.eq_append_cons_of_mem hs
      rw [splitAnchor_append_hash hfront] at h
      cases ha : Pattern.anchorOfChars back with
      | error e => rw [ha] at h; cases h
      | ok a =>
          rw [ha] at h
          cases h
          exact ⟨hfront, '#' :: back, anchorOfChars_eq_ok_iff.1 ha, rfl⟩
    · rw [splitAnchor_of_no_hash hs] at h
      cases h
      exact ⟨hs, [], .absent, (List.append_nil s).symm⟩
  · rintro ⟨hrest, tail, htail, rfl⟩
    cases htail with
    | absent => rw [List.append_nil, splitAnchor_of_no_hash hrest]
    | present hne hs =>
        rw [splitAnchor_append_hash hrest, anchorOfChars_eq_ok_iff.2 (IsAnchor.present hne hs)]
        rfl

theorem ofChars_eq_ok_iff {pattern : Pattern} {s : List Char} :
    Pattern.ofChars s = .ok pattern ↔
      ∃ path tail, IsPath pattern.segments path ∧ IsAnchor pattern.anchor tail ∧ s = path ++ tail := by
  constructor
  · intro h
    rw [Pattern.ofChars, bind_eq_ok_iff] at h
    obtain ⟨⟨path, anchor⟩, hsplit, h⟩ := h
    obtain ⟨-, tail, htail, rfl⟩ := splitAnchor_eq_ok_iff.1 hsplit
    dsimp only at h
    split at h
    · next rest =>
        obtain ⟨segments, hsegments, hp⟩ := bind_eq_ok_iff.1 h
        cases hp
        exact ⟨'/' :: rest, tail, isPath_iff.2 ⟨rest, rfl, hsegments⟩, htail, rfl⟩
    · cases h
  · rintro ⟨path, tail, hpath, htail, rfl⟩
    have hhash : '#' ∉ path := by
      intro hm
      rcases hpath.chars '#' hm with h | h | h | h <;> exact absurd h (by decide)
    obtain ⟨rest, rfl, hm⟩ := isPath_iff.1 hpath
    rw [Pattern.ofChars, splitAnchor_eq_ok_iff.2 ⟨hhash, tail, htail, rfl⟩]
    simp only [bind, Except.bind, hm]
    rfl

theorem eq_of_cutArrow {s before after : List Char} (h : Target.cutArrow s = some (before, after)) :
    s = before ++ '-' :: '>' :: after := by
  fun_induction Target.cutArrow s generalizing before with
  | case1 => cases h
  | case2 s => cases h; rfl
  | case3 c s _ ih =>
      obtain ⟨⟨front, back⟩, hcut, heq⟩ := Option.map_eq_some_iff.1 h
      cases heq
      rw [ih hcut]
      rfl

theorem cutArrow_append {before : List Char} (h : '-' ∉ before) (after : List Char) :
    Target.cutArrow (before ++ '-' :: '>' :: after) = some (before, after) := by
  induction before with
  | nil => rfl
  | cons c before ih =>
      have hc : ∀ s, c :: (before ++ '-' :: '>' :: after) = '-' :: '>' :: s → False := by
        intro s hs
        exact h (by rw [(List.cons.inj hs).1]; exact List.mem_cons_self)
      rw [List.cons_append, Target.cutArrow.eq_3 _ _ fun s hd hs => hc s (by rw [hd, hs]),
        ih fun hm => h (List.mem_cons_of_mem c hm)]
      rfl

theorem all_isNameChar_iff {s : List Char} :
    s.all Target.isNameChar = true ↔ ∀ c ∈ s, c.isAlphanum = true ∨ c = '_' := by
  simp [Target.isNameChar]

theorem isAlphanum_of_isAlpha {c : Char} (h : c.isAlpha = true) : c.isAlphanum = true := by
  simp [Char.isAlphanum, h]

theorem IsTarget.chars {target : Target} {s : List Char} (h : IsTarget target s) :
    ∀ c ∈ s, c.isAlphanum = true ∨ c = '_' ∨ c = '-' ∨ c = '>' := by
  cases h with
  | intro hc hs hd ht =>
      have hc' := isAlphanum_of_isAlpha hc
      have hd' := hd.imp_left isAlphanum_of_isAlpha
      simp only [List.cons_append, List.mem_cons, List.mem_append]
      rintro e (rfl | he | rfl | rfl | rfl | he)
      · exact .inl hc'
      · exact (hs e he).imp_right .inl
      · exact .inr (.inr (.inl rfl))
      · exact .inr (.inr (.inr rfl))
      · exact hd'.imp_right .inl
      · exact (ht e he).imp_right .inl

theorem isTarget_iff {target : Target} {s : List Char} :
    IsTarget target s ↔ ∃ before after, s = before ++ '-' :: '>' :: after ∧
      Target.isControllerName before = true ∧ Target.isActionName after = true ∧
      target = ⟨String.ofList before, String.ofList after⟩ := by
  constructor
  · rintro ⟨hc, hs, hd, ht⟩
    refine ⟨_, _, rfl, ?_, ?_, rfl⟩
    · rw [Target.isControllerName, hc, all_isNameChar_iff.2 hs]
      rfl
    · rw [Target.isActionName, all_isNameChar_iff.2 ht]
      simpa using hd
  · rintro ⟨before, after, rfl, hb, ha, rfl⟩
    cases before with
    | nil => cases hb
    | cons c before =>
        cases after with
        | nil => cases ha
        | cons d after =>
            rw [Target.isControllerName, Bool.and_eq_true, all_isNameChar_iff] at hb
            rw [Target.isActionName, Bool.and_eq_true, all_isNameChar_iff] at ha
            exact .intro hb.1 hb.2 (by simpa using ha.1) ha.2

theorem target_ofChars_eq_ok_iff {target : Target} {s : List Char} :
    Target.ofChars s = .ok target ↔ IsTarget target s := by
  rw [isTarget_iff]
  constructor
  · intro h
    rw [Target.ofChars] at h
    split at h
    · next before after hcut =>
        split at h
        · next hnames =>
            cases h
            rw [Bool.and_eq_true] at hnames
            exact ⟨before, after, eq_of_cutArrow hcut, hnames.1, hnames.2, rfl⟩
        · cases h
    · cases h
  · rintro ⟨before, after, rfl, hb, ha, rfl⟩
    have hdash : '-' ∉ before := by
      intro hm
      cases before with
      | nil => cases hm
      | cons c before =>
          rw [Target.isControllerName, Bool.and_eq_true, all_isNameChar_iff] at hb
          rcases List.mem_cons.1 hm with rfl | hm
          · exact absurd hb.1 (by decide)
          · exact absurd (hb.2 '-' hm) (by decide)
    rw [Target.ofChars, cutArrow_append hdash]
    simp only [hb, ha, Bool.and_self, if_true]

end Grammar

end Signpost
