import Signpost.Proofs.Route.Captures
import Signpost.Proofs.Route.Lookup
import Signpost.Proofs.Route.Printing

namespace Signpost

open Text Grammar

namespace Segment

variable {a b : Segment} {as bs : List Segment} {part : List Char}

theorem accepts_literal {t : String} : (literal t).accepts part = true ↔ part = t.toList := by
  simp [accepts]

theorem accepts_text : text.accepts part = true ↔ part ≠ [] := by
  simp [accepts]

theorem accepts_digits : digits.accepts part = true ↔ part ≠ [] ∧ ∀ c ∈ part, c.isDigit = true := by
  simp [accepts]

/-- The same segment twice, or a placeholder and a segment that is narrower. -/
inductive Covers : Segment → Segment → Prop
  | same (a : Segment) : Covers a a
  | textDigits : Covers .text .digits
  | textLiteral {t} (hne : t ≠ "") : Covers .text (.literal t)
  | digitsLiteral {t} (hne : t ≠ "") (h : ∀ c ∈ t.toList, c.isDigit = true) : Covers .digits (.literal t)

theorem toList_ne_nil_iff {t : String} : t.toList ≠ [] ↔ t ≠ "" := by
  simp

theorem Covers.accepts (h : Covers a b) (hb : b.accepts part = true) : a.accepts part = true := by
  cases h with
  | same => exact hb
  | textDigits => exact accepts_text.2 (accepts_digits.1 hb).1
  | textLiteral hne =>
      rw [accepts_literal.1 hb]
      exact accepts_text.2 (toList_ne_nil_iff.2 hne)
  | digitsLiteral hne h =>
      rw [accepts_literal.1 hb]
      exact accepts_digits.2 ⟨toList_ne_nil_iff.2 hne, h⟩

def IsClean (a : Segment) : Prop :=
  ∀ t, a = .literal t → IsPart t.toList

theorem IsClean.exists_accepted (h : IsClean a) : ∃ part, IsPart part ∧ a.accepts part = true := by
  cases a with
  | literal t => exact ⟨t.toList, h t rfl, accepts_literal.2 rfl⟩
  | text => exact ⟨['a'], by decide, rfl⟩
  | digits => exact ⟨['0'], by decide, rfl⟩

theorem eq_of_accepts_literal {t : String} {part' : List Char} (h : (literal t).accepts part = true)
    (h' : (literal t).accepts part' = true) : part = part' := by
  rw [accepts_literal.1 h, accepts_literal.1 h']

theorem covers_of_accepts (hb : IsClean b) (h : ∀ part, IsPart part → b.accepts part = true → a.accepts part = true) :
    Covers a b := by
  -- a literal is tried with itself, a placeholder with two parts, of which a literal cannot be both
  cases b with
  | literal t =>
      have ht := h t.toList (hb t rfl) (accepts_literal.2 rfl)
      cases a with
      | literal t' =>
          rw [accepts_literal, String.toList_inj] at ht
          exact ht ▸ .same _
      | text => exact .textLiteral (toList_ne_nil_iff.1 (accepts_text.1 ht))
      | digits =>
          obtain ⟨hne, hdigits⟩ := accepts_digits.1 ht
          exact .digitsLiteral (toList_ne_nil_iff.1 hne) hdigits
  | text =>
      have ha := h ['a'] (by decide) rfl
      have hb := h ['b'] (by decide) rfl
      cases a with
      | literal t => exact absurd (eq_of_accepts_literal ha hb) (by decide)
      | text => exact .same _
      | digits => exact absurd ha (by decide)
  | digits =>
      have h0 := h ['0'] (by decide) rfl
      have h1 := h ['1'] (by decide) rfl
      cases a with
      | literal t => exact absurd (eq_of_accepts_literal h0 h1) (by decide)
      | text => exact .textDigits
      | digits => exact .same _

abbrev AcceptParts (as : List Segment) (parts : List (List Char)) : Prop :=
  List.Forall₂ (fun a part => a.accepts part = true) as parts

theorem IsClean.forall_exists_accepted (h : ∀ a ∈ as, IsClean a) :
    ∃ parts, (∀ part ∈ parts, IsPart part) ∧ AcceptParts as parts := by
  induction as with
  | nil => exact ⟨[], by simp, .nil⟩
  | cons a as ih =>
      rw [List.forall_mem_cons] at h
      obtain ⟨part, hpart, ha⟩ := h.1.exists_accepted
      obtain ⟨parts, hparts, has⟩ := ih h.2
      exact ⟨part :: parts, List.forall_mem_cons.2 ⟨hpart, hparts⟩, .cons ha has⟩

theorem forall₂_covers_iff (h : ∀ b ∈ bs, IsClean b) :
    List.Forall₂ Covers as bs ↔
      ∀ parts, (∀ part ∈ parts, IsPart part) → AcceptParts bs parts → AcceptParts as parts := by
  constructor
  · rintro hcovers parts - hparts
    induction hcovers generalizing parts with
    | nil => exact hparts
    | cons hab _ ih =>
        obtain ⟨part, parts, hb, hbs, rfl⟩ := List.forall₂_cons_left_iff.1 hparts
        exact .cons (hab.accepts hb) (ih (fun b hb => h b (List.mem_cons_of_mem _ hb)) parts hbs)
  · intro haccepts
    induction bs generalizing as with
    | nil =>
        obtain rfl := List.forall₂_nil_right_iff.1 (haccepts [] (by simp) .nil)
        exact .nil
    | cons b bs ih =>
        rw [List.forall_mem_cons] at h
        -- a part of one segment is tried with parts that the other segments accept
        obtain ⟨part, hpart, hb⟩ := h.1.exists_accepted
        obtain ⟨parts, hparts, hbs⟩ := IsClean.forall_exists_accepted h.2
        have hall := haccepts (part :: parts) (List.forall_mem_cons.2 ⟨hpart, hparts⟩) (.cons hb hbs)
        obtain ⟨a, as, -, -, rfl⟩ := List.forall₂_cons_right_iff.1 hall
        refine .cons (covers_of_accepts h.1 fun part' hpart' hb' => ?_) (ih h.2 fun parts' hparts' hbs' => ?_)
        · have hone := haccepts (part' :: parts) (List.forall_mem_cons.2 ⟨hpart', hparts⟩) (.cons hb' hbs)
          exact (List.forall₂_cons.1 hone).1
        · have hrest := haccepts (part :: parts') (List.forall_mem_cons.2 ⟨hpart, hparts'⟩) (.cons hb hbs')
          exact (List.forall₂_cons.1 hrest).2

theorem isSome_captures_iff {parts : List (List Char)} :
    (captures as parts).isSome = true ↔ AcceptParts as parts := by
  induction as generalizing parts with
  | nil => cases parts <;> simp [captures]
  | cons a as ih =>
      cases parts with
      | nil => simp [captures]
      | cons part parts =>
          rw [captures, AcceptParts, List.forall₂_cons, ← AcceptParts, ← ih]
          by_cases h : a.accepts part = true <;> simp [h]

end Segment

namespace Pattern

variable {p p' : Pattern} {uri : String} {parts : List (List Char)}

theorem accepts_iff : p.accepts uri = true ↔
    ∃ parts, parts? uri.toList = some parts ∧ Segment.AcceptParts p.segments parts := by
  rw [accepts, captures]
  cases parts? uri.toList with
  | none => simp
  | some parts => simp [Segment.isSome_captures_iff]

def ofParts (parts : List (List Char)) : String :=
  String.ofList ('/' :: ['/'].intercalate parts)

theorem accepts_ofParts_iff (hne : parts ≠ []) (h : ∀ part ∈ parts, IsPart part) :
    p.accepts (ofParts parts) = true ↔ Segment.AcceptParts p.segments parts := by
  have hparts : parts? (ofParts parts).toList = some parts := by
    rw [ofParts, String.toList_ofList]
    refine parts?_eq_some_iff.2 ⟨hne, fun part hpart => (h part hpart).1, List.takeWhile_eq_self_iff.2 ?_⟩
    exact fun c hc => bne_iff_ne.2 fun heq => hash_not_mem_of_parts h (heq ▸ hc)
  rw [accepts_iff, hparts]
  simp

theorem isPart_of_parts? {s : List Char} (h : parts? s = some parts) : ∀ part ∈ parts, IsPart part := by
  obtain ⟨-, hslash, hpath⟩ := parts?_eq_some_iff.1 h
  exact fun part hpart => ⟨hslash part hpart, no_hash_of_path hpath hpart⟩

theorem forall₂_covers_iff (hne : p'.segments ≠ []) (h : ∀ b ∈ p'.segments, Segment.IsClean b) :
    List.Forall₂ Segment.Covers p.segments p'.segments ↔
      ∀ uri, p'.accepts uri = true → p.accepts uri = true := by
  rw [Segment.forall₂_covers_iff h]
  constructor
  · intro haccepts uri huri
    obtain ⟨parts, hparts, hp'⟩ := accepts_iff.1 huri
    exact accepts_iff.2 ⟨parts, hparts, haccepts parts (isPart_of_parts? hparts) hp'⟩
  · intro haccepts parts hparts hp'
    have hparts' : parts ≠ [] := by
      rintro rfl
      exact hne (List.forall₂_nil_right_iff.1 hp')
    exact (accepts_ofParts_iff hparts' hparts).1 (haccepts _ ((accepts_ofParts_iff hparts' hparts).2 hp'))

theorem exists_accepted (hne : p.segments ≠ []) (h : ∀ a ∈ p.segments, Segment.IsClean a) :
    ∃ uri, p.accepts uri = true := by
  obtain ⟨parts, hparts, hp⟩ := Segment.IsClean.forall_exists_accepted h
  refine ⟨ofParts parts, (accepts_ofParts_iff ?_ hparts).2 hp⟩
  rintro rfl
  exact hne (List.forall₂_nil_right_iff.1 hp)

end Pattern

theorem Verb.accepts_text (v : Verb) : v.accepts v.text = true := by
  cases v <;> rfl

/-- No method is like all others. -/
theorem Verb.forall_accepts_iff {v v' : Verb} :
    (∀ method, v'.accepts method = true → v.accepts method = true) ↔ v = .any ∨ v = v' := by
  constructor
  · intro h
    have hget := h "GET"
    have hpost := h "POST"
    revert hget hpost
    cases v <;> cases v' <;> decide
  · rintro (rfl | rfl) method hmethod
    · rfl
    · exact hmethod

namespace Grammar

theorem IsSegment.isClean {a : Segment} {s : List Char} (h : IsSegment a s) : a.IsClean := by
  rintro t rfl
  cases h with
  | literal hs =>
      rw [String.toList_ofList]
      exact ⟨fun hc => absurd (hs _ hc) (by decide), fun hc => absurd (hs _ hc) (by decide)⟩

theorem isClean_of_forall₂ {segments : List Segment} {parts : List (List Char)}
    (h : List.Forall₂ IsSegment segments parts) : ∀ a ∈ segments, a.IsClean := by
  induction h with
  | nil => simp
  | cons ha _ ih => exact List.forall_mem_cons.2 ⟨ha.isClean, ih⟩

end Grammar

namespace Route

variable {p q : Route}

def Answers (r : Route) (request : Request) : Prop :=
  r.verb.accepts request.method = true ∧ r.pattern.accepts request.uri = true

structure Subsumes (p q : Route) : Prop where
  verb : p.verb = .any ∨ p.verb = q.verb
  segments : List.Forall₂ Segment.Covers p.pattern.segments q.pattern.segments

theorem not_answers_iff {r : Route} {request : Request} :
    ¬r.Answers request ↔ (r.verb.accepts request.method = true → r.pattern.captures request.uri = none) := by
  simp [Answers, Pattern.accepts]

/-- What the grammar leaves to the segments of a route: there are some, and no literal has a slash or a hash. -/
theorem Definable.segments_clean (h : p.Definable) :
    p.pattern.segments ≠ [] ∧ ∀ a ∈ p.pattern.segments, Segment.IsClean a := by
  have hdefinition := h.isDefinition
  generalize p.toText.toList = s at hdefinition
  cases hdefinition with
  | intro _ _ hpath =>
      obtain ⟨parts, hne, -, hparts⟩ := hpath
      refine ⟨fun hnil => hne ?_, Grammar.isClean_of_forall₂ hparts⟩
      dsimp only at hnil
      rw [hnil] at hparts
      exact List.forall₂_nil_left_iff.1 hparts

theorem subsumes_iff (hq : q.Definable) : p.Subsumes q ↔ ∀ request, q.Answers request → p.Answers request := by
  obtain ⟨hne, hclean⟩ := hq.segments_clean
  have hsegments := Pattern.forall₂_covers_iff (p := p.pattern) hne hclean
  constructor
  · rintro ⟨hverb, hcovers⟩ request ⟨hmethod, huri⟩
    exact ⟨Verb.forall_accepts_iff.2 hverb _ hmethod, hsegments.1 hcovers _ huri⟩
  · intro h
    -- each half of a request is tried with another half that the route accepts
    obtain ⟨uri, huri⟩ := Pattern.exists_accepted hne hclean
    refine ⟨Verb.forall_accepts_iff.1 fun method hmethod => ?_, hsegments.2 fun uri' huri' => ?_⟩
    · exact (h ⟨method, uri⟩ ⟨hmethod, huri⟩).1
    · exact (h ⟨q.verb.text, uri'⟩ ⟨q.verb.accepts_text, huri'⟩).2

end Route

def Match.seen (m : Match) : Route × List String :=
  (m.route, m.captures)

namespace Table

variable {t : Table} {i j : Nat} {p q : Route} {request : Request}

theorem index_lt {rs : List Route} {m : Match} (h : find ⟨rs⟩ request = .ok m) : m.index < rs.length :=
  (List.getElem?_eq_some_iff.1 (find_eq_ok_iff.1 h).place).1

/-- A route is of no use behind one that answers all its requests. -/
theorem find_eraseIdx (h : ∀ request, q.Answers request → p.Answers request) (hij : i < j)
    (hp : t.routes[i]? = some p) (hq : t.routes[j]? = some q) (request : Request) :
    (∀ m, t.find request = .ok m → m.index ≠ j) ∧
      (find ⟨t.routes.eraseIdx j⟩ request).map Match.seen = (t.find request).map Match.seen := by
  obtain ⟨before, after, hroutes, rfl⟩ := getElem?_eq_some_iff_append.1 hq
  obtain ⟨routes⟩ := t
  dsimp only at hroutes hp
  subst hroutes
  rw [List.getElem?_append_left hij] at hp
  rw [List.eraseIdx_append_of_length_le le_rfl, Nat.sub_self, List.eraseIdx_cons_zero]
  cases hbefore : find ⟨before⟩ request with
  | ok m =>
      rw [find_append_of_ok hbefore, find_append_of_ok hbefore]
      refine ⟨?_, rfl⟩
      rintro m' ⟨⟩
      exact (index_lt hbefore).ne
  | error f =>
      obtain ⟨-, hnone⟩ := find_eq_error_iff.1 hbefore
      have hanswers : ¬q.Answers request :=
        fun hq => Route.not_answers_iff.2 (hnone p (List.mem_of_getElem? hp)) (h request hq)
      have hmiss : find ⟨[q]⟩ request = .error (.routeNotFound request) :=
        find_eq_error_iff.2 ⟨rfl, by simpa using Route.not_answers_iff.1 hanswers⟩
      rw [find_append_of_error hbefore, find_append_of_error hbefore, ← List.singleton_append,
        find_append_of_error hmiss]
      cases find ⟨after⟩ request with
      | error f => exact ⟨by rintro m ⟨⟩, rfl⟩
      | ok m =>
          refine ⟨?_, rfl⟩
          rintro m' ⟨⟩
          simp only [Match.later, List.length_singleton]
          omega

end Table

/-- One route answers all requests of another that a line defines if and only if it subsumes it. Then the other one is
never found behind it, and no lookup shows a difference when it is taken out of the table. -/
theorem Route.subsumes_iff_shadows (p q : Route) (hq : q.Definable) :
    ((∀ request, q.Answers request → p.Answers request) ↔ p.Subsumes q) ∧
    (p.Subsumes q → ∀ (t : Table) (i j : Nat), i < j → t.routes[i]? = some p → t.routes[j]? = some q → ∀ request,
      (∀ m, t.find request = .ok m → m.index ≠ j) ∧
      (Table.find ⟨t.routes.eraseIdx j⟩ request).map Match.seen = (t.find request).map Match.seen) := by
  refine ⟨(subsumes_iff hq).symm, fun h t i j hij hp hq' request => ?_⟩
  exact Table.find_eraseIdx ((subsumes_iff hq).1 h) hij hp hq' request

/-- A number with leading zeros is a literal here. The route between the two answers nothing of the last one. -/
theorem Route.subsumes_iff_shadows_agent :
    let p : Route := ⟨.any, ⟨[.text, .digits], none⟩, ⟨"Any", "show"⟩⟩
    let other : Route := ⟨.get, ⟨[.digits, .literal ""], none⟩, ⟨"Other", "show"⟩⟩
    let q : Route := ⟨.get, ⟨[.literal "agent", .literal "007"], none⟩, ⟨"Agent", "show"⟩⟩
    let request : Request := ⟨"GET", "/agent/007"⟩
    q.Definable ∧ p.Subsumes q ∧ q.Answers request ∧ p.Answers request ∧
      (∀ m, Table.find ⟨[p, other, q]⟩ request = .ok m → m.index ≠ 2) ∧
      (Table.find ⟨[p, other]⟩ request).map Match.seen = (Table.find ⟨[p, other, q]⟩ request).map Match.seen := by
  intro p other q request
  have hq : q.Definable := ⟨"GET /agent/007 Agent->show", by decide⟩
  have hcovers : p.Subsumes q := by
    refine ⟨.inl rfl, .cons (.textLiteral (by decide)) (.cons (.digitsLiteral (by decide) fun c hc => ?_) .nil)⟩
    fin_cases hc <;> rfl
  have hanswers : q.Answers request := ⟨by decide, by decide⟩
  obtain ⟨hiff, htable⟩ := Route.subsumes_iff_shadows p q hq
  obtain ⟨hindex, hseen⟩ := htable hcovers ⟨[p, other, q]⟩ 0 2 (by decide) rfl rfl request
  exact ⟨hq, hcovers, hanswers, hiff.2 hcovers request hanswers, hindex, hseen⟩

end Signpost
