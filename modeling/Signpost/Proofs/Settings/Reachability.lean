import Signpost.Proofs.Route.Shadowing
import Signpost.Settings.Check

namespace Signpost

open Text Grammar

variable {part : List Char} {parts : List (List Char)} {field : String} {q : Request} {u uri : String}

namespace Segment

def around (part : List Char) : Segment :=
  if part = [] then .literal "" else .text

theorem accepts_around (part : List Char) : (around part).accepts part = true := by
  rw [around]
  split
  · next hnil =>
      rw [hnil]
      rfl
  · next hne => exact accepts_text.2 hne

theorem exists_isSegment_around (part : List Char) : ∃ s, IsSegment (around part) s := by
  rw [around]
  split
  · exact ⟨[], .literal (by simp)⟩
  · exact ⟨_, .text⟩

theorem acceptParts_around (parts : List (List Char)) : AcceptParts (parts.map around) parts := by
  induction parts with
  | nil => exact .nil
  | cons part parts ih => exact .cons (accepts_around part) ih

theorem exists_isSegments_around (parts : List (List Char)) :
    ∃ texts, List.Forall₂ IsSegment (parts.map around) texts := by
  induction parts with
  | nil => exact ⟨[], .nil⟩
  | cons part parts ih =>
      obtain ⟨s, hs⟩ := exists_isSegment_around part
      obtain ⟨texts, htexts⟩ := ih
      exact ⟨s :: texts, .cons hs htexts⟩

end Segment

namespace Pattern

theorem exists_parts_iff : (∃ parts, parts? uri.toList = some parts) ↔ ∃ rest, uri.toList = '/' :: rest := by
  have hpath : (cut (· == '#') uri.toList).1 = uri.toList.takeWhile (· != '#') := cut_fst _ _
  rw [parts?, hpath]
  cases uri.toList with
  | nil => simp
  | cons c rest =>
      by_cases hc : c = '/'
      · subst hc
        simp
      · have hslash : ∀ s, (c :: rest).takeWhile (· != '#') ≠ '/' :: s := by
          intro s hs
          rw [List.takeWhile_cons] at hs
          split at hs
          · exact hc (List.cons.inj hs).1
          · cases hs
        split
        · next s hs => exact absurd hs (hslash s)
        · simp [hc]

end Pattern

theorem Grammar.IsDefinition.definable {r : Route} {s : List Char} (h : IsDefinition r s) : r.Definable := by
  refine ⟨String.ofList s, ?_⟩
  rw [Route.ofLine, String.toList_ofList]
  exact h.ofChars_eq

namespace Route

def along (parts : List (List Char)) : Route :=
  ⟨.any, ⟨parts.map Segment.around, none⟩, ⟨"A", "b"⟩⟩

theorem definable_along (hne : parts ≠ []) : (along parts).Definable := by
  obtain ⟨texts, htexts⟩ := Segment.exists_isSegments_around parts
  have htextsNe : texts ≠ [] := by
    rintro rfl
    rw [List.forall₂_nil_right_iff, List.map_eq_nil_iff] at htexts
    exact hne htexts
  have hpath : IsPath (parts.map Segment.around) ('/' :: ['/'].intercalate texts) :=
    ⟨texts, htextsNe, rfl, htexts⟩
  have htarget : IsTarget ⟨"A", "b"⟩ "A->b".toList := by
    apply target_ofChars_eq_ok_iff.1
    rfl
  have hline := IsDefinition.intro .any isGap_space hpath .absent isGap_space htarget .absent (.inl rfl)
  exact hline.definable

theorem answers_along (h : Pattern.parts? uri.toList = some parts) (method : String) :
    (along parts).Answers ⟨method, uri⟩ := by
  constructor
  · rfl
  · exact Pattern.accepts_iff.2 ⟨parts, h, Segment.acceptParts_around parts⟩

theorem Answers.exists_rest {r : Route} (h : r.Answers q) : ∃ rest, q.uri.toList = '/' :: rest := by
  obtain ⟨parts, hparts, -⟩ := Pattern.accepts_iff.1 h.2
  exact Pattern.exists_parts_iff.1 ⟨parts, hparts⟩

/-- Some line defines a route for every request with a URI that starts with a slash. -/
theorem exists_line_of_rest {rest : List Char} (h : uri.toList = '/' :: rest) :
    ∃ line r, ofLine line = .ok r ∧ ∀ method, r.Answers ⟨method, uri⟩ := by
  obtain ⟨parts, hparts⟩ := Pattern.exists_parts_iff.2 ⟨rest, h⟩
  have hne : parts ≠ [] := (Pattern.parts?_eq_some_iff.1 hparts).1
  obtain ⟨line, hline⟩ := definable_along hne
  exact ⟨line, along parts, hline, answers_along hparts⟩

theorem Answers.find_singleton {r : Route} (h : r.Answers q) : ∃ m, Table.find ⟨[r]⟩ q = .ok m := by
  cases hfind : Table.find ⟨[r]⟩ q with
  | ok m => exact ⟨m, rfl⟩
  | error f =>
      obtain ⟨-, hnone⟩ := Table.find_eq_error_iff.1 hfind
      have hcaptures := hnone r (List.mem_singleton_self r)
      exact absurd h (not_answers_iff.2 hcaptures)

end Route

theorem Table.find_of_not_answers {t : Table} (h : ∀ r : Route, ¬r.Answers q) :
    t.find q = .error (.routeNotFound q) := by
  apply find_eq_error_iff.2
  exact ⟨rfl, fun r _ => Route.not_answers_iff.1 (h r)⟩

namespace Settings

/-- The requests that the settings name, each with the field that it is in. -/
inductive Names (s : Settings) : String → Request → Prop
  | fallback : Names s "dispatch.fallback" s.dispatch.fallback
  | login {login : Request} (h : s.dispatch.login = some login) : Names s "dispatch.login" login

variable {s : Settings} {c : Complaint} {b : Bool}

theorem mem_complaintIf {c' : Complaint} : c ∈ complaintIf b c' ↔ b = true ∧ c = c' := by
  cases b <;> simp [complaintIf]

theorem startsWithSlash_eq_true_iff : startsWithSlash uri = true ↔ ∃ rest, uri.toList = '/' :: rest := by
  rw [startsWithSlash, beq_iff_eq, List.head?_eq_some_iff]

theorem uri_mem_checkRequest_iff {field' : String} :
    .uri field u ∈ checkRequest field' q ↔ field = field' ∧ u = q.uri ∧ ¬∃ rest, q.uri.toList = '/' :: rest := by
  rw [← startsWithSlash_eq_true_iff, checkRequest, List.mem_append, mem_complaintIf, mem_complaintIf]
  simp [and_comm, and_assoc]

theorem uri_mem_check_iff : .uri field u ∈ s.check ↔
    .uri field u ∈ checkRequest "dispatch.fallback" s.dispatch.fallback ∨
      ∃ q, s.dispatch.login = some q ∧ .uri field u ∈ checkRequest "dispatch.login" q := by
  rw [check]
  cases s.dispatch.login <;> cases s.observability.metricsEnabled <;> simp [mem_complaintIf, checkAddress]

theorem Names.uri_mem_check_iff (h : s.Names field q) :
    .uri field q.uri ∈ s.check ↔ ¬∃ rest, q.uri.toList = '/' :: rest := by
  rw [Settings.uri_mem_check_iff, uri_mem_checkRequest_iff]
  simp only [uri_mem_checkRequest_iff]
  cases h with
  | fallback => simp
  | login hlogin => simp [hlogin]

/-- The check complains about the URI of a request if and only if no route that a line can define answers it, whatever
its method. Where it complains, lookups in all tables fail, and where it does not, some line defines a route that is
enough to answer the request with any method. -/
theorem uri_refused_iff_unreachable {s : Settings} {field : String} {q : Request} (hq : s.Names field q) :
    (.uri field q.uri ∈ s.check ↔ ∀ r : Route, r.Definable → ∀ method, ¬r.Answers ⟨method, q.uri⟩) ∧
    (.uri field q.uri ∈ s.check ↔ ¬∃ rest, q.uri.toList = '/' :: rest) ∧
    (.uri field q.uri ∈ s.check → ∀ (t : Table) (method : String),
      t.find ⟨method, q.uri⟩ = .error (.routeNotFound ⟨method, q.uri⟩)) ∧
    (.uri field q.uri ∉ s.check → ∃ line r, Route.ofLine line = .ok r ∧
      ∀ method, r.Answers ⟨method, q.uri⟩ ∧ ∃ m, Table.find ⟨[r]⟩ ⟨method, q.uri⟩ = .ok m) := by
  have hrefused := hq.uri_mem_check_iff
  refine ⟨⟨fun h r _ method hanswers => ?_, fun h => ?_⟩, hrefused, fun h t method => ?_, fun h => ?_⟩
  · exact hrefused.1 h hanswers.exists_rest
  · apply hrefused.2
    rintro ⟨rest, hrest⟩
    obtain ⟨line, r, hline, hanswers⟩ := Route.exists_line_of_rest hrest
    exact h r ⟨line, hline⟩ "GET" (hanswers "GET")
  · apply Table.find_of_not_answers
    intro r hanswers
    exact hrefused.1 h hanswers.exists_rest
  · obtain ⟨rest, hrest⟩ := not_not.1 (mt hrefused.2 h)
    obtain ⟨line, r, hline, hanswers⟩ := Route.exists_line_of_rest hrest
    exact ⟨line, r, hline, fun method => ⟨hanswers method, (hanswers method).find_singleton⟩⟩

/-- A fallback that no literal can spell, and a login request without a slash in front. -/
def doubtful : Settings :=
  { dispatch := { fallback := ⟨"PUT", "//a b\t/é#/x"⟩, login := some ⟨"GET", "login/"⟩ } }

theorem uri_refused_iff_unreachable_doubtful :
    (∃ line r, Route.ofLine line = .ok r ∧ ∀ method, r.Answers ⟨method, "//a b\t/é#/x"⟩ ∧
      ∃ m, Table.find ⟨[r]⟩ ⟨method, "//a b\t/é#/x"⟩ = .ok m) ∧
    .uri "dispatch.login" "login/" ∈ doubtful.check ∧
    ∀ r : Route, r.Definable → ∀ method, ¬r.Answers ⟨method, "login/"⟩ := by
  obtain ⟨-, hslash, -, hfound⟩ := uri_refused_iff_unreachable (s := doubtful) .fallback
  obtain ⟨hlost, hslash', -⟩ := uri_refused_iff_unreachable (s := doubtful) (.login rfl)
  have hfallback : .uri "dispatch.fallback" "//a b\t/é#/x" ∉ doubtful.check := by
    intro hrefused
    exact hslash.1 hrefused ⟨_, rfl⟩
  have hlogin : .uri "dispatch.login" "login/" ∈ doubtful.check := by
    apply hslash'.2
    rintro ⟨rest, hrest⟩
    cases hrest
  exact ⟨hfound hfallback, hlogin, hlost.1 hlogin⟩

end Settings
end Signpost
