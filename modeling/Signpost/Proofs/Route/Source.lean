import Signpost.Proofs.Route.Line

namespace Signpost

open Text

namespace Text

theorem split_append_cons {d : Char} (s t : List Char) :
    split (· == d) (s ++ d :: t) = split (· == d) s ++ split (· == d) t := by
  simp only [split_eq_splitOnP]
  exact List.splitOnP_append_cons s t (by simp)

theorem length_split (d : Char) (s : List Char) : (split (· == d) s).length = s.count d + 1 := by
  induction s with
  | nil => rfl
  | cons c s ih =>
      by_cases hc : c = d
      · subst hc
        simp [split, ih]
      · cases hs : split (· == d) s with
        | nil => exact absurd hs (split_ne_nil _ s)
        | cons piece pieces =>
            rw [hs] at ih
            simpa [split, hc, hs] using ih

def dropReturn (line : List Char) : List Char :=
  if line.getLast? = some '\r' then line.dropLast else line

/-- Lines end in a newline or in a carriage return and a newline. What follows the last ending is one more line,
unless it is empty. -/
def lines (s : List Char) : List (List Char) :=
  let pieces := split (· == '\n') s
  pieces.dropLast.map dropReturn ++ pieces.getLast?.toList.filter (!·.isEmpty)

theorem trim_dropReturn (line : List Char) : trim (dropReturn line) = trim line := by
  rw [dropReturn]
  split
  · next h =>
      have hline := List.dropLast_append_getLast? '\r' h
      have htrim := trim_append_of_blank (List.forall_mem_singleton.2 (rfl : isBlank '\r' = true)) line.dropLast
      rw [hline] at htrim
      exact htrim.symm
  · rfl

end Text

namespace DefinitionError

def below (e : DefinitionError) (k : Nat) : DefinitionError :=
  { e with line := e.line.map (· + k) }

theorem below_of_line {e : DefinitionError} {n : Nat} (h : e.line = some n) (k : Nat) :
    e.below k = e.atLine (n + k) := by
  rw [below, h]
  rfl

end DefinitionError

namespace Route

variable {line : List Char} {r : Route} {rs : List Route} {e : DefinitionError} {n : Nat}

/-- The line is blank or a comment. -/
inductive Skipped : List Char → Prop
  | blank {line : List Char} (h : ∀ c ∈ line, isBlank c = true) : Skipped line
  | comment {lead rest} (h : ∀ c ∈ lead, isBlank c = true) : Skipped (lead ++ '#' :: rest)

theorem skipped_iff : Skipped line ↔ trim line = [] ∨ ∃ rest, trim line = '#' :: rest := by
  constructor
  · intro h
    cases h with
    | blank h => exact .inl (trim_of_blank h)
    | @comment lead rest h =>
        right
        rw [trim, List.dropWhile_append_of_pos h]
        exact trim_cons (by decide) rest
  · obtain ⟨lead, trail, hline, hlead, htrail⟩ := exists_eq_append_trim line
    rintro (h | ⟨rest, h⟩)
    · rw [h, List.append_nil] at hline
      rw [hline]
      exact .blank fun c hc => (List.mem_append.1 hc).elim (hlead c) (htrail c)
    · rw [h, List.append_assoc, List.cons_append] at hline
      rw [hline]
      exact .comment hlead

/-- A line that defines a route begins like one. -/
theorem not_skipped_of_isDefinition (h : Grammar.IsDefinition r (trim line)) : ¬Skipped line := by
  obtain ⟨c, rest, htrim, hc⟩ := h.head
  rw [skipped_iff, htrim]
  rintro (hnil | ⟨rest', hcomment⟩)
  · cases hnil
  · obtain ⟨rfl, -⟩ := List.cons.inj hcomment
    exact absurd hc (by decide)

theorem not_skipped_of_ofLine {line : String} (h : ofLine line = .ok r) : ¬Skipped line.toList :=
  not_skipped_of_isDefinition (Grammar.ofLine_eq_ok_iff_trim.1 h)

theorem ofChars_trim (line : List Char) : ofChars (trim line) = ofChars line := by
  rw [ofChars, ofChars, trim_trim]

theorem ofLines_of_skipped (h : Skipped line) (lines : List (List Char)) :
    ofLines n (line :: lines) = ofLines (n + 1) lines := by
  rw [ofLines]
  rcases skipped_iff.1 h with htrim | ⟨rest, htrim⟩
  · rw [htrim]
  · rw [htrim]
    rfl

theorem ofLines_of_not_skipped (h : ¬Skipped line) (lines : List (List Char)) :
    ofLines n (line :: lines) = (do
      let route ← (ofChars line).mapError (·.atLine n)
      let routes ← ofLines (n + 1) lines
      return route :: routes) := by
  rw [skipped_iff, not_or, not_exists] at h
  rw [ofLines]
  split
  · exact absurd ‹_› h.1
  · exact absurd ‹_› (h.2 _)
  · rw [ofChars_trim]

/-- What one line defines does not hang on the lines after it. -/
theorem ofLines_cons (n : Nat) (line : List Char) (lines : List (List Char)) :
    ofLines n (line :: lines) = (do
      let here ← ofLines n [line]
      let below ← ofLines (n + 1) lines
      return here ++ below) := by
  by_cases h : Skipped line
  · rw [ofLines_of_skipped h, ofLines_of_skipped h]
    cases ofLines (n + 1) lines <;> rfl
  · rw [ofLines_of_not_skipped h, ofLines_of_not_skipped h]
    cases ofChars line with
    | error e => rfl
    | ok r => cases ofLines (n + 1) lines <;> rfl

theorem ofLines_append (n : Nat) (above lines : List (List Char)) :
    ofLines n (above ++ lines) = (do
      let here ← ofLines n above
      let below ← ofLines (n + above.length) lines
      return here ++ below) := by
  induction above generalizing n with
  | nil =>
      rw [List.nil_append, List.length_nil, Nat.add_zero]
      cases ofLines n lines <;> rfl
  | cons line above ih =>
      have hplace : n + 1 + above.length = n + (line :: above).length := by
        rw [List.length_cons]
        omega
      rw [List.cons_append, ofLines_cons, ih (n + 1), ofLines_cons n line above, hplace]
      cases ofLines n [line] with
      | error e => rfl
      | ok here =>
          cases ofLines (n + 1) above with
          | error e => rfl
          | ok there =>
              cases ofLines (n + (line :: above).length) lines with
              | error e => rfl
              | ok below => exact congrArg Except.ok (List.append_assoc here there below).symm

theorem ofLines_below (n k : Nat) (lines : List (List Char)) :
    ofLines (n + k) lines = (ofLines n lines).mapError (·.below k) := by
  induction lines generalizing n with
  | nil => rfl
  | cons line lines ih =>
      have hnext : ofLines (n + k + 1) lines = (ofLines (n + 1) lines).mapError (·.below k) := by
        rw [Nat.add_right_comm]
        exact ih (n + 1)
      by_cases h : Skipped line
      · rw [ofLines_of_skipped h, ofLines_of_skipped h, hnext]
      · rw [ofLines_of_not_skipped h, ofLines_of_not_skipped h, hnext]
        cases ofChars line with
        | error e => rfl
        | ok r => cases ofLines (n + 1) lines <;> rfl

def Sound (line : List Char) : Prop :=
  Skipped line ∨ ∃ r, ofChars line = .ok r

theorem Sound.ofLines_eq_ok (h : Sound line) (n : Nat) : ∃ rs, ofLines n [line] = .ok rs := by
  by_cases hskip : Skipped line
  · exact ⟨[], ofLines_of_skipped hskip []⟩
  · obtain ⟨r, hr⟩ := h.resolve_left hskip
    refine ⟨[r], ?_⟩
    rw [ofLines_of_not_skipped hskip, hr]
    rfl

theorem ofLines_cons_of_ok (h : ofLines n [line] = .ok rs) (lines : List (List Char)) :
    ofLines n (line :: lines) = (ofLines (n + 1) lines).map (rs ++ ·) := by
  rw [ofLines_cons, h]
  cases ofLines (n + 1) lines <;> rfl

theorem ofLines_of_sound {lines : List (List Char)} (h : ∀ line ∈ lines, Sound line) (n : Nat) :
    ∃ rs, ofLines n lines = .ok rs := by
  induction lines generalizing n with
  | nil => exact ⟨[], rfl⟩
  | cons line lines ih =>
      rw [List.forall_mem_cons] at h
      obtain ⟨here, hhere⟩ := h.1.ofLines_eq_ok n
      obtain ⟨below, hbelow⟩ := ih h.2 (n + 1)
      refine ⟨here ++ below, ?_⟩
      rw [ofLines_cons_of_ok hhere, hbelow]
      rfl

theorem ofLines_of_error (hskip : ¬Skipped line) (h : ofChars line = .error e) (lines : List (List Char)) :
    ofLines n (line :: lines) = .error (e.atLine n) := by
  rw [ofLines_of_not_skipped hskip, h]
  rfl

/-- The first faulty line ends the reading. -/
theorem ofLines_eq_error_iff {lines : List (List Char)} :
    ofLines n lines = .error e ↔
      ∃ above line below e', lines = above ++ line :: below ∧ (∀ other ∈ above, Sound other) ∧
        ¬Skipped line ∧ ofChars line = .error e' ∧ e = e'.atLine (n + above.length) := by
  constructor
  · intro h
    induction lines generalizing n with
    | nil => cases h
    | cons line lines ih =>
        by_cases hsound : Sound line
        · obtain ⟨here, hhere⟩ := hsound.ofLines_eq_ok n
          rw [ofLines_cons_of_ok hhere] at h
          cases hlines : ofLines (n + 1) lines with
          | ok rs => rw [hlines] at h; cases h
          | error e' =>
              rw [hlines] at h
              cases h
              obtain ⟨above, faulty, below, e', rfl, habove, hfaulty, he', rfl⟩ := ih hlines
              refine ⟨line :: above, faulty, below, e', rfl, List.forall_mem_cons.2 ⟨hsound, habove⟩, hfaulty, he', ?_⟩
              rw [List.length_cons, Nat.add_right_comm, Nat.add_assoc]
        · rw [Sound, not_or, not_exists] at hsound
          cases hline : ofChars line with
          | ok r => exact absurd hline (hsound.2 r)
          | error e' =>
              rw [ofLines_of_error hsound.1 hline] at h
              cases h
              exact ⟨[], line, lines, e', rfl, by simp, hsound.1, hline, rfl⟩
  · rintro ⟨above, line, below, e', rfl, habove, hskip, he', rfl⟩
    obtain ⟨rs, hrs⟩ := ofLines_of_sound habove n
    rw [ofLines_append, hrs, ofLines_of_error hskip he']
    rfl

theorem ofLines_map {f : List Char → List Char} (h : ∀ line, trim (f line) = trim line) (lines : List (List Char)) :
    ofLines n (lines.map f) = ofLines n lines := by
  induction lines generalizing n with
  | nil => rfl
  | cons line lines ih => rw [List.map_cons, ofLines, ofLines, h, ih]

/-- The kind of line ending plays no part, nor whether the last line has one. -/
theorem ofLines_lines (n : Nat) (s : List Char) : ofLines n (lines s) = ofLines n (split (· == '\n') s) := by
  obtain ⟨init, last, hpieces⟩ : ∃ init last, split (· == '\n') s = init ++ [last] :=
    ⟨_, _, (List.dropLast_append_getLast (split_ne_nil _ s)).symm⟩
  rw [lines, hpieces, List.dropLast_concat, List.getLast?_concat, ofLines_append, ofLines_append,
    ofLines_map trim_dropReturn, List.length_map]
  cases last with
  | nil => rfl
  | cons c last => rfl

theorem ofSource_append (a b : String) :
    ofSource (a ++ "\n" ++ b) = (do
      let above ← ofSource a
      let below ← (ofSource b).mapError (·.below (a.toList.count '\n' + 1))
      return above ++ below) := by
  have htext : (a ++ "\n" ++ b).toList = a.toList ++ '\n' :: b.toList := by simp
  rw [ofSource, htext, split_append_cons, ofLines_append, length_split, ofLines_below]
  rfl

theorem ofSource_of_line (h : '\n' ∉ line) : ofSource (String.ofList line) = ofLines 1 [line] := by
  have hsplit : split (· == '\n') line = [line] :=
    split_eq_iff.2 ⟨List.cons_ne_nil _ _, by simpa using h, by simp⟩
  rw [ofSource, String.toList_ofList, hsplit]

/-- A file reads like its two halves at any newline, the second with its line numbers moved down. A line alone is
skipped or defines what it does outside of a file, and no line that defines a route is skipped. -/
theorem ofSource_homomorphic :
    (∀ a b e, ofSource a = .error e → ofSource (a ++ "\n" ++ b) = .error e) ∧
    (∀ a b rs, ofSource a = .ok rs →
      (∀ rs', ofSource b = .ok rs' → ofSource (a ++ "\n" ++ b) = .ok (rs ++ rs')) ∧
      ∀ e, ofSource b = .error e → ∃ k, e.line = some k ∧
        ofSource (a ++ "\n" ++ b) = .error (e.atLine (k + 1 + a.toList.count '\n'))) ∧
    (∀ line : String, '\n' ∉ line.toList →
      (Skipped line.toList → ofSource line = .ok []) ∧
      (¬Skipped line.toList → ofSource line = ((ofLine line).map ([·])).mapError (·.atLine 1))) ∧
    (∀ line r, ofLine line = .ok r → ¬Skipped line.toList) ∧
    ∀ content, ofSource content = ofLines 1 (lines content.toList) := by
  refine ⟨fun a b e h => ?_, fun a b rs h => ⟨fun rs' h' => ?_, fun e h' => ?_⟩, fun line hline => ?_,
    fun line r => not_skipped_of_ofLine, fun content => (ofLines_lines 1 content.toList).symm⟩
  · rw [ofSource_append, h]
    rfl
  · rw [ofSource_append, h, h']
    rfl
  · obtain ⟨above, line, below, e', -, -, -, -, he⟩ := ofLines_eq_error_iff.1 h'
    have hk : e.line = some (1 + above.length) := by rw [he, DefinitionError.atLine]
    have hplace : 1 + above.length + 1 + a.toList.count '\n' = 1 + above.length + (a.toList.count '\n' + 1) := by
      omega
    refine ⟨1 + above.length, hk, ?_⟩
    rw [ofSource_append, h, h', hplace, ← DefinitionError.below_of_line hk]
    rfl
  · have hone := ofSource_of_line hline
    rw [String.ofList_toList] at hone
    refine ⟨fun h => ?_, fun h => ?_⟩
    · rw [hone, ofLines_of_skipped h]
      rfl
    · rw [hone, ofLines_of_not_skipped h, ofLine]
      cases ofChars line.toList <;> rfl

/-- The first half ends in a carriage return of its own, and the second begins with a line of one wide blank. -/
theorem ofSource_homomorphic_torn :
    let above := "# pages\r\n\nGET /a A->b\r"
    let below := "\u2003\nPUT /b A->b # b"
    let route : Route := ⟨.get, ⟨[.literal "a"], none⟩, ⟨"A", "b"⟩⟩
    let e : DefinitionError := ⟨.fieldCount 5, "PUT /b A->b # b", some 2⟩
    ofSource above = .ok [route] ∧ ofSource below = .error e ∧
      ofSource (above ++ "\n" ++ below) = .error (e.atLine 5) ∧ ofSource "GET /a A->b" = .ok [route] := by
  intro above below route e
  obtain ⟨-, hhalves, hline, -, -⟩ := ofSource_homomorphic
  have habove : ofSource above = .ok [route] := by decide
  have hbelow : ofSource below = .error e := by decide
  obtain ⟨k, hk, hboth⟩ := (hhalves above below [route] habove).2 e hbelow
  have hcount : k + 1 + above.toList.count '\n' = 5 := by
    cases hk
    decide
  rw [hcount] at hboth
  refine ⟨habove, hbelow, hboth, ?_⟩
  have hroute : ofLine "GET /a A->b" = .ok route := by decide
  rw [(hline "GET /a A->b" (by decide)).2 (not_skipped_of_ofLine hroute), hroute]
  rfl

end Route
end Signpost
