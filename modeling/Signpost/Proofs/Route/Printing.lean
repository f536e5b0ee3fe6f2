import Signpost.Proofs.Route.Source

namespace Signpost

open Text

namespace Grammar

variable {verb : Verb} {segment : Segment} {segments : List Segment} {target : Target} {r : Route}
  {anchor anchor' : Option String} {s t : List Char}

theorem IsMethod.eq_text (h : IsMethod verb s) : s = verb.text.toList := by
  cases h <;> rfl

theorem IsSegment.eq_toText (h : IsSegment segment s) : s = segment.toText.toList := by
  cases h with
  | literal => exact String.toList_ofList.symm
  | text | digits => rfl

theorem IsTarget.eq_toText (h : IsTarget target s) : s = target.toText.toList := by
  cases h with
  | intro => simp [Target.toText]

theorem map_toText_of_forall₂ {parts : List (List Char)} (h : List.Forall₂ IsSegment segments parts) :
    segments.map (fun segment => segment.toText.toList) = parts := by
  induction h with
  | nil => rfl
  | cons hpart _ ih => rw [List.map_cons, ih, ← hpart.eq_toText]

theorem slash_intercalate {parts : List (List Char)} (hne : parts ≠ []) :
    '/' :: ['/'].intercalate parts = parts.flatMap ('/' :: ·) := by
  induction parts with
  | nil => exact absurd rfl hne
  | cons part parts ih =>
      cases parts with
      | nil => simp
      | cons next parts =>
          have htail := ih (List.cons_ne_nil next parts)
          rw [List.intercalate_cons_cons, List.append_assoc, List.singleton_append, htail]
          rfl

theorem toList_toText_of_isPath {pattern : Pattern} (hpath : IsPath pattern.segments s)
    (htail : IsAnchor pattern.anchor t) : pattern.toText.toList = s ++ t := by
  obtain ⟨parts, hne, rfl, hparts⟩ := hpath
  have hsegments : (String.join (pattern.segments.map ("/" ++ ·.toText))).toList = parts.flatMap ('/' :: ·) := by
    rw [← map_toText_of_forall₂ hparts]
    simp [String.toList_join, List.flatMap_map]
  rw [Pattern.toText, String.toList_append, hsegments, slash_intercalate hne]
  generalize pattern.anchor = anchor at htail
  cases htail with
  | absent => rfl
  | present => simp

/-- The anchor may be written on either field. -/
theorem IsAnchor.or (h : IsAnchor anchor s) (h' : IsAnchor anchor' t) (hone : anchor = none ∨ anchor' = none) :
    IsAnchor (anchor.or anchor') (s ++ t) := by
  rcases hone with rfl | rfl
  · cases h
    exact h'
  · cases h'
    rwa [Option.or_none, List.append_nil]

theorem isGap_space : IsGap [' '] :=
  ⟨List.cons_ne_nil _ _, by simp⟩

/-- Printing takes the anchor to the path and leaves one space in each gap. -/
theorem IsDefinition.toText (h : IsDefinition r s) : IsDefinition r r.toText.toList := by
  cases h with
  | @intro verb segments onPath target onTarget method gap path tail gap' name tail' hmethod hgap hpath htail hgap'
      hname htail' hone =>
      have hanchor := htail.or htail' hone
      have hpattern : (⟨segments, onPath.or onTarget⟩ : Pattern).toText.toList = path ++ (tail ++ tail') :=
        toList_toText_of_isPath hpath hanchor
      have hprinted := IsDefinition.intro hmethod isGap_space hpath hanchor isGap_space hname .absent (.inr rfl)
      rw [Option.or_none, List.append_nil] at hprinted
      rw [Route.toText]
      simp only [String.toList_append, ← hmethod.eq_text, ← hname.eq_toText, hpattern]
      exact hprinted

theorem IsDefinition.trim_eq (h : IsDefinition r s) : trim s = s := by
  obtain ⟨hne, hhead, hlast⟩ := h.ends
  have htrim := @trim_append [] s [] nofun nofun hhead hlast hne
  simpa using htrim

theorem IsDefinition.ofChars_eq (h : IsDefinition r s) : Route.ofChars s = .ok r := by
  have hline : Route.ofLine (String.ofList s) = .ok r := by
    rw [ofLine_eq_ok_iff_trim, String.toList_ofList, h.trim_eq]
    exact h
  rwa [Route.ofLine, String.toList_ofList] at hline

theorem IsGap.ne_newline (h : IsGap s) : '\n' ∉ s := by
  intro hm
  rcases h.2 '\n' hm with h | h <;> exact absurd h (by decide)

theorem IsField.ne_newline (h : IsField s) : '\n' ∉ s :=
  fun hm => absurd (h.2 '\n' hm).1 (by decide)

theorem IsDefinition.ne_newline (h : IsDefinition r s) : '\n' ∉ s := by
  cases h with
  | intro hmethod hgap hpath htail hgap' hname htail' =>
      simp only [List.mem_append, not_or]
      have huri := (isField_append hpath.isField htail).ne_newline
      have hfield := (isField_append hname.isField htail').ne_newline
      simp only [List.mem_append, not_or] at huri hfield
      exact ⟨⟨⟨⟨hmethod.isField.ne_newline, hgap.ne_newline⟩, huri⟩, hgap'.ne_newline⟩, hfield⟩

theorem ofLines_of_forall₂ {rs : List Route} {lines : List (List Char)} (h : List.Forall₂ IsDefinition rs lines)
    (n : Nat) : Route.ofLines n lines = .ok rs := by
  induction h generalizing n with
  | nil => rfl
  | cons hline _ ih =>
      have hskip : ¬Route.Skipped _ := Route.not_skipped_of_isDefinition (hline.trim_eq.symm ▸ hline)
      rw [Route.ofLines_of_not_skipped hskip, hline.ofChars_eq, ih (n + 1)]
      rfl

end Grammar

namespace Route

def Definable (r : Route) : Prop :=
  ∃ line, ofLine line = .ok r

variable {r : Route} {rs : List Route}

theorem Definable.isDefinition (h : r.Definable) : Grammar.IsDefinition r r.toText.toList := by
  obtain ⟨line, h⟩ := h
  exact (Grammar.ofLine_eq_ok_iff_trim.1 h).toText

theorem Definable.ofLine_toText (h : r.Definable) : ofLine r.toText = .ok r :=
  h.isDefinition.ofChars_eq

theorem split_join_toText (hne : rs ≠ []) (h : ∀ r ∈ rs, r.Definable) :
    split (· == '\n') ("\n".intercalate (rs.map toText)).toList = rs.map fun r => r.toText.toList := by
  have hlines : ∀ line ∈ rs.map (fun r => r.toText.toList), '\n' ∉ line := by
    intro line hline
    obtain ⟨r, hr, rfl⟩ := List.mem_map.1 hline
    exact (h r hr).isDefinition.ne_newline
  have hjoin : ("\n".intercalate (rs.map toText)).toList = ['\n'].intercalate (rs.map fun r => r.toText.toList) := by
    rw [String.toList_intercalate, List.map_map]
    rfl
  rw [split_eq_splitOnP, ← List.splitOn_eq_splitOnP, hjoin, List.splitOn_intercalate '\n' hlines (by simpa using hne)]

theorem ofSource_join_toText (h : ∀ r ∈ rs, r.Definable) :
    ofSource ("\n".intercalate (rs.map toText)) = .ok rs := by
  by_cases hne : rs = []
  · subst hne
    rfl
  · rw [ofSource, split_join_toText hne h]
    refine Grammar.ofLines_of_forall₂ (List.forall₂_map_right_iff.2 ?_) 1
    exact List.forall₂_same.2 fun r hr => (h r hr).isDefinition

/-- Printing and reading are inverse on the routes that lines define, one by one and as a file. -/
theorem ofLine_toText_and_ofSource :
    (∀ r : Route, r.Definable → ofLine r.toText = .ok r) ∧
    (∀ rs : List Route, (∀ r ∈ rs, r.Definable) → ofSource ("\n".intercalate (rs.map toText)) = .ok rs) ∧
    (∀ r r' : Route, r.Definable → r'.Definable → r.toText = r'.toText → r = r') ∧
    (∀ line text, (ofLine line).map toText = .ok text → (ofLine text).map toText = .ok text) := by
  refine ⟨fun r h => h.ofLine_toText, fun rs h => ofSource_join_toText h, ?_, ?_⟩
  · intro r r' h h' htext
    have hread := h.ofLine_toText
    rw [htext, h'.ofLine_toText] at hread
    exact (Except.ok.inj hread).symm
  · intro line text h
    cases hline : ofLine line with
    | error e => rw [hline] at h; cases h
    | ok r =>
        have hdefinable : r.Definable := ⟨line, hline⟩
        rw [hline] at h
        cases h
        rw [hdefinable.ofLine_toText]
        rfl

def anchored : Route :=
  ⟨.get, ⟨[.literal "a", .literal "", .digits], some "x1"⟩, ⟨"A", "_b"⟩⟩

/-- The anchor was on the target, and there were blank ends and wide gaps. -/
theorem ofLine_toText_and_ofSource_anchored :
    ofLine " GET\t /a//[numeric]  A->_b#x1\r" = .ok anchored ∧
      anchored.toText = "GET /a//[numeric]#x1 A->_b" ∧ ofLine anchored.toText = .ok anchored ∧
      ofSource ("\n".intercalate ([anchored, anchored].map toText)) = .ok [anchored, anchored] := by
  have hline : ofLine " GET\t /a//[numeric]  A->_b#x1\r" = .ok anchored := by decide
  have hdefinable : anchored.Definable := ⟨_, hline⟩
  obtain ⟨hone, hall, -, -⟩ := ofLine_toText_and_ofSource
  exact ⟨hline, by decide, hone anchored hdefinable, hall [anchored, anchored] (by simp [hdefinable])⟩

end Route
end Signpost
