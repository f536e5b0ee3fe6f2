import Signpost.Proofs.Route.Grammar

namespace Signpost

open Text

namespace Grammar

theorem mergeAnchor_eq_ok_iff {onPath onTarget anchor : Option String} :
    Route.mergeAnchor onPath onTarget = .ok anchor ↔
      (onPath = none ∨ onTarget = none) ∧ anchor = onPath.or onTarget := by
  cases onPath <;> cases onTarget <;> simp [Route.mergeAnchor, eq_comm]

theorem ofFields_eq_ok_iff {fields : List (List Char)} {r : Route} :
    Route.ofFields fields = .ok r ↔
      ∃ verb segments onPath target onTarget method path tail name tail',
        fields = [method, path ++ tail, name ++ tail'] ∧ IsMethod verb method ∧ IsPath segments path ∧
        IsAnchor onPath tail ∧ IsTarget target name ∧ IsAnchor onTarget tail' ∧
        (onPath = none ∨ onTarget = none) ∧ r = ⟨verb, ⟨segments, onPath.or onTarget⟩, target⟩ := by
  constructor
  · intro h
    unfold Route.ofFields at h
    split at h
    · next method uri field =>
        cases hverb : Verb.ofText? (String.ofList method) with
        | none =>
            simp only [hverb] at h
            cases h
        | some verb =>
            simp only [hverb, bind_eq_ok_iff] at h
            obtain ⟨pattern, hpattern, ⟨name, onTarget⟩, hsplit, anchor, hmerge, target, htarget, hr⟩ := h
            cases hr
            obtain ⟨path, tail, hpath, htail, rfl⟩ := ofChars_eq_ok_iff.1 hpattern
            obtain ⟨-, tail', htail', rfl⟩ := splitAnchor_eq_ok_iff.1 hsplit
            obtain ⟨hone, rfl⟩ := mergeAnchor_eq_ok_iff.1 hmerge
            exact ⟨verb, pattern.segments, pattern.anchor, target, onTarget, method, path, tail, name, tail', rfl,
              ofText?_eq_some_iff_isMethod.1 hverb, hpath, htail, target_ofChars_eq_ok_iff.1 htarget, htail', hone, rfl⟩
    · cases h
  · rintro ⟨verb, segments, onPath, target, onTarget, method, path, tail, name, tail', rfl, hmethod, hpath, htail,
      hname, htail', hone, rfl⟩
    have hhash : '#' ∉ name := by
      intro hm
      rcases hname.chars '#' hm with h | h | h | h <;> exact absurd h (by decide)
    have hverb := ofText?_eq_some_iff_isMethod.2 hmethod
    have hpattern : Pattern.ofChars (path ++ tail) = .ok ⟨segments, onPath⟩ :=
      ofChars_eq_ok_iff.2 ⟨path, tail, hpath, htail, rfl⟩
    have hsplit := splitAnchor_eq_ok_iff.2 ⟨hhash, tail', htail', rfl⟩
    have hmerge := mergeAnchor_eq_ok_iff.2 ⟨hone, rfl⟩
    have htarget := target_ofChars_eq_ok_iff.2 hname
    simp only [Route.ofFields, hverb, hpattern, hsplit, bind, Except.bind, hmerge, htarget]
    rfl

theorem isGap_iff {s : List Char} : IsGap s ↔ s ≠ [] ∧ ∀ c ∈ s, Route.isGap c = true := by
  simp [IsGap, Route.isGap]

def IsField (s : List Char) : Prop :=
  s ≠ [] ∧ ∀ c ∈ s, IsInk c

theorem IsMethod.isField {verb : Verb} {s : List Char} (h : IsMethod verb s) : IsField s := by
  refine ⟨by cases h <;> decide, fun c hc => ?_⟩
  unfold IsInk
  cases h <;> fin_cases hc <;> decide

theorem isField_append {s tail : List Char} {anchor : Option String} (hs : IsField s) (ht : IsAnchor anchor tail) :
    IsField (s ++ tail) := by
  refine ⟨by simp [hs.1], fun c hc => ?_⟩
  rcases List.mem_append.1 hc with hc | hc
  · exact hs.2 c hc
  · rcases ht.chars c hc with h | rfl
    · exact isInk_of_isAlphanum h
    · exact ⟨by decide, by decide⟩

theorem IsPath.isField {segments : List Segment} {s : List Char} (h : IsPath segments s) : IsField s := by
  refine ⟨?_, fun c hc => ?_⟩
  · obtain ⟨parts, -, rfl, -⟩ := h
    exact List.cons_ne_nil _ _
  · rcases h.chars c hc with h | rfl | rfl | rfl
    · exact isInk_of_isAlphanum h
    all_goals exact ⟨by decide, by decide⟩

theorem IsTarget.isField {target : Target} {s : List Char} (h : IsTarget target s) : IsField s := by
  refine ⟨?_, fun c hc => ?_⟩
  · cases h
    exact List.cons_ne_nil _ _
  · rcases h.chars c hc with h | rfl | rfl | rfl
    · exact isInk_of_isAlphanum h
    all_goals exact ⟨by decide, by decide⟩

theorem IsField.unmarked {s : List Char} (h : IsField s) : s ≠ [] ∧ ∀ c ∈ s, Route.isGap c = false :=
  ⟨h.1, fun c hc => (h.2 c hc).isGap⟩

theorem isGap_false_of_isBlank_false {c : Char} (h : isBlank c = false) : Route.isGap c = false := by
  cases hg : Route.isGap c with
  | false => rfl
  | true =>
      simp only [Route.isGap, Bool.or_eq_true, beq_iff_eq] at hg
      rcases hg with rfl | rfl <;> exact absurd h (by decide)

/-- Blank ends of the line play no part. -/
theorem ofLine_eq_ok_iff_trim {line : String} {r : Route} :
    Route.ofLine line = .ok r ↔ IsDefinition r (trim line.toList) := by
  have hhead : ∀ c ∈ (trim line.toList).head?, Route.isGap c = false :=
    fun c hc => isGap_false_of_isBlank_false (head_trim _ c hc)
  have hlast : ∀ c ∈ (trim line.toList).getLast?, Route.isGap c = false :=
    fun c hc => isGap_false_of_isBlank_false (last_trim _ c hc)
  rw [Route.ofLine, Route.ofChars, mapError_eq_ok_iff, ofFields_eq_ok_iff]
  constructor
  · rintro ⟨verb, segments, onPath, target, onTarget, method, path, tail, name, tail', hruns, hmethod, hpath, htail,
      hname, htail', hone, rfl⟩
    obtain ⟨gap, gap', htext, hgap, hgap', -, -, -⟩ := (runs_eq_three_iff hhead hlast).1 hruns
    rw [htext]
    exact .intro hmethod (isGap_iff.2 hgap) hpath htail (isGap_iff.2 hgap') hname htail' hone
  · intro h
    generalize trim line.toList = text at h hhead hlast ⊢
    cases h with
    | @intro verb segments onPath target onTarget method gap path tail gap' name tail' hmethod hgap hpath htail hgap'
        hname htail' hone =>
        have hruns := (runs_eq_three_iff hhead hlast).2 ⟨gap, gap', rfl, isGap_iff.1 hgap, isGap_iff.1 hgap',
          hmethod.isField.unmarked, (isField_append hpath.isField htail).unmarked,
          (isField_append hname.isField htail').unmarked⟩
        exact ⟨verb, segments, onPath, target, onTarget, method, path, tail, name, tail', hruns, hmethod, hpath,
          htail, hname, htail', hone, rfl⟩

theorem IsDefinition.ends {r : Route} {s : List Char} (h : IsDefinition r s) :
    s ≠ [] ∧ (∀ c ∈ s.head?, isBlank c = false) ∧ ∀ c ∈ s.getLast?, isBlank c = false := by
  cases h with
  | @intro verb segments onPath target onTarget method gap path tail gap' name tail' hmethod hgap hpath htail hgap'
      hname htail' hone =>
      have hfirst := hmethod.isField
      have hlast := isField_append hname.isField htail'
      obtain ⟨c, method, rfl⟩ := List.exists_cons_of_ne_nil hfirst.1
      refine ⟨List.cons_ne_nil _ _, fun d hd => ?_, fun d hd => ?_⟩
      · cases hd
        exact (hfirst.2 c List.mem_cons_self).isBlank
      · have hne := List.getLast?_eq_some_getLast hlast.1
        rw [List.getLast?_append, hne] at hd
        cases hd
        exact (hlast.2 _ (List.getLast_mem hlast.1)).isBlank

/-- No line of the grammar looks like a comment. -/
theorem IsDefinition.head {r : Route} {s : List Char} (h : IsDefinition r s) :
    ∃ c rest, s = c :: rest ∧ (c = 'G' ∨ c = 'P' ∨ c = '*') := by
  cases h with
  | intro hmethod => cases hmethod <;> exact ⟨_, _, rfl, by decide⟩

end Grammar

/-- Exactly the lines of the grammar define a route, and each line the route that it names. -/
theorem Route.ofLine_eq_ok_iff (line : String) (r : Route) :
    Route.ofLine line = .ok r ↔
      ∃ lead text trail, line.toList = lead ++ text ++ trail ∧ (∀ c ∈ lead, isBlank c = true) ∧
        (∀ c ∈ trail, isBlank c = true) ∧ Grammar.IsDefinition r text := by
  rw [Grammar.ofLine_eq_ok_iff_trim]
  constructor
  · intro h
    obtain ⟨lead, trail, hline, hlead, htrail⟩ := exists_eq_append_trim line.toList
    exact ⟨lead, _, trail, hline, hlead, htrail, h⟩
  · rintro ⟨lead, text, trail, hline, hlead, htrail, h⟩
    obtain ⟨hne, hhead, hlast⟩ := h.ends
    rwa [hline, trim_append hlead htrail hhead hlast hne]

/-- What a definition file can begin with, unless it begins with blanks. -/
theorem Route.head_of_ofSource {text : String} {c : Char} {rest : List Char} {rs : List Route}
    (htext : text.toList = c :: rest) (hc : isBlank c = false) (h : ofSource text = .ok rs) :
    c = '#' ∨ c = 'G' ∨ c = 'P' ∨ c = '*' := by
  have hnewline : (c == '\n') = false := by
    refine beq_eq_false_iff_ne.2 ?_
    rintro rfl
    cases hc
  obtain ⟨piece, pieces, hsplit⟩ := List.exists_cons_of_ne_nil (split_ne_nil (· == '\n') rest)
  have hlines : split (· == '\n') text.toList = (c :: piece) :: pieces := by
    rw [htext, split, hsplit]
    simp [hnewline]
  obtain ⟨line, hline⟩ := trim_cons hc piece
  rw [ofSource, hlines, ofLines, hline] at h
  split at h
  · cases ‹c :: line = []›
  · cases ‹c :: line = '#' :: _›
    exact .inl rfl
  · obtain ⟨r, hr, -⟩ := bind_eq_ok_iff.1 h
    have hdefines : ofLine (String.ofList (c :: line)) = .ok r := by
      rw [ofLine, String.toList_ofList]
      exact mapError_eq_ok_iff.1 hr
    rw [Grammar.ofLine_eq_ok_iff_trim, String.toList_ofList] at hdefines
    obtain ⟨line', hline'⟩ := trim_cons hc line
    obtain ⟨d, _, hd, hhead⟩ := hdefines.head
    rw [hline', List.cons.injEq] at hd
    exact .inr (hd.1 ▸ hhead)

end Signpost
