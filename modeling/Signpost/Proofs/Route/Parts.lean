import Signpost.Proofs.Route.Line

namespace Signpost

open Text

namespace Grammar

/-- The fields of a definition, each by itself. -/
inductive IsTriple : Route → List Char → List Char → List Char → Prop
  | intro {verb segments onPath target onTarget} {method path tail name tail' : List Char}
      (hmethod : IsMethod verb method) (hpath : IsPath segments path) (htail : IsAnchor onPath tail)
      (hname : IsTarget target name) (htail' : IsAnchor onTarget tail') (hone : onPath = none ∨ onTarget = none) :
      IsTriple ⟨verb, ⟨segments, onPath.or onTarget⟩, target⟩ method (path ++ tail) (name ++ tail')

variable {r : Route} {m u t s field : List Char} {fields : List (List Char)}

theorem ofFields_eq_ok_iff_isTriple :
    Route.ofFields fields = .ok r ↔ ∃ m u t, fields = [m, u, t] ∧ IsTriple r m u t := by
  rw [ofFields_eq_ok_iff]
  constructor
  · rintro ⟨verb, segments, onPath, target, onTarget, method, path, tail, name, tail', hfields, hmethod, hpath, htail,
      hname, htail', hone, rfl⟩
    exact ⟨_, _, _, hfields, .intro hmethod hpath htail hname htail' hone⟩
  · rintro ⟨m, u, t, hfields, h⟩
    cases h with
    | intro hmethod hpath htail hname htail' hone =>
        exact ⟨_, _, _, _, _, _, _, _, _, _, hfields, hmethod, hpath, htail, hname, htail', hone, rfl⟩

theorem IsTriple.isDefinition {gap gap' : List Char} (h : IsTriple r m u t) (hgap : IsGap gap) (hgap' : IsGap gap') :
    IsDefinition r (m ++ gap ++ u ++ gap' ++ t) := by
  cases h with
  | intro hmethod hpath htail hname htail' hone => exact .intro hmethod hgap hpath htail hgap' hname htail' hone

theorem IsTriple.isField (h : IsTriple r m u t) : IsField m ∧ IsField u ∧ IsField t := by
  cases h with
  | intro hmethod hpath htail hname htail' hone =>
      exact ⟨hmethod.isField, isField_append hpath.isField htail, isField_append hname.isField htail'⟩

theorem isBlank_of_isGap (c : Char) (h : Route.isGap c = true) : isBlank c = true := by
  simp only [Route.isGap, Bool.or_eq_true, beq_iff_eq] at h
  rcases h with rfl | rfl <;> rfl

/-- Trimming finds a field, whatever blanks are around it. -/
theorem IsField.trim_eq (hfield : IsField field) (h : Wraps isBlank isBlank field s) : trim s = field := by
  obtain ⟨front, back, rfl, hfront, hback⟩ := h
  refine trim_append hfront hback ?_ ?_ hfield.1
  · exact fun c hc => (hfield.2 c (List.mem_of_mem_head? hc)).isBlank
  · exact fun c hc => (hfield.2 c (List.mem_of_getLast? hc)).isBlank

theorem IsField.not_blank {p q : Char → Bool} (hfield : IsField field) (h : Wraps p q field s) : ¬Blank s := by
  obtain ⟨front, back, rfl, -, -⟩ := h
  obtain ⟨c, rest, rfl⟩ := List.exists_cons_of_ne_nil hfield.1
  intro hblank
  have hc := hblank c (by simp)
  rw [(hfield.2 c List.mem_cons_self).isBlank] at hc
  cases hc

theorem runs_ne_nil (h : ¬Blank s) : runs Route.isGap s ≠ [] :=
  fun hruns => h fun c hc => isBlank_of_isGap c (forall_marked_of_runs_eq_nil hruns c hc)

theorem wraps_of_runs_eq (h : runs Route.isGap s = [field]) : Wraps Route.isGap Route.isGap field s := by
  obtain ⟨gap, rest, hs, hgap, -, -, -, hrest⟩ := exists_of_runs_eq_cons h
  exact ⟨gap, rest, hs, hgap, forall_marked_of_runs_eq_nil hrest⟩

theorem isGap_join {gap gap' : List Char} (h : ∀ c ∈ gap, Route.isGap c = true) (h' : ∀ c ∈ gap', Route.isGap c = true) :
    IsGap (gap ++ ' ' :: gap') := by
  refine isGap_iff.2 ⟨by simp, fun c hc => ?_⟩
  rcases List.mem_append.1 hc with hc | hc
  · exact h c hc
  · rcases List.mem_cons.1 hc with rfl | hc
    · rfl
    · exact h' c hc

/-- Three lists with something in each of them have three members together only if each has one. -/
theorem singletons_of_append {α : Type} {xs ys zs : List α} {x y z : α} (h : xs ++ (ys ++ zs) = [x, y, z])
    (hxs : xs ≠ []) (hys : ys ≠ []) (hzs : zs ≠ []) : xs = [x] ∧ ys = [y] ∧ zs = [z] := by
  obtain ⟨x', xs, rfl⟩ := List.exists_cons_of_ne_nil hxs
  obtain ⟨y', ys, rfl⟩ := List.exists_cons_of_ne_nil hys
  obtain ⟨z', zs, rfl⟩ := List.exists_cons_of_ne_nil hzs
  have hlength := congrArg List.length h
  simp only [List.length_append, List.length_cons, List.length_nil] at hlength
  obtain rfl := List.eq_nil_of_length_eq_zero (show xs.length = 0 by omega)
  obtain rfl := List.eq_nil_of_length_eq_zero (show ys.length = 0 by omega)
  obtain rfl := List.eq_nil_of_length_eq_zero (show zs.length = 0 by omega)
  simpa using h

/-- The blank ends that a joined line loses are those of its first and its last part. -/
theorem exists_trim_join (hm : ¬Blank m) (ht : ¬Blank t) (u : List Char) :
    ∃ lead m' t' trail, m = lead ++ m' ∧ t = t' ++ trail ∧ Blank lead ∧ Blank trail ∧ ¬Blank m' ∧ ¬Blank t' ∧
      trim (m ++ ' ' :: (u ++ ' ' :: t)) = m' ++ ' ' :: (u ++ ' ' :: t') := by
  obtain ⟨lead, inner, hmeq, hlead, -⟩ := exists_eq_append_trim m
  obtain ⟨inner', trail, hteq, -, htrail⟩ := exists_eq_append_trim t
  refine ⟨lead, trim m ++ inner, inner' ++ trim t, trail, by simpa using hmeq, by simpa using hteq, hlead, htrail,
    fun h => ?_, fun h => ?_, ?_⟩
  · exact not_blank_trim hm fun c hc => h c (List.mem_append_left _ hc)
  · exact not_blank_trim ht fun c hc => h c (List.mem_append_right _ hc)
  · have hline : m ++ ' ' :: (u ++ ' ' :: t) =
        lead ++ (trim m ++ (inner ++ ' ' :: (u ++ ' ' :: inner')) ++ trim t) ++ trail := by
      conv_lhs => rw [hmeq, hteq]
      simp
    rw [hline, trim_between hlead htrail (trim_ne_nil hm) (trim_ne_nil ht) (head_trim m) (last_trim t)]
    simp

/-- If none of them is blank, three texts define a route exactly if each is a field of it between characters that do
not count. -/
theorem ofParts_eq_ok_iff {method uri target : String} (hm : ¬Blank method.toList) (hu : ¬Blank uri.toList)
    (ht : ¬Blank target.toList) :
    Route.ofParts method uri target = .ok r ↔
      ∃ m u t, IsTriple r m u t ∧ Wraps isBlank Route.isGap m method.toList ∧
        Wraps Route.isGap Route.isGap u uri.toList ∧ Wraps Route.isGap isBlank t target.toList := by
  have hline : (method ++ " " ++ uri ++ " " ++ target).toList =
      method.toList ++ ' ' :: (uri.toList ++ ' ' :: target.toList) := by
    simp
  constructor
  · intro h
    obtain ⟨lead, m', t', trail, hmeq, hteq, hlead, htrail, hm', ht', htrim⟩ := exists_trim_join hm ht uri.toList
    rw [Route.ofParts, Route.ofLine, Route.ofChars, mapError_eq_ok_iff, hline, htrim, ofFields_eq_ok_iff_isTriple,
      runs_append_cons _ _ rfl, runs_append_cons _ _ rfl] at h
    obtain ⟨m, u, t, hruns, h⟩ := h
    obtain ⟨hm, hu, ht⟩ := singletons_of_append hruns (runs_ne_nil hm') (runs_ne_nil hu) (runs_ne_nil ht')
    obtain ⟨front, back, rfl, hfront, hback⟩ := wraps_of_runs_eq hm
    obtain ⟨front', back', rfl, hfront', hback'⟩ := wraps_of_runs_eq ht
    refine ⟨m, u, t, h, ⟨lead ++ front, back, by simpa using hmeq, ?_, hback⟩, wraps_of_runs_eq hu,
      ⟨front', back' ++ trail, by simpa using hteq, hfront', ?_⟩⟩
    · exact fun c hc => (List.mem_append.1 hc).elim (hlead c) fun hc => isBlank_of_isGap c (hfront c hc)
    · exact fun c hc => (List.mem_append.1 hc).elim (fun hc => isBlank_of_isGap c (hback' c hc)) (htrail c)
  · rintro ⟨m, u, t, h, ⟨lead, back, hmeq, hlead, hback⟩, ⟨front, back', hueq, hfront, hback'⟩,
      ⟨front', trail, hteq, hfront', htrail⟩⟩
    have hdefinition := h.isDefinition (isGap_join hback hfront) (isGap_join hback' hfront')
    obtain ⟨hne, hhead, hlast⟩ := hdefinition.ends
    have htrim := trim_append hlead htrail hhead hlast hne
    rw [Route.ofParts, ofLine_eq_ok_iff_trim, hline, hmeq, hueq, hteq]
    rw [← htrim] at hdefinition
    simpa using hdefinition

end Grammar

namespace Route

variable {method uri target : String}

/-- What three texts define says the same as each of them by itself, as one field of its kind, exactly if none of them
is blank. Three fields of their kinds always define a route, whatever spaces and tabs are around them. -/
theorem ofParts_apart_iff (method uri target : String) :
    (∀ r, ofParts method uri target = .ok r →
      (Grammar.IsTriple r (trim method.toList) (trim uri.toList) (trim target.toList) ↔
        ¬Blank method.toList ∧ ¬Blank uri.toList ∧ ¬Blank target.toList)) ∧
    ∀ r m u t, Grammar.IsTriple r m u t → Wraps isGap isGap m method.toList → Wraps isGap isGap u uri.toList →
      Wraps isGap isGap t target.toList → ofParts method uri target = .ok r := by
  constructor
  · intro r h
    constructor
    · intro htriple
      obtain ⟨hm, hu, ht⟩ := htriple.isField
      exact ⟨fun hb => hm.1 (trim_of_blank hb), fun hb => hu.1 (trim_of_blank hb), fun hb => ht.1 (trim_of_blank hb)⟩
    · rintro ⟨hm, hu, ht⟩
      obtain ⟨m, u, t, htriple, hwraps, hwraps', hwraps''⟩ := (Grammar.ofParts_eq_ok_iff hm hu ht).1 h
      obtain ⟨hfield, hfield', hfield''⟩ := htriple.isField
      rw [hfield.trim_eq (hwraps.mono (fun _ => id) Grammar.isBlank_of_isGap),
        hfield'.trim_eq (hwraps'.mono Grammar.isBlank_of_isGap Grammar.isBlank_of_isGap),
        hfield''.trim_eq (hwraps''.mono Grammar.isBlank_of_isGap fun _ => id)]
      exact htriple
  · intro r m u t htriple hwraps hwraps' hwraps''
    obtain ⟨hfield, hfield', hfield''⟩ := htriple.isField
    refine (Grammar.ofParts_eq_ok_iff (hfield.not_blank hwraps) (hfield'.not_blank hwraps')
      (hfield''.not_blank hwraps'')).2 ⟨m, u, t, htriple, ?_, hwraps', ?_⟩
    · exact hwraps.mono Grammar.isBlank_of_isGap fun _ => id
    · exact hwraps''.mono (fun _ => id) Grammar.isBlank_of_isGap

theorem ofParts_apart_iff_wide :
    let r : Route := ⟨.get, ⟨[.literal "a"], some "x"⟩, ⟨"A", "b"⟩⟩
    ofParts "\n GET" "\t/a" "A->b#x\r" = .ok r ∧ Grammar.IsTriple r "GET".toList "/a".toList "A->b#x".toList ∧
      ofParts "\tGET " "/a" " A->b#x" = .ok r := by
  intro r
  have hread : ofParts "\n GET" "\t/a" "A->b#x\r" = .ok r := by decide
  have htriple : Grammar.IsTriple r "GET".toList "/a".toList "A->b#x".toList :=
    ((ofParts_apart_iff _ _ _).1 r hread).2 (by decide)
  have hnone : ∀ c ∈ ([] : List Char), isGap c = true := fun c hc => absurd hc List.not_mem_nil
  have hspace : ∀ c ∈ [' '], isGap c = true := List.all_eq_true.1 rfl
  have htab : ∀ c ∈ ['\t'], isGap c = true := List.all_eq_true.1 rfl
  exact ⟨hread, htriple, (ofParts_apart_iff _ _ _).2 r _ _ _ htriple ⟨['\t'], [' '], rfl, htab, hspace⟩
    ⟨[], [], rfl, hnone, hnone⟩ ⟨[' '], [], rfl, hspace, hnone⟩⟩

/-- Two fields in the first text, and none in the last. -/
theorem ofParts_shifts_fields :
    ofParts "GET /a" "A->b" "" = .ok ⟨.get, ⟨[.literal "a"], none⟩, ⟨"A", "b"⟩⟩ ∧
      (∀ verb, ¬Grammar.IsMethod verb (trim "GET /a".toList)) ∧
      ∀ r, ¬Grammar.IsTriple r (trim "GET /a".toList) (trim "A->b".toList) (trim "".toList) := by
  refine ⟨by decide, ?_, ?_⟩
  · intro verb h
    cases h
  · intro r h
    exact h.isField.2.2.1 rfl

end Route
end Signpost
