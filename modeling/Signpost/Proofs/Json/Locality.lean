import Signpost.Proofs.Json.RoundTrip

namespace Signpost.Json

variable {α : Type} {s rest : List Char} {mark : Char}

/-- A reader that stops at a character. On longer texts another one, with more fuel perhaps, reads the same. -/
def Local (read read' : List Char → Option (α × List Char)) : Prop :=
  ∀ ⦃s x rest⦄, read s = some (x, rest) → rest <:+ s ∧ (rest ≠ [] → ∀ t, read' (s ++ t) = some (x, rest ++ t))

/-- A reader that stops right behind a mark, and so at the end of the text too. -/
def Closed (mark : Char) (read read' : List Char → Option (α × List Char)) : Prop :=
  ∀ ⦃s x rest⦄, read s = some (x, rest) → mark :: rest <:+ s ∧ ∀ t, read' (s ++ t) = some (x, rest ++ t)

theorem ne_nil_of_suffix {s' : List Char} (h : s' <:+ s) (hne : s' ≠ []) : s ≠ [] := by
  rintro rfl
  exact hne (List.suffix_nil.1 h)

theorem skipSpace_suffix (s : List Char) : skipSpace s <:+ s :=
  List.dropWhile_suffix _

theorem skipSpace_append (h : skipSpace s ≠ []) (t : List Char) : skipSpace (s ++ t) = skipSpace s ++ t := by
  rw [skipSpace, List.dropWhile_append, if_neg (by simpa [skipSpace] using h)]
  rfl

theorem Closed.toLocal {read read' : List Char → Option (α × List Char)} (h : Closed mark read read') :
    Local read read' := by
  intro s x rest hs
  obtain ⟨hsuffix, hmore⟩ := h hs
  exact ⟨(List.suffix_cons mark rest).trans hsuffix, fun _ => hmore⟩

theorem Local.pure (x : α) : Local (fun s => some (x, s)) fun s => some (x, s) := by
  intro s y rest h
  cases h
  exact ⟨List.suffix_refl s, fun _ _ => rfl⟩

section

variable {β : Type} {read read' : List Char → Option (α × List Char)}
  {next next' : α × List Char → Option (β × List Char)}

theorem Local.bind (hread : Local read read') (hnext : ∀ x, Local (fun s => next (x, s)) fun s => next' (x, s)) :
    Local (fun s => read s >>= next) fun s => read' s >>= next' := by
  intro s y rest h
  obtain ⟨⟨x, s₁⟩, hx, hy⟩ := Option.bind_eq_some_iff.1 h
  obtain ⟨hs₁, hread⟩ := hread hx
  obtain ⟨hrest, hnext⟩ := hnext x hy
  refine ⟨hrest.trans hs₁, fun hne t => ?_⟩
  dsimp only
  rw [hread (ne_nil_of_suffix hrest hne) t]
  exact hnext hne t

/-- The first reader stops at a character, since the mark is still to come. -/
theorem Local.bind_closed (hread : Local read read')
    (hnext : ∀ x, Closed mark (fun s => next (x, s)) fun s => next' (x, s)) :
    Closed mark (fun s => read s >>= next) fun s => read' s >>= next' := by
  intro s y rest h
  obtain ⟨⟨x, s₁⟩, hx, hy⟩ := Option.bind_eq_some_iff.1 h
  obtain ⟨hs₁, hread⟩ := hread hx
  obtain ⟨hrest, hnext⟩ := hnext x hy
  refine ⟨hrest.trans hs₁, fun t => ?_⟩
  dsimp only
  rw [hread (ne_nil_of_suffix hrest (List.cons_ne_nil mark rest)) t]
  exact hnext t

theorem Closed.map (f : α → β) (hread : Closed mark read read') :
    Closed mark (fun s => read s >>= fun (x, s) => some (f x, s)) fun s =>
      read' s >>= fun (x, s) => some (f x, s) := by
  intro s y rest h
  obtain ⟨⟨x, s₁⟩, hx, hy⟩ := Option.bind_eq_some_iff.1 h
  cases hy
  obtain ⟨hrest, hread⟩ := hread hx
  refine ⟨hrest, fun t => ?_⟩
  dsimp only
  rw [hread t]
  rfl

theorem Local.skip (hread : Local read read') :
    Local (fun s => read (skipSpace s)) fun s => read' (skipSpace s) := by
  intro s x rest h
  obtain ⟨hrest, hread⟩ := hread h
  refine ⟨hrest.trans (skipSpace_suffix s), fun hne t => ?_⟩
  dsimp only
  rw [skipSpace_append (ne_nil_of_suffix hrest hne)]
  exact hread hne t

theorem Closed.skip (hread : Closed mark read read') :
    Closed mark (fun s => read (skipSpace s)) fun s => read' (skipSpace s) := by
  intro s x rest h
  obtain ⟨hrest, hread⟩ := hread h
  refine ⟨hrest.trans (skipSpace_suffix s), fun t => ?_⟩
  dsimp only
  rw [skipSpace_append (ne_nil_of_suffix hrest (List.cons_ne_nil mark rest))]
  exact hread t

/-- A reader whose first character is known. -/
theorem Local.cons {c : Char} (hread : Local (fun s => read (c :: s)) fun s => read' (c :: s)) {x : α}
    (h : read (c :: s) = some (x, rest)) :
    rest <:+ c :: s ∧ (rest ≠ [] → ∀ t, read' (c :: s ++ t) = some (x, rest ++ t)) := by
  obtain ⟨hrest, hread⟩ := hread h
  exact ⟨hrest.trans (List.suffix_cons c s), hread⟩

end

theorem closed_readPieces : Closed '"' readPieces readPieces := by
  intro s
  induction s using readPieces.induct with
  | case1 => intro x rest h; cases h
  | case2 s =>
      intro x rest h
      cases h
      exact ⟨List.suffix_refl _, fun t => rfl⟩
  | case3 a b c d s ih =>
      intro x rest h
      rw [readPieces] at h
      obtain ⟨unit, hunit, h⟩ := Option.bind_eq_some_iff.1 h
      obtain ⟨⟨pieces, s'⟩, hs, h⟩ := Option.bind_eq_some_iff.1 h
      cases h
      obtain ⟨hsuffix, hmore⟩ := ih hs
      exact ⟨hsuffix.trans ⟨['\\', 'u', a, b, c, d], rfl⟩, fun t => by simp [readPieces, hunit, hmore t]⟩
  | case4 e s hu ih =>
      intro x rest h
      rw [readPieces.eq_4 _ _ hu] at h
      obtain ⟨c, hc, h⟩ := Option.bind_eq_some_iff.1 h
      obtain ⟨⟨pieces, s'⟩, hs, h⟩ := Option.bind_eq_some_iff.1 h
      cases h
      obtain ⟨hsuffix, hmore⟩ := ih hs
      have he : e ≠ 'u' := by
        rintro rfl
        cases hc
      exact ⟨hsuffix.trans ⟨['\\', e], rfl⟩, fun t => readPieces_backslash he hc (hmore t)⟩
  | case5 c s hquote hu hslash hlow =>
      intro x rest h
      rw [readPieces.eq_5 _ _ hquote hu hslash, if_pos hlow] at h
      cases h
  | case6 c s hquote hu hslash hhigh ih =>
      intro x rest h
      rw [readPieces.eq_5 _ _ hquote hu hslash, if_neg hhigh] at h
      obtain ⟨⟨pieces, s'⟩, hs, h⟩ := Option.bind_eq_some_iff.1 h
      cases h
      obtain ⟨hsuffix, hmore⟩ := ih hs
      have hc : c ≠ '\\' := by
        rintro rfl
        cases s with
        | nil => cases hs
        | cons e s => exact hslash e s rfl rfl
      refine ⟨hsuffix.trans (List.suffix_cons c s), fun t => ?_⟩
      rw [List.cons_append, readPieces.eq_5 _ _ hquote (fun _ _ _ _ _ h => absurd h hc) (fun _ _ h => absurd h hc),
        if_neg hhigh, hmore t]
      rfl

theorem closed_readText : Closed '"' readText readText :=
  closed_readPieces.map fun pieces => (Piece.text? pieces).map String.ofList

theorem closed_readString : Closed '"' readString readString :=
  closed_readText.map fun text : Option String => text.elim illFormed str

theorem spanDigits_suffix (s : List Char) : (spanDigits s).2 <:+ s :=
  List.dropWhile_suffix _

theorem spanDigits_append_of_ne_nil (h : (spanDigits s).2 ≠ []) (t : List Char) :
    spanDigits (s ++ t) = ((spanDigits s).1, (spanDigits s).2 ++ t) := by
  induction s with
  | nil => exact absurd rfl h
  | cons c s ih =>
      cases hc : c.isDigit with
      | false => simp [spanDigits, hc]
      | true =>
          have hs : (spanDigits s).2 ≠ [] := by simpa [spanDigits, hc] using h
          simpa [spanDigits, hc] using ih hs

/-- Whether digits are a number does not depend on what follows them. -/
theorem readWhole_eq_some {digits : List Char} (h : readWhole s = some (digits, rest)) :
    spanDigits s = (digits, rest) ∧
      ∀ s' rest', spanDigits s' = (digits, rest') → readWhole s' = some (digits, rest') := by
  rw [readWhole] at h
  split at h
  · cases h
  · cases h
  · next hnil hzeros =>
      have hspan := Option.some.inj h
      refine ⟨hspan, fun s' rest' hs' => ?_⟩
      rw [readWhole, hs']
      split
      · next hd => exact (hnil rest (by rw [hspan, (Prod.mk.inj hd).1])).elim
      · next hd => exact (hzeros _ _ rest (by rw [hspan, (Prod.mk.inj hd).1])).elim
      · rfl

theorem local_readWhole : Local readWhole readWhole := by
  intro s digits rest h
  obtain ⟨hspan, hread⟩ := readWhole_eq_some h
  have hsuffix := spanDigits_suffix s
  rw [hspan] at hsuffix
  refine ⟨hsuffix, fun hne t => hread _ _ ?_⟩
  rw [spanDigits_append_of_ne_nil (by rwa [hspan]), hspan]

/-- At least one digit. -/
theorem local_digits {β : Type} (f : List Char → β) :
    Local (fun s => match spanDigits s with | ([], _) => none | (digits, rest) => some (f digits, rest))
      fun s => match spanDigits s with | ([], _) => none | (digits, rest) => some (f digits, rest) := by
  intro s x rest h
  have hsuffix := spanDigits_suffix s
  have hmore := spanDigits_append_of_ne_nil (s := s)
  dsimp only at h
  split at h
  · cases h
  · next digits rest' hnil hspan =>
      cases h
      rw [hspan] at hsuffix hmore
      refine ⟨hsuffix, fun hne t => ?_⟩
      dsimp only
      rw [hmore hne t]
      split
      · next hd => exact (hnil (Prod.mk.inj hd).1).elim
      · next hd => cases hd; rfl

theorem local_readFraction : Local readFraction readFraction := by
  intro s x rest h
  cases s with
  | nil =>
      cases h
      exact ⟨List.suffix_refl [], fun hne => absurd rfl hne⟩
  | cons c s =>
      by_cases hc : c = '.'
      · rw [hc] at h ⊢
        have hdot : Local (fun s => readFraction ('.' :: s)) fun s => readFraction ('.' :: s) :=
          local_digits fun digits => '.' :: digits
        exact hdot.cons h
      · have hread : ∀ u, readFraction (c :: u) = some ([], c :: u) :=
          fun u => readFraction.eq_2 _ fun _ hu => hc (List.cons.inj hu).1
        rw [hread] at h
        cases h
        exact ⟨List.suffix_refl _, fun _ t => hread (s ++ t)⟩

theorem spanSign_suffix (s : List Char) : (spanSign s).2 <:+ s := by
  unfold spanSign
  split
  · exact List.suffix_cons _ _
  · exact List.suffix_cons _ _
  · exact List.suffix_refl _

theorem spanSign_append (h : s ≠ []) (t : List Char) : spanSign (s ++ t) = ((spanSign s).1, (spanSign s).2 ++ t) := by
  cases s with
  | nil => exact absurd rfl h
  | cons c s =>
      rw [List.cons_append]
      by_cases hplus : c = '+'
      · rw [hplus, spanSign, spanSign]
      · by_cases hminus : c = '-'
        · rw [hminus, spanSign, spanSign]
        · have hother : ∀ u, spanSign (c :: u) = ([], c :: u) := fun u =>
            spanSign.eq_3 _ (fun _ hu => hplus (List.cons.inj hu).1) fun _ hu => hminus (List.cons.inj hu).1
          rw [hother, hother]
          rfl

theorem local_readExponent : Local readExponent readExponent := by
  intro s x rest h
  cases s with
  | nil =>
      cases h
      exact ⟨List.suffix_refl [], fun hne => absurd rfl hne⟩
  | cons e s =>
      rw [readExponent] at h
      by_cases he : e = 'e' ∨ e = 'E'
      · rw [if_pos he] at h
        obtain ⟨hrest, hmore⟩ := local_digits (fun digits => e :: ((spanSign s).1 ++ digits)) h
        have hs := hrest.trans (spanSign_suffix s)
        refine ⟨hs.trans (List.suffix_cons e s), fun hne t => ?_⟩
        rw [List.cons_append, readExponent, if_pos he, spanSign_append (ne_nil_of_suffix hs hne)]
        exact hmore hne t
      · rw [if_neg he] at h
        cases h
        refine ⟨List.suffix_refl _, fun _ t => ?_⟩
        rw [List.cons_append, readExponent, if_neg he]

theorem local_readUnsigned (negative : Bool) : Local (readUnsigned negative) (readUnsigned negative) := by
  unfold readUnsigned
  refine local_readWhole.bind fun whole => local_readFraction.bind fun fraction =>
    local_readExponent.bind fun exponent => ?_
  dsimp only
  split
  · exact .pure _
  · exact .pure _

theorem readNumber_nil : readNumber [] = none :=
  rfl

theorem local_readNumber : Local readNumber readNumber := by
  intro s x rest h
  cases s with
  | nil =>
      rw [readNumber_nil] at h
      cases h
  | cons c s =>
      by_cases hc : c = '-'
      · rw [hc, readNumber] at h
        obtain ⟨hrest, hmore⟩ := local_readUnsigned true h
        rw [hc]
        exact ⟨hrest.trans (List.suffix_cons '-' s), hmore⟩
      · have hread : ∀ u, readNumber (c :: u) = readUnsigned false (c :: u) :=
          fun u => readNumber.eq_2 _ fun _ hu => hc (List.cons.inj hu).1
        rw [hread] at h
        obtain ⟨hrest, hmore⟩ := local_readUnsigned false h
        refine ⟨hrest, fun hne t => ?_⟩
        rw [List.cons_append, hread]
        exact hmore hne t

theorem isDigit_of_readWhole {c : Char} {s digits : List Char} (h : readWhole (c :: s) = some (digits, rest)) :
    c.isDigit = true := by
  cases hc : c.isDigit with
  | true => rfl
  | false => simp [readWhole, spanDigits, hc] at h

theorem exists_cons_of_readNumber {v : Json} (h : readNumber s = some (v, rest)) :
    ∃ c s', s = c :: s' ∧ (c.isDigit = true ∨ c = '-') := by
  cases s with
  | nil =>
      rw [readNumber_nil] at h
      cases h
  | cons c s =>
      refine ⟨c, s, rfl, ?_⟩
      by_cases hc : c = '-'
      · exact .inr hc
      · rw [readNumber.eq_2 _ fun _ hu => hc (List.cons.inj hu).1] at h
        obtain ⟨⟨digits, s'⟩, hw, -⟩ := Option.bind_eq_some_iff.1 h
        exact .inl (isDigit_of_readWhole hw)

structure Brackets (mark : Char) (x : α) (body read : List Char → Option (α × List Char)) : Prop where
  empty : ∀ {s s'}, skipSpace s = mark :: s' → read s = some (x, s')
  filled : ∀ {s}, (∀ s', skipSpace s ≠ mark :: s') → read s = body (skipSpace s)

theorem Closed.brackets {x : α} {body body' read read' : List Char → Option (α × List Char)}
    (hbody : Closed mark body body') (h : Brackets mark x body read) (h' : Brackets mark x body' read') :
    Closed mark read read' := by
  intro s y rest hs
  by_cases hmark : ∃ s', skipSpace s = mark :: s'
  · obtain ⟨s', hs'⟩ := hmark
    rw [h.empty hs'] at hs
    cases hs
    refine ⟨hs' ▸ skipSpace_suffix s, fun t => h'.empty ?_⟩
    rw [skipSpace_append (by simp [hs']), hs', List.cons_append]
  · rw [h.filled fun s' hs' => hmark ⟨s', hs'⟩] at hs
    obtain ⟨hrest, hmore⟩ := hbody hs
    have hne := ne_nil_of_suffix hrest (List.cons_ne_nil mark rest)
    refine ⟨hrest.trans (skipSpace_suffix s), fun t => ?_⟩
    rw [h'.filled ?_, skipSpace_append hne]
    · exact hmore t
    · intro s' hs'
      rw [skipSpace_append hne] at hs'
      obtain ⟨hnil, -⟩ | ⟨s'', hcons, -⟩ := List.append_eq_cons_iff.1 hs'
      · exact hne hnil
      · exact hmark ⟨s'', hcons⟩

theorem brackets_array (fuel : Nat) :
    Brackets ']' (arr [])
      (fun s => readValue fuel s >>= fun (v, s) =>
        readItems fuel (skipSpace s) >>= fun (vs, s) => some (arr (v :: vs), s))
      fun s => readValue (fuel + 1) ('[' :: s) where
  empty hs := by simp only [readValue, hs]
  filled hs := by
    rw [readValue]
    split
    · next s' hs' => exact absurd hs' (hs s')
    · rfl

theorem brackets_object (fuel : Nat) :
    Brackets '\x7d' (obj [])
      (fun s => readField fuel s >>= fun (field, s) =>
        readFields fuel (skipSpace s) >>= fun (fields, s) => some (ofFields (field :: fields), s))
      fun s => readValue (fuel + 1) ('\x7b' :: s) where
  empty hs := by simp only [readValue, hs]
  filled hs := by
    rw [readValue]
    split
    · next s' hs' => exact absurd hs' (hs s')
    · rfl

structure Extends (fuel fuel' : Nat) : Prop where
  value : Local (readValue fuel) (readValue fuel')
  items : Closed ']' (readItems fuel) (readItems fuel')
  field : Local (readField fuel) (readField fuel')
  fields : Closed '\x7d' (readFields fuel) (readFields fuel')

variable {fuel fuel' : Nat}

theorem Extends.array (h : Extends fuel fuel') :
    Closed ']' (fun s => readValue (fuel + 1) ('[' :: s)) fun s => readValue (fuel' + 1) ('[' :: s) := by
  refine Closed.brackets ?_ (brackets_array fuel) (brackets_array fuel')
  exact h.value.bind_closed fun v => h.items.skip.map fun vs => arr (v :: vs)

theorem Extends.object (h : Extends fuel fuel') :
    Closed '\x7d' (fun s => readValue (fuel + 1) ('\x7b' :: s)) fun s => readValue (fuel' + 1) ('\x7b' :: s) := by
  refine Closed.brackets ?_ (brackets_object fuel) (brackets_object fuel')
  exact h.field.bind_closed fun field => h.fields.skip.map fun fields => ofFields (field :: fields)

theorem Extends.value_succ (h : Extends fuel fuel') : Local (readValue (fuel + 1)) (readValue (fuel' + 1)) := by
  intro s v rest hs
  have hread := hs
  unfold readValue at hs
  split at hs
  case h_8 =>
    obtain ⟨c, s', rfl, hc⟩ := exists_cons_of_readNumber hs
    obtain ⟨hrest, hmore⟩ := local_readNumber hs
    refine ⟨hrest, fun hne t => ?_⟩
    rw [List.cons_append, readValue_number hc]
    exact hmore hne t
  case h_1 => cases hs
  case h_2 =>
    cases hs
    exact ⟨⟨"null".toList, rfl⟩, fun _ t => rfl⟩
  case h_3 =>
    cases hs
    exact ⟨⟨"true".toList, rfl⟩, fun _ t => rfl⟩
  case h_4 =>
    cases hs
    exact ⟨⟨"false".toList, rfl⟩, fun _ t => rfl⟩
  case h_5 heq =>
    cases heq
    exact closed_readString.toLocal.cons hread
  case h_6 heq =>
    cases heq
    exact h.array.toLocal.cons hread
  case h_7 heq =>
    cases heq
    exact h.object.toLocal.cons hread

theorem Extends.items_succ (h : Extends fuel fuel') : Closed ']' (readItems (fuel + 1)) (readItems (fuel' + 1)) := by
  have hcomma : Closed ']' (fun s => readItems (fuel + 1) (',' :: s))
      fun s => readItems (fuel' + 1) (',' :: s) := by
    simp only [readItems]
    exact h.value.skip.bind_closed fun v => h.items.skip.map fun vs => v :: vs
  intro s vs rest hs
  have hread := hs
  unfold readItems at hs
  split at hs
  case h_1 =>
    cases hs
    exact ⟨List.suffix_refl _, fun _ => rfl⟩
  case h_2 =>
    obtain ⟨hrest, hmore⟩ := hcomma hread
    exact ⟨hrest.trans (List.suffix_cons _ _), hmore⟩
  case h_3 => cases hs

theorem Extends.fields_succ (h : Extends fuel fuel') :
    Closed '\x7d' (readFields (fuel + 1)) (readFields (fuel' + 1)) := by
  have hcomma : Closed '\x7d' (fun s => readFields (fuel + 1) (',' :: s))
      fun s => readFields (fuel' + 1) (',' :: s) := by
    simp only [readFields]
    exact h.field.skip.bind_closed fun field => h.fields.skip.map fun fields => field :: fields
  intro s vs rest hs
  have hread := hs
  unfold readFields at hs
  split at hs
  case h_1 =>
    cases hs
    exact ⟨List.suffix_refl _, fun _ => rfl⟩
  case h_2 =>
    obtain ⟨hrest, hmore⟩ := hcomma hread
    exact ⟨hrest.trans (List.suffix_cons _ _), hmore⟩
  case h_3 => cases hs

theorem Extends.field_succ (h : Extends fuel fuel') : Local (readField (fuel + 1)) (readField (fuel' + 1)) := by
  have hquote : Local (fun s => readField (fuel + 1) ('"' :: s))
      fun s => readField (fuel' + 1) ('"' :: s) := by
    simp only [readField]
    refine closed_readText.toLocal.bind fun key => ?_
    have hvalue : Local
        (fun s => readValue fuel (skipSpace s) >>= fun (v, s) => some ((key, v), s))
        fun s => readValue fuel' (skipSpace s) >>= fun (v, s) => some ((key, v), s) :=
      h.value.skip.bind fun v => .pure (key, v)
    intro s field rest hs
    dsimp only at hs
    split at hs
    case h_1 s' hcolon =>
      obtain ⟨hrest, hmore⟩ := hvalue hs
      have hs' : ':' :: s' <:+ s := hcolon ▸ skipSpace_suffix s
      refine ⟨(hrest.trans (List.suffix_cons ':' s')).trans hs', fun hne t => ?_⟩
      dsimp only
      rw [skipSpace_append (by rw [hcolon]; exact List.cons_ne_nil _ _), hcolon]
      exact hmore hne t
    case h_2 => cases hs
  intro s field rest hs
  have hread := hs
  unfold readField at hs
  split at hs
  case h_1 => exact hquote.cons hread
  case h_2 => cases hs

theorem extends_of_le (fuel fuel' : Nat) (hle : fuel ≤ fuel') : Extends fuel fuel' := by
  induction fuel generalizing fuel' with
  | zero =>
      constructor
      all_goals
        intro s x rest h
        cases h
  | succ fuel ih =>
      cases fuel' with
      | zero => omega
      | succ fuel' =>
          have h := ih fuel' (Nat.le_of_succ_le_succ hle)
          exact ⟨h.value_succ, h.items_succ, h.field_succ, h.fields_succ⟩

theorem readValue_object_append {s : List Char} {v : Json} (hle : fuel ≤ fuel')
    (h : readValue fuel ('\x7b' :: s) = some (v, rest)) :
    '\x7d' :: rest <:+ s ∧ ∀ t, readValue fuel' ('\x7b' :: (s ++ t)) = some (v, rest ++ t) := by
  cases fuel with
  | zero => cases h
  | succ fuel =>
      cases fuel' with
      | zero => omega
      | succ fuel' => exact (extends_of_le fuel fuel' (Nat.le_of_succ_le_succ hle)).object h

end Signpost.Json
