import Signpost.Proofs.Json.Atom

namespace Signpost.Json

mutual

/-- What the written text says in full. A number beyond 64 bits is no integer to the reader. -/
def IsPlain : Json → Prop
  | int n => -(Word.count 63 : Int) ≤ n ∧ n < Word.count 64
  | real t => IsReal t.toList
  | illFormed => False
  | arr items => ItemsPlain items
  | obj fields => FieldsPlain fields
  | _ => True

def ItemsPlain : List Json → Prop
  | [] => True
  | v :: vs => IsPlain v ∧ ItemsPlain vs

def FieldsPlain : List (String × Json) → Prop
  | [] => True
  | (_, v) :: fields => IsPlain v ∧ FieldsPlain fields

end

theorem isPlain_toDigits {n : Nat} (h : Word.count 64 ≤ n) : IsPlain (real (String.ofList (Nat.toDigits 10 n))) := by
  rw [IsPlain, String.toList_ofList]
  exact isReal_toDigits h

theorem skipSpace_cons {c : Char} (hc : isSpace c = false) (s : List Char) : skipSpace (c :: s) = c :: s := by
  simp [skipSpace, hc]

def Opens (c : Char) : Prop :=
  isSpace c = false ∧ c ≠ ']'

theorem opens_of_isDigit {c : Char} (hc : c.isDigit = true) : Opens c := by
  refine ⟨?_, by rintro rfl; exact absurd hc (by decide)⟩
  cases hs : isSpace c with
  | false => rfl
  | true =>
      simp only [isSpace, Bool.or_eq_true, beq_iff_eq] at hs
      rcases hs with ((rfl | rfl) | rfl) | rfl <;> exact absurd hc (by decide)

theorem signed_opens (negative : Bool) {digits : List Char} (h : IsDigits digits) (tail : List Char) :
    ∃ c s, minus negative ++ (digits ++ tail) = c :: s ∧ Opens c := by
  cases negative with
  | true => exact ⟨'-', digits ++ tail, rfl, rfl, by decide⟩
  | false =>
      obtain ⟨c, s, rfl, hc⟩ := h.exists_cons
      exact ⟨c, s ++ tail, rfl, opens_of_isDigit hc⟩

theorem intChars_opens (n : Int) : ∃ c s, intChars n = c :: s ∧ Opens c := by
  cases n with
  | ofNat n => simpa [minus, intChars] using signed_opens false (isWhole_toDigits n).toIsDigits []
  | negSucc n => exact ⟨'-', Nat.toDigits 10 (n + 1), rfl, rfl, by decide⟩

def IsSpaces (s : List Char) : Prop :=
  ∀ c ∈ s, isSpace c = true

theorem IsSpaces.skipSpace_append {gap : List Char} (h : IsSpaces gap) (s : List Char) :
    skipSpace (gap ++ s) = skipSpace s := by
  rw [skipSpace, List.dropWhile_append_of_pos h, ← skipSpace]

def IsAtom : Json → Prop
  | arr _ | obj _ => False
  | _ => True

mutual

/-- Texts of a value, with blanks wherever the reader skips them. -/
inductive Spells : Json → List Char → Prop
  | atom {v} (h : IsAtom v) : Spells v v.chars
  | emptyArr {gap} (hgap : IsSpaces gap) : Spells (arr []) ('[' :: (gap ++ [']']))
  | arr {v vs gap s tail} (hgap : IsSpaces gap) (hv : Spells v s) (hvs : SpellsItems vs tail) :
      Spells (arr (v :: vs)) ('[' :: (gap ++ (s ++ tail)))
  | emptyObj {gap} (hgap : IsSpaces gap) : Spells (obj []) ('\x7b' :: (gap ++ ['\x7d']))
  | obj (k) {v fields gap before after s tail} (hgap : IsSpaces gap) (hbefore : IsSpaces before)
      (hafter : IsSpaces after) (hv : Spells v s) (hfields : SpellsFields fields tail) :
      Spells (obj ((k, v) :: fields)) ('\x7b' :: (gap ++ (quoted k ++ (before ++ ':' :: (after ++ (s ++ tail))))))

inductive SpellsItems : List Json → List Char → Prop
  | nil {gap} (hgap : IsSpaces gap) : SpellsItems [] (gap ++ [']'])
  | cons {v vs gap gap' s tail} (hgap : IsSpaces gap) (hgap' : IsSpaces gap') (hv : Spells v s)
      (hvs : SpellsItems vs tail) : SpellsItems (v :: vs) (gap ++ ',' :: (gap' ++ (s ++ tail)))

inductive SpellsFields : List (String × Json) → List Char → Prop
  | nil {gap} (hgap : IsSpaces gap) : SpellsFields [] (gap ++ ['\x7d'])
  | cons (k) {v fields gap gap' before after s tail} (hgap : IsSpaces gap) (hgap' : IsSpaces gap')
      (hbefore : IsSpaces before) (hafter : IsSpaces after) (hv : Spells v s) (hfields : SpellsFields fields tail) :
      SpellsFields ((k, v) :: fields) (gap ++ ',' :: (gap' ++ (quoted k ++ (before ++ ':' :: (after ++ (s ++ tail))))))

end

theorem chars_opens {v : Json} (hv : v.IsPlain) (h : IsAtom v) : ∃ c s, v.chars = c :: s ∧ Opens c := by
  cases v with
  | null => exact ⟨'n', _, rfl, rfl, by decide⟩
  | bool b =>
      cases b with
      | false => exact ⟨'f', _, rfl, rfl, by decide⟩
      | true => exact ⟨'t', _, rfl, rfl, by decide⟩
  | int n => exact intChars_opens n
  | real t =>
      obtain ⟨negative, digits, tail, hdigits, ht⟩ := IsReal.exists_signed hv
      rw [chars_real, ht]
      exact signed_opens negative hdigits tail
  | str t => exact ⟨'"', t.toList.flatMap escape ++ ['"'], rfl, rfl, by decide⟩
  | illFormed => exact hv.elim
  | arr | obj => exact h.elim

theorem Spells.opens {v : Json} {s : List Char} (h : Spells v s) (hv : v.IsPlain) : ∃ c t, s = c :: t ∧ Opens c := by
  cases h with
  | atom h => exact chars_opens hv h
  | emptyArr | arr => exact ⟨'[', _, rfl, rfl, by decide⟩
  | emptyObj | obj => exact ⟨'\x7b', _, rfl, rfl, by decide⟩

theorem delimited_gap {gap : List Char} (hgap : IsSpaces gap) {c : Char} (hc : c = ',' ∨ c = ']' ∨ c = '\x7d')
    (s : List Char) : Delimited (gap ++ c :: s) := by
  intro d hd
  cases gap with
  | nil =>
      cases hd
      rcases hc with hc | hc | hc
      · exact .inl hc
      · exact .inr (.inl hc)
      · exact .inr (.inr (.inl hc))
  | cons b gap =>
      cases hd
      exact .inr (.inr (.inr (hgap _ List.mem_cons_self)))

theorem SpellsItems.delimited {vs : List Json} {s : List Char} (h : SpellsItems vs s) (rest : List Char) :
    Delimited (s ++ rest) := by
  cases h with
  | nil hgap =>
      rw [List.append_assoc]
      exact delimited_gap hgap (.inr (.inl rfl)) rest
  | cons hgap =>
      rw [List.append_assoc]
      exact delimited_gap hgap (.inl rfl) _

theorem SpellsFields.delimited {fields : List (String × Json)} {s : List Char} (h : SpellsFields fields s)
    (rest : List Char) : Delimited (s ++ rest) := by
  cases h with
  | nil hgap =>
      rw [List.append_assoc]
      exact delimited_gap hgap (.inr (.inr rfl)) rest
  | cons _ hgap =>
      rw [List.append_assoc]
      exact delimited_gap hgap (.inl rfl) _

theorem readValue_atom {v : Json} (hv : v.IsPlain) (h : IsAtom v) (fuel : Nat) {rest : List Char}
    (hr : Delimited rest) : readValue (fuel + 1) (v.chars ++ rest) = some (v, rest) := by
  cases v with
  | null => simp [readValue]
  | bool b => cases b <;> simp [readValue]
  | int n => exact readValue_intChars fuel hv.1 hv.2 hr
  | real t =>
      have hread := IsReal.readValue_append hv fuel hr
      rwa [String.ofList_toList] at hread
  | str t =>
      have hread := readText_escaped t rest
      simp [quoted, readValue, readString, hread]
  | illFormed => exact hv.elim
  | arr | obj => exact h.elim

theorem readValue_array (fuel : Nat) {gap : List Char} (hgap : IsSpaces gap) {c : Char} (hc : Opens c)
    {s s' rest : List Char} {v : Json} {vs : List Json} (hv : readValue fuel (c :: s) = some (v, s'))
    (hvs : readItems fuel (skipSpace s') = some (vs, rest)) :
    readValue (fuel + 1) ('[' :: (gap ++ c :: s)) = some (arr (v :: vs), rest) := by
  rw [readValue, hgap.skipSpace_append, skipSpace_cons hc.1]
  split
  · next h => exact absurd (List.cons.inj h).1 hc.2
  · rw [hv]
    simp only [Option.bind_eq_bind, Option.bind_some, hvs, Option.pure_def]

/-- A field opens with the quote of its key, so that no blank or brace hides it. -/
theorem readValue_object (fuel : Nat) {gap : List Char} (hgap : IsSpaces gap) {s s' rest : List Char}
    {field : Option String × Json} {fields : List (Option String × Json)}
    (hf : readField fuel ('"' :: s) = some (field, s')) (hfs : readFields fuel (skipSpace s') = some (fields, rest)) :
    readValue (fuel + 1) ('\x7b' :: (gap ++ '"' :: s)) = some (ofFields (field :: fields), rest) := by
  rw [readValue, hgap.skipSpace_append, skipSpace_cons rfl]
  split
  · next h => exact absurd (List.cons.inj h).1 (by decide)
  · simp only [hf, hfs, Option.bind_eq_bind, Option.bind_some, Option.pure_def]

theorem readField_quoted (k : String) {v : Json} {fuel : Nat} {before after s rest : List Char} (hv : v.IsPlain)
    (hs : Spells v s) (hbefore : IsSpaces before) (hafter : IsSpaces after)
    (h : readValue fuel (s ++ rest) = some (v, rest)) :
    readField (fuel + 1) (quoted k ++ (before ++ ':' :: (after ++ (s ++ rest)))) = some ((some k, v), rest) := by
  obtain ⟨c, t, rfl, hc⟩ := hs.opens hv
  have hcolon : ∀ rest, skipSpace (':' :: rest) = ':' :: rest := skipSpace_cons rfl
  rw [List.cons_append] at h ⊢
  rw [quoted, List.cons_append, List.append_assoc, readField]
  simp only [List.singleton_append, readText_escaped, Option.bind_eq_bind, Option.bind_some, hbefore.skipSpace_append,
    hafter.skipSpace_append, hcolon, skipSpace_cons hc.1, h, Option.pure_def]

theorem ofFields_some (fields : List (String × Json)) :
    ofFields (fields.map fun field => (some field.1, field.2)) = obj fields := by
  have hm : ∀ named : Option String × Json → Option (String × Json), (∀ k v, named (some k, v) = some (k, v)) →
      (fields.map fun field => (some field.1, field.2)).mapM named = some fields := by
    intro named h
    induction fields with
    | nil => rfl
    | cons field fields ih => simp [h, ih]
  rw [ofFields, hm _ fun _ _ => rfl]

mutual

/-- The reader stops right behind the text of a value, whatever follows it. One step of fuel for each
character is enough. -/
theorem readValue_of_spells (v : Json) (hv : v.IsPlain) {s : List Char} (h : Spells v s) (fuel : Nat)
    (hf : s.length ≤ fuel) {rest : List Char} (hr : Delimited rest) : readValue fuel (s ++ rest) = some (v, rest) := by
  cases fuel with
  | zero =>
      obtain ⟨c, t, rfl, -⟩ := h.opens hv
      exact absurd hf (by simp)
  | succ fuel =>
      cases h with
      | atom h => exact readValue_atom hv h fuel hr
      | emptyArr hgap =>
          rw [List.cons_append, List.append_assoc, readValue, hgap.skipSpace_append]
          rfl
      | @arr v vs gap s tail hgap hs htail =>
          obtain ⟨hv, hvs⟩ := hv
          rw [List.length_cons, List.length_append, List.length_append] at hf
          have hvalue := readValue_of_spells v hv hs fuel (by omega) (htail.delimited rest)
          have hitems := readItems_of_spells vs hvs htail fuel (by omega) rest
          obtain ⟨c, t, rfl, hc⟩ := hs.opens hv
          simp only [List.cons_append, List.append_assoc] at hvalue ⊢
          exact readValue_array fuel hgap hc hvalue hitems
      | emptyObj hgap =>
          rw [List.cons_append, List.append_assoc, readValue, hgap.skipSpace_append]
          rfl
      | @obj k v fields gap before after s tail hgap hbefore hafter hs htail =>
          obtain ⟨hv, hfields⟩ := hv
          simp only [List.length_cons, List.length_append] at hf
          cases fuel with
          | zero => omega
          | succ fuel =>
              have hvalue := readValue_of_spells v hv hs fuel (by omega) (htail.delimited rest)
              have hfield := readField_quoted k hv hs hbefore hafter hvalue
              have hmore := readFields_of_spells fields hfields htail (fuel + 1) (by omega) rest
              have hobject := readValue_object (fuel + 1) hgap hfield hmore
              have hnamed := ofFields_some ((k, v) :: fields)
              rw [List.map_cons] at hnamed
              simpa [quoted, hnamed] using hobject

theorem readItems_of_spells (vs : List Json) (hvs : ItemsPlain vs) {s : List Char} (h : SpellsItems vs s) (fuel : Nat)
    (hf : s.length ≤ fuel) (rest : List Char) : readItems fuel (skipSpace (s ++ rest)) = some (vs, rest) := by
  cases h with
  | @nil gap hgap =>
      rw [List.length_append] at hf
      cases fuel with
      | zero => exact absurd hf (by simp)
      | succ fuel =>
          rw [List.append_assoc, hgap.skipSpace_append]
          rfl
  | @cons v vs gap gap' s tail hgap hgap' hs htail =>
      obtain ⟨hv, hvs⟩ := hvs
      simp only [List.length_append, List.length_cons] at hf
      cases fuel with
      | zero => omega
      | succ fuel =>
          have hvalue := readValue_of_spells v hv hs fuel (by omega) (htail.delimited rest)
          have hitems := readItems_of_spells vs hvs htail fuel (by omega) rest
          obtain ⟨c, t, rfl, hc⟩ := hs.opens hv
          simp only [List.append_assoc, List.cons_append] at hvalue ⊢
          rw [hgap.skipSpace_append, skipSpace_cons rfl, readItems, hgap'.skipSpace_append, skipSpace_cons hc.1, hvalue]
          simp only [Option.bind_eq_bind, Option.bind_some, hitems, Option.pure_def]

theorem readFields_of_spells (fields : List (String × Json)) (hfields : FieldsPlain fields) {s : List Char}
    (h : SpellsFields fields s) (fuel : Nat) (hf : s.length ≤ fuel) (rest : List Char) :
    readFields fuel (skipSpace (s ++ rest)) = some (fields.map fun field => (some field.1, field.2), rest) := by
  cases h with
  | @nil gap hgap =>
      rw [List.length_append] at hf
      cases fuel with
      | zero => exact absurd hf (by simp)
      | succ fuel =>
          rw [List.append_assoc, hgap.skipSpace_append]
          rfl
  | @cons k v fields gap gap' before after s tail hgap hgap' hbefore hafter hs htail =>
      obtain ⟨hv, hfields⟩ := hfields
      simp only [List.length_append, List.length_cons] at hf
      obtain ⟨fuel, rfl⟩ : ∃ n, fuel = n + 2 := ⟨fuel - 2, by omega⟩
      have hvalue := readValue_of_spells v hv hs fuel (by omega) (htail.delimited rest)
      have hfield := readField_quoted k hv hs hbefore hafter hvalue
      have hmore := readFields_of_spells fields hfields htail (fuel + 1) (by omega) rest
      have hquote : ∀ t, skipSpace (quoted k ++ t) = quoted k ++ t := fun t => skipSpace_cons rfl _
      simp only [List.append_assoc, List.cons_append]
      rw [hgap.skipSpace_append, skipSpace_cons rfl, readFields, hgap'.skipSpace_append, hquote, hfield]
      simp only [Option.bind_eq_bind, Option.bind_some, hmore, Option.pure_def, List.map_cons]

end

/-- A document is read whole from all its texts. -/
theorem ofText?_of_spells {v : Json} (hv : v.IsPlain) {before s after : List Char} (hbefore : IsSpaces before)
    (h : Spells v s) (hafter : IsSpaces after) : ofText? (String.ofList (before ++ (s ++ after))) = some v := by
  have hdelimited : Delimited after := by
    intro c hc
    exact Or.inr (.inr (.inr (hafter c (List.mem_of_mem_head? hc))))
  have hread := readValue_of_spells v hv h (2 * (before ++ (s ++ after)).length + 2)
    (by simp only [List.length_append]; omega) hdelimited
  have hend : skipSpace after = [] := by
    have hskip := hafter.skipSpace_append []
    rwa [List.append_nil] at hskip
  obtain ⟨c, t, rfl, hc⟩ := h.opens hv
  rw [List.cons_append] at hread ⊢
  rw [ofText?, String.toList_ofList, ofChars?, hbefore.skipSpace_append, skipSpace_cons hc.1, hread]
  dsimp only
  rw [hend]
  rfl

theorem isSpaces_nil : IsSpaces [] :=
  fun _ hc => absurd hc List.not_mem_nil

mutual

theorem spells_chars (v : Json) : Spells v v.chars := by
  cases v with
  | null | bool | int | real | str | illFormed => exact .atom trivial
  | arr items =>
      cases items with
      | nil => exact .emptyArr isSpaces_nil
      | cons v vs => exact .arr isSpaces_nil (spells_chars v) (spells_itemsChars vs)
  | obj fields =>
      cases fields with
      | nil => exact .emptyObj isSpaces_nil
      | cons field fields =>
          exact .obj field.1 isSpaces_nil isSpaces_nil isSpaces_nil (spells_chars field.2) (spells_fieldsChars fields)

theorem spells_itemsChars (vs : List Json) : SpellsItems vs (itemsChars vs) := by
  cases vs with
  | nil => exact .nil isSpaces_nil
  | cons v vs => exact .cons isSpaces_nil isSpaces_nil (spells_chars v) (spells_itemsChars vs)

theorem spells_fieldsChars (fields : List (String × Json)) : SpellsFields fields (fieldsChars fields) := by
  cases fields with
  | nil => exact .nil isSpaces_nil
  | cons field fields =>
      exact .cons field.1 isSpaces_nil isSpaces_nil isSpaces_nil isSpaces_nil (spells_chars field.2)
        (spells_fieldsChars fields)

end

/-- A document is read back whole. -/
theorem ofText?_toText {v : Json} (hv : v.IsPlain) : ofText? v.toText = some v := by
  have hread := ofText?_of_spells hv isSpaces_nil (spells_chars v) isSpaces_nil
  rwa [List.nil_append, List.append_nil] at hread

theorem isSpaces_newLine (level : Nat) : IsSpaces (newLine level) := by
  intro c hc
  rw [newLine, List.mem_cons, List.mem_replicate] at hc
  rcases hc with rfl | ⟨-, rfl⟩ <;> rfl

theorem isSpaces_space : IsSpaces [' '] := by
  intro c hc
  rw [List.mem_singleton.1 hc]
  rfl

mutual

theorem spells_indentedChars (v : Json) (level : Nat) : Spells v (indentedChars level v) := by
  have hline := isSpaces_newLine (level + 1)
  cases v with
  | null | bool | int | real | str | illFormed => exact .atom trivial
  | arr items =>
      cases items with
      | nil => exact .emptyArr isSpaces_nil
      | cons v vs =>
          rw [indentedChars, List.append_assoc]
          exact .arr hline (spells_indentedChars v (level + 1)) (spells_indentedItems vs level)
  | obj fields =>
      cases fields with
      | nil => exact .emptyObj isSpaces_nil
      | cons field fields =>
          have hvalue := spells_indentedChars field.2 (level + 1)
          have hfields := spells_indentedFields fields level
          have hspelled := Spells.obj field.1 hline isSpaces_nil isSpaces_space hvalue hfields
          rw [indentedChars]
          simpa using hspelled

theorem spells_indentedItems (vs : List Json) (level : Nat) : SpellsItems vs (indentedItems level vs) := by
  cases vs with
  | nil => exact .nil (isSpaces_newLine level)
  | cons v vs =>
      rw [indentedItems, List.append_assoc]
      exact .cons isSpaces_nil (isSpaces_newLine (level + 1)) (spells_indentedChars v (level + 1))
        (spells_indentedItems vs level)

theorem spells_indentedFields (fields : List (String × Json)) (level : Nat) :
    SpellsFields fields (indentedFields level fields) := by
  cases fields with
  | nil => exact .nil (isSpaces_newLine level)
  | cons field fields =>
      have hline := isSpaces_newLine (level + 1)
      have hvalue := spells_indentedChars field.2 (level + 1)
      have hfields := spells_indentedFields fields level
      have hspelled := SpellsFields.cons field.1 isSpaces_nil hline isSpaces_nil isSpaces_space hvalue hfields
      rw [indentedFields]
      simpa using hspelled

end

theorem ofText?_toIndentedText {v : Json} (hv : v.IsPlain) {after : List Char} (hafter : IsSpaces after) :
    ofText? (v.toIndentedText ++ String.ofList after) = some v := by
  have hread := ofText?_of_spells hv isSpaces_nil (spells_indentedChars v 0) hafter
  rw [List.nil_append, String.ofList_append] at hread
  exact hread

end Signpost.Json
