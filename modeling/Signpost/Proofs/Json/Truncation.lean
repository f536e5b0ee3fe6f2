import Mathlib.Data.List.TakeWhile
import Signpost.Json.Bytes
import Signpost.Proofs.Json.Locality

namespace Signpost.Json

variable {fields : List (String × Json)}

theorem chars_obj (fields : List (String × Json)) : ∃ s, (obj fields).chars = '\x7b' :: s := by
  cases fields <;> exact ⟨_, rfl⟩

/-- The reader would find the end of the object again, where the rest of its text goes on. -/
theorem ofChars?_eq_none (hv : IsPlain (obj fields)) {p t : List Char} (hp : (obj fields).chars = p ++ t)
    (ht : t ≠ []) : ofChars? p = none := by
  obtain ⟨s, hs⟩ := chars_obj fields
  have hend : Delimited [] := nofun
  have hwhole := readValue_of_spells (obj fields) hv (spells_chars _) (2 * (p ++ t).length + 2) (by rw [hp]; omega) hend
  rw [List.append_nil, hp] at hwhole
  rw [ofChars?]
  split
  · next v rest hread =>
      exfalso
      cases p with
      | nil => cases hread
      | cons c p =>
          rw [hp] at hs
          cases (List.cons.inj hs).1
          rw [skipSpace_cons rfl] at hread
          have hfuel : 2 * ('\x7b' :: p).length + 2 ≤ 2 * ('\x7b' :: p ++ t).length + 2 := by
            rw [List.length_append]
            omega
          have hmore := (readValue_object_append hfuel hread).2 t
          rw [List.cons_append] at hwhole hmore
          rw [hwhole, Option.some.injEq, Prod.mk.injEq] at hmore
          exact ht (List.append_eq_nil_iff.1 hmore.2.symm).2
  · rfl

/-- A document that opens as an object ends with its brace, blanks apart. -/
theorem getLast?_of_ofChars? {s : List Char} {v : Json} (h : ofChars? ('\x7b' :: s) = some v) :
    ∃ c, s.getLast? = some c ∧ (c = '\x7d' ∨ isSpace c = true) := by
  rw [ofChars?, skipSpace_cons rfl] at h
  split at h
  · next v rest hread =>
      split at h
      · next hblank =>
          obtain ⟨⟨a, rfl⟩, -⟩ := readValue_object_append (Nat.le_refl _) hread
          have hblank : ∀ c ∈ rest, isSpace c = true := List.dropWhile_eq_nil_iff.1 (List.isEmpty_iff.1 hblank)
          have hne : '\x7d' :: rest ≠ [] := List.cons_ne_nil _ _
          refine ⟨('\x7d' :: rest).getLast hne, ?_, ?_⟩
          · rw [List.getLast?_append, List.getLast?_eq_some_getLast hne, Option.some_or]
          · rcases List.mem_cons.1 (List.getLast_mem hne) with hc | hc
            · exact .inl hc
            · exact .inr (hblank _ hc)
      · cases h
  · cases h

theorem charsFrom_of_le {content : ByteArray} {i : Nat} (h : content.size ≤ i) (fuel : Nat) (escaped : Bool) :
    charsFrom content fuel escaped i = some [] := by
  cases fuel with
  | zero => rfl
  | succ fuel => rw [charsFrom, if_neg (Nat.not_lt.2 h)]

/-- Where no character ends at the end of the bytes, the last of them belongs to none. -/
theorem getLast?_charsFrom {content : ByteArray}
    (hend : ∀ i c, content.utf8DecodeChar? i = some c → i + c.utf8Size ≠ content.size) :
    ∀ (fuel : Nat) (escaped : Bool) (i : Nat) (s : List Char), i < content.size → content.size ≤ i + fuel →
      charsFrom content fuel escaped i = some s → s.getLast? = some '0' := by
  intro fuel
  induction fuel with
  | zero => intro escaped i s hi hfuel; omega
  | succ fuel ih =>
      intro escaped i s hi hfuel h
      rw [charsFrom, if_pos hi] at h
      cases hc : content.utf8DecodeChar? i with
      | some c =>
          rw [hc] at h
          obtain ⟨s', hs', rfl⟩ := Option.map_eq_some_iff.1 h
          have hle := ByteArray.le_size_of_utf8DecodeChar?_eq_some hc
          have hlt : i + c.utf8Size < content.size := Nat.lt_of_le_of_ne hle (hend i c hc)
          have hpos : 0 < c.utf8Size := c.utf8Size_pos
          rw [List.getLast?_cons, ih _ _ s' hlt (by omega) hs']
          rfl
      | none =>
          rw [hc] at h
          dsimp only at h
          split at h
          · cases h
          · obtain ⟨s', hs', rfl⟩ := Option.map_eq_some_iff.1 h
            rw [List.getLast?_append]
            by_cases hlt : i + 1 < content.size
            · rw [ih _ _ s' hlt (by omega) hs']
              rfl
            · rw [charsFrom_of_le (Nat.not_lt.1 hlt)] at hs'
              cases hs'
              decide

theorem charsFrom_eq_some {content : ByteArray} {c : Char} {chars : List Char}
    (hfirst : content.utf8DecodeChar? 0 = some c)
    (hend : ∀ i c, content.utf8DecodeChar? i = some c → i + c.utf8Size ≠ content.size)
    (h : charsFrom content content.size false 0 = some chars) :
    ∃ s, chars = c :: s ∧ chars.getLast? = some '0' := by
  have hpos := c.utf8Size_pos
  have hle := ByteArray.le_size_of_utf8DecodeChar?_eq_some hfirst
  have hlast := getLast?_charsFrom hend content.size false 0 chars (by omega) (by omega) h
  obtain ⟨n, hn⟩ : ∃ n, content.size = n + 1 := ⟨content.size - 1, by omega⟩
  rw [hn, charsFrom, if_pos (by omega), hfirst] at h
  obtain ⟨s, -, rfl⟩ := Option.map_eq_some_iff.1 h
  exact ⟨s, rfl, hlast⟩

/-- Where a character ends, the text can be cut in two. -/
theorem size_ne_of_utf8DecodeChar? (t : String) {k : Nat} (hk : k ≤ t.toUTF8.size)
    (h : ¬(t.toUTF8.extract 0 k).IsValidUTF8) (i : Nat) (c : Char)
    (hc : (t.toUTF8.extract 0 k).utf8DecodeChar? i = some c) : i + c.utf8Size ≠ (t.toUTF8.extract 0 k).size := by
  rw [String.toUTF8_eq_toByteArray] at *
  intro hend
  have hsize : (t.toByteArray.extract 0 k).size = k := by
    rw [ByteArray.size_extract, Nat.min_eq_left hk, Nat.sub_zero]
  rw [hsize] at hend
  have hwhole : t.toByteArray.extract 0 k ++ t.toByteArray.extract k t.toByteArray.size = t.toByteArray := by
    rw [ByteArray.extract_append_extract, Nat.zero_min, Nat.max_eq_right hk, ByteArray.extract_zero_size]
  have hdecode := ByteArray.utf8DecodeChar?_append_eq_some hc (t.toByteArray.extract k t.toByteArray.size)
  rw [hwhole] at hdecode
  rw [ByteArray.utf8DecodeChar?_eq_utf8DecodeChar?_extract] at hdecode
  have hlast := String.toByteArray_utf8EncodeChar_of_utf8DecodeChar?_eq_some hdecode
  rw [ByteArray.extract_extract, Nat.add_zero, hend, Nat.min_eq_left hk] at hlast
  have hvalid : (t.toByteArray.extract i k).IsValidUTF8 := hlast ▸ Char.isValidUTF8_toByteArray_utf8EncodeChar
  have hle : (⟨i⟩ : String.Pos.Raw) ≤ ⟨k⟩ := by
    exact String.Pos.Raw.le_iff.2 (hend ▸ Nat.le_add_right i _)
  rcases (String.Pos.Raw.isValidUTF8_extract_iff (s := t) ⟨i⟩ ⟨k⟩ hle hk).1 hvalid with heq | ⟨-, hcut⟩
  · have hpos := c.utf8Size_pos
    have hik : i = k := congrArg String.Pos.Raw.byteIdx heq
    omega
  · exact h (String.Pos.Raw.isValid_iff_isValidUTF8_extract_zero.1 hcut).2

theorem utf8DecodeChar?_extract (c : Char) (s : List Char) {k : Nat} (hk : c.utf8Size ≤ k) :
    ((String.ofList (c :: s)).toUTF8.extract 0 k).utf8DecodeChar? 0 = some c := by
  have hsize : [c].utf8Encode.size = c.utf8Size := by
    simp [List.utf8Encode_singleton]
  have hbytes : (String.ofList (c :: s)).toUTF8 = [c].utf8Encode ++ s.utf8Encode := by
    rw [String.toUTF8_eq_toByteArray, String.toByteArray_ofList, List.utf8Encode_cons]
  rw [hbytes, ByteArray.extract_eq_extract_append_extract c.utf8Size (Nat.zero_le _) hk,
    ByteArray.extract_append_eq_left hsize.symm]
  exact List.utf8DecodeChar?_utf8Encode_singleton_append

/-- Bytes that are text again are a shorter text. -/
theorem exists_append_of_extract {t : String} {k : Nat} (hk : k < t.toUTF8.size)
    (hvalid : (t.toUTF8.extract 0 k).IsValidUTF8) :
    ∃ p u : List Char, t.toList = p ++ u ∧ u ≠ [] ∧ String.fromUTF8? (t.toUTF8.extract 0 k) = some (String.ofList p) := by
  obtain ⟨p, u, rfl, hp⟩ := String.Pos.Raw.isValid_iff_exists_append.1
    (String.Pos.Raw.isValid_iff_isValidUTF8_extract_zero.2 ⟨Nat.le_of_lt hk, hvalid⟩)
  have hsize : k = p.toByteArray.size := congrArg String.Pos.Raw.byteIdx hp
  have hcut : (p ++ u).toUTF8.extract 0 k = p.toByteArray := by
    rw [String.toUTF8_eq_toByteArray, String.toByteArray_append, ByteArray.extract_append_eq_left hsize]
  refine ⟨p.toList, u.toList, String.toList_append, ?_, ?_⟩
  · intro hu
    rw [String.toList_eq_nil_iff.1 hu, String.append_empty, String.toUTF8_eq_toByteArray, hsize] at hk
    exact Nat.lt_irrefl _ hk
  · rw [String.fromUTF8?, dif_pos hvalid, String.ofList_toList, Option.some.injEq, ← String.toByteArray_inj]
    exact hcut

theorem ofBytes?_extract_eq_none (hv : IsPlain (obj fields)) {k : Nat} (hk : k < (obj fields).toText.toUTF8.size) :
    ofBytes? ((obj fields).toText.toUTF8.extract 0 k) = none := by
  obtain ⟨s, hs⟩ := chars_obj fields
  rw [ofBytes?]
  by_cases hvalid : ((obj fields).toText.toUTF8.extract 0 k).IsValidUTF8
  · -- the cut is between two characters
    obtain ⟨p, u, hpu, hu, hread⟩ := exists_append_of_extract hk hvalid
    rw [toText, String.toList_ofList] at hpu
    rw [hread]
    dsimp only
    rw [ofText?, String.toList_ofList, ofChars?_eq_none hv hpu hu]
  · -- the cut is inside of a character, so that halves stand where the closing brace should
    have hpos : 1 ≤ k := by
      rw [Nat.one_le_iff_ne_zero]
      rintro rfl
      exact hvalid (by rw [ByteArray.extract_same]; exact ByteArray.isValidUTF8_empty)
    have hend := size_ne_of_utf8DecodeChar? _ (Nat.le_of_lt hk) hvalid
    have hbrace : ((obj fields).toText.toUTF8.extract 0 k).utf8DecodeChar? 0 = some '\x7b' := by
      rw [toText, hs]
      exact utf8DecodeChar?_extract '\x7b' s hpos
    rw [String.fromUTF8?, dif_neg hvalid]
    cases hread : charsFrom ((obj fields).toText.toUTF8.extract 0 k)
        ((obj fields).toText.toUTF8.extract 0 k).size false 0 with
    | none => rfl
    | some chars =>
        obtain ⟨s', rfl, hlast⟩ := charsFrom_eq_some hbrace hend hread
        cases hdoc : ofChars? ('\x7b' :: s') with
        | none => exact hdoc
        | some v =>
            obtain ⟨c, hc, hclose⟩ := getLast?_of_ofChars? hdoc
            rw [List.getLast?_cons, hc] at hlast
            cases hlast
            exact absurd hclose (by decide)

end Signpost.Json
