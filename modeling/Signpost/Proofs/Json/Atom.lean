import Signpost.Json.Reader
import Signpost.Json.Writer

namespace Signpost.Json

theorem hexValue?_digitChar {n : Nat} (h : n < 16) : hexValue? (Nat.digitChar n) = some n := by
  have hall : ∀ m : Fin 16, hexValue? (Nat.digitChar m) = some m.val := by decide
  exact hall ⟨n, h⟩

theorem hex4?_control {n : Nat} (h : n < 0x20) :
    hex4? '0' '0' (Nat.digitChar (n / 16)) (Nat.digitChar (n % 16)) = some n := by
  have hz : hexValue? '0' = some 0 := by decide
  rw [hex4?, hz, hexValue?_digitChar (by omega), hexValue?_digitChar (by omega)]
  simp only [Option.bind_eq_bind, Option.bind_some, Option.pure_def, Option.some.injEq]
  omega

theorem ofUnit_control {c : Char} (h : c.toNat < 0x20) : Piece.ofUnit c.toNat = .char c := by
  have hn : ¬(0xD800 ≤ c.toNat ∧ c.toNat < 0xE000) := by omega
  rw [Piece.ofUnit, if_neg hn, Char.ofNat_toNat]

theorem readPieces_backslash {e c : Char} {s rest : List Char} {pieces : List Piece} (he : e ≠ 'u')
    (hc : unescape? e = some c) (h : readPieces s = some (pieces, rest)) :
    readPieces ('\\' :: e :: s) = some (.char c :: pieces, rest) := by
  rw [readPieces.eq_4 _ _ fun _ _ _ _ _ hu => absurd hu he, hc, h]
  rfl

theorem readPieces_escape (c : Char) {s rest : List Char} {pieces : List Piece}
    (h : readPieces s = some (pieces, rest)) :
    readPieces (escape c ++ s) = some (.char c :: pieces, rest) := by
  unfold escape
  split
  case h_8 hquote hslash _ _ _ _ _ =>
    split
    case isTrue hlow =>
      simp only [List.cons_append, List.nil_append, readPieces, hex4?_control hlow, h, Option.bind_eq_bind,
        Option.bind_some, ofUnit_control hlow, Option.pure_def]
    case isFalse hhigh =>
      rw [List.singleton_append, readPieces.eq_5 _ _ hquote (fun _ _ _ _ _ h => absurd h hslash)
        (fun _ _ h => absurd h hslash), if_neg hhigh, h]
      rfl
  all_goals exact readPieces_backslash (by decide) rfl h

theorem text?_map_char (s : List Char) : Piece.text? (s.map .char) = some s := by
  induction s with
  | nil => rfl
  | cons c s ih => simp [Piece.text?, ih]

theorem readPieces_escaped (s rest : List Char) :
    readPieces (s.flatMap escape ++ '"' :: rest) = some (s.map .char, rest) := by
  induction s with
  | nil => rfl
  | cons c s ih =>
      rw [List.flatMap_cons, List.append_assoc]
      exact readPieces_escape c ih

/-- A quoted text reads as this text, whatever follows its closing quote. -/
theorem readText_escaped (t : String) (rest : List Char) :
    readText (t.toList.flatMap escape ++ '"' :: rest) = some (some t, rest) := by
  simp [readText, readPieces_escaped, text?_map_char]

/-- What may follow a value: the end of the text, or a mark or blank that no number goes on with. -/
def Delimited (rest : List Char) : Prop :=
  ∀ c ∈ rest.head?, c = ',' ∨ c = ']' ∨ c = '\x7d' ∨ isSpace c = true

def Stops (rest : List Char) : Prop :=
  ∀ c ∈ rest.head?, c.isDigit = false

structure IsDigits (s : List Char) : Prop where
  ne_nil : s ≠ []
  digits : ∀ c ∈ s, c.isDigit = true

structure IsWhole (s : List Char) : Prop extends IsDigits s where
  zero : s.head? = some '0' → s = ['0']

inductive IsFraction : List Char → Prop
  | absent : IsFraction []
  | present {digits} (h : IsDigits digits) : IsFraction ('.' :: digits)

inductive IsExponent : List Char → Prop
  | absent : IsExponent []
  | present {e sign digits} (he : e = 'e' ∨ e = 'E') (hsign : sign = [] ∨ sign = ['+'] ∨ sign = ['-'])
      (h : IsDigits digits) : IsExponent (e :: (sign ++ digits))

def minus (negative : Bool) : List Char :=
  if negative then ['-'] else []

/-- The text of a number that is no integer of 64 bits. -/
inductive IsReal : List Char → Prop
  | integer {negative whole} (hwhole : IsWhole whole)
      (hlarge : ofDigits negative whole = real (String.ofList (minus negative ++ whole))) :
      IsReal (minus negative ++ whole)
  | decimal {negative whole fraction exponent} (hwhole : IsWhole whole) (hfraction : IsFraction fraction)
      (hexponent : IsExponent exponent) (hne : fraction ≠ [] ∨ exponent ≠ []) :
      IsReal (minus negative ++ (whole ++ (fraction ++ exponent)))

variable {s rest whole fraction exponent : List Char}

theorem Delimited.ends {c : Char} (hr : Delimited rest) (hc : c ∈ rest.head?) :
    c.isDigit = false ∧ c ≠ '.' ∧ ¬(c = 'e' ∨ c = 'E') := by
  rcases hr c hc with rfl | rfl | rfl | hspace
  · decide
  · decide
  · decide
  · simp only [isSpace, Bool.or_eq_true, beq_iff_eq] at hspace
    rcases hspace with ((rfl | rfl) | rfl) | rfl <;> decide

theorem Delimited.stops (hr : Delimited rest) : Stops rest :=
  fun _ hc => (hr.ends hc).1

theorem IsDigits.exists_cons (h : IsDigits s) : ∃ c t, s = c :: t ∧ c.isDigit = true := by
  obtain ⟨c, t, rfl⟩ := List.exists_cons_of_ne_nil h.ne_nil
  exact ⟨c, t, rfl, h.digits c List.mem_cons_self⟩

theorem IsExponent.head (h : IsExponent exponent) (hr : Delimited rest) :
    ∀ c ∈ (exponent ++ rest).head?, c.isDigit = false ∧ c ≠ '.' := by
  intro c hc
  cases h with
  | absent => exact ⟨(hr.ends hc).1, (hr.ends hc).2.1⟩
  | present he =>
      cases hc
      rcases he with rfl | rfl <;> decide

theorem IsFraction.stops (h : IsFraction fraction) (hr : Stops rest) : Stops (fraction ++ rest) := by
  cases h with
  | absent => exact hr
  | present =>
      intro c hc
      cases hc
      rfl

theorem IsDigits.spanDigits_append (h : IsDigits s) (hr : Stops rest) : spanDigits (s ++ rest) = (s, rest) := by
  have hstop : rest.takeWhile Char.isDigit = [] ∧ rest.dropWhile Char.isDigit = rest := by
    cases rest with
    | nil => exact ⟨rfl, rfl⟩
    | cons c rest => simp [hr c rfl]
  rw [spanDigits, List.takeWhile_append_of_pos h.digits, List.dropWhile_append_of_pos h.digits, hstop.1, hstop.2,
    List.append_nil]

theorem IsWhole.readWhole_append (h : IsWhole s) (hr : Stops rest) : readWhole (s ++ rest) = some (s, rest) := by
  rw [readWhole, h.spanDigits_append hr]
  split
  · next hs => exact absurd (congrArg Prod.fst hs) h.ne_nil
  · next c t _ hs =>
      have hs : s = '0' :: c :: t := congrArg Prod.fst hs
      have hzero := h.zero (by rw [hs]; rfl)
      rw [hs] at hzero
      cases hzero
  · rfl

theorem IsFraction.readFraction_append (h : IsFraction fraction) (hr : ∀ c ∈ rest.head?, c.isDigit = false ∧ c ≠ '.') :
    readFraction (fraction ++ rest) = some (fraction, rest) := by
  cases h with
  | absent =>
      apply readFraction.eq_2
      rintro t rfl
      exact (hr '.' rfl).2 rfl
  | @present digits hdigits =>
      rw [List.cons_append, readFraction, hdigits.spanDigits_append fun c hc => (hr c hc).1]
      split
      · next hd => exact absurd (congrArg Prod.fst hd) hdigits.ne_nil
      · next hd =>
          cases hd
          rfl

theorem IsDigits.spanSign_append {sign : List Char} (h : IsDigits s)
    (hsign : sign = [] ∨ sign = ['+'] ∨ sign = ['-']) (rest : List Char) :
    spanSign (sign ++ (s ++ rest)) = (sign, s ++ rest) := by
  obtain ⟨c, t, rfl, hc⟩ := h.exists_cons
  rcases hsign with rfl | rfl | rfl
  · apply spanSign.eq_3
    · rintro u ⟨⟩
      exact absurd hc (by decide)
    · rintro u ⟨⟩
      exact absurd hc (by decide)
  · rfl
  · rfl

theorem IsExponent.readExponent_append (h : IsExponent exponent) (hr : Delimited rest) :
    readExponent (exponent ++ rest) = some (exponent, rest) := by
  cases h with
  | absent =>
      rw [List.nil_append, readExponent.eq_def]
      split
      · next c t => rw [if_neg (hr.ends rfl).2.2]
      · rfl
  | present he hsign hdigits =>
      rw [List.cons_append, List.append_assoc, readExponent, if_pos he, hdigits.spanSign_append hsign]
      dsimp only
      rw [hdigits.spanDigits_append hr.stops]
      split
      · next hd => exact absurd (congrArg Prod.fst hd) hdigits.ne_nil
      · next hd =>
          cases hd
          rfl

theorem readUnsigned_append (negative : Bool) (hwhole : IsWhole whole) (hfraction : IsFraction fraction)
    (hexponent : IsExponent exponent) (hr : Delimited rest) :
    readUnsigned negative (whole ++ (fraction ++ (exponent ++ rest))) =
      some (if fraction.isEmpty && exponent.isEmpty then ofDigits negative whole
        else real (String.ofList (minus negative ++ whole ++ fraction ++ exponent)), rest) := by
  have hstops : Stops (exponent ++ rest) := fun c hc => (hexponent.head hr c hc).1
  rw [readUnsigned, hwhole.readWhole_append (hfraction.stops hstops)]
  simp only [Option.bind_eq_bind, Option.bind_some, hfraction.readFraction_append (hexponent.head hr),
    hexponent.readExponent_append hr, Option.pure_def]
  cases fraction.isEmpty && exponent.isEmpty <;> rfl

theorem readUnsigned_whole (negative : Bool) (h : IsWhole whole) (hr : Delimited rest) :
    readUnsigned negative (whole ++ rest) = some (ofDigits negative whole, rest) :=
  readUnsigned_append negative h .absent .absent hr

theorem readValue_number {c : Char} (hc : c.isDigit = true ∨ c = '-') (fuel : Nat) (s : List Char) :
    readValue (fuel + 1) (c :: s) = readNumber (c :: s) := by
  refine readValue.eq_8 _ _ ?_ ?_ ?_ ?_ ?_ ?_
  all_goals
    intro t ht
    cases ht
    exact absurd hc (by decide)

theorem readValue_signed (fuel : Nat) (negative : Bool) (h : IsDigits s) (rest : List Char) :
    readValue (fuel + 1) (minus negative ++ (s ++ rest)) = readUnsigned negative (s ++ rest) := by
  cases negative with
  | true => exact readValue_number (.inr rfl) fuel (s ++ rest)
  | false =>
      obtain ⟨c, t, rfl, hc⟩ := h.exists_cons
      have hne : ∀ u, c :: (t ++ rest) ≠ '-' :: u := by
        rintro u ⟨⟩
        exact absurd hc (by decide)
      exact (readValue_number (.inl hc) fuel (t ++ rest)).trans (readNumber.eq_2 _ hne)

theorem IsReal.exists_signed (h : IsReal s) :
    ∃ negative digits tail, IsDigits digits ∧ s = minus negative ++ (digits ++ tail) := by
  cases h with
  | integer hwhole => exact ⟨_, _, [], hwhole.toIsDigits, by rw [List.append_nil]⟩
  | decimal hwhole => exact ⟨_, _, _, hwhole.toIsDigits, rfl⟩

theorem IsReal.readValue_append (h : IsReal s) (fuel : Nat) (hr : Delimited rest) :
    readValue (fuel + 1) (s ++ rest) = some (real (String.ofList s), rest) := by
  cases h with
  | integer hwhole hlarge =>
      rw [List.append_assoc, readValue_signed fuel _ hwhole.toIsDigits, readUnsigned_whole _ hwhole hr, hlarge]
  | @decimal _ _ fraction exponent hwhole hfraction hexponent hne =>
      have hsome : ¬(fraction.isEmpty && exponent.isEmpty) = true := by
        rcases hne with hne | hne <;> simp [hne]
      simp only [List.append_assoc]
      rw [readValue_signed fuel _ hwhole.toIsDigits, readUnsigned_append _ hwhole hfraction hexponent hr, if_neg hsome]
      simp only [List.append_assoc]

theorem head_toDigits_ne_zero {n : Nat} (h : 0 < n) : (Nat.toDigits 10 n).head? ≠ some '0' := by
  induction n using Nat.strongRecOn with
  | ind n ih =>
      by_cases hn : n < 10
      · rw [Nat.toDigits_of_lt_base hn]
        have hall : ∀ m : Fin 10, 0 < m.val → [Nat.digitChar m].head? ≠ some '0' := by decide
        exact hall ⟨n, hn⟩ h
      · rw [Nat.toDigits_of_base_le (by omega) (by omega), List.head?_append]
        have hq := ih (n / 10) (by omega) (by omega)
        cases hd : Nat.toDigits 10 (n / 10) with
        | nil => exact absurd hd Nat.toDigits_ne_nil
        | cons c s => rw [hd] at hq; exact hq

theorem isWhole_toDigits (n : Nat) : IsWhole (Nat.toDigits 10 n) where
  ne_nil := Nat.toDigits_ne_nil
  digits _ hc := Nat.isDigit_of_mem_toDigits (by omega) (by omega) hc
  zero hzero := by
    rcases Nat.eq_zero_or_pos n with rfl | hn
    · rfl
    · exact absurd hzero (head_toDigits_ne_zero hn)

theorem isReal_toDigits {n : Nat} (h : Word.count 64 ≤ n) : IsReal (Nat.toDigits 10 n) := by
  have hlarge : ofDigits false (Nat.toDigits 10 n) = real (String.ofList (Nat.toDigits 10 n)) := by
    rw [ofDigits, Nat.ofDigitChars_ten_toDigits]
    simp [Nat.not_lt.2 h]
  exact .integer (isWhole_toDigits n) hlarge

theorem readValue_intChars (fuel : Nat) {n : Int} (hlo : -(Word.count 63 : Int) ≤ n) (hhi : n < Word.count 64)
    {rest : List Char} (hr : Delimited rest) :
    readValue (fuel + 1) (intChars n ++ rest) = some (int n, rest) := by
  cases n with
  | ofNat n =>
      have hwhole := isWhole_toDigits n
      have hn : n < Word.count 64 := by simpa using hhi
      have hread := readValue_signed fuel false hwhole.toIsDigits rest
      rw [readUnsigned_whole false hwhole hr, ofDigits, Nat.ofDigitChars_ten_toDigits] at hread
      simpa [intChars, minus, hn] using hread
  | negSucc n =>
      have hwhole := isWhole_toDigits (n + 1)
      have hn : n + 1 ≤ Word.count 63 := by omega
      have hread := readValue_signed fuel true hwhole.toIsDigits rest
      rw [readUnsigned_whole true hwhole hr, ofDigits, Nat.ofDigitChars_ten_toDigits] at hread
      simpa [intChars, minus, hn, Int.negSucc_eq] using hread

end Signpost.Json
