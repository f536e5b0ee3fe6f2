import Signpost.Decimal.Shortest
import Signpost.Proofs.Json.Atom

namespace Signpost

open Json (IsDigits IsWhole IsFraction IsExponent IsReal)

namespace Json

variable {s t : List Char}

theorem isDigits_zero : IsDigits ['0'] :=
  ⟨by simp, by simp⟩

theorem isWhole_zero : IsWhole ['0'] :=
  ⟨isDigits_zero, by simp⟩

theorem IsDigits.append_zeros (h : IsDigits s) (k : Nat) : IsDigits (s ++ List.replicate k '0') := by
  refine ⟨List.append_ne_nil_of_left_ne_nil h.ne_nil _, fun c hc => ?_⟩
  rcases List.mem_append.1 hc with hc | hc
  · exact h.digits c hc
  · rw [List.eq_of_mem_replicate hc]
    rfl

theorem IsDigits.zeros_append (h : IsDigits s) (k : Nat) : IsDigits (List.replicate k '0' ++ s) := by
  refine ⟨List.append_ne_nil_of_right_ne_nil _ h.ne_nil, fun c hc => ?_⟩
  rcases List.mem_append.1 hc with hc | hc
  · rw [List.eq_of_mem_replicate hc]
    rfl
  · exact h.digits c hc

theorem IsDigits.head?_append (h : IsDigits s) (t : List Char) : (s ++ t).head? = s.head? := by
  obtain ⟨c, s, rfl, -⟩ := h.exists_cons
  rfl

theorem IsDigits.isWhole (h : IsDigits s) (hhead : s.head? ≠ some '0') : IsWhole s :=
  ⟨h, fun hzero => absurd hzero hhead⟩

theorem IsDigits.take (h : IsDigits s) {k : Nat} (hk : 0 < k) : IsDigits (s.take k) := by
  refine ⟨fun hnil => ?_, fun c hc => h.digits c (List.mem_of_mem_take hc)⟩
  rcases List.take_eq_nil_iff.1 hnil with rfl | hs
  · exact absurd hk (Nat.lt_irrefl 0)
  · exact h.ne_nil hs

theorem IsDigits.drop (h : IsDigits s) {k : Nat} (hk : k < s.length) : IsDigits (s.drop k) := by
  refine ⟨fun hnil => ?_, fun c hc => h.digits c (List.mem_of_mem_drop hc)⟩
  exact absurd (List.drop_eq_nil_iff.1 hnil) (Nat.not_le.2 hk)

theorem IsDigits.isWhole_take (h : IsDigits s) (hhead : s.head? ≠ some '0') {k : Nat} (hk : 0 < k) :
    IsWhole (s.take k) := by
  apply (h.take hk).isWhole
  rwa [List.head?_take, if_neg (Nat.pos_iff_ne_zero.1 hk)]

theorem isReal_point (hwhole : IsWhole s) (hdigits : IsDigits t) : IsReal (s ++ '.' :: t) := by
  have hreal := @IsReal.decimal false s ('.' :: t) [] hwhole (.present hdigits) .absent (.inl (List.cons_ne_nil _ _))
  rwa [List.append_nil] at hreal

end Json

namespace Decimal

theorem isExponent_exponentText (e : Int) : IsExponent (Shortest.exponentText e).toList := by
  cases e with
  | ofNat n =>
      have hdigits := (Json.isWhole_toDigits n).toIsDigits
      have hsign : 0 ≤ Int.ofNat n := Int.natCast_nonneg n
      have htext : (toString (Int.ofNat n)).toList = Nat.toDigits 10 n := Nat.toList_repr
      rw [Shortest.exponentText, if_pos hsign, String.toList_append, htext]
      exact @IsExponent.present 'e' ['+'] _ (.inl rfl) (.inr (.inl rfl)) hdigits
  | negSucc n =>
      have hdigits := (Json.isWhole_toDigits (n + 1)).toIsDigits
      have htext : (toString (Int.negSucc n)).toList = '-' :: Nat.toDigits 10 (n + 1) := by
        have hsplit : toString (Int.negSucc n) = "-" ++ Nat.repr (n + 1) := rfl
        rw [hsplit, String.toList_append, Nat.toList_repr]
        rfl
      rw [Shortest.exponentText, if_neg (Int.not_le.2 (Int.negSucc_lt_zero n)), String.toList_append, htext]
      exact @IsExponent.present 'e' ['-'] _ (.inl rfl) (.inr (.inr rfl)) hdigits

namespace Shortest

variable {b : Binary}

theorem roundsTo_zero (hb : b.mantissa ≠ 0) (j : Int) : roundsTo b 0 j = false := by
  have hunit : 0 < Nat.pow 10 (-j).toNat * Nat.pow 2 b.exponent.toNat :=
    Nat.mul_pos (Nat.pow_pos (by decide)) (Nat.pow_pos (by decide))
  have hlow : 0 < (4 * b.mantissa - if b.mantissa = Binary.leastMantissa then 1 else 2) *
      (Nat.pow 10 (-j).toNat * Nat.pow 2 b.exponent.toNat) := by
    apply Nat.mul_pos _ hunit
    split <;> omega
  rw [roundsTo]
  simp only [Nat.zero_mul]
  split
  · rw [decide_eq_false (Nat.not_le.2 hlow), Bool.false_and]
  · rw [decide_eq_false (Nat.not_lt.2 (Nat.zero_le _)), Bool.false_and]

theorem ne_zero_of_mem_candidates (hb : b.mantissa ≠ 0) {d : Nat} {j : Int} (hd : d ∈ candidates b j) : d ≠ 0 := by
  rintro rfl
  have hrounds := (List.mem_filter.1 hd).2
  rw [roundsTo_zero hb] at hrounds
  cases hrounds

theorem digits_search (hb : b.mantissa ≠ 0) (fuel : Nat) (j : Int) : (search b fuel j).digits ≠ 0 := by
  induction fuel generalizing j with
  | zero => exact Nat.one_ne_zero
  | succ fuel ih =>
      rw [search]
      split
      · next d ds hd =>
          apply ne_zero_of_mem_candidates hb
          rw [hd]
          exact List.mem_cons_self
      · exact ih (j - 1)

theorem isReal_toText {s : Shortest} (hs : s.digits ≠ 0) : IsReal s.toText.toList := by
  have hdigits := (Json.isWhole_toDigits s.digits).toIsDigits
  have hhead := Json.head_toDigits_ne_zero (Nat.pos_of_ne_zero hs)
  rw [toText]
  generalize Nat.toDigits 10 s.digits = digits at hdigits hhead
  have hlength := List.length_pos_iff.2 hdigits.ne_nil
  dsimp only
  split
  · have hwhole : IsWhole (digits ++ List.replicate s.exponent.toNat '0') := by
      apply (hdigits.append_zeros _).isWhole
      rwa [hdigits.head?_append]
    rw [String.toList_append, String.toList_ofList]
    exact Json.isReal_point hwhole Json.isDigits_zero
  · split
    · next hlarge hpoint =>
        have hwhole : IsWhole (digits.take (digits.length + s.exponent).toNat) :=
          hdigits.isWhole_take hhead (by omega)
        have hfraction : IsDigits (digits.drop (digits.length + s.exponent).toNat) := hdigits.drop (by omega)
        simp only [String.toList_append, String.toList_ofList, List.append_assoc]
        exact Json.isReal_point hwhole hfraction
    · split
      · simp only [String.toList_append, String.toList_ofList]
        exact Json.isReal_point Json.isWhole_zero (hdigits.zeros_append _)
      · have hwhole : IsWhole (digits.take 1) := hdigits.isWhole_take hhead Nat.one_pos
        have hfraction :
            IsFraction (if digits.length = 1 then "" else "." ++ String.ofList (digits.drop 1)).toList := by
          split
          · exact .absent
          · simp only [String.toList_append, String.toList_ofList]
            exact .present (hdigits.drop (by omega))
        have hexponent := isExponent_exponentText (digits.length + s.exponent - 1)
        have hne : (exponentText (digits.length + s.exponent - 1)).toList ≠ [] := by
          rw [exponentText, String.toList_append]
          split <;> exact List.cons_ne_nil _ _
        simp only [String.toList_append, String.toList_ofList, List.append_assoc]
        exact @IsReal.decimal false _ _ _ hwhole hfraction hexponent (.inr hne)

end Shortest

theorem Binary.isReal_toText (b : Binary) : IsReal b.toText.toList := by
  rw [toText]
  split
  · exact Json.isReal_point Json.isWhole_zero Json.isDigits_zero
  · next hb => exact Shortest.isReal_toText (Shortest.digits_search hb 24 _)

end Decimal

end Signpost
