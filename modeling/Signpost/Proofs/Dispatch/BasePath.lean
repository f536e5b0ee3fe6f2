import Signpost.Dispatch.Router

namespace Signpost.Router

variable {base uri : String}

theorem after?_eq_some_iff {p s t : List Char} : after? p s = some t ↔ s = p ++ t := by
  induction p generalizing s with
  | nil => simp [after?]
  | cons c p ih =>
      cases s with
      | nil => simp [after?]
      | cons d s =>
          by_cases h : c = d
          · simp [after?, h, ih]
          · simp [after?, h, Ne.symm h]

/-- The URI begins with the base path, which ends there together with a segment. -/
def IsBelow (base uri : String) : Prop :=
  trimSlashes base.toList ≠ [] ∧
    ∃ rest, uri.toList = trimSlashes base.toList ++ rest ∧ ∀ c ∈ rest.head?, c = '/' ∨ c = '#'

theorem stripBase_of_eq_append {rest : List Char} (hbase : trimSlashes base.toList ≠ [])
    (huri : uri.toList = trimSlashes base.toList ++ rest) :
    stripBase base uri =
      if rest = [] ∨ rest.head? = some '#' then "/"
      else if rest.head? = some '/' then String.ofList rest
      else uri := by
  rw [stripBase]
  split
  · exact absurd ‹_› hbase
  · rw [after?_eq_some_iff.2 huri]
    cases rest with
    | nil => rfl
    | cons c rest => split <;> simp_all

theorem stripBase_of_not_below (h : ¬IsBelow base uri) : stripBase base uri = uri := by
  rw [stripBase]
  split
  · rfl
  · rename_i hbase
    have hbelow {rest : List Char} (hafter : after? (trimSlashes base.toList) uri.toList = some rest)
        (hrest : ∀ c ∈ rest.head?, c = '/' ∨ c = '#') : IsBelow base uri :=
      ⟨hbase, rest, after?_eq_some_iff.1 hafter, hrest⟩
    split
    · exact absurd (hbelow ‹_› (by simp)) h
    · exact absurd (hbelow ‹_› (by simp)) h
    · exact absurd (hbelow ‹_› (by simp)) h
    · rfl

theorem stripBase_cases (base uri : String) :
    stripBase base uri = uri ∨ ∃ rest, (stripBase base uri).toList = '/' :: rest := by
  rw [stripBase]
  split
  · exact .inl rfl
  · split
    · exact .inr ⟨[], rfl⟩
    · exact .inr ⟨[], rfl⟩
    · exact .inr ⟨_, String.toList_ofList⟩
    · exact .inl rfl

end Signpost.Router
