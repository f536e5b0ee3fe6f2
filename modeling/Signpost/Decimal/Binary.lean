namespace Signpost.Decimal

/-- The number `mantissa * 2 ^ exponent`. -/
structure Binary where
  mantissa : Nat
  exponent : Int
  deriving DecidableEq, Repr

namespace Binary

def leastMantissa : Nat :=
  Nat.pow 2 52

def fraction (b : Binary) : Nat × Nat :=
  (b.mantissa * Nat.pow 2 b.exponent.toNat, Nat.pow 2 (-b.exponent).toNat)

/-- The quotient rounded to the nearest natural number, halves to the even one. -/
def roundDiv (num den : Nat) : Nat :=
  let q := num / den
  let r := num % den
  if 2 * r < den then q else if den < 2 * r then q + 1 else q + q % 2

def round (num den : Nat) : Binary :=
  if num = 0 ∨ den = 0 then ⟨0, 0⟩
  else
    -- with this exponent the quotient has 53 or 54 bits before it is rounded
    let e : Int := (num.log2 : Int) - den.log2 - 53
    let quotient (e : Int) : Nat := roundDiv (num * Nat.pow 2 (-e).toNat) (den * Nat.pow 2 e.toNat)
    if quotient e < 2 * leastMantissa then ⟨quotient e, e⟩
    else if quotient (e + 1) = 2 * leastMantissa then ⟨leastMantissa, e + 2⟩
    else ⟨quotient (e + 1), e + 1⟩

def add (a b : Binary) : Binary :=
  let (an, ad) := a.fraction
  let (bn, bd) := b.fraction
  round (an * bd + bn * ad) (ad * bd)

end Binary

end Signpost.Decimal
