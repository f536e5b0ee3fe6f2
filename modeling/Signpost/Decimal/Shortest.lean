import Signpost.Decimal.Binary

namespace Signpost.Decimal

/-- The number `digits * 10 ^ exponent`. -/
structure Shortest where
  digits : Nat
  exponent : Int
  deriving DecidableEq, Repr

namespace Shortest

/-- Whether `d * 10 ^ j` rounds to `b`: it lies no further than half a step away, and at the border
only if the mantissa is even. Below a power of two steps are half as long. -/
def roundsTo (b : Binary) (d : Nat) (j : Int) : Bool :=
  let m := b.mantissa
  -- everything in quarters of a step
  let value := d * Nat.pow 10 j.toNat * 4 * Nat.pow 2 (-b.exponent).toNat
  let unit := Nat.pow 10 (-j).toNat * Nat.pow 2 b.exponent.toNat
  let low := (4 * m - if m = Binary.leastMantissa then 1 else 2) * unit
  let high := (4 * m + 2) * unit
  if m % 2 = 0 then low ≤ value && value ≤ high else low < value && value < high

/-- The neighbours of `b` on the grid of multiples of `10 ^ j` that round to it, the nearer first. Of two
that are equally near the even one comes first. -/
def candidates (b : Binary) (j : Int) : List Nat :=
  let (num, den) := b.fraction
  let num := num * Nat.pow 10 (-j).toNat
  let den := den * Nat.pow 10 j.toNat
  let below := num / den
  let twice := 2 * (num % den)
  let order :=
    if twice < den ∨ (twice = den ∧ below % 2 = 0) then [below, below + 1] else [below + 1, below]
  order.filter fun d => roundsTo b d j

/-- The coarsest grid with a neighbour that rounds to `b`, from `10 ^ j` downwards. -/
def search (b : Binary) : Nat → Int → Shortest
  -- not reached: 17 digits are always enough
  | 0, j => ⟨1, j⟩
  | fuel + 1, j =>
    match candidates b j with
    | d :: _ => ⟨d, j⟩
    | [] => search b fuel (j - 1)

def ofBinary (b : Binary) : Shortest :=
  let (num, den) := b.fraction
  let size : Int :=
    if den ≤ num then (Nat.toDigits 10 (num / den)).length else -((Nat.toDigits 10 (den / num)).length : Int)
  search b 24 (size + 1)

def exponentText (e : Int) : String :=
  (if 0 ≤ e then "e+" else "e") ++ toString e

/-- Positional notation from 0.00001 up to 16 digits, with at least one digit after the point; beyond
that the exponent is written out. -/
def toText (s : Shortest) : String :=
  let digits := Nat.toDigits 10 s.digits
  let point : Int := digits.length + s.exponent
  if 0 ≤ s.exponent ∧ point ≤ 16 then
    String.ofList (digits ++ List.replicate s.exponent.toNat '0') ++ ".0"
  else if 0 < point ∧ point ≤ 16 then
    String.ofList (digits.take point.toNat) ++ "." ++ String.ofList (digits.drop point.toNat)
  else if -5 < point ∧ point ≤ 0 then
    "0." ++ String.ofList (List.replicate (-point).toNat '0' ++ digits)
  else
    let fraction := if digits.length = 1 then "" else "." ++ String.ofList (digits.drop 1)
    String.ofList (digits.take 1) ++ fraction ++ exponentText (point - 1)

end Shortest

def Binary.toText (b : Binary) : String :=
  if b.mantissa = 0 then "0.0" else (Shortest.ofBinary b).toText

end Signpost.Decimal
