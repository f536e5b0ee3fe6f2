import Signpost.Toml.Lexical
import Signpost.Word

namespace Signpost.Toml

def moreDigits (isDigit : Char → Bool) : List Char → Option (List Char × List Char)
  | '_' :: c :: s => if isDigit c then prepend c (moreDigits isDigit s) else none
  | ['_'] => none
  | c :: s => if isDigit c then prepend c (moreDigits isDigit s) else some ([], c :: s)
  | [] => some ([], [])

def readDigits (isDigit : Char → Bool) : List Char → Option (List Char × List Char)
  | c :: s => if isDigit c then prepend c (moreDigits isDigit s) else none
  | [] => none

def readWhole : List Char → Option (List Char × List Char)
  | '0' :: s => some (['0'], s)
  | s => readDigits Char.isDigit s

def inInt64 (n : Int) : Bool :=
  -(Word.count 63 : Int) ≤ n && n < (Word.count 63 : Int)

def isDigitBelow (base : Nat) (c : Char) : Bool :=
  (Json.hexValue? c).any (· < base)

def readBase (base : Nat) (s : List Char) : Option (Json × List Char) := do
  let (digits, s) ← readDigits (isDigitBelow base) s
  let n := digits.foldl (fun n c => n * base + (Json.hexValue? c).getD 0) 0
  if inInt64 n then return (.int n, s) else none

def readDecimal (s : List Char) : Option (Json × List Char) := do
  let (sign, s) := Json.spanSign s
  let (digits, s) ← readWhole s
  let n : Int := Nat.ofDigitChars 10 digits 0
  let n := if sign = ['-'] then -n else n
  if inInt64 n then return (.int n, s) else none

def readInteger : List Char → Option (Json × List Char)
  | '0' :: 'x' :: s => readBase 16 s
  | '0' :: 'o' :: s => readBase 8 s
  | '0' :: 'b' :: s => readBase 2 s
  | s => readDecimal s

def readFraction : List Char → Option (List Char × List Char)
  | '.' :: s => readDigits Char.isDigit s
  | s => some ([], s)

def readExponent : List Char → Option ((List Char × List Char) × List Char)
  | e :: s =>
    if e = 'e' ∨ e = 'E' then do
      let (sign, s) := Json.spanSign s
      let (digits, s) ← readDigits Char.isDigit s
      return ((sign, digits), s)
    else some (([], []), e :: s)
  | [] => some (([], []), [])

def maxFinite : Nat :=
  Nat.pow 2 1024 - Nat.pow 2 970

def overflows (m : Nat) (e : Int) : Bool :=
  if m = 0 then false
  else
    let magnitude := ((Nat.toDigits 10 m).length : Int) + e
    if magnitude < 309 then false
    else if 310 < magnitude then true
    else
      if 0 ≤ e then maxFinite ≤ m * Nat.pow 10 e.toNat else maxFinite * Nat.pow 10 (-e).toNat ≤ m

def readFinite (s : List Char) : Option (Json × List Char) := do
  let (sign, rest) := Json.spanSign s
  let (whole, rest) ← readWhole rest
  let (fraction, rest) ← readFraction rest
  let ((expSign, exponent), rest) ← readExponent rest
  if fraction.isEmpty && exponent.isEmpty then none
  else
    let magnitude : Int := Nat.ofDigitChars 10 exponent 0
    let e := (if expSign = ['-'] then -magnitude else magnitude) - fraction.length
    if sign != ['-'] && overflows (Nat.ofDigitChars 10 (whole ++ fraction) 0) e then none
    else return (.real (String.ofList (s.take (s.length - rest.length))), rest)

def readSpecial (s : List Char) : Option (Json × List Char) :=
  match (Json.spanSign s).2 with
  | 'i' :: 'n' :: 'f' :: rest => some (.real "inf", rest)
  | 'n' :: 'a' :: 'n' :: rest => some (.real "nan", rest)
  | _ => none

def readFixed (n : Nat) (s : List Char) : Option (Nat × List Char) :=
  let digits := s.take n
  if digits.length = n ∧ digits.all Char.isDigit then some (Nat.ofDigitChars 10 digits 0, s.drop n)
  else none

def expect (c : Char) : List Char → Option (List Char)
  | d :: s => if c = d then some s else none
  | [] => none

def daysInMonth (year month : Nat) : Nat :=
  if month = 2 then
    if year % 4 = 0 ∧ (year % 100 ≠ 0 ∨ year % 400 = 0) then 29 else 28
  else if month ∈ [4, 6, 9, 11] then 30
  else 31

def skipDate? (s : List Char) : Option (List Char) := do
  let (year, s) ← readFixed 4 s
  let s ← expect '-' s
  let (month, s) ← readFixed 2 s
  let s ← expect '-' s
  let (day, s) ← readFixed 2 s
  if 1 ≤ month ∧ month ≤ 12 ∧ 1 ≤ day ∧ day ≤ daysInMonth year month then return s else none

def skipMinutes? (s : List Char) : Option (List Char) := do
  let (hour, s) ← readFixed 2 s
  let s ← expect ':' s
  let (minute, s) ← readFixed 2 s
  if hour < 24 ∧ minute < 60 then return s else none

def skipSecondFraction : List Char → List Char
  | '.' :: c :: s => if c.isDigit then s.dropWhile Char.isDigit else '.' :: c :: s
  | s => s

def skipTime? (s : List Char) : Option (List Char) := do
  let s ← skipMinutes? s
  let s ← expect ':' s
  let (second, s) ← readFixed 2 s
  if second ≤ 60 then return skipSecondFraction s else none

def skipOffset : List Char → List Char
  | 'Z' :: s | 'z' :: s => s
  | '+' :: s => (skipMinutes? s).getD ('+' :: s)
  | '-' :: s => (skipMinutes? s).getD ('-' :: s)
  | s => s

def skipTimeOfDate (s : List Char) : List Char :=
  match s with
  | c :: rest =>
    if c = 'T' ∨ c = 't' ∨ c = ' ' then ((skipTime? rest).map skipOffset).getD s else s
  | [] => []

def skipDateTime? (s : List Char) : Option (List Char) :=
  ((skipDate? s).map skipTimeOfDate).or (skipTime? s)

def dateField : String := "$date"

def readDateTime (s : List Char) : Option (Json × List Char) :=
  (skipDateTime? s).map fun rest =>
    (.obj [(dateField, .str (String.ofList (s.take (s.length - rest.length))))], rest)

def readNumber (s : List Char) : Option (Json × List Char) :=
  ((readDateTime s).or (readFinite s)).or ((readSpecial s).or (readInteger s))

end Signpost.Toml
