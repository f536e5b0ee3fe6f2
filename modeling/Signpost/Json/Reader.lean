import Signpost.Json.Basic
import Signpost.Word

namespace Signpost.Json

def isSpace (c : Char) : Bool :=
  c == ' ' || c == '\n' || c == '\r' || c == '\t'

def skipSpace (s : List Char) : List Char :=
  s.dropWhile isSpace

def hexValue? (c : Char) : Option Nat :=
  if '0' ≤ c ∧ c ≤ '9' then some (c.toNat - '0'.toNat)
  else if 'a' ≤ c ∧ c ≤ 'f' then some (c.toNat - 'a'.toNat + 10)
  else if 'A' ≤ c ∧ c ≤ 'F' then some (c.toNat - 'A'.toNat + 10)
  else none

def hex4? (a b c d : Char) : Option Nat := do
  return (((← hexValue? a) * 16 + (← hexValue? b)) * 16 + (← hexValue? c)) * 16 + (← hexValue? d)

/-- What a string is made of: characters, and halves of surrogate pairs. -/
inductive Piece where
  | char (c : Char)
  | half (unit : Nat)

namespace Piece

def ofUnit (n : Nat) : Piece :=
  if 0xD800 ≤ n ∧ n < 0xE000 then half n else char (Char.ofNat n)

/-- A leading half and the trailing half right after it make a character. -/
def text? : List Piece → Option (List Char)
  | [] => some []
  | char c :: pieces => (text? pieces).map (c :: ·)
  | half hi :: half lo :: pieces =>
    if hi < 0xDC00 ∧ 0xDC00 ≤ lo then
      (text? pieces).map (Char.ofNat (0x10000 + (hi - 0xD800) * 0x400 + (lo - 0xDC00)) :: ·)
    else none
  | half _ :: _ => none

end Piece

def unescape? : Char → Option Char
  | '"' => some '"'
  | '\\' => some '\\'
  | '/' => some '/'
  | 'b' => some '\x08'
  | 'f' => some '\x0c'
  | 'n' => some '\n'
  | 'r' => some '\r'
  | 't' => some '\t'
  | _ => none

def readPieces : List Char → Option (List Piece × List Char)
  | [] => none
  | '"' :: s => some ([], s)
  | '\\' :: 'u' :: a :: b :: c :: d :: s => do
    let unit ← hex4? a b c d
    let (pieces, rest) ← readPieces s
    return (Piece.ofUnit unit :: pieces, rest)
  | '\\' :: e :: s => do
    let c ← unescape? e
    let (pieces, rest) ← readPieces s
    return (.char c :: pieces, rest)
  | c :: s =>
    if c.toNat < 0x20 then none
    else do
      let (pieces, rest) ← readPieces s
      return (.char c :: pieces, rest)

def readText (s : List Char) : Option (Option String × List Char) := do
  let (pieces, rest) ← readPieces s
  return ((Piece.text? pieces).map String.ofList, rest)

def readString (s : List Char) : Option (Json × List Char) := do
  let (text, rest) ← readText s
  return (text.elim illFormed str, rest)

def spanDigits (s : List Char) : List Char × List Char :=
  (s.takeWhile Char.isDigit, s.dropWhile Char.isDigit)

def readWhole (s : List Char) : Option (List Char × List Char) :=
  match spanDigits s with
  | ([], _) => none
  | ('0' :: _ :: _, _) => none
  | found => some found

def readFraction : List Char → Option (List Char × List Char)
  | '.' :: s =>
    match spanDigits s with
    | ([], _) => none
    | (digits, rest) => some ('.' :: digits, rest)
  | s => some ([], s)

def spanSign : List Char → List Char × List Char
  | '+' :: s => (['+'], s)
  | '-' :: s => (['-'], s)
  | s => ([], s)

def readExponent : List Char → Option (List Char × List Char)
  | e :: s =>
    if e = 'e' ∨ e = 'E' then
      let (sign, s) := spanSign s
      match spanDigits s with
      | ([], _) => none
      | (digits, rest) => some (e :: (sign ++ digits), rest)
    else some ([], e :: s)
  | [] => some ([], [])

/-- The number with this sign and these digits: integers that 64 bits hold are `int`, and minus zero
is not an integer. -/
def ofDigits (negative : Bool) (digits : List Char) : Json :=
  let n := Nat.ofDigitChars 10 digits 0
  if negative then
    if n ≠ 0 ∧ n ≤ Word.count 63 then int (-n) else real (String.ofList ('-' :: digits))
  else if n < Word.count 64 then int n
  else real (String.ofList digits)

def readUnsigned (negative : Bool) (s : List Char) : Option (Json × List Char) := do
  let (whole, s) ← readWhole s
  let (fraction, s) ← readFraction s
  let (exponent, s) ← readExponent s
  if fraction.isEmpty && exponent.isEmpty then return (ofDigits negative whole, s)
  else
    let sign := if negative then ['-'] else []
    return (real (String.ofList (sign ++ whole ++ fraction ++ exponent)), s)

def readNumber : List Char → Option (Json × List Char)
  | '-' :: s => readUnsigned true s
  | s => readUnsigned false s

mutual

def readValue : Nat → List Char → Option (Json × List Char)
  | 0, _ => none
  | _ + 1, 'n' :: 'u' :: 'l' :: 'l' :: s => some (null, s)
  | _ + 1, 't' :: 'r' :: 'u' :: 'e' :: s => some (bool true, s)
  | _ + 1, 'f' :: 'a' :: 'l' :: 's' :: 'e' :: s => some (bool false, s)
  | _ + 1, '"' :: s => readString s
  | fuel + 1, '[' :: s =>
    match skipSpace s with
    | ']' :: s => some (arr [], s)
    | s => do
      let (v, s) ← readValue fuel s
      let (vs, s) ← readItems fuel (skipSpace s)
      return (arr (v :: vs), s)
  | fuel + 1, '\x7b' :: s =>
    match skipSpace s with
    | '\x7d' :: s => some (obj [], s)
    | s => do
      let (field, s) ← readField fuel s
      let (fields, s) ← readFields fuel (skipSpace s)
      return (ofFields (field :: fields), s)
  | _ + 1, s => readNumber s

def readItems : Nat → List Char → Option (List Json × List Char)
  | _ + 1, ']' :: s => some ([], s)
  | fuel + 1, ',' :: s => do
    let (v, s) ← readValue fuel (skipSpace s)
    let (vs, s) ← readItems fuel (skipSpace s)
    return (v :: vs, s)
  | _, _ => none

def readField : Nat → List Char → Option ((Option String × Json) × List Char)
  | fuel + 1, '"' :: s => do
    let (key, s) ← readText s
    match skipSpace s with
    | ':' :: s =>
      let (v, s) ← readValue fuel (skipSpace s)
      return ((key, v), s)
    | _ => none
  | _, _ => none

def readFields : Nat → List Char → Option (List (Option String × Json) × List Char)
  | _ + 1, '\x7d' :: s => some ([], s)
  | fuel + 1, ',' :: s => do
    let (field, s) ← readField fuel (skipSpace s)
    let (fields, s) ← readFields fuel (skipSpace s)
    return (field :: fields, s)
  | _, _ => none

end

def ofChars? (s : List Char) : Option Json :=
  match readValue (2 * s.length + 2) (skipSpace s) with
  | some (v, rest) => if (skipSpace rest).isEmpty then some v else none
  | none => none

def ofText? (s : String) : Option Json :=
  ofChars? s.toList

def maxDepth : Nat := 127

/-- A document of any kind in memory: it nests no deeper than 127 levels and holds text only, and its
objects are maps. `ofText?` gives documents as they stand. -/
def value? (s : String) : Option Json :=
  match ofText? s with
  | some v => if v.depth ≤ maxDepth ∧ v.isText then some v.canonical else none
  | none => none

end Signpost.Json
