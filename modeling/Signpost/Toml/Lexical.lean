import Signpost.Json.Reader

namespace Signpost.Toml

open Json (hexValue?)

def isSpace (c : Char) : Bool :=
  c == ' ' || c == '\t'

def skipSpace (s : List Char) : List Char :=
  s.dropWhile isSpace

def newLine? : List Char → Option (List Char)
  | '\n' :: s => some s
  | '\r' :: '\n' :: s => some s
  | _ => none

def isPrintable (c : Char) : Bool :=
  c == '\t' || (0x20 ≤ c.toNat && c.toNat != 0x7F)

def skipComment : List Char → List Char
  | '#' :: s => s.dropWhile isPrintable
  | s => s

def lineEnd? (s : List Char) : Option (List Char) :=
  match skipComment (skipSpace s) with
  | [] => some []
  | s => newLine? s

def skipLines : Nat → List Char → List Char
  | 0, s => s
  | fuel + 1, s =>
    let s := skipSpace s
    match newLine? (skipComment s) with
    | some rest => skipLines fuel rest
    | none => s

def isBasicChar (c : Char) : Bool :=
  isPrintable c && c != '"' && c != '\\'

def isLiteralChar (c : Char) : Bool :=
  isPrintable c && c != '\''

def hexNumber? (digits : List Char) : Option Nat :=
  digits.foldlM (fun n c => (hexValue? c).map (n * 16 + ·)) 0

def scalar? (n : Nat) : Option Char :=
  if n.isValidChar then some (Char.ofNat n) else none

def simpleEscape? : Char → Option Char
  | 'b' => some '\x08'
  | 't' => some '\t'
  | 'n' => some '\n'
  | 'f' => some '\x0c'
  | 'r' => some '\r'
  | '"' => some '"'
  | '\\' => some '\\'
  | _ => none

def escape? : List Char → Option (Char × List Char)
  | 'u' :: s =>
    if s.length < 4 then none
    else do
      let c ← (hexNumber? (s.take 4)).bind scalar?
      return (c, s.drop 4)
  | 'U' :: s =>
    if s.length < 8 then none
    else do
      let c ← (hexNumber? (s.take 8)).bind scalar?
      return (c, s.drop 8)
  | c :: s => (simpleEscape? c).map (·, s)
  | [] => none

def prepend (c : Char) (r : Option (List Char × List Char)) : Option (List Char × List Char) :=
  r.map fun (text, rest) => (c :: text, rest)

def readBasic : Nat → List Char → Option (List Char × List Char)
  | 0, _ => none
  | _ + 1, '"' :: s => some ([], s)
  | fuel + 1, '\\' :: s => do
    let (c, s) ← escape? s
    prepend c (readBasic fuel s)
  | fuel + 1, c :: s => if isBasicChar c then prepend c (readBasic fuel s) else none
  | _, [] => none

def readLiteral : List Char → Option (List Char × List Char)
  | '\'' :: s => some ([], s)
  | c :: s => if isLiteralChar c then prepend c (readLiteral s) else none
  | [] => none

def skipBlankLines : Nat → List Char → List Char
  | 0, s => s
  | fuel + 1, s =>
    match newLine? (skipSpace s) with
    | some rest => skipBlankLines fuel rest
    | none => skipSpace s

def readLongBasic : Nat → List Char → Option (List Char × List Char)
  | 0, _ => none
  | _ + 1, '"' :: '"' :: '"' :: '"' :: '"' :: s => some (['"', '"'], s)
  | _ + 1, '"' :: '"' :: '"' :: '"' :: s => some (['"'], s)
  | _ + 1, '"' :: '"' :: '"' :: s => some ([], s)
  | fuel + 1, '\\' :: s =>
    match newLine? (skipSpace s) with
    | some rest => readLongBasic fuel (skipBlankLines fuel rest)
    | none => do
      let (c, s) ← escape? s
      prepend c (readLongBasic fuel s)
  | fuel + 1, s =>
    match newLine? s with
    | some rest => prepend '\n' (readLongBasic fuel rest)
    | none =>
      match s with
      | c :: s => if isBasicChar c || c == '"' then prepend c (readLongBasic fuel s) else none
      | [] => none

def readLongLiteral : Nat → List Char → Option (List Char × List Char)
  | 0, _ => none
  | _ + 1, '\'' :: '\'' :: '\'' :: '\'' :: '\'' :: s => some (['\'', '\''], s)
  | _ + 1, '\'' :: '\'' :: '\'' :: '\'' :: s => some (['\''], s)
  | _ + 1, '\'' :: '\'' :: '\'' :: s => some ([], s)
  | fuel + 1, s =>
    match newLine? s with
    | some rest => prepend '\n' (readLongLiteral fuel rest)
    | none =>
      match s with
      | c :: s => if isLiteralChar c || c == '\'' then prepend c (readLongLiteral fuel s) else none
      | [] => none

def dropFirstNewLine (s : List Char) : List Char :=
  (newLine? s).getD s

def readString (fuel : Nat) : List Char → Option (List Char × List Char)
  | '"' :: '"' :: '"' :: s => readLongBasic fuel (dropFirstNewLine s)
  | '"' :: s => readBasic fuel s
  | '\'' :: '\'' :: '\'' :: s => readLongLiteral fuel (dropFirstNewLine s)
  | '\'' :: s => readLiteral s
  | _ => none

def isBareKeyChar (c : Char) : Bool :=
  c.isAlphanum || c == '-' || c == '_'

def readSimpleKey (fuel : Nat) : List Char → Option (List Char × List Char)
  | '"' :: s => readBasic fuel s
  | '\'' :: s => readLiteral s
  | s =>
    match s.takeWhile isBareKeyChar with
    | [] => none
    | key => some (key, s.dropWhile isBareKeyChar)

def readKeys : Nat → List Char → Option (List String × List Char)
  | 0, _ => none
  | fuel + 1, s => do
    let (key, s) ← readSimpleKey fuel (skipSpace s)
    match skipSpace s with
    | '.' :: s =>
      let (keys, s) ← readKeys fuel s
      return (String.ofList key :: keys, s)
    | s => return ([String.ofList key], s)

def maxDepth : Nat := 80

def readKey (fuel : Nat) (s : List Char) : Option (List String × List Char) := do
  let (keys, s) ← readKeys fuel s
  if keys.length < maxDepth then return (keys, s) else none

end Signpost.Toml
