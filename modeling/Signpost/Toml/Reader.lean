import Signpost.Toml.Node
import Signpost.Toml.Number

namespace Signpost.Toml

def startsNumber (c : Char) : Bool :=
  c.isDigit || c == '+' || c == '-' || c == 'i' || c == 'n'

mutual

def readValue : Nat → Nat → List Char → Option (Json × List Char)
  | 0, _, _ => none
  | _ + 1, _, 't' :: 'r' :: 'u' :: 'e' :: s => some (.bool true, s)
  | _ + 1, _, 'f' :: 'a' :: 'l' :: 's' :: 'e' :: s => some (.bool false, s)
  | fuel + 1, level, '[' :: s =>
    if level + 1 < maxDepth then do
      let (items, s) ← readItems fuel (level + 1) s
      return (.arr items, s)
    else none
  | fuel + 1, level, '\x7b' :: s =>
    if level + 1 < maxDepth then
      match skipSpace s with
      | '\x7d' :: s => some (.obj [], s)
      | s => do
        let (table, s) ← readPairs fuel (level + 1) Node.empty s
        return (table.toJson, s)
    else none
  | fuel + 1, _, c :: s =>
    if startsNumber c then readNumber (c :: s)
    else (readString fuel (c :: s)).map fun (text, rest) => (.str (String.ofList text), rest)
  | _, _, [] => none

def readItems : Nat → Nat → List Char → Option (List Json × List Char)
  | 0, _, _ => none
  | fuel + 1, level, s =>
    match skipLines fuel s with
    | ']' :: s => some ([], s)
    | s => do
      let (v, s) ← readValue fuel level s
      match skipLines fuel s with
      | ',' :: s =>
        let (vs, s) ← readItems fuel level s
        return (v :: vs, s)
      | ']' :: s => return ([v], s)
      | _ => none

def readPairs : Nat → Nat → Node → List Char → Option (Node × List Char)
  | 0, _, _, _ => none
  | fuel + 1, level, table, s => do
    let (path, s) ← readKey fuel s
    let s ← expect '=' s
    let (v, s) ← readValue fuel level (skipSpace s)
    let table ← table.assign path v
    match skipSpace s with
    | ',' :: s => readPairs fuel level table s
    | '\x7d' :: s => return (table, s)
    | _ => none

end

structure Progress where
  root : Node := Node.empty
  header : List String := []

def readEntry (fuel : Nat) (p : Progress) (s : List Char) : Option (Progress × List Char) := do
  let (path, s) ← readKey fuel s
  let s ← expect '=' s
  let (v, s) ← readValue fuel 0 (skipSpace s)
  let s ← lineEnd? s
  let root ← p.root.change false (·.assign path v) p.header
  return ({ p with root }, s)

def readHeader (fuel : Nat) (p : Progress) (s : List Char) : Option (Progress × List Char) := do
  let (path, s) ← readKey fuel s
  let s ← expect ']' s
  let s ← lineEnd? s
  let root ← p.root.define path
  return (⟨root, path⟩, s)

def readArrayHeader (fuel : Nat) (p : Progress) (s : List Char) : Option (Progress × List Char) := do
  let (path, s) ← readKey fuel s
  let s ← expect ']' s
  let s ← expect ']' s
  let s ← lineEnd? s
  let root ← p.root.append path
  return (⟨root, path⟩, s)

def readLine (fuel : Nat) (p : Progress) : List Char → Option (Progress × List Char)
  | '[' :: '[' :: s => readArrayHeader fuel p s
  | '[' :: s => readHeader fuel p s
  | s => readEntry fuel p s

def readDocument (size : Nat) : Nat → Progress → List Char → Option Node
  | 0, _, _ => none
  | fuel + 1, p, s =>
    match skipSpace s with
    | [] => some p.root
    | s =>
      match lineEnd? s with
      | some s => readDocument size fuel p s
      | none => do
        let (p, s) ← readLine size p s
        readDocument size fuel p s

def ofText? (text : String) : Option Json :=
  let s :=
    match text.toList with
    | '\uFEFF' :: s => s
    | s => s
  let size := s.length + 2
  (readDocument size size {} s).map Node.toJson

end Signpost.Toml
