import Signpost.Json.Basic

namespace Signpost.Toml

/-- The tree of a document while it is read. Tables that only a longer path names are implicit, and may
still be defined once; those that dotted keys make are open to further dotted keys only. -/
inductive Node where
  | value (v : Json)
  | table (isImplicit isDotted : Bool) (entries : List (String × Node))
  | tables (items : List Node)

namespace Node

def empty : Node := table false false []

def isDotted : Node → Bool
  | table _ d _ => d
  | _ => false

def replace (key : String) (n : Node) : List (String × Node) → List (String × Node)
  | [] => [(key, n)]
  | (k, m) :: entries => if k = key then (k, n) :: entries else (k, m) :: replace key n entries

def replaceLast (n : Node) : List Node → List Node
  | [] => [n]
  | [_] => [n]
  | m :: ms => m :: replaceLast n ms

def change (dotted : Bool) (f : Node → Option Node) : List String → Node → Option Node
  | [], n => f n
  | key :: path, table i d entries =>
    match entries.lookup key with
    | none => do
      let child ← change dotted f path (table true dotted [])
      return table i d (entries ++ [(key, child)])
    | some (value _) => none
    | some (tables items) => do
      let last ← items.getLast?
      let child ← change dotted f path last
      return table i d (replace key (tables (replaceLast child items)) entries)
    | some (table i' d' inner) =>
      if dotted && !i' then none
      else do
        let child ← change dotted f path (table i' d' inner)
        return table i d (replace key child entries)
  | _ :: _, _ => none

def insertNew (key : String) (n : Node) : Node → Option Node
  | table i d entries =>
    if (entries.lookup key).isNone then some (table i d (entries ++ [(key, n)])) else none
  | _ => none

def assign (path : List String) (v : Json) (n : Node) : Option Node :=
  match path.getLast? with
  | none => none
  | some key =>
    let parents := path.dropLast
    change true (fun t => if t.isDotted == parents.isEmpty then none else insertNew key (value v) t)
      parents n

def define (path : List String) (n : Node) : Option Node :=
  match path.getLast? with
  | none => none
  | some key =>
    let inParent : Node → Option Node
      | table i d entries =>
        match entries.lookup key with
        | none => some (table i d (entries ++ [(key, empty)]))
        | some (table true false inner) => some (table i d (replace key (table false false inner) entries))
        | _ => none
      | _ => none
    change false inParent path.dropLast n

def append (path : List String) (n : Node) : Option Node :=
  match path.getLast? with
  | none => none
  | some key =>
    let inParent : Node → Option Node
      | table i d entries =>
        match entries.lookup key with
        | none => some (table i d (entries ++ [(key, tables [empty])]))
        | some (tables items) => some (table i d (replace key (tables (items ++ [empty])) entries))
        | _ => none
      | _ => none
    change false inParent path.dropLast n

mutual

def toJson : Node → Json
  | value v => v
  | table _ _ entries => .obj (entriesToJson entries)
  | tables items => .arr (itemsToJson items)

def entriesToJson : List (String × Node) → List (String × Json)
  | [] => []
  | (k, n) :: entries => (k, toJson n) :: entriesToJson entries

def itemsToJson : List Node → List Json
  | [] => []
  | n :: ns => toJson n :: itemsToJson ns

end

end Node

end Signpost.Toml
