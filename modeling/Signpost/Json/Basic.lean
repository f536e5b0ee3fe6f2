namespace Signpost

/-- A document. Objects keep their fields in the order of the text, repeated ones included; `canonical` is
the reading of an object as a map. -/
inductive Json where
  | null
  | bool (b : Bool)
  /-- An integer of at most 64 bits. -/
  | int (n : Int)
  /-- Any other number, as it is written. -/
  | real (text : String)
  | str (text : String)
  /-- A string whose escapes name half of a surrogate pair, which is no text, or an object with such a
  key. -/
  | illFormed
  | arr (items : List Json)
  | obj (fields : List (String × Json))
  deriving Repr, Inhabited

namespace Json

/-- The value that counts among fields of one name is the last. -/
def field? (fields : List (String × Json)) (name : String) : Option Json :=
  (fields.reverse.find? (·.1 == name)).map (·.2)

/-- Adds a field in key order, where one of the same name gives way to it. -/
def insertField (name : String) (v : Json) : List (String × Json) → List (String × Json)
  | [] => [(name, v)]
  | (k, u) :: fields =>
    if name < k then (name, v) :: (k, u) :: fields
    else if name = k then (k, v) :: fields
    else (k, u) :: insertField name v fields

def ofFields (fields : List (Option String × Json)) : Json :=
  match fields.mapM fun (key, v) => key.map (·, v) with
  | some fields => obj fields
  | none => illFormed

mutual

def canonical : Json → Json
  | arr items => arr (canonicalItems items)
  | obj fields => obj (canonicalFields [] fields)
  | v => v

def canonicalItems : List Json → List Json
  | [] => []
  | v :: vs => canonical v :: canonicalItems vs

def canonicalFields (done : List (String × Json)) : List (String × Json) → List (String × Json)
  | [] => done
  | (k, v) :: fields => canonicalFields (insertField k (canonical v) done) fields

end

mutual

def depth : Json → Nat
  | arr items => itemsDepth items + 1
  | obj fields => fieldsDepth fields + 1
  | _ => 0

def itemsDepth : List Json → Nat
  | [] => 0
  | v :: vs => max (depth v) (itemsDepth vs)

def fieldsDepth : List (String × Json) → Nat
  | [] => 0
  | (_, v) :: fields => max (depth v) (fieldsDepth fields)

end

mutual

def isText : Json → Bool
  | illFormed => false
  | arr items => itemsAreText items
  | obj fields => fieldsAreText fields
  | _ => true

def itemsAreText : List Json → Bool
  | [] => true
  | v :: vs => isText v && itemsAreText vs

def fieldsAreText : List (String × Json) → Bool
  | [] => true
  | (_, v) :: fields => isText v && fieldsAreText fields

end

end Json

end Signpost
