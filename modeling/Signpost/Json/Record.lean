import Signpost.Json.Basic

namespace Signpost.Json

/-- Where document formats differ: whether an array may go on after the last field of a record, and
which value says that a choice carries nothing. -/
structure Dialect where
  extraItems : Bool
  isEmptyPayload : Json → Bool

def isNull : Json → Bool
  | null => true
  | _ => false

def isEmpty : Json → Bool
  | arr [] | obj [] => true
  | _ => false

def Dialect.json : Dialect := ⟨false, isNull⟩

def Dialect.toml : Dialect := ⟨true, isEmpty⟩

variable (d : Dialect) (names : List String)

def fitsFields (items : List Json) : Bool :=
  items.length ≤ names.length || d.extraItems

def noneRepeated (fields : List (String × Json)) : Bool :=
  names.all fun name => fields.countP (·.1 == name) ≤ 1

/-- The fields of a record, by name in an object, or in the order of declaration in an array, where all
must be written. -/
def record? : Json → Option (List (String × Json))
  | arr items =>
    if names.length ≤ items.length && fitsFields d names items then some (names.zip items) else none
  | obj fields => if noneRepeated names fields then some fields else none
  | _ => none

/-- The fields of a record whose missing fields have defaults. -/
def partialRecord? : Json → Option (List (String × Json))
  | arr items => if fitsFields d names items then some (names.zip items) else none
  | obj fields => if noneRepeated names fields then some fields else none
  | _ => none

def fieldOr {α : Type} (fields : List (String × Json)) (name : String) (dflt : α)
    (read? : Json → Option α) : Option α :=
  match fields.lookup name with
  | some v => read? v
  | none => some dflt

def required {α : Type} (fields : List (String × Json)) (name : String) (read? : Json → Option α) :
    Option α :=
  (fields.lookup name).bind read?

/-- A choice is its name, or an object with the name as its only field. -/
def choice? : Json → Option (String × Option Json)
  | str name => some (name, none)
  | obj [(name, payload)] => some (name, some payload)
  | _ => none

def bareChoice? (v : Json) : Option String :=
  match choice? v with
  | some (name, none) => some name
  | some (name, some payload) => if d.isEmptyPayload payload then some name else none
  | none => none

def string? : Json → Option String
  | str t => some t
  | _ => none

def bool? : Json → Option Bool
  | bool b => some b
  | _ => none

def natBelow? (bound : Nat) : Json → Option Nat
  | int (.ofNat n) => if n < bound then some n else none
  | _ => none

def optional? {α : Type} (read? : Json → Option α) : Json → Option (Option α)
  | null => some none
  | v => (read? v).map some

def list? {α : Type} (read? : Json → Option α) : Json → Option (List α)
  | arr items => items.mapM read?
  | _ => none

end Signpost.Json
