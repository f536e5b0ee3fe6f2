namespace Signpost

inductive Fault where
  | fieldCount (found : Nat)
  | verb (text : String)
  | uri (text : String)
  | segment (text : String)
  | anchor (text : String)
  | target (text : String)
  | twoAnchors
  | encoding
  deriving DecidableEq, Repr

namespace Fault

def message : Fault → String
  | fieldCount n => s!"expected 3 fields, found {n}"
  | verb t => s!"unsupported method `{t}` (expected GET, POST or *)"
  | uri t => s!"URI `{t}` must start with `/`"
  | segment t => s!"invalid URI segment `{t}`"
  | anchor t => s!"invalid anchor `{t}`"
  | target t => s!"target `{t}` must be <Type>->method"
  | twoAnchors => "anchor given on both URI and target"
  | encoding => "route definitions must be UTF-8 text"

end Fault

/-- A fault, the text in which it was found and, within a definition file, the number of its line. -/
structure DefinitionError where
  fault : Fault
  text : String
  line : Option Nat := none
  deriving DecidableEq, Repr

namespace DefinitionError

def atLine (e : DefinitionError) (n : Nat) : DefinitionError :=
  { e with line := some n }

def message (e : DefinitionError) : String :=
  match e.line with
  | some n => s!"line {n}: {e.fault.message} in `{e.text}`"
  | none => s!"{e.fault.message} in `{e.text}`"

end DefinitionError

end Signpost
