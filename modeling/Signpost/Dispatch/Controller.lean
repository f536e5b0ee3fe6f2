import Signpost.Dispatch.Dependency
import Signpost.Json.Basic

namespace Signpost

/-- How an action ends: with a value, with a failure, or broken off without either. -/
inductive Reply where
  | value (v : Json)
  | failure (f : Failure)
  | crash

abbrev Controller := String → Option (List String) → Reply

structure Instance where
  name : String
  call : Controller

structure Factory where
  arity : Nat
  build : Injector → Except Failure Controller

structure Registry where
  entries : List (String × Factory) := []

namespace Registry

def find? (r : Registry) (name : String) : Option Factory :=
  r.entries.lookup name

/-- A name keeps its last factory. -/
def register (r : Registry) (name : String) (f : Factory) : Registry :=
  ⟨(name, f) :: r.entries.filter (·.1 != name)⟩

def contains (r : Registry) (name : String) : Bool :=
  (r.find? name).isSome

def size (r : Registry) : Nat :=
  r.entries.length

/-- Builds the controller of a name. Neither a missing name nor a lack of dependencies reaches the
factory. -/
def construct (r : Registry) (name : String) (dependencies : List Dependency) :
    Except Failure Instance :=
  match r.find? name with
  | none => .error (.unknownController name)
  | some f => do
    let injector ← Injector.ofArity name f.arity dependencies
    let call ← f.build injector
    return ⟨name, call⟩

end Registry

end Signpost
