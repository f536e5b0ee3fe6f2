import Signpost.Failure

namespace Signpost

inductive Dependency where
  | text (t : String)
  | int (n : Int)
  | bool (b : Bool)
  /-- One of the values of any other type. -/
  | other (type : String) (value : Nat)
  deriving DecidableEq, Repr

def Dependency.kind : Dependency → DependencyKind
  | text _ => .text
  | int _ => .int
  | bool _ => .bool
  | other type _ => .other type

structure Injector where
  controller : String
  values : List Dependency
  deriving DecidableEq, Repr

namespace Injector

def ofArity (controller : String) (arity : Nat) (dependencies : List Dependency) :
    Except Failure Injector :=
  if arity ≤ dependencies.length then .ok ⟨controller, dependencies.take arity⟩
  else .error (.tooFewDependencies controller arity dependencies.length)

def get (i : Injector) (position : Nat) (expected : DependencyKind) : Except Failure Dependency :=
  match i.values[position]? with
  | some v => if v.kind = expected then .ok v else .error (.wrongDependency i.controller position expected)
  | none => .error (.wrongDependency i.controller position expected)

end Injector

end Signpost
