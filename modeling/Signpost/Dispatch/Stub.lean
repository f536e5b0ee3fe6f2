import Signpost.Dispatch.Router

namespace Signpost

inductive Behaviour where
  /-- Answers with the name of the action and its parameters. -/
  | echo
  /-- Answers with the dependencies that were asked for. -/
  | deps
  | value (v : Json)
  | handler (text : String)
  | rejected (reason : String)
  | notFound (uri : String)
  | crash

structure Stub where
  name : String
  arity : Nat := 0
  /-- The dependencies that are asked for while the controller is built. -/
  asks : List (Nat × DependencyKind) := []
  buildError : Option String := none
  /-- The known actions; without them every action is known. -/
  actions : Option (List String) := none
  behaviour : Behaviour := .echo

namespace Stub

def dependencyJson : Dependency → Json
  | .text t => .str t
  | .int n => .int n
  | .bool b => .bool b
  | .other _ _ => .null

def paramsJson (params : Option (List String)) : Json :=
  params.elim .null fun ps => .arr (ps.map .str)

def run (s : Stub) (visible : Nat) (got : List Dependency) : Controller := fun action params =>
  if (s.actions.map fun known => known.contains action) = some false then
    .failure (.unknownAction s.name action)
  else
    match s.behaviour with
    | .echo => .value (.obj [("action", .str action), ("params", paramsJson params)])
    | .deps => .value (.obj [("got", .arr (got.map dependencyJson)), ("visible", .int visible)])
    | .value v => .value v.canonical
    | .handler text => .failure (.handler text)
    | .rejected reason => .failure (.rejected s.name reason)
    | .notFound uri => .failure (.routeNotFound ⟨action, uri⟩)
    | .crash => .crash

def factory (s : Stub) : Factory where
  arity := s.arity
  build injector :=
    match s.buildError with
    | some text => .error (.handler text)
    | none => do
      let got ← s.asks.mapM fun (position, kind) => injector.get position kind
      return s.run injector.values.length got

end Stub

structure StubGuard where
  /-- None means all. -/
  refuses : Option (List String)
  refusal : String → Failure

def StubGuard.guard (g : StubGuard) : Guard := fun controller =>
  match g.refuses with
  | some names => if names.contains controller.name then .error (g.refusal controller.name) else .ok ()
  | none => .error (g.refusal controller.name)

end Signpost
