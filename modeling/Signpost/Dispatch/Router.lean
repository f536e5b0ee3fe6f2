import Signpost.Dispatch.Controller
import Signpost.Settings.Basic

namespace Signpost

/-- Decides whether a request may go on to a controller. Any error is a refusal. -/
abbrev Guard := Instance → Except Failure Unit

structure Router where
  table : Table := {}
  registry : Registry := {}
  dependencies : List Dependency := []
  guard : Option Guard := none
  settings : DispatchSettings := {}

structure Resolved where
  found : Match
  controller : Instance

namespace Resolved

def action (r : Resolved) : String :=
  r.found.route.target.action

def params (r : Resolved) : Option (List String) :=
  r.found.params

def invoke (r : Resolved) : Reply :=
  r.controller.call r.action r.params

end Resolved

/-- What a dispatch does to controllers, in order. -/
inductive Event where
  | guarded (controller : String)
  | invoked (controller action : String) (params : Option (List String))
  deriving DecidableEq, Repr

structure Run where
  events : List Event
  reply : Reply

namespace Router

def after? : List Char → List Char → Option (List Char)
  | [], s => some s
  | c :: p, d :: s => if c = d then after? p s else none
  | _ :: _, [] => none

def trimSlashes (s : List Char) : List Char :=
  (s.reverse.dropWhile (· == '/')).reverse

/-- The path below the base path. A URI that is not below it stays as it is. -/
def stripBase (base uri : String) : String :=
  match trimSlashes base.toList with
  | [] => uri
  | base =>
    match after? base uri.toList with
    | some [] | some ('#' :: _) => "/"
    | some ('/' :: rest) => String.ofList ('/' :: rest)
    | _ => uri

/-- The match of a request or, where it has none, that of the fallback request. -/
def locate (r : Router) (q : Request) : Except Failure Match :=
  match r.table.find? { q with uri := stripBase r.settings.basePath q.uri } with
  | some found => .ok found
  | none =>
    match r.table.find? r.settings.fallback with
    | some found => .ok found
    | none => .error (.routeNotFound q)

def resolve (r : Router) (q : Request) : Except Failure Resolved := do
  let found ← r.locate q
  let name := found.route.target.qualified r.settings.ns
  let controller ← r.registry.construct name r.dependencies
  return ⟨found, controller⟩

def finish (events : List Event) (r : Resolved) : Run :=
  ⟨events ++ [.invoked r.controller.name r.action r.params], r.invoke⟩

/-- A refusal leads to the login request, whose controller is not put before the guard again. -/
def refuse (r : Router) (events : List Event) (refusal : Failure) : Run :=
  match r.settings.login with
  | none => ⟨events, .failure refusal⟩
  | some login =>
    match r.resolve login with
    | .error f => ⟨events, .failure f⟩
    | .ok resolved => finish events resolved

def dispatch (r : Router) (q : Request) : Run :=
  match r.resolve q with
  | .error f => ⟨[], .failure f⟩
  | .ok resolved =>
    match r.guard with
    | none => finish [] resolved
    | some guard =>
      let events := [.guarded resolved.controller.name]
      match guard resolved.controller with
      | .ok () => finish events resolved
      | .error refusal => r.refuse events refusal

def withRoutes (r : Router) (routes : List Route) : Router :=
  { r with table := ⟨routes⟩ }

end Router

end Signpost
