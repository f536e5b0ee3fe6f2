import Signpost.Route.Basic

namespace Signpost

structure Request where
  method : String := "GET"
  uri : String := "/"
  deriving DecidableEq, Repr

def Request.toText (q : Request) : String :=
  q.method ++ " " ++ q.uri

structure Table where
  routes : List Route := []
  deriving DecidableEq, Repr

structure Match where
  index : Nat
  route : Route
  captures : List String
  deriving DecidableEq, Repr

/-- A route without placeholders has no parameters, which is not the same as an empty list. -/
def Match.params (m : Match) : Option (List String) :=
  if m.route.pattern.hasPlaceholder then some m.captures else none

def Route.captures (r : Route) (q : Request) : Option (List String) :=
  if r.verb.accepts q.method then r.pattern.captures q.uri else none

namespace Table

def add (t : Table) (r : Route) : Table :=
  ⟨t.routes ++ [r]⟩

/-- Adds the route of three fields. Where they define none, the table stays as it is. -/
def define (t : Table) (method uri target : String) : Except DefinitionError Unit × Table :=
  match Route.ofParts method uri target with
  | .ok r => (.ok (), t.add r)
  | .error e => (.error e, t)

inductive Edit where
  | add (r : Route)
  | define (method uri target : String)
  | set (routes : List Route)
  deriving DecidableEq, Repr

def edit (t : Table) : Edit → Table
  | .add r => t.add r
  | .define method uri target => (t.define method uri target).2
  | .set routes => ⟨routes⟩

def after (t : Table) (edits : List Edit) : Table :=
  edits.foldl edit t

def findFrom (q : Request) (n : Nat) : List Route → Option Match
  | [] => none
  | r :: rs =>
    match r.captures q with
    | some captures => some ⟨n, r, captures⟩
    | none => findFrom q (n + 1) rs

def find? (t : Table) (q : Request) : Option Match :=
  findFrom q 0 t.routes

end Table

end Signpost
