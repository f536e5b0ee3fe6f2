import Signpost.Dispatch.Router
import Signpost.Load.Loader

namespace Signpost

structure Counter (κ : Type) where
  series : List (κ × Nat) := []
  deriving DecidableEq, Repr

namespace Counter

variable {κ : Type} [DecidableEq κ]

def bump (k : κ) : List (κ × Nat) → List (κ × Nat)
  | [] => [(k, 1)]
  | (j, n) :: series => if j = k then (j, n + 1) :: series else (j, n) :: bump k series

def increment (c : Counter κ) (k : κ) : Counter κ :=
  ⟨bump k c.series⟩

def count (c : Counter κ) (k : κ) : Nat :=
  (c.series.lookup k).getD 0

def total (c : Counter κ) : Nat :=
  c.series.foldr (fun entry n => entry.2 + n) 0

end Counter

inductive MethodLabel where
  | get
  | post
  | other
  deriving DecidableEq, Repr

namespace MethodLabel

/-- Methods that clients make up share one label, so that their number does not grow. -/
def ofMethod : String → MethodLabel
  | "GET" => get
  | "POST" => post
  | _ => other

def text : MethodLabel → String
  | get => "GET"
  | post => "POST"
  | other => "other"

end MethodLabel

inductive Outcome where
  | ok
  | notFound
  | rejected
  | error
  deriving DecidableEq, Repr

namespace Outcome

def ofFailure : Failure → Outcome
  | .routeNotFound _ => notFound
  | .rejected _ _ => rejected
  | _ => error

def ofReply? : Reply → Option Outcome
  | .value _ => some ok
  | .failure f => some (ofFailure f)
  | .crash => none

def text : Outcome → String
  | ok => "ok"
  | notFound => "not_found"
  | rejected => "rejected"
  | error => "error"

end Outcome

structure Metrics where
  dispatches : Counter (MethodLabel × Outcome) := {}
  durations : Counter Outcome := {}
  loads : Counter Origin := {}
  deriving DecidableEq, Repr

namespace Metrics

def recordDispatch (m : Metrics) (method : String) (outcome : Outcome) : Metrics :=
  { m with
    dispatches := m.dispatches.increment (MethodLabel.ofMethod method, outcome)
    durations := m.durations.increment outcome }

def recordLoad (m : Metrics) (origin : Origin) : Metrics :=
  { m with loads := m.loads.increment origin }

def label (name value : String) : String :=
  name ++ "=\"" ++ value ++ "\""

def sample (name : String) (labels : List String) (n : Nat) : String :=
  name ++ "\x7b" ++ ",".intercalate labels ++ "\x7d " ++ toString n

def lines (m : Metrics) : List String :=
  let dispatches := m.dispatches.series.map fun ((method, outcome), n) =>
    sample "routerunner_dispatch_total" [label "method" method.text, label "outcome" outcome.text] n
  let durations := m.durations.series.map fun (outcome, n) =>
    sample "routerunner_dispatch_duration_seconds_count" [label "outcome" outcome.text] n
  let loads := m.loads.series.map fun (origin, n) =>
    sample "routerunner_route_loads_total" [label "origin" origin.text] n
  (dispatches ++ durations ++ loads).mergeSort

end Metrics

def Router.execute (r : Router) (q : Request) (m : Metrics) : Run × Metrics :=
  let run := r.dispatch q
  match Outcome.ofReply? run.reply with
  | some outcome => (run, m.recordDispatch q.method outcome)
  | none => (run, m)

/-- Counts a load that succeeded. Each of the ways that a load ends well counts its origin just before it
ends, and once, so that the result of the load says what to count. -/
def Load.record (l : Load) (m : Metrics) : Metrics :=
  match l.result with
  | .ok loaded => m.recordLoad loaded.origin
  | .error _ => m

end Signpost
