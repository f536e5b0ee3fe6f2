import Signpost.Cli.Help
import Signpost.Decimal.Shortest
import Signpost.Dispatch.Router
import Signpost.Load.Configured
import Signpost.Settings.Load

namespace Signpost.Cli

inductive CliError where
  | settings (error : SettingsError)
  | failure (error : Failure)
  | cache (error : CacheError)
  deriving DecidableEq, Repr

def CliError.message : CliError → String
  | settings e => e.message
  | failure e => e.message
  | cache e => e.message

/-- How a run ends: with what it prints and a remark beside it, with an error, or with neither since
the arguments make no sense. -/
inductive Ending where
  | done (output : String) (remark : Option String)
  | failed (error : CliError)
  | misuse
  deriving DecidableEq, Repr

def Ending.status : Ending → Nat
  | done _ _ => 0
  | failed _ => 1
  | misuse => 2

/-- The settings of a run. Options win over the settings file. -/
def settings (o : Options) (d : Disk) : Except SettingsError Settings := do
  let s ← match o.config with
    | some path => Settings.load d path
    | none => .ok {}
  return { s with
    routes := ⟨o.routes.getD s.routes.file⟩
    cache := if o.noCache then { s.cache with enabled := false } else s.cache }

def check (s : Settings) (w : World) : Except CliError String :=
  match Source.routes w.disk s.routes.file with
  | .error f => .error (.failure f)
  | .ok routes => .ok s!"{s.routes.file}: {routes.length} routes OK\n"

def tableLine (number : Nat) (r : Route) : String :=
  let number := toString number
  "".pushn ' ' (4 - number.length) ++ number ++ "  " ++ r.toText ++ "\n"

def tableText (number : Nat) : List Route → String
  | [] => ""
  | r :: rs => tableLine number r ++ tableText (number + 1) rs

def remark (l : Loaded) : String :=
  s!"{l.routes.length} routes ({l.origin.text})"

def report (s : Settings) (m : Match) : Json :=
  let target := m.route.target
  .obj [("action", .str target.action), ("anchor", m.route.pattern.anchor.elim .null .str),
    ("controller", .str (target.qualified s.dispatch.ns)),
    ("params", m.params.elim .null fun ps => .arr (ps.map .str)), ("route", .str m.route.toText)]

def find (s : Settings) (routes : List Route) (q : Request) : Except CliError String :=
  let r : Router := { table := ⟨routes⟩, settings := s.dispatch }
  match r.locate q with
  | .error f => .error (.failure f)
  | .ok m => .ok ((report s m).toIndentedText ++ "\n")

def isCurrent (s : Settings) (w : World) (cached : Snapshot) : Bool :=
  match Source.modifiedAt w.disk s.routes.file with
  | .ok modified => cached.isFresh modified
  | .error _ => false

/-- Seconds since the epoch; times before it count as zero. -/
def secondsText (t : Timestamp) : String :=
  let seconds := Decimal.Binary.round t.seconds.toNat 1
  let nanos := Decimal.Binary.round t.nanos 1000000000
  if t.seconds < 0 then "0.0" else (seconds.add nanos).toText

structure CacheReport where
  enabled : Bool
  useable : Bool
  /-- The snapshot and whether it is current, if the cache is filled. -/
  content : Option (Except CacheError (Snapshot × Bool))

def cacheReport (s : Settings) (w : World) : CacheReport :=
  let c := s.cache.cache
  { enabled := s.cache.enabled
    useable := c.useable w
    content := if c.filled w then some ((c.read w).map fun e => (e, isCurrent s w e)) else none }

namespace CacheReport

def filled (r : CacheReport) : Bool :=
  r.content.isSome

def toJson (r : CacheReport) : Json :=
  let enabled := ("enabled", Json.bool r.enabled)
  let filled := ("filled", Json.bool r.filled)
  let useable := ("useable", Json.bool r.useable)
  match r.content with
  | none => .obj [enabled, filled, useable]
  | some (.error e) => .obj [enabled, ("error", .str e.message), filled, useable]
  | some (.ok (cached, fresh)) =>
    .obj [enabled, filled, ("fresh", .bool fresh), ("routes", .int cached.routes.length),
      ("timestamp", .real (secondsText cached.modified)), useable]

end CacheReport

def ofResult : Except CliError String → Ending
  | .ok output => .done output none
  | .error e => .failed e

def runCommand (s : Settings) (w : World) : Command → Ending × World
  | .check => (ofResult (check s w), w)
  | .routes =>
    let l := s.cache.loader.load s.routes.file w
    match l.result with
    | .error f => (.failed (.failure f), l.world)
    | .ok loaded => (.done (tableText 1 loaded.routes) (remark loaded), l.world)
  | .find method uri =>
    let l := s.cache.loader.load s.routes.file w
    match l.result with
    | .error f => (.failed (.failure f), l.world)
    | .ok loaded => (ofResult (find s loaded.routes ⟨method, uri⟩), l.world)
  | .cacheStatus => (.done ((cacheReport s w).toJson.toIndentedText ++ "\n") none, w)
  | .cacheClear =>
    match s.cache.cache.clear w with
    | (.ok (), w) => (.done "cache cleared\n" none, w)
    | (.error e, w) => (.failed (.cache e), w)

def paths (args : List String) (d : Disk) : List String :=
  match parse args with
  | .run o _ =>
    match settings o d with
    | .ok s => o.config.toList ++ [s.routes.file, s.cache.path]
    | .error _ => o.config.toList
  | _ => []

/-- A run starts with nothing in memory. -/
def run (args : List String) (d : Disk) : Ending × Disk :=
  match parse args with
  | .misuse => (.misuse, d)
  | .help topic => (.done topic.text none, d)
  | .run o command =>
    match settings o d with
    | .error e => (.failed (.settings e), d)
    | .ok s =>
      let (ending, w) := runCommand s { disk := d } command
      (ending, w.disk)

end Signpost.Cli
