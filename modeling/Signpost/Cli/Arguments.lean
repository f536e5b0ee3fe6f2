namespace Signpost.Cli

structure Options where
  config : Option String := none
  routes : Option String := none
  noCache : Bool := false
  deriving DecidableEq, Repr

inductive Command where
  | check
  | routes
  | find (method uri : String)
  | cacheStatus
  | cacheClear
  deriving DecidableEq, Repr

inductive Topic where
  | top
  | check
  | routes
  | find
  | cache
  | cacheStatus
  | cacheClear
  | help
  | cacheHelp
  deriving DecidableEq, Repr

inductive Invocation where
  | run (options : Options) (command : Command)
  | help (topic : Topic)
  | misuse
  deriving DecidableEq, Repr

/-- What an argument is. An option may have its value attached. -/
inductive Token where
  | help
  | noCache
  | config (value : Option String)
  | routes (value : Option String)
  | endOfOptions
  | unknownOption
  | word (text : String)
  deriving DecidableEq, Repr

namespace Token

def cutValue : List Char → List Char × Option (List Char)
  | [] => ([], none)
  | '=' :: s => ([], some s)
  | c :: s =>
    let (name, value) := cutValue s
    (c :: name, value)

def ofLong (s : List Char) : Token :=
  let (name, value) := cutValue s
  let value := value.map String.ofList
  match String.ofList name, value with
  | "help", none => help
  | "no-cache", none => noCache
  | "config", value => config value
  | "routes", value => routes value
  | _, _ => unknownOption

def attached : List Char → Option String
  | [] => none
  | '=' :: s => some (String.ofList s)
  | s => some (String.ofList s)

def ofText (arg : String) : Token :=
  match arg.toList with
  | ['-', '-'] => endOfOptions
  | '-' :: '-' :: s => ofLong s
  | '-' :: 'h' :: _ => help
  | '-' :: 'c' :: s => config (attached s)
  | '-' :: 'r' :: s => routes (attached s)
  | '-' :: _ :: _ => unknownOption
  | _ => word arg

def value? (arg : String) : Option String :=
  match ofText arg with
  | word text => some text
  | _ => none

end Token

/-- The words of a command, or why there are none. After `--` everything is a word. -/
def words (topic : Topic) : List String → Except Invocation (List String)
  | [] => .ok []
  | arg :: args =>
    match Token.ofText arg with
    | .help => .error (.help topic)
    | .endOfOptions => .ok args
    | .word text => (words topic args).map (text :: ·)
    | _ => .error .misuse

/-- A command that takes so many words. A word too many counts before a later request for help. -/
def withWords (topic : Topic) (count : Nat) (args : List String) (f : List String → Option Command)
    (o : Options) : Invocation :=
  match words topic (args.take (count + 1)) with
  | .ok found =>
    if found.length ≤ count then
      match words topic args with
      | .ok all => (f all).elim .misuse (.run o)
      | .error i => i
    else .misuse
  | .error i => i

def bare (c : Command) : List String → Option Command
  | [] => some c
  | _ => none

def findCommand : List String → Option Command
  | [method, uri] => some (.find method uri)
  | _ => none

def topicOf : List String → Option Topic
  | [] => some .top
  | ["check"] => some .check
  | ["routes"] => some .routes
  | ["match"] => some .find
  | ["cache"] => some .cache
  | ["cache", "status"] => some .cacheStatus
  | ["cache", "clear"] => some .cacheClear
  | ["help"] => some .help
  | ["cache", "help"] => some .cacheHelp
  | _ => none

def helpOn (path : List String) : Invocation :=
  (topicOf path).elim .misuse .help

def cacheCommand (o : Options) : List String → Invocation
  | [] => .misuse
  | arg :: args =>
    match Token.ofText arg with
    | .help => .help .cache
    | .word "status" => withWords .cacheStatus 0 args (bare .cacheStatus) o
    | .word "clear" => withWords .cacheClear 0 args (bare .cacheClear) o
    | .word "help" => helpOn ("cache" :: args)
    | _ => .misuse

def command (o : Options) (name : String) (args : List String) : Invocation :=
  match name with
  | "check" => withWords .check 0 args (bare .check) o
  | "routes" => withWords .routes 0 args (bare .routes) o
  | "match" => withWords .find 2 args findCommand o
  | "cache" => cacheCommand o args
  | "help" => helpOn args
  | _ => .misuse

/-- Why nothing runs after an option that is wrong. A value of its own is only looked at after the
command, so that a command's request for help comes first. -/
def wrongOption (attached : Option String) : List String → Invocation
  | [] => .misuse
  | arg :: args =>
    match attached, Token.ofText arg with
    | none, .word name =>
      match command {} name args with
      | .help topic => .help topic
      | _ => .misuse
    | _, _ => .misuse

def setOnce (old : Option String) (value : String) : Option (Option String) :=
  match old, value with
  | none, "" => none
  | none, value => some (some value)
  | some _, _ => none

def setConfig (o : Options) (value : String) : Option Options :=
  (setOnce o.config value).map fun config => { o with config }

def setRoutes (o : Options) (value : String) : Option Options :=
  (setOnce o.routes value).map fun routes => { o with routes }

/-- The value of an option and the arguments after it. A value that is not attached is the next
argument. -/
def takeValue? : Option String → List String → Option (String × List String)
  | some value, args => some (value, args)
  | none, next :: args => (Token.value? next).map (·, args)
  | none, [] => none

theorem length_of_takeValue? {attached : Option String} {args rest : List String} {value : String}
    (h : takeValue? attached args = some (value, rest)) : rest.length ≤ args.length := by
  unfold takeValue? at h
  split at h
  · cases h; exact Nat.le_refl _
  · obtain ⟨_, _, h⟩ := Option.map_eq_some_iff.1 h
    cases h
    exact Nat.le_succ _
  · cases h

def parseFrom (o : Options) : List String → Invocation
  | [] => .misuse
  | arg :: args =>
    match Token.ofText arg with
    | .help => .help .top
    | .noCache => if o.noCache then .misuse else parseFrom { o with noCache := true } args
    | .config attached =>
      match _h : takeValue? attached args with
      | some (value, rest) =>
        match setConfig o value with
        | some o => parseFrom o rest
        | none => wrongOption attached rest
      | none => .misuse
    | .routes attached =>
      match _h : takeValue? attached args with
      | some (value, rest) =>
        match setRoutes o value with
        | some o => parseFrom o rest
        | none => wrongOption attached rest
      | none => .misuse
    | .word name => command o name args
    | _ => .misuse
termination_by args => args.length
decreasing_by
  · exact Nat.lt_succ_self _
  · exact Nat.lt_succ_of_le (length_of_takeValue? _h)
  · exact Nat.lt_succ_of_le (length_of_takeValue? _h)

def parse (args : List String) : Invocation :=
  parseFrom {} args

end Signpost.Cli
