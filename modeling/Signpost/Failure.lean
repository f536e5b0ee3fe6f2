import Signpost.Disk.Error
import Signpost.Route.Table

namespace Signpost

/-- The types of value that a controller can ask to be injected. -/
inductive DependencyKind where
  | text
  | int
  | bool
  /-- Any other type, by its name. -/
  | other (type : String)
  deriving DecidableEq, Repr

def DependencyKind.name : DependencyKind → String
  | text => "alloc::string::String"
  | int => "i64"
  | bool => "bool"
  | other type => type

inductive Failure where
  | definition (error : DefinitionError)
  | sourceUnavailable (path : String) (cause : SystemError)
  | routeNotFound (request : Request)
  | rejected (controller reason : String)
  | tooFewDependencies (controller : String) (required provided : Nat)
  | wrongDependency (controller : String) (position : Nat) (expected : DependencyKind)
  | unknownController (name : String)
  | unknownAction (controller action : String)
  | handler (text : String)
  deriving DecidableEq, Repr

namespace Failure

def message : Failure → String
  | definition e => e.message
  | sourceUnavailable path cause => s!"route source {path} is unavailable: {cause.message}"
  | routeNotFound q => s!"no route matches {q.toText}"
  | rejected controller reason => s!"access to {controller} rejected: {reason}"
  | tooFewDependencies controller required provided =>
    s!"controller {controller} requires {required} dependencies, {provided} provided"
  | wrongDependency controller position expected =>
    s!"dependency {position} of {controller} is not a {expected.name}"
  | unknownController name => s!"controller {name} is not registered"
  | unknownAction controller action => s!"controller {controller} has no action {action}"
  | handler text => s!"handler failed: {text}"

def isNotFound : Failure → Bool
  | routeNotFound _ => true
  | _ => false

def isRejection : Failure → Bool
  | rejected _ _ => true
  | _ => false

def causeMessage? : Failure → Option String
  | definition e => some e.fault.message
  | sourceUnavailable _ cause => some cause.message
  | _ => none

end Failure

end Signpost
