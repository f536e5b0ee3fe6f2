import Signpost.Route.Pattern
import Signpost.Route.Target
import Signpost.Route.Verb
import Signpost.Text.Blank

namespace Signpost

open Text

structure Route where
  verb : Verb
  pattern : Pattern
  target : Target
  deriving DecidableEq, Repr

namespace Route

def isGap (c : Char) : Bool :=
  c == ' ' || c == '\t'

/-- The anchor may stand on the URI or on the target, and means the same on both. -/
def mergeAnchor : Option String → Option String → Except Fault (Option String)
  | some _, some _ => .error .twoAnchors
  | some a, none => .ok (some a)
  | none, a => .ok a

/-- The first violated rule is the one reported. -/
def ofFields : List (List Char) → Except Fault Route
  | [method, uri, target] => do
    let some verb := Verb.ofText? (String.ofList method)
      | throw (.verb (String.ofList method))
    let pattern ← Pattern.ofChars uri
    let (name, onTarget) ← Pattern.splitAnchor target
    let anchor ← mergeAnchor pattern.anchor onTarget
    let target ← Target.ofChars name
    return ⟨verb, { pattern with anchor }, target⟩
  | fields => throw (.fieldCount fields.length)

def ofChars (line : List Char) : Except DefinitionError Route :=
  let text := trim line
  (ofFields (runs isGap text)).mapError fun fault => { fault, text := String.ofList text }

def ofLine (line : String) : Except DefinitionError Route :=
  ofChars line.toList

def ofParts (method uri target : String) : Except DefinitionError Route :=
  ofLine (method ++ " " ++ uri ++ " " ++ target)

def toText (r : Route) : String :=
  r.verb.text ++ " " ++ r.pattern.toText ++ " " ++ r.target.toText

/-- The routes of a definition file from its line number `n` on. Blank lines and lines that start
with `#` define nothing; the first faulty line ends the reading. -/
def ofLines (n : Nat) : List (List Char) → Except DefinitionError (List Route)
  | [] => .ok []
  | line :: lines =>
    match trim line with
    | [] | '#' :: _ => ofLines (n + 1) lines
    | text => do
      let route ← (ofChars text).mapError (·.atLine n)
      let routes ← ofLines (n + 1) lines
      return route :: routes

def ofSource (content : String) : Except DefinitionError (List Route) :=
  ofLines 1 (split (· == '\n') content.toList)

end Route

end Signpost
