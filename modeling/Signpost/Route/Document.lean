import Signpost.Json.Record
import Signpost.Route.Table

namespace Signpost

open Json (Dialect)

namespace Verb

def toJson : Verb → Json
  | get => .str "Get"
  | post => .str "Post"
  | any => .str "Any"

def ofJson? (v : Json) : Option Verb :=
  match Json.bareChoice? .json v with
  | some "Get" => some get
  | some "Post" => some post
  | some "Any" => some any
  | _ => none

end Verb

namespace Segment

def toJson : Segment → Json
  | literal t => .obj [("Literal", .str t)]
  | text => .str "Text"
  | digits => .str "Numeric"

def ofJson? (v : Json) : Option Segment :=
  match Json.choice? v with
  | some ("Literal", some (.str t)) => some (literal t)
  | _ =>
    match Json.bareChoice? .json v with
    | some "Text" => some text
    | some "Numeric" => some digits
    | _ => none

end Segment

namespace Pattern

def toJson (p : Pattern) : Json :=
  .obj [("segments", .arr (p.segments.map Segment.toJson)),
    ("anchor", p.anchor.elim .null .str)]

def ofJson? (v : Json) : Option Pattern := do
  let fields ← Json.record? .json ["segments", "anchor"] v
  let segments ← Json.required fields "segments" (Json.list? Segment.ofJson?)
  let anchor ← Json.fieldOr fields "anchor" none (Json.optional? Json.string?)
  return ⟨segments, anchor⟩

end Pattern

namespace Target

def toJson (t : Target) : Json :=
  .obj [("controller", .str t.controller), ("action", .str t.action)]

def ofJson? (v : Json) : Option Target := do
  let fields ← Json.record? .json ["controller", "action"] v
  let controller ← Json.required fields "controller" Json.string?
  let action ← Json.required fields "action" Json.string?
  return ⟨controller, action⟩

end Target

namespace Route

def toJson (r : Route) : Json :=
  .obj [("method", r.verb.toJson), ("pattern", r.pattern.toJson), ("target", r.target.toJson)]

def ofJson? (v : Json) : Option Route := do
  let fields ← Json.record? .json ["method", "pattern", "target"] v
  let verb ← Json.required fields "method" Verb.ofJson?
  let pattern ← Json.required fields "pattern" Pattern.ofJson?
  let target ← Json.required fields "target" Target.ofJson?
  return ⟨verb, pattern, target⟩

end Route

namespace Table

def toJson (t : Table) : Json :=
  .arr (t.routes.map Route.toJson)

def ofJson? (v : Json) : Option Table :=
  (Json.list? Route.ofJson? v).map Table.mk

end Table

end Signpost
