import Signpost.Dispatch.Controller
import Signpost.Json.Writer

namespace Signpost.Http

structure Response where
  status : Nat
  contentType : Option String
  body : String
  deriving DecidableEq, Repr

namespace Response

def plainText : String := "text/plain; charset=utf-8"

/-- Null has no content, a string is its own text, and any other value is sent as JSON. -/
def ofValue : Json → Response
  | .null => ⟨200, none, ""⟩
  | .str t => ⟨200, some plainText, t⟩
  | v => ⟨200, some "application/json", v.toText⟩

def crashed : Response :=
  ⟨500, some plainText, "Internal server error"⟩

def ofFailure : Failure → Response
  | .routeNotFound _ => ⟨404, some plainText, "No matching route found"⟩
  | .rejected _ _ => ⟨403, some plainText, "Access denied"⟩
  | _ => crashed

def ofReply (post : Json → Json) : Reply → Response
  | .value v => ofValue (post v)
  | .failure f => ofFailure f
  | .crash => crashed

end Response

end Signpost.Http
