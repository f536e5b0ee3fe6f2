import Signpost.Dispatch.Reload
import Signpost.Http.Response
import Signpost.Settings.Basic

namespace Signpost.Http

open Text

structure Call where
  method : String
  target : String
  /-- The identifier that the client sent. -/
  requestId : Option String

structure Answer where
  response : Response
  requestId : String
  deriving DecidableEq, Repr

structure Server where
  router : Router
  /-- The last step for values before they are rendered. -/
  post : Json → Json := id

def pathOf (target : String) : String :=
  String.ofList (cut (fun c => c == '?' || c == '#') target.toList).1

/-- The response to a `HEAD` request has no body. -/
def trimBody (method : String) (r : Response) : Response :=
  if method = "HEAD" then { r with body := "" } else r

namespace Server

/-- The answer to a call; `generated` is its identifier if the client sent none. The path that is dispatched
is not decoded. No time passes here: a call that is cut off by the limit on the time of requests, with
status 408, has no answer of this kind. -/
def answer (s : Server) (generated : String) (c : Call) : Answer :=
  let run := s.router.dispatch ⟨c.method, pathOf c.target⟩
  ⟨trimBody c.method (.ofReply s.post run.reply), c.requestId.getD generated⟩

def call (connection : Except SystemError Unit) (s : Server) (generated : String) (c : Call) :
    Except SystemError Answer :=
  connection.map fun _ => s.answer generated c

def withRoutes (s : Server) (routes : List Route) : Server :=
  { s with router := s.router.withRoutes routes }

/-- A server that is to watch its definition file starts only if the file is there. -/
def start (settings : Settings) (d : Disk) : Except SystemError Unit :=
  if settings.server.watchRoutes then Watch.start d settings.routes.file else .ok ()

end Server

end Signpost.Http
