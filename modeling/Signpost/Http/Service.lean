import Signpost.Http.Server

namespace Signpost.Http

/-- A call that came in, with the server that it is answered on. -/
structure Job where
  call : Call
  generated : String
  server : Server

namespace Job

def request (j : Job) : Request :=
  ⟨j.call.method, pathOf j.call.target⟩

def run (j : Job) : Run :=
  j.server.router.dispatch j.request

def answer (j : Job) : Answer :=
  j.server.answer j.generated j.call

end Job

structure Service where
  server : Server
  loader : Loader
  path : String
  world : World
  /-- The tables that are still to be taken. -/
  updates : List (List Route)
  jobs : List Job

namespace Service

def start (server : Server) (loader : Loader) (path : String) (w : World) : Service :=
  ⟨server, loader, path, w, [], []⟩

inductive Step where
  /-- Files may change in any way, those of a cache too. -/
  | edit (w : World)
  | reload
  | swap
  | accept (call : Call) (generated : String)

def load (s : Service) : Load :=
  s.loader.load s.path s.world

def step (s : Service) : Step → Service
  | .edit w => { s with world := w }
  | .reload =>
    match s.load.result with
    | .ok loaded => { s with world := s.load.world, updates := s.updates ++ [loaded.routes] }
    | .error _ => { s with world := s.load.world }
  | .swap =>
    match s.updates with
    | [] => s
    | routes :: updates => { s with server := s.server.withRoutes routes, updates }
  | .accept call generated => { s with jobs := s.jobs ++ [⟨call, generated, s.server⟩] }

def run (s : Service) (steps : List Step) : Service :=
  steps.foldl step s

end Service

end Signpost.Http
