import Signpost.Dispatch.Router
import Signpost.Load.Loader

namespace Signpost

/-- The router after a load. One that failed changes nothing. -/
def Router.reload (r : Router) (result : Except Failure Loaded) : Router :=
  match result with
  | .ok loaded => r.withRoutes loaded.routes
  | .error _ => r

namespace Watch

/-- Only what is there can be watched. Here the empty path names the working directory. -/
def start (d : Disk) (path : String) : Except SystemError Unit :=
  (d.node (if path.isEmpty then "." else path)).map fun _ => ()

def append (d : Disk) (path text : String) : Disk :=
  match d.read path with
  | .ok content =>
    match d.write path (content ++ text.toUTF8) with
    | .ok d => d
    | .error _ => d
  | .error _ => d

/-- The routes after each addition to the file, up to the first that spoils it. -/
def reloads (l : Loader) (path : String) : World → List String → List (Option (List Route))
  | _, [] => []
  | w, text :: texts =>
    let load := l.load path { w with disk := append w.disk path text }
    match load.result with
    | .ok loaded => some loaded.routes :: reloads l path load.world texts
    | .error _ => [none]

end Watch

end Signpost
