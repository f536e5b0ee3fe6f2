import Signpost.Disk.Basic
import Signpost.Failure

namespace Signpost.Source

/-- The modification time of a definition file, which must be a regular file that can be opened. -/
def modifiedAt (d : Disk) (path : String) : Except Failure Timestamp :=
  match d.node path with
  | .error e => .error (.sourceUnavailable path e)
  | .ok (.file _ modified) => .ok modified
  | .ok (.locked _) => .error (.sourceUnavailable path .denied)
  | .ok _ => .error (.sourceUnavailable path .notAFile)

def routes (d : Disk) (path : String) : Except Failure (List Route) :=
  match d.readText path with
  | .error .notText => .error (.definition { fault := .encoding, text := path })
  | .error e => .error (.sourceUnavailable path e)
  | .ok content => (Route.ofSource content).mapError .definition

end Signpost.Source
