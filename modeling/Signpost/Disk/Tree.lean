import Signpost.Disk.Basic

namespace Signpost.Disk

def commonPlaces : List Location :=
  ["bin", "dev", "etc", "home", "lib", "opt", "proc", "root", "run", "sbin", "srv", "sys", "tmp", "usr",
    "var"].map fun name => [name]

def emptyDevices : List Location :=
  [["dev", "null"], ["dev", "stdin"]]

def workPlace : Location := ["tmp", "work"]

def fresh (now : Timestamp) : Disk :=
  ⟨(workPlace, .directory) :: emptyDevices.map (·, .device) ++ commonPlaces.map (·, .directory), workPlace, now⟩

def stepTo (place : Location) (step : String) : Location :=
  if step = "." then place else if step = ".." then place.dropLast else place ++ [step]

def places (place : Location) : List String → List Location
  | [] => [place]
  | step :: steps => place :: places (stepTo place step) steps

def passed (d : Disk) (path : String) : List Location :=
  places (d.start path) (Path.steps path)

def touch (d : Disk) (path : String) (modified : Timestamp) : Except SystemError Disk := do
  match ← d.spot path with
  | .taken place (.file content _) => return d.put place (.file content modified)
  | .taken _ (.locked _) => throw .denied
  | .taken _ _ => return d
  | .free _ => throw .notFound

def makeDirectory (d : Disk) (path : String) : Except SystemError Disk := do
  match ← d.walk path (Path.steps path) with
  | .taken _ _ => throw .alreadyThere
  | .free place => return d.put place .directory

def ensureDirectory (d : Disk) (path : String) : Except SystemError Disk :=
  match d.makeDirectory path with
  | .ok d => .ok d
  | .error e => if d.isDirectory path then .ok d else .error e

/-- Makes a directory, after its parent if that is missing. A parent's text is shorter, so that the
size of the path is fuel enough. -/
def makeWithParents : Nat → Disk → String → Except SystemError Disk
  | 0, d, _ => .ok d
  | fuel + 1, d, path =>
    if path.isEmpty then .ok d
    else
      match d.ensureDirectory path, Path.parent? path with
      | .error .notFound, some parent => do
        let d ← makeWithParents fuel d parent
        d.ensureDirectory path
      | result, _ => result

def makeDirectories (d : Disk) (path : String) : Except SystemError Disk :=
  makeWithParents (path.length + 1) d path

def clearBelow (d : Disk) (place : Location) : Disk :=
  { d with nodes := d.nodes.filter fun (other, _) => other == place || !place.isPrefixOf other }

/-- Removes a file, or first all that lies in a directory and then the directory. It stays if its
path names it no longer, or never did. -/
def removeTree (d : Disk) (path : String) : Disk :=
  match d.spot path with
  | .ok (.taken place .directory) =>
    let cleared := d.clearBelow place
    if endsInName path && cleared.isDirectory path then cleared.erase place else cleared
  | .ok (.taken place _) => d.erase place
  | _ => d

def listing (d : Disk) : List String :=
  let below := d.nodes.filterMap fun (place, n) =>
    if d.home.isPrefixOf place && place != d.home then
      let path := "/".intercalate (place.drop d.home.length)
      match n with
      | .directory => some (path ++ "/")
      | _ => some path
    else none
  below.mergeSort

end Signpost.Disk
