import Signpost.Disk.Error
import Signpost.Disk.Path
import Signpost.Disk.Timestamp

namespace Signpost

/-- The names from the root. -/
abbrev Location := List String

inductive Node where
  | file (content : ByteArray) (modified : Timestamp)
  /-- A file that must not be opened. -/
  | locked (modified : Timestamp)
  | directory
  /-- Reads as nothing and forgets what is written to it. -/
  | device

def Node.isSame : Node → Node → Bool
  | file content modified, file content' modified' =>
    content.data == content'.data && modified == modified'
  | locked modified, locked modified' => modified == modified'
  | directory, directory | device, device => true
  | _, _ => false

structure Disk where
  nodes : List (Location × Node)
  /-- The working directory. -/
  home : Location
  /-- The modification time of what is written. -/
  now : Timestamp

/-- Where a path leads: to what is there, or to a free place in a directory. -/
inductive Spot where
  | taken (place : Location) (node : Node)
  | free (place : Location)

namespace Disk

def maxNameSize : Nat := 255

def maxPathSize : Nat := 4095

def node? (d : Disk) (place : Location) : Option Node :=
  if place.isEmpty then some .directory else d.nodes.lookup place

def put (d : Disk) (place : Location) (n : Node) : Disk :=
  { d with nodes := (place, n) :: d.nodes.filter (·.1 != place) }

def erase (d : Disk) (place : Location) : Disk :=
  { d with nodes := d.nodes.filter (·.1 != place) }

/-- Every step but the last must lead to a directory. -/
def follow (d : Disk) (place : Location) : List String → Except SystemError Spot
  | [] =>
    match d.node? place with
    | some n => .ok (.taken place n)
    | none => .error .notFound
  | step :: steps =>
    match d.node? place with
    | some .directory =>
      if step = "." then follow d place steps
      else if step = ".." then follow d place.dropLast steps
      else if maxNameSize < step.utf8ByteSize then .error .nameTooLong
      else
        match d.node? (place ++ [step]), steps with
        | none, [] => .ok (.free (place ++ [step]))
        | none, _ => .error .notFound
        | some _, _ => follow d (place ++ [step]) steps
    | some _ => .error .notADirectory
    | none => .error .notFound

/-- A path that ends in a slash leads to directories only. -/
def checkSlash (slash : Bool) (spot : Spot) : Except SystemError Spot :=
  if slash then
    match spot with
    | .taken _ .directory => .ok spot
    | .taken _ _ => .error .notADirectory
    | .free _ => .error .notFound
  else .ok spot

def start (d : Disk) (path : String) : Location :=
  if Path.isAbsolute path then [] else d.home

def walk (d : Disk) (path : String) (steps : List String) : Except SystemError Spot :=
  if path.toList.contains '\x00' then .error .zeroInName
  else if path.isEmpty then .error .notFound
  else if maxPathSize < path.utf8ByteSize then .error .nameTooLong
  else d.follow (d.start path) steps

def spot (d : Disk) (path : String) : Except SystemError Spot := do
  checkSlash (Path.endsInSlash path) (← d.walk path (Path.steps path))

def checkParent (d : Disk) (path : String) : Except SystemError Unit :=
  (d.walk path ((Path.steps path).dropLast ++ ["."])).map fun _ => ()

def node (d : Disk) (path : String) : Except SystemError Node := do
  match ← d.spot path with
  | .taken _ n => return n
  | .free _ => throw .notFound

def isFile (d : Disk) (path : String) : Bool :=
  match d.node path with
  | .ok (.file _ _) | .ok (.locked _) => true
  | _ => false

def isDirectory (d : Disk) (path : String) : Bool :=
  match d.node path with
  | .ok .directory => true
  | _ => false

def read (d : Disk) (path : String) : Except SystemError ByteArray := do
  match ← d.node path with
  | .file content _ => return content
  | .locked _ => throw .denied
  | .device => return .empty
  | .directory => throw .isADirectory

def readText (d : Disk) (path : String) : Except SystemError String := do
  match String.fromUTF8? (← d.read path) with
  | some text => return text
  | none => throw .notText

/-- Replaces what a file holds, or makes the file. No file is at the end of a slash. -/
def putFile (d : Disk) (path : String) (content : ByteArray) (modified : Timestamp) :
    Except SystemError Disk := do
  if Path.endsInSlash path then
    checkParent d path
    throw .isADirectory
  else
    match ← d.spot path with
    | .taken _ .directory => throw .isADirectory
    | .taken _ (.locked _) => throw .denied
    | .taken _ .device => return d
    | .taken place (.file _ _) | .free place => return d.put place (.file content modified)

def write (d : Disk) (path : String) (content : ByteArray) : Except SystemError Disk :=
  d.putFile path content d.now

def remove (d : Disk) (path : String) : Except SystemError Disk := do
  match ← d.spot path with
  | .taken _ .directory => throw .isADirectory
  | .taken place _ => return d.erase place
  | .free _ => throw .notFound

def endsInName (path : String) : Bool :=
  match (Path.steps path).getLast? with
  | some "." | some ".." | none => false
  | some _ => true

/-- The place that a file can be moved to. Its path must end in a name. -/
def moveTarget (d : Disk) (path : String) : Except SystemError Location := do
  if !endsInName path then
    checkParent d path
    throw .busy
  else if Path.endsInSlash path then throw .notADirectory
  else
    match ← d.spot path with
    | .taken _ .directory => throw .isADirectory
    | .taken place _ | .free place => return place

def move (d : Disk) (source target : String) : Except SystemError Disk := do
  match ← d.spot source with
  | .free _ => throw .notFound
  | .taken _ .directory => throw .isADirectory
  | .taken place node =>
    let goal ← d.moveTarget target
    return (d.erase place).put goal node

end Disk

end Signpost
