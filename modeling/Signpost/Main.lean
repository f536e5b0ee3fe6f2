import Signpost.Cli.Run
import Signpost.Disk.Change
import Signpost.Disk.Tree

namespace Signpost

def placeText (place : Location) : String :=
  "/" ++ "/".intercalate place

def look (place : Location) : IO (Option Node) := do
  try
    let path ← IO.FS.realPath (placeText place)
    let found ← path.metadata
    match found.type with
    | .dir => return some .directory
    | .file =>
      let modified := Timestamp.carry found.modified.sec found.modified.nsec.toNat
      try
        return some (.file (← IO.FS.readBinFile path) modified)
      catch _ => return some (.locked modified)
    | _ => return some .device
  catch _ => return none

def lookAt (d : Disk) (place : Location) : IO Disk := do
  match ← look place with
  | some n => return d.put place n
  | none => return d

def explore (d : Disk) (path : String) : IO Disk :=
  (d.passed path).foldlM lookAt d

/-- A file is written beside its place and then moved to it. -/
def apply : Change → IO Unit
  | .put place content => do
    let staging := placeText place ++ ".tmp"
    IO.FS.writeBinFile staging content
    IO.FS.rename staging (placeText place)
  | .erase place => IO.FS.removeFile (placeText place)

def tell : Cli.Ending → IO Unit
  | .done output remark => do
    IO.print output
    remark.forM IO.eprintln
  | .failed e => IO.eprintln s!"error: {e.message}"
  | .misuse => IO.eprint Cli.Topic.top.text

/-- The settings file tells the other paths, so that files are looked at twice. -/
def serve (args : List String) : IO UInt32 := do
  let home := Path.steps (toString (← IO.currentDir))
  let bare : Disk := ⟨[], home, Timestamp.carry 0 0⟩
  let first ← (Cli.paths args bare).foldlM explore bare
  let disk ← (Cli.paths args first).foldlM explore first
  let (ending, after) := Cli.run args disk
  (disk.changes after).forM apply
  tell ending
  return UInt32.ofNat ending.status

end Signpost

def main (args : List String) : IO UInt32 :=
  Signpost.serve args
