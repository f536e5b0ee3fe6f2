import Signpost.Disk.Basic

namespace Signpost

inductive Change where
  | put (place : Location) (content : ByteArray)
  | erase (place : Location)

namespace Disk

def newFiles (old new : Disk) : List Change :=
  new.nodes.filterMap fun (place, n) =>
    match n with
    | .file content _ => if (old.node? place).any n.isSame then none else some (.put place content)
    | .locked _ | .directory | .device => none

def lostFiles (old new : Disk) : List Change :=
  old.nodes.filterMap fun (place, n) =>
    match n, new.node? place with
    | .file _ _, none | .locked _, none | .device, none => some (.erase place)
    | _, _ => none

def changes (old new : Disk) : List Change :=
  lostFiles old new ++ newFiles old new

end Disk

end Signpost
