import Signpost.Cache.Basic

namespace Signpost.FileCache

def stagingName (path ticket : String) : String :=
  (Path.fileName? path).getD "" ++ "." ++ ticket ++ ".tmp"

def stagingPath (path ticket : String) : String :=
  Path.sibling path (stagingName path ticket)

def isUseable (d : Disk) (path : String) : Bool :=
  !path.isEmpty && d.isDirectory (Path.directory path)

def read (d : Disk) (path : String) : Except CacheError Snapshot :=
  if d.isFile path then
    match d.read path with
    | .error e => .error (.io e)
    | .ok content =>
      match Snapshot.decode? content with
      | some s => .ok s
      | none => .error .corrupt
  else .error .empty

def unstage (d : Disk) (staging : String) : Disk :=
  match d.remove staging with
  | .ok d => d
  | .error _ => d

def write (d : Disk) (path ticket : String) (s : Snapshot) : Except CacheError Unit × Disk :=
  if isUseable d path then
    let staging := stagingPath path ticket
    match d.write staging (s.encode?.getD .empty) with
    | .error e => (.error (.io e), d)
    | .ok staged =>
      if s.encode?.isNone then (.error .corrupt, unstage staged staging)
      else
        match staged.move staging path with
        | .error e => (.error (.io e), unstage staged staging)
        | .ok d => (.ok (), d)
  else (.error (.unusable s!"directory of {path} does not exist"), d)

/-- Clearing an absent document is no error. -/
def clear (d : Disk) (path : String) : Except CacheError Unit × Disk :=
  match d.remove path with
  | .ok d => (.ok (), d)
  | .error .notFound => (.ok (), d)
  | .error e => (.error (.io e), d)

end FileCache

def Cache.file (path : String) : Cache where
  useable w := FileCache.isUseable w.disk path
  filled w := w.disk.isFile path
  read w := FileCache.read w.disk path
  write s w :=
    let (result, disk) := FileCache.write w.disk path w.ticket s
    (result, { w with disk })
  clear w :=
    let (result, disk) := FileCache.clear w.disk path
    (result, { w with disk })

end Signpost
