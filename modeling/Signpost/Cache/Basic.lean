import Signpost.Cache.Snapshot
import Signpost.Disk.Basic

namespace Signpost

inductive CacheError where
  | unusable (reason : String)
  | empty
  | io (cause : SystemError)
  | corrupt
  deriving DecidableEq, Repr

def CacheError.message : CacheError → String
  | unusable reason => s!"cache store unusable: {reason}"
  | empty => "cache is empty"
  | io cause => s!"cache I/O error: {cause.message}"
  | corrupt => "cache entry is corrupt"

/-- The files, what the process keeps in memory, and a name that no file has yet. -/
structure World where
  disk : Disk
  memory : Option Snapshot := none
  ticket : String := "00000000-0000-4000-8000-000000000000"

structure Cache where
  useable : World → Bool
  filled : World → Bool
  read : World → Except CacheError Snapshot
  write : Snapshot → World → Except CacheError Unit × World
  clear : World → Except CacheError Unit × World

namespace Cache

def memory : Cache where
  useable _ := true
  filled w := w.memory.isSome
  read w :=
    match w.memory with
    | some s => .ok s
    | none => .error .empty
  write s w := (.ok (), { w with memory := some s })
  clear w := (.ok (), { w with memory := none })

def closed (c : Cache) : Cache :=
  { c with useable := fun _ => false }

def readOnly (c : Cache) : Cache :=
  { c with write := fun _ w => (.error (.unusable "read-only store"), w) }

end Cache

end Signpost
