import Signpost.Disk.Timestamp
import Signpost.Json.Bytes
import Signpost.Json.Writer
import Signpost.Route.Document
import Signpost.Word

namespace Signpost

namespace Timestamp

def toJson? (t : Timestamp) : Option Json :=
  if 0 ≤ t.seconds then
    some (.obj [("secs_since_epoch", .int t.seconds), ("nanos_since_epoch", .int t.nanos)])
  else none

def fieldNames : List String := ["secs_since_epoch", "nanos_since_epoch"]

def noneUnknown : Json → Bool
  | .obj fields => fields.all fun (name, _) => fieldNames.contains name
  | _ => true

/-- The seconds must fit 64 bits with their sign, after the nanoseconds are carried over. -/
def ofJson? (v : Json) : Option Timestamp := do
  if !noneUnknown v then none
  let fields ← Json.record? .json fieldNames v
  let seconds ← Json.required fields "secs_since_epoch" (Json.natBelow? (Word.count 64))
  let nanos ← Json.required fields "nanos_since_epoch" (Json.natBelow? (Word.count 32))
  let t := carry seconds nanos
  if t.seconds < (Word.count 63 : Int) then return t else none

end Timestamp

structure Snapshot where
  modified : Timestamp
  routes : List Route
  deriving DecidableEq, Repr

namespace Snapshot

def isFresh (s : Snapshot) (modified : Timestamp) : Bool :=
  s.modified == modified

def toJson? (s : Snapshot) : Option Json :=
  s.modified.toJson?.map fun t => .obj [("timestamp", t), ("routes", .arr (s.routes.map Route.toJson))]

def ofJson? (v : Json) : Option Snapshot := do
  let fields ← Json.record? .json ["timestamp", "routes"] v
  let modified ← Json.required fields "timestamp" Timestamp.ofJson?
  let routes ← Json.required fields "routes" (Json.list? Route.ofJson?)
  return ⟨modified, routes⟩

def encode? (s : Snapshot) : Option ByteArray :=
  s.toJson?.map fun v => v.toText.toUTF8

def decode? (content : ByteArray) : Option Snapshot := do
  let v ← Json.ofBytes? content
  ofJson? v

end Snapshot

end Signpost
