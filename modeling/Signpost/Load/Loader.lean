import Signpost.Cache.Basic
import Signpost.Load.Origin
import Signpost.Load.Source

namespace Signpost

structure Loader where
  cache : Option Cache := none
  caching : Bool := false

structure Loaded where
  routes : List Route
  origin : Origin
  deriving DecidableEq, Repr

inductive CacheUse where
  | read
  | write (s : Snapshot)
  deriving DecidableEq, Repr

structure Load where
  result : Except Failure Loaded
  world : World
  uses : List CacheUse

namespace Loader

def withCache (c : Cache) : Loader :=
  ⟨some c, true⟩

/-- The cache, if it is in use and can be used. -/
def activeCache? (l : Loader) (w : World) : Option Cache :=
  l.cache.filter fun c => l.caching && c.useable w

def parseAndStore (c : Cache) (path : String) (modified : Timestamp) (origin : Origin) (uses : List CacheUse)
    (w : World) : Load :=
  match Source.routes w.disk path with
  | .error f => ⟨.error f, w, uses⟩
  | .ok routes =>
    let s : Snapshot := ⟨modified, routes⟩
    ⟨.ok ⟨routes, origin⟩, (c.write s w).2, uses ++ [.write s]⟩

def loadCached (c : Cache) (path : String) (modified : Timestamp) (w : World) : Load :=
  if c.filled w then
    match c.read w with
    | .ok s =>
      if s.isFresh modified then ⟨.ok ⟨s.routes, .cache⟩, w, [.read]⟩
      else parseAndStore c path modified .refreshed [.read] w
    | .error _ => parseAndStore c path modified .refreshed [.read] w
  else parseAndStore c path modified .parsed [] w

def loadPlain (path : String) (w : World) : Load :=
  ⟨(Source.routes w.disk path).map (⟨·, .direct⟩), w, []⟩

/-- A cached snapshot is served only for the modification time that it was made at. No error of the cache
is one of the load. -/
def load (l : Loader) (path : String) (w : World) : Load :=
  match Source.modifiedAt w.disk path with
  | .error f => ⟨.error f, w, []⟩
  | .ok modified =>
    match l.activeCache? w with
    | none => loadPlain path w
    | some c => loadCached c path modified w

end Loader

end Signpost
