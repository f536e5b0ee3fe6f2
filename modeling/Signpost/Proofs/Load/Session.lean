import Signpost.Load.Configured
import Signpost.Proofs.Disk.Frame
import Signpost.Proofs.Load.Loader

namespace Signpost

namespace Disk

def subtree (d : Disk) (place : Location) : List (Location × Node) :=
  d.nodes.filter fun entry => place.isPrefixOf entry.1

def withoutSubtree (d : Disk) (place : Location) : Disk :=
  { d with nodes := d.nodes.filter fun entry => !place.isPrefixOf entry.1 }

theorem adds_subtree (d : Disk) (place : Location) : d.Adds noFile { d with nodes := d.subtree place } :=
  d.adds_filter fun other => place.isPrefixOf other

theorem adds_withoutSubtree (d : Disk) (place : Location) : d.Adds noFile (d.withoutSubtree place) :=
  d.adds_filter fun other => !place.isPrefixOf other

def putBack (d : Disk) (nodes : List (Location × Node)) : Disk :=
  { d with nodes := nodes ++ d.nodes.filter fun entry => (nodes.lookup entry.1).isNone }

end Disk

structure Session where
  world : World
  /-- What was taken away and may be put back. -/
  stowed : List (Location × Node) := []
  caching : Bool := true
  /-- Whether what is written to the cache gets there. -/
  writable : Bool := true

inductive Session.Step where
  | edit (path : String) (content : ByteArray) (modified : Timestamp)
  | touch (path : String) (modified : Timestamp)
  | remove (path : String)
  | makeDirectories (path : String)
  | stow (path : String)
  | restore
  | wait (now : Timestamp)
  | setCaching (on : Bool)
  | setWritable (on : Bool)
  | clear
  | load (path ticket : String)

structure Visit where
  path : String
  /-- The world as the load finds it. -/
  world : World
  outcome : Load

namespace Session

def withDisk (s : Session) (d : Disk) : Session :=
  { s with world := { s.world with disk := d } }

/-- Changes that fail have no effect. -/
def attempt (s : Session) (result : Except SystemError Disk) : Session :=
  match result with
  | .ok d => s.withDisk d
  | .error _ => s

def loader (c : CacheSettings) (s : Session) : Loader :=
  ⟨some (if s.writable then c.cache else c.cache.readOnly), s.caching⟩

def stow (s : Session) (path : String) : Session :=
  match s.world.disk.spot path with
  | .ok (.taken place _) =>
    { s.withDisk (s.world.disk.withoutSubtree place) with stowed := s.world.disk.subtree place ++ s.stowed }
  | _ => s

def visit? (c : CacheSettings) (s : Session) : Step → Option Visit
  | .load path ticket =>
    let w := { s.world with ticket }
    some ⟨path, w, (s.loader c).load path w⟩
  | _ => none

def step (c : CacheSettings) (s : Session) : Step → Session
  | .edit path content modified => s.attempt (s.world.disk.putFile path content modified)
  | .touch path modified => s.attempt (s.world.disk.touch path modified)
  | .remove path => s.withDisk (s.world.disk.removeTree path)
  | .makeDirectories path => s.attempt (s.world.disk.makeDirectories path)
  | .stow path => s.stow path
  | .restore => { s.withDisk (s.world.disk.putBack s.stowed) with stowed := [] }
  | .wait now => s.withDisk { s.world.disk with now }
  | .setCaching on => { s with caching := on }
  | .setWritable on => { s with writable := on }
  | .clear => { s with world := (c.cache.clear s.world).2 }
  | .load path ticket => { s with world := ((s.loader c).load path { s.world with ticket }).world }

def visits (c : CacheSettings) (s : Session) : List Step → List Visit
  | [] => []
  | a :: steps => (s.visit? c a).toList ++ visits c (s.step c a) steps

end Session

namespace Visit

def seen? (v : Visit) : Option (Timestamp × ByteArray) :=
  match v.world.disk.node v.path with
  | .ok (.file content modified) => some (modified, content)
  | _ => none

theorem seen?_of_node {v : Visit} {content : ByteArray} {modified : Timestamp}
    (h : v.world.disk.node v.path = .ok (.file content modified)) : v.seen? = some (modified, content) := by
  rw [seen?, h]

def Transparent (v : Visit) : Prop :=
  v.outcome.routes = (Loader.plain v.path v.world).routes

/-- Files that loads found with the same time had the same content. -/
def Steady (visits : List Visit) : Prop :=
  ∀ x ∈ visits.filterMap seen?, ∀ y ∈ visits.filterMap seen?, x.1 = y.1 → x.2 = y.2

instance (visits : List Visit) : Decidable (Steady visits) :=
  inferInstanceAs (Decidable (∀ x ∈ visits.filterMap seen?, ∀ y ∈ visits.filterMap seen?, x.1 = y.1 → x.2 = y.2))

def Reads (v : Visit) (e : Snapshot) : Prop :=
  ∃ content, v.seen? = some (e.modified, content) ∧ Source.Defines content e.routes

theorem Steady.eq {visits : List Visit} {v v' : Visit} {modified : Timestamp} {content content' : ByteArray}
    (h : Steady visits) (hv : v ∈ visits) (hv' : v' ∈ visits) (hseen : v.seen? = some (modified, content))
    (hseen' : v'.seen? = some (modified, content')) : content = content' := by
  have hx := List.mem_filterMap.2 ⟨v, hv, hseen⟩
  have hy := List.mem_filterMap.2 ⟨v', hv', hseen'⟩
  exact h _ hx _ hy rfl

end Visit

end Signpost
