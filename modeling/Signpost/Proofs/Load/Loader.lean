import Signpost.Proofs.Load.Course

namespace Signpost

variable {d e : Disk} {w : World} {path : String} {content : ByteArray} {modified : Timestamp} {rs : List Route}

namespace Source

theorem modifiedAt_congr (h : e.spot path = d.spot path) : modifiedAt e path = modifiedAt d path := by
  rw [modifiedAt, modifiedAt, Disk.node, Disk.node, h]

theorem modifiedAt_of_error {cause : SystemError} (h : d.spot path = .error cause) :
    modifiedAt d path = .error (.sourceUnavailable path cause) := by
  rw [modifiedAt, Disk.node, h]
  rfl

theorem routes_congr (h : e.spot path = d.spot path) : routes e path = routes d path := by
  rw [routes, routes, Disk.readText, Disk.readText, Disk.read, Disk.read, Disk.node, Disk.node, h]

end Source

def Load.routes (l : Load) : Except Failure (List Route) :=
  l.result.map Loaded.routes

def CacheUse.written? : CacheUse → Option Snapshot
  | .read => none
  | .write s => some s

def Load.written (l : Load) : List Snapshot :=
  l.uses.filterMap CacheUse.written?

namespace Loader

variable {l : Loader} {c : Cache}

def plain (path : String) (w : World) : Load :=
  ({} : Loader).load path w

theorem routes_plain (h : Source.modifiedAt w.disk path = .ok modified) :
    (plain path w).routes = Source.routes w.disk path := by
  rw [plain, load, h]
  cases hroutes : Source.routes w.disk path with
  | error f => simp [activeCache?, loadPlain, hroutes, Load.routes, Except.map]
  | ok rs => simp [activeCache?, loadPlain, hroutes, Load.routes, Except.map]

/-- The routes of a load are those of the file as it is, unless the cache has a snapshot of its time. -/
theorem routes_load (l : Loader) (path : String) (w : World) :
    (l.load path w).routes = (plain path w).routes ∨
    ∃ c s, l.cache = some c ∧ c.read w = .ok s ∧ Source.modifiedAt w.disk path = .ok s.modified ∧
      (l.load path w).routes = .ok s.routes := by
  cases hmodified : Source.modifiedAt w.disk path with
  | error f =>
      left
      rw [plain, load_of_error l hmodified, load_of_error {} hmodified]
  | ok modified =>
      obtain ⟨content, hnode⟩ := Source.modifiedAt_eq_ok hmodified
      rw [routes_plain hmodified, Source.routes_of_node hnode]
      have hcourse := course_load l path w
      generalize l.load path w = load at hcourse
      cases hcourse with
      | unavailable hnone => exact absurd hnode (hnone content modified)
      | direct hsource =>
          cases hnode.symm.trans hsource
          left
          cases Source.parse path content <;> rfl
      | served hsource hcache _ hread hfresh =>
          cases hnode.symm.trans hsource
          exact .inr ⟨_, _, cache_of_activeCache? hcache, hread, hfresh ▸ rfl, rfl⟩
      | spoilt hsource _ _ hparse | parsed hsource _ _ hparse | refreshed hsource _ _ _ hparse =>
          cases hnode.symm.trans hsource
          left
          rw [hparse]
          rfl

/-- A load writes one snapshot, of the file as it is, or leaves the world alone. -/
theorem written_cases (l : Loader) (path : String) (w : World) :
    (l.load path w).written = [] ∧ (l.load path w).world = w ∨
    ∃ c modified rs, l.activeCache? w = some c ∧ Source.modifiedAt w.disk path = .ok modified ∧
      Source.routes w.disk path = .ok rs ∧ (l.load path w).written = [⟨modified, rs⟩] ∧
      (l.load path w).world = (c.write ⟨modified, rs⟩ w).2 := by
  have hcourse := course_load l path w
  generalize l.load path w = load at hcourse ⊢
  cases hcourse with
  | unavailable | direct | served => exact .inl ⟨rfl, rfl⟩
  | spoilt _ _ _ _ huses => rcases huses with rfl | rfl <;> exact .inl ⟨rfl, rfl⟩
  | parsed hsource hcache _ hparse | refreshed hsource hcache _ _ hparse =>
      have hroutes := (Source.routes_eq_ok_iff hsource).2 (Source.parse_eq_ok_iff.1 hparse)
      exact .inr ⟨_, _, _, hcache, Source.modifiedAt_of_node hsource, hroutes, rfl, rfl⟩

theorem world_load (l : Loader) (path : String) (w : World) :
    (l.load path w).world = w ∨
    ∃ c modified rs, l.cache = some c ∧ Source.modifiedAt w.disk path = .ok modified ∧
      Source.routes w.disk path = .ok rs ∧ (l.load path w).world = (c.write ⟨modified, rs⟩ w).2 := by
  obtain ⟨-, hw⟩ | ⟨c, modified, rs, hc, hmodified, hroutes, -, hw⟩ := l.written_cases path w
  · exact .inl hw
  · exact .inr ⟨c, modified, rs, cache_of_activeCache? hc, hmodified, hroutes, hw⟩

section Congr

variable {c' : Cache} {w' : World}

theorem parseAndStore_congr (hspot : w'.disk.spot path = w.disk.spot path) (modified : Timestamp) (origin : Origin)
    (uses : List CacheUse) :
    (parseAndStore c' path modified origin uses w').result = (parseAndStore c path modified origin uses w).result ∧
    (parseAndStore c' path modified origin uses w').uses = (parseAndStore c path modified origin uses w).uses := by
  rw [parseAndStore, parseAndStore, Source.routes_congr hspot]
  cases Source.routes w.disk path <;> exact ⟨rfl, rfl⟩

theorem loadCached_congr (hspot : w'.disk.spot path = w.disk.spot path) (hfilled : c'.filled w' = c.filled w)
    (hread : c'.read w' = c.read w) (modified : Timestamp) :
    (loadCached c' path modified w').result = (loadCached c path modified w).result ∧
    (loadCached c' path modified w').uses = (loadCached c path modified w).uses := by
  rw [loadCached, loadCached, hfilled, hread]
  split
  · split
    · split
      · exact ⟨rfl, rfl⟩
      · exact parseAndStore_congr hspot modified .refreshed [.read]
    · exact parseAndStore_congr hspot modified .refreshed [.read]
  · exact parseAndStore_congr hspot modified .parsed []

/-- Two caches that hold the same serve a load the same way. -/
theorem load_congr (caching : Bool) (hspot : w'.disk.spot path = w.disk.spot path) (huse : c'.useable w' = c.useable w)
    (hfilled : c'.filled w' = c.filled w) (hread : c'.read w' = c.read w) :
    let load := (⟨some c, caching⟩ : Loader).load path w
    let load' := (⟨some c', caching⟩ : Loader).load path w'
    load'.result = load.result ∧ load'.uses = load.uses := by
  intro load load'
  have hactive : (⟨some c', caching⟩ : Loader).activeCache? w' =
      ((⟨some c, caching⟩ : Loader).activeCache? w).map fun _ => c' := by
    simp only [activeCache?, Option.filter_some, huse]
    split <;> rfl
  change (Loader.load _ path w').result = (Loader.load _ path w).result ∧
    (Loader.load _ path w').uses = (Loader.load _ path w).uses
  rw [Loader.load, Loader.load, Source.modifiedAt_congr hspot, hactive]
  cases Source.modifiedAt w.disk path with
  | error f => exact ⟨rfl, rfl⟩
  | ok modified =>
      cases hc : (⟨some c, caching⟩ : Loader).activeCache? w with
      | none =>
          dsimp only [Option.map_none, loadPlain]
          rw [Source.routes_congr hspot]
          exact ⟨rfl, rfl⟩
      | some active =>
          cases cache_of_activeCache? hc
          exact loadCached_congr hspot hfilled hread modified

end Congr

end Loader
end Signpost
