import Signpost.Disk.Tree
import Signpost.Proofs.Load.Loader

namespace Signpost

namespace Loader

variable {l : Loader} {c : Cache} {w : World} {path : String} {content : ByteArray} {modified : Timestamp}

/-- The loader has this cache, which is switched on and can be used. -/
def Consults (l : Loader) (c : Cache) (w : World) : Prop :=
  l.cache = some c ∧ l.caching = true ∧ c.useable w = true

theorem activeCache?_eq_some_iff : l.activeCache? w = some c ↔ l.Consults c w := by
  rw [activeCache?, Option.filter_eq_some_iff, Bool.and_eq_true, Consults]

namespace Course

variable {load : Load}

theorem written_of_error {f : Failure} (h : Course l path w load) (hf : load.result = .error f) :
    load.written = [] ∧ load.world = w := by
  cases h with
  | unavailable | direct => exact ⟨rfl, rfl⟩
  | spoilt _ _ _ _ huses =>
      rcases huses with rfl | rfl
      · exact ⟨rfl, rfl⟩
      · exact ⟨rfl, rfl⟩
  | served | parsed | refreshed => cases hf

end Course

theorem load_of_current {s : Snapshot} (hsource : w.disk.node path = .ok (.file content s.modified))
    (hcache : l.Consults c w) (hfilled : c.filled w = true) (hread : c.read w = .ok s) :
    l.load path w = ⟨.ok ⟨s.routes, .cache⟩, w, [.read]⟩ := by
  have hfresh : s.isFresh s.modified = true := beq_self_eq_true s.modified
  rw [load, Source.modifiedAt, hsource]
  simp only [activeCache?_eq_some_iff.2 hcache]
  rw [loadCached, if_pos hfilled, hread]
  exact if_pos hfresh

end Loader
end Signpost
