import Signpost.Load.Configured
import Signpost.Proofs.Cache.Codec
import Signpost.Proofs.Cache.Document

namespace Signpost

namespace CacheSettings

variable {c : CacheSettings} {w : World} {d : Disk} {e s : Snapshot}

def place (c : CacheSettings) (d : Disk) : Location :=
  d.placeOf c.path

/-- The snapshot that is in the cache, whether or not it can be reached just now. -/
def Holds (c : CacheSettings) (w : World) (e : Snapshot) : Prop :=
  match c.backend with
  | .memory => w.memory = some e
  | .file => ∃ content, w.disk.Stores (c.place w.disk) content ∧ Snapshot.decode? content = some e

theorem holds_file_iff (hb : c.backend = .file) :
    c.Holds w e ↔ ∃ content, w.disk.Stores (c.place w.disk) content ∧ Snapshot.decode? content = some e := by
  rw [Holds, hb]

theorem holds_memory_iff (hb : c.backend = .memory) : c.Holds w e ↔ w.memory = some e := by
  rw [Holds, hb]

theorem holds_of_read (h : c.cache.read w = .ok e) : c.Holds w e := by
  rw [cache] at h
  cases hb : c.backend with
  | file =>
      rw [hb] at h
      exact (holds_file_iff hb).2 (FileCache.read_eq_ok h)
  | memory =>
      simp only [hb, Cache.memory] at h
      rw [holds_memory_iff hb]
      cases hm : w.memory with
      | none => simp only [hm] at h; cases h
      | some found =>
          simp only [hm, Except.ok.injEq] at h
          rw [h]

/-- Files come into the cache only as fresh files at its place. -/
theorem holds_of_adds {fresh : Location → ByteArray → Prop} (hadds : w.disk.Adds fresh d)
    (h : c.Holds { w with disk := d } e) :
    c.Holds w e ∨
    c.backend = .file ∧ ∃ content, fresh (c.place w.disk) content ∧ Snapshot.decode? content = some e := by
  cases hb : c.backend with
  | memory =>
      rw [holds_memory_iff hb] at h ⊢
      exact .inl h
  | file =>
      rw [holds_file_iff hb] at h ⊢
      obtain ⟨content, hstores, hdecode⟩ := h
      rw [place, hadds.placeOf] at hstores
      rcases hadds.stores _ _ hstores with hold | hnew
      · exact .inl ⟨content, hold, hdecode⟩
      · exact .inr ⟨rfl, content, hnew, hdecode⟩

theorem holds_of_adds_noFile (hadds : w.disk.Adds Disk.noFile d) (h : c.Holds { w with disk := d } e) :
    c.Holds w e := by
  rcases holds_of_adds hadds h with hold | ⟨-, _, hno, -⟩
  · exact hold
  · exact hno.elim

/-- A write that fails keeps what was there. -/
theorem holds_of_write (h : c.Holds (c.cache.write s w).2 e) : c.Holds w e ∨ e = s := by
  cases hb : c.backend with
  | memory =>
      simp only [Holds, cache, hb, Cache.memory, Option.some.injEq] at h
      exact .inr h.symm
  | file =>
      have hcache : c.cache = .file c.path := by rw [cache, hb]
      rw [hcache] at h
      rcases holds_of_adds (FileCache.adds_write w.disk c.path w.ticket s) h with hold | ⟨-, content, hnew, hdecode⟩
      · exact .inl hold
      · right
        rw [FileCache.written] at hnew
        cases hencode : s.encode? with
        | none =>
            rw [hencode, Option.getD_none] at hnew
            rw [hnew, FileCache.decode?_empty] at hdecode
            cases hdecode
        | some document =>
            rw [hencode, Option.getD_some] at hnew
            rw [hnew, Snapshot.decode?_of_encode? hencode] at hdecode
            split at hdecode
            · exact (Option.some.inj hdecode).symm
            · cases hdecode

theorem holds_of_clear (h : c.Holds (c.cache.clear w).2 e) : c.Holds w e := by
  cases hb : c.backend with
  | memory =>
      simp only [Holds, cache, hb, Cache.memory] at h
      cases h
  | file =>
      have hcache : c.cache = .file c.path := by rw [cache, hb]
      rw [hcache] at h
      exact holds_of_adds_noFile (FileCache.adds_clear w.disk c.path) h

theorem home_write (c : CacheSettings) (s : Snapshot) (w : World) : (c.cache.write s w).2.disk.home = w.disk.home := by
  rw [cache]
  cases c.backend with
  | memory => rfl
  | file => exact (FileCache.adds_write w.disk c.path w.ticket s).home

theorem home_clear (c : CacheSettings) (w : World) : (c.cache.clear w).2.disk.home = w.disk.home := by
  rw [cache]
  cases c.backend with
  | memory => rfl
  | file => exact (FileCache.adds_clear w.disk c.path).home

theorem place_eq_of_home {d' : Disk} (h : d'.home = d.home) : c.place d' = c.place d :=
  Disk.placeOf_eq_of_home h c.path

end CacheSettings

end Signpost
