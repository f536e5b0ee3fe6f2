import Signpost.Load.Configured
import Signpost.Proofs.Cache.Codec
import Signpost.Proofs.Cache.Staging
import Signpost.Proofs.Load.Loader
import Signpost.Proofs.Route.Line
import Signpost.Settings.Check

namespace Signpost

theorem Snapshot.head_document (s : Snapshot) (seconds : Json) :
    ∃ rest, (s.document seconds).toText.toList = '\x7b' :: rest := by
  rw [Json.toText, String.toList_ofList]
  exact ⟨_, rfl⟩

/-- The document of a snapshot is no definition file. -/
theorem Source.not_defines_of_encode? {s : Snapshot} {content : ByteArray} {rs : List Route}
    (h : s.encode? = some content) : ¬Defines content rs := by
  rintro ⟨text, htext, hroutes⟩
  obtain ⟨n, -, rfl⟩ := Snapshot.encode?_eq_some_iff.1 h
  rw [fromUTF8?_toUTF8, Option.some.injEq] at htext
  subst htext
  obtain ⟨rest, hhead⟩ := s.head_document (.int n)
  have hfirst := Route.head_of_ofSource hhead rfl hroutes
  exact absurd hfirst (by decide)

namespace CacheSettings

variable {s : CacheSettings} {w : World}

def Unstaged (s : CacheSettings) (w : World) : Prop :=
  s.backend = .file → FileCache.IsFresh w.disk s.path w.ticket

theorem cache_write_cases (e : Snapshot) (hfresh : s.Unstaged w) :
    ((s.backend = .file → (s.cache.write e w).1 ≠ .ok ()) ∧ (s.cache.write e w).2.disk = w.disk) ∨
    s.backend = .file ∧ (s.cache.write e w).1 = .ok () ∧ ∃ content, e.encode? = some content ∧
      w.disk.Replaced (w.disk.placeOf s.path) (some (.file content w.disk.now)) (s.cache.write e w).2.disk := by
  cases hb : s.backend with
  | memory =>
      left
      rw [cache, hb]
      exact ⟨nofun, rfl⟩
  | file =>
      rw [cache, hb]
      simp only [Cache.file]
      obtain ⟨cause, hwrite⟩ | ⟨content, d, hencode, hwrite, hreplaced⟩ := FileCache.write_cases e (hfresh hb)
      · left
        rw [hwrite]
        exact ⟨fun _ => nofun, rfl⟩
      · right
        rw [hwrite]
        exact ⟨trivial, rfl, content, hencode, hreplaced⟩

end CacheSettings

namespace Settings

def loadRoutes (s : Settings) (w : World) : Load :=
  s.cache.loader.load s.routes.file w

def Overlaps (s : Settings) (d : Disk) : Prop :=
  s.cache.backend = .file ∧ d.placeOf s.routes.file = d.placeOf s.cache.path

instance (s : Settings) (d : Disk) : Decidable (s.Overlaps d) :=
  inferInstanceAs (Decidable (_ ∧ _))

variable {s : Settings} {w : World}

theorem loadRoutes_cases (s : Settings) (w : World) :
    (s.loadRoutes w).written = [] ∧ (s.loadRoutes w).world = w ∨
    ∃ e, (s.loadRoutes w).written = [e] ∧ (s.loadRoutes w).world = (s.cache.cache.write e w).2 ∧
      s.cache.enabled = true ∧ Source.modifiedAt w.disk s.routes.file = .ok e.modified ∧
      Source.routes w.disk s.routes.file = .ok e.routes := by
  rw [loadRoutes]
  obtain hkept | ⟨c, modified, rs, hactive, hmodified, hroutes, hwritten, hworld⟩ :=
    s.cache.loader.written_cases s.routes.file w
  · exact .inl hkept
  · obtain ⟨hcache, huse⟩ := Option.filter_eq_some_iff.1 hactive
    cases hcache
    rw [Bool.and_eq_true] at huse
    exact .inr ⟨⟨modified, rs⟩, hwritten, hworld, huse.1, hmodified, hroutes⟩

/-- Nothing but the document of the cache is touched by a load, and the definition file is kept unless it is that
document and has just been overwritten. -/
theorem loadRoutes_keeps_source_iff (s : Settings) (w : World) (hfresh : s.cache.Unstaged w) :
    (∀ place, (s.loadRoutes w).world.disk.node? place ≠ w.disk.node? place →
      place = w.disk.placeOf s.cache.path ∧ s.cache.enabled = true ∧ s.cache.backend = .file) ∧
    ((s.loadRoutes w).world.disk.read s.routes.file = w.disk.read s.routes.file ↔
      ¬(s.Overlaps w.disk ∧ ∃ e ∈ (s.loadRoutes w).written, (s.cache.cache.write e w).1 = .ok ())) := by
  obtain ⟨hwritten, hworld⟩ | ⟨e, hwritten, hworld, henabled, hmodified, hroutes⟩ := s.loadRoutes_cases w
  · rw [hwritten, hworld]
    simp
  rw [hwritten, hworld]
  obtain ⟨hfails, hdisk⟩ | ⟨hb, hok, content, hencode, hreplaced⟩ := CacheSettings.cache_write_cases e hfresh
  · rw [hdisk]
    simp only [List.mem_singleton, exists_eq_left, ne_eq, not_true_eq_false, false_imp_iff, implies_true, true_and,
      true_iff]
    exact fun ⟨⟨hb, _⟩, hok⟩ => hfails hb hok
  refine ⟨fun place hchanged => ⟨?_, henabled, hb⟩, ?_⟩
  · apply Classical.byContradiction
    intro hother
    rw [hreplaced.node?, if_neg hother] at hchanged
    exact hchanged rfl
  -- the file could be read, so that nothing on the way to it has changed
  obtain ⟨old, hnode⟩ := Source.modifiedAt_eq_ok hmodified
  have hspot := Disk.spot_of_node hnode
  have hspot' := hreplaced.spot_taken hspot
  rw [Disk.read_of_file hspot]
  by_cases hsame : w.disk.placeOf s.routes.file = w.disk.placeOf s.cache.path
  · have hdefines := (Source.routes_eq_ok_iff hnode).1 hroutes
    have hne : content ≠ old := by
      rintro rfl
      exact Source.not_defines_of_encode? hencode hdefines
    rw [if_pos hsame] at hspot'
    rw [Disk.read_of_file hspot']
    simp [Overlaps, hsame, hb, hok, hne]
  · rw [if_neg hsame] at hspot'
    rw [Disk.read_of_file hspot']
    simp [Overlaps, hsame]

def caching (path : String) : Settings where
  cache := { enabled := true, path }

def furnished : World where
  disk := (Disk.fresh default).put ["tmp", "work", "routes.txt"] (.file "* / A->b".toUTF8 (.carry 5 0))

theorem loadRoutes_keeps_source_iff_apart :
    (caching "c.json").check = [] ∧ (caching "c.json").cache.Unstaged furnished ∧
      ((caching "c.json").loadRoutes furnished).written.length = 1 ∧
      ((caching "c.json").loadRoutes furnished).world.disk.isFile "c.json" = true ∧
      ((caching "c.json").loadRoutes furnished).world.disk.read "routes.txt" = furnished.disk.read "routes.txt" := by
  have hfresh : (caching "c.json").cache.Unstaged furnished := fun _ => FileCache.isFresh_of_free rfl
  have hkept := ((caching "c.json").loadRoutes_keeps_source_iff furnished hfresh).2.2
  have hapart : ¬(caching "c.json").Overlaps furnished.disk := by decide +kernel
  exact ⟨by decide +kernel, hfresh, by decide +kernel, by decide +kernel, hkept fun h => hapart h.1⟩

/-- The load answers, and then its document lies where the definitions were. -/
theorem loadRoutes_overwrites_source :
    let load := (caching "routes.txt").loadRoutes furnished
    (caching "routes.txt").check = [] ∧ load.result.toOption.isSome = true ∧
      (furnished.disk.readText "routes.txt").toOption = some "* / A->b" ∧
      (load.world.disk.readText "routes.txt").toOption ≠ some "* / A->b" := by
  decide +kernel

end Settings
end Signpost
