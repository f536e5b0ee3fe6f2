import Signpost.Proofs.Cache.Atomicity
import Signpost.Proofs.Cache.Document
import Signpost.Proofs.Json.Truncation
import Signpost.Proofs.Load.Staleness

namespace Signpost

open Json (IsPlain)

theorem Snapshot.decode?_extract {s : Snapshot} {content : ByteArray} (h : s.encode? = some content) {k : Nat}
    (hk : k < content.size) : decode? (content.extract 0 k) = none := by
  obtain ⟨n, -, rfl⟩ := encode?_eq_some_iff.1 h
  obtain ⟨seconds, htext, hplain⟩ :
      ∃ seconds, (s.document (.int n)).toText = (s.document seconds).toText ∧ seconds.IsPlain := by
    by_cases hsmall : n < Word.count 64
    · have hplain : IsPlain (.int n) := ⟨by omega, by exact_mod_cast hsmall⟩
      exact ⟨.int n, rfl, hplain⟩
    · have hplain : IsPlain (.real (String.ofList (Nat.toDigits 10 n))) := Json.isPlain_toDigits (Nat.not_lt.1 hsmall)
      exact ⟨_, (s.toText_document_real n).symm, hplain⟩
  rw [htext] at hk ⊢
  have hread := Json.ofBytes?_extract_eq_none (s.isPlain_document hplain) hk
  rw [decode?, document, hread]
  rfl

namespace Loader

variable {s : Snapshot} {content : ByteArray} {k : Nat} {w : World} {path : String} {written : Timestamp}

/-- A cache that is filled with what it cannot read is written anew. -/
theorem load_of_unreadable {l : Loader} {c : Cache} {e : CacheError} {source : String} {text : ByteArray}
    {modified : Timestamp} {rs : List Route} (hactive : l.activeCache? w = some c) (hfilled : c.filled w = true)
    (hread : c.read w = .error e) (hsource : w.disk.node source = .ok (.file text modified))
    (hdefines : Source.Defines text rs) :
    l.load source w = ⟨.ok ⟨rs, .refreshed⟩, (c.write ⟨modified, rs⟩ w).2, [.read, .write ⟨modified, rs⟩]⟩ := by
  rw [load, Source.modifiedAt_of_node hsource]
  dsimp only
  rw [hactive]
  dsimp only
  rw [loadCached, if_pos hfilled, hread]
  dsimp only
  rw [parseAndStore, (Source.routes_eq_ok_iff hsource).2 hdefines]
  rfl

/-- However a document breaks off, it is corrupt to the cache. A load through this cache answers with all routes of
its definition file and puts a whole document in the place of the broken one, if any write can. -/
theorem load_truncated (hencode : s.encode? = some content) (hk : k < content.size)
    (hfile : w.disk.node path = .ok (.file (content.extract 0 k) written)) :
    FileCache.read w.disk path = .error .corrupt ∧
    ∀ (l : Loader) (source : String) (text : ByteArray) (modified : Timestamp) (rs : List Route),
      l.cache = some (.file path) → l.caching = true →
      w.disk.node source = .ok (.file text modified) → Source.Defines text rs →
      l.load source w =
        ⟨.ok ⟨rs, .refreshed⟩, ((Cache.file path).write ⟨modified, rs⟩ w).2, [.read, .write ⟨modified, rs⟩]⟩ ∧
      (FileCache.IsFresh w.disk path w.ticket → ((Cache.file path).write ⟨modified, rs⟩ w).1 = .ok () →
        ∃ whole, (⟨modified, rs⟩ : Snapshot).encode? = some whole ∧
          (l.load source w).world.disk.read path = .ok whole) := by
  have hread : FileCache.read w.disk path = .error .corrupt := by
    rw [FileCache.read_of_node hfile, Snapshot.decode?_extract hencode hk]
    rfl
  refine ⟨hread, fun l source text modified rs hcache hcaching hsource hdefines => ?_⟩
  have hactive : l.activeCache? w = some (.file path) :=
    activeCache?_eq_some_iff.2 ⟨hcache, hcaching, FileCache.isUseable_of_isFile (Disk.isFile_of_node hfile)⟩
  have hload := load_of_unreadable hactive (Disk.isFile_of_node hfile) hread hsource hdefines
  refine ⟨hload, fun hfresh hok => ?_⟩
  replace hok : (FileCache.write w.disk path w.ticket ⟨modified, rs⟩).1 = .ok () := hok
  obtain ⟨whole, hwhole, hthere, -⟩ := FileCache.write_eq_ok hfresh hok
  rw [hload]
  exact ⟨whole, hwhole, hthere⟩

def frayed : Snapshot :=
  ⟨.carry 5 0, [⟨.get, ⟨[.literal "é"], none⟩, ⟨"a", "b"⟩⟩]⟩

/-- Definitions, and a document that breaks off between the two bytes of its only letter beyond ASCII. -/
def torn : World where
  disk := ((Disk.fresh default).put ["tmp", "work", "r"] (.file "* / A->b".toUTF8 (.carry 5 1))).put
    ["tmp", "work", "c.json"] (.file ((frayed.document (.int 5)).toText.toUTF8.extract 0 120) default)

theorem load_truncated_torn :
    let content := (frayed.document (.int 5)).toText.toUTF8
    let rs : List Route := [⟨.any, ⟨[.literal ""], none⟩, ⟨"A", "b"⟩⟩]
    frayed.encode? = some content ∧ 120 < content.size ∧
      torn.disk.node "c.json" = .ok (.file (content.extract 0 120) default) ∧
      FileCache.read torn.disk "c.json" = .error .corrupt ∧
      ((withCache (.file "c.json")).load "r" torn).result = .ok ⟨rs, .refreshed⟩ ∧
      ∃ whole, (⟨.carry 5 1, rs⟩ : Snapshot).encode? = some whole ∧
        ((withCache (.file "c.json")).load "r" torn).world.disk.read "c.json" = .ok whole := by
  intro content rs
  have hencode : frayed.encode? = some content := Snapshot.encode?_eq_some_iff.2 ⟨5, rfl, rfl⟩
  have hk : 120 < content.size := by decide +kernel
  have hfile : torn.disk.node "c.json" = .ok (.file (content.extract 0 120) default) := rfl
  have hsource : torn.disk.node "r" = .ok (.file "* / A->b".toUTF8 (.carry 5 1)) := rfl
  have hdefines : Source.Defines "* / A->b".toUTF8 rs := ⟨_, fromUTF8?_toUTF8 _, rfl⟩
  have hfresh : FileCache.IsFresh torn.disk "c.json" torn.ticket := FileCache.isFresh_of_free rfl
  have hwritable : FileCache.Writable torn.disk "c.json" torn.ticket ⟨.carry 5 1, rs⟩ :=
    ⟨rfl, ⟨_, rfl⟩, by decide, ⟨_, rfl⟩⟩
  have hload := load_truncated hencode hk hfile
  have hrefreshed := hload.2 (withCache (.file "c.json")) "r" _ _ rs rfl rfl hsource hdefines
  have hwhole := hrefreshed.2 hfresh ((FileCache.write_eq_ok_iff _ hfresh).2 hwritable)
  exact ⟨hencode, hk, hfile, hload.1, by rw [hrefreshed.1], hwhole⟩

end Loader
end Signpost
