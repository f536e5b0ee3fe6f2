import Signpost.Cli.Run
import Signpost.Proofs.Cache.Codec
import Signpost.Proofs.Cache.Document
import Signpost.Proofs.Decimal
import Signpost.Proofs.Load.Staleness

namespace Signpost

variable {w : World} {e : Snapshot}

theorem CacheSettings.useable_of_filled {s : CacheSettings} (h : s.cache.filled w = true) :
    s.cache.useable w = true := by
  revert h
  rw [CacheSettings.cache]
  cases s.backend with
  | file => exact FileCache.isUseable_of_isFile
  | memory => exact fun _ => rfl

namespace Loader

variable {l : Loader} {c : Cache} {path : String} {loaded : Loaded}

structure Holds (c : Cache) (path : String) (w : World) (e : Snapshot) : Prop where
  filled : c.filled w = true
  read : c.read w = .ok e
  source : ∃ content, w.disk.node path = .ok (.file content e.modified)

theorem holds_file {document : String} {content : ByteArray} {written : Timestamp}
    (hfile : w.disk.node document = .ok (.file content written)) (hdecode : Snapshot.decode? content = some e)
    (hsource : ∃ text, w.disk.node path = .ok (.file text e.modified)) : Holds (.file document) path w e := by
  have hread : FileCache.read w.disk document = .ok e := by
    rw [FileCache.read_of_node hfile, hdecode]
    rfl
  exact ⟨Disk.isFile_of_node hfile, hread, hsource⟩

theorem holds_of_served (hcache : l.cache = some c) (hload : (l.load path w).result = .ok loaded)
    (horigin : loaded.origin = .cache) : ∃ e, Holds c path w e ∧ loaded.routes = e.routes := by
  have hcourse := course_load l path w
  revert hload
  generalize l.load path w = load at hcourse
  intro hload
  cases hcourse with
  | unavailable | spoilt => cases hload
  | direct _ _ =>
      cases hparse : Source.parse path _ with
      | error e =>
          rw [hparse] at hload
          cases hload
      | ok rs =>
          rw [hparse] at hload
          cases hload
          cases horigin
  | served hsource hactive hfilled hread hfresh =>
      obtain rfl := Option.some.inj (hcache.symm.trans (cache_of_activeCache? hactive))
      cases hload
      exact ⟨_, ⟨hfilled, hread, _, hfresh ▸ hsource⟩, rfl⟩
  | parsed | refreshed =>
      cases hload
      cases horigin

end Loader

namespace Cli

open Loader (Holds)

variable {s : Settings}

theorem isCurrent_eq_true_iff :
    isCurrent s w e = true ↔ ∃ content, w.disk.node s.routes.file = .ok (.file content e.modified) := by
  rw [isCurrent]
  constructor
  · intro h
    cases hmodified : Source.modifiedAt w.disk s.routes.file with
    | error f =>
        rw [hmodified] at h
        cases h
    | ok modified =>
        rw [hmodified] at h
        obtain ⟨content, hnode⟩ := Source.modifiedAt_eq_ok hmodified
        have hfresh : e.modified = modified := beq_iff_eq.1 h
        rw [hfresh]
        exact ⟨content, hnode⟩
  · rintro ⟨content, hnode⟩
    rw [Source.modifiedAt_of_node hnode]
    exact beq_self_eq_true e.modified

namespace CacheReport

def Says (r : CacheReport) (name : String) (v : Json) : Prop :=
  ∃ fields, r.toJson = .obj fields ∧ (name, v) ∈ fields

variable {r : CacheReport}

theorem says_fresh_iff : r.Says "fresh" (.bool true) ↔ ∃ e, r.content = some (.ok (e, true)) := by
  rw [Says, toJson]
  rcases r.content with _ | error | ⟨e, fresh⟩
  · simp
  · simp
  · cases fresh <;> simp

theorem says_routes_iff {n : Int} :
    r.Says "routes" (.int n) ↔ ∃ e fresh, r.content = some (.ok (e, fresh)) ∧ n = e.routes.length := by
  rw [Says, toJson]
  rcases r.content with _ | error | ⟨e, fresh⟩
  · simp
  · simp
  · simp

theorem isReal_secondsText (t : Timestamp) : Json.IsReal (secondsText t).toList := by
  rw [secondsText]
  split
  · exact Json.isReal_point Json.isWhole_zero Json.isDigits_zero
  · exact Decimal.Binary.isReal_toText _

/-- The number of routes has to fit 64 bits. -/
def Fits (r : CacheReport) : Prop :=
  ∀ e fresh, r.content = some (.ok (e, fresh)) → e.routes.length < Word.count 64

theorem isPlain_toJson (h : r.Fits) : r.toJson.IsPlain := by
  rw [toJson]
  split
  · exact ⟨trivial, trivial, trivial, trivial⟩
  · exact ⟨trivial, trivial, trivial, trivial, trivial⟩
  · next e fresh hcontent =>
      have hroutes : Json.IsPlain (.int e.routes.length) := by
        refine ⟨?_, ?_⟩
        · omega
        · exact_mod_cast h e fresh hcontent
      exact ⟨trivial, trivial, trivial, hroutes, isReal_secondsText e.modified, trivial, trivial⟩

end CacheReport

theorem content_eq_some_iff :
    (cacheReport s w).content = some (.ok (e, true)) ↔ Holds s.cache.cache s.routes.file w e := by
  rw [cacheReport]
  dsimp only
  split
  · next hfilled =>
      rw [Option.some.injEq, map_eq_ok_iff]
      constructor
      · rintro ⟨found, hread, hfound⟩
        obtain ⟨rfl, hcurrent⟩ := Prod.mk.inj hfound
        exact ⟨hfilled, hread, isCurrent_eq_true_iff.1 hcurrent⟩
      · intro h
        exact ⟨e, h.read, by rw [isCurrent_eq_true_iff.2 h.source]⟩
  · next hfilled =>
      constructor
      · simp
      · intro h
        exact absurd h.filled hfilled

def cachedLoad (s : Settings) (w : World) : Load :=
  (CacheSettings.loader { s.cache with enabled := true }).load s.routes.file w

theorem cachedLoad_eq (h : Holds s.cache.cache s.routes.file w e) :
    cachedLoad s w = ⟨.ok ⟨e.routes, .cache⟩, w, [.read]⟩ := by
  obtain ⟨content, hnode⟩ := h.source
  have hconsults : (CacheSettings.loader { s.cache with enabled := true }).Consults s.cache.cache w :=
    ⟨rfl, rfl, CacheSettings.useable_of_filled h.filled⟩
  exact Loader.load_of_current hnode hconsults h.filled h.read

theorem ofText?_printed (r : CacheReport) (h : r.Fits) :
    Json.ofText? (r.toJson.toIndentedText ++ "\n") = some r.toJson := by
  have hline : Json.IsSpaces ['\n'] := Json.isSpaces_newLine 0
  exact Json.ofText?_toIndentedText (CacheReport.isPlain_toJson h) hline

/-- The status command prints a report that can be read back. The report calls the cache fresh if and only if a load
with caching switched on is served from the cache, and then it gives the number of routes of this load. A filled cache
can always be used. -/
theorem reports_fresh_iff_served (s : Settings) (w : World) :
    (∃ text, runCommand s w .cacheStatus = (.done text none, w) ∧
      text = (cacheReport s w).toJson.toIndentedText ++ "\n" ∧
      ((cacheReport s w).Fits → Json.ofText? text = some (cacheReport s w).toJson)) ∧
    ((cacheReport s w).Says "fresh" (.bool true) ↔
      ∃ loaded, (cachedLoad s w).result = .ok loaded ∧ loaded.origin = .cache) ∧
    (∀ loaded, (cachedLoad s w).result = .ok loaded → loaded.origin = .cache →
      ∀ n, (cacheReport s w).Says "routes" (.int n) ↔ n = loaded.routes.length) ∧
    (∀ path, (Cache.file path).filled w = true → (Cache.file path).useable w = true) ∧
    ((cacheReport s w).filled = true → (cacheReport s w).useable = true) := by
  refine ⟨⟨_, rfl, rfl, ofText?_printed _⟩, ⟨?_, ?_⟩, ?_, ?_, ?_⟩
  · intro hfresh
    obtain ⟨e, hcontent⟩ := CacheReport.says_fresh_iff.1 hfresh
    rw [cachedLoad_eq (content_eq_some_iff.1 hcontent)]
    exact ⟨_, rfl, rfl⟩
  · rintro ⟨loaded, hload, horigin⟩
    obtain ⟨e, hholds, -⟩ := Loader.holds_of_served rfl hload horigin
    exact CacheReport.says_fresh_iff.2 ⟨e, content_eq_some_iff.2 hholds⟩
  · intro loaded hload horigin n
    obtain ⟨e, hholds, hroutes⟩ := Loader.holds_of_served rfl hload horigin
    rw [CacheReport.says_routes_iff, content_eq_some_iff.2 hholds, hroutes]
    constructor
    · rintro ⟨_, _, ⟨rfl, rfl⟩, hn⟩
      exact hn
    · intro hn
      exact ⟨e, true, rfl, hn⟩
  · intro path hfilled
    exact FileCache.isUseable_of_isFile hfilled
  · intro hfilled
    apply CacheSettings.useable_of_filled
    rw [CacheReport.filled, cacheReport] at hfilled
    split at hfilled
    · assumption
    · cases hfilled

def kept : Snapshot :=
  ⟨.carry 5 1, [⟨.any, ⟨[.literal ""], none⟩, ⟨"A", "b"⟩⟩]⟩

/-- The definitions of the routes may have changed, but not their time. -/
def desk : World where
  disk := ((Disk.fresh default).put ["tmp", "work", "r"] (.file .empty (.carry 5 1))).put
    ["tmp", "work", "c.json"] (.file (kept.document (.int 5)).toText.toUTF8 default)

theorem reports_fresh_iff_served_desk :
    let s : Settings := { routes := ⟨"r"⟩, cache := { enabled := false, path := "c.json" } }
    (∃ text, runCommand s desk .cacheStatus = (.done text none, desk) ∧
      Json.ofText? text = some (cacheReport s desk).toJson) ∧
      (cachedLoad s desk).result = .ok ⟨kept.routes, .cache⟩ ∧ (cacheReport s desk).Says "fresh" (.bool true) ∧
      (cacheReport s desk).Says "routes" (.int 1) := by
  intro s
  have hfile : desk.disk.node "c.json" = .ok (.file (kept.document (.int 5)).toText.toUTF8 default) := rfl
  have hencode : kept.encode? = some (kept.document (.int 5)).toText.toUTF8 :=
    Snapshot.encode?_eq_some_iff.2 ⟨5, rfl, rfl⟩
  have hdecode : Snapshot.decode? (kept.document (.int 5)).toText.toUTF8 = some kept := by
    rw [Snapshot.decode?_of_encode? hencode, if_pos (by decide)]
  have hholds : Holds s.cache.cache "r" desk kept := Loader.holds_file hfile hdecode ⟨.empty, rfl⟩
  have hload : (cachedLoad s desk).result = .ok ⟨kept.routes, .cache⟩ := by rw [cachedLoad_eq hholds]
  have hfits : (cacheReport s desk).Fits := by
    intro e fresh hcontent
    rw [content_eq_some_iff.2 hholds] at hcontent
    cases hcontent
    decide
  obtain ⟨⟨text, hrun, -, hread⟩, hfresh, hroutes, -⟩ := reports_fresh_iff_served s desk
  exact ⟨⟨text, hrun, hread hfits⟩, hload, hfresh.2 ⟨_, hload, rfl⟩, (hroutes _ hload rfl 1).2 rfl⟩

end Cli
end Signpost
