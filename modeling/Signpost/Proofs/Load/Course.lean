import Signpost.Load.Loader
import Signpost.Proofs.Except

namespace Signpost

namespace Source

variable {d : Disk} {path : String} {content : ByteArray} {modified : Timestamp} {rs : List Route}

def Defines (content : ByteArray) (rs : List Route) : Prop :=
  ∃ text, String.fromUTF8? content = some text ∧ Route.ofSource text = .ok rs

theorem modifiedAt_eq_ok (h : modifiedAt d path = .ok modified) :
    ∃ content, d.node path = .ok (.file content modified) := by
  rw [modifiedAt] at h
  split at h <;> cases h
  exact ⟨_, ‹_›⟩

theorem modifiedAt_of_node (h : d.node path = .ok (.file content modified)) : modifiedAt d path = .ok modified := by
  rw [modifiedAt, h]

theorem readText_of_node (h : d.node path = .ok (.file content modified)) :
    d.readText path = match String.fromUTF8? content with
      | some text => .ok text
      | none => .error .notText := by
  have hread : d.read path = .ok content := by
    rw [Disk.read, h]
    rfl
  rw [Disk.readText, hread]
  rfl

def parse (path : String) (content : ByteArray) : Except DefinitionError (List Route) :=
  match String.fromUTF8? content with
  | none => .error { fault := .encoding, text := path }
  | some text => Route.ofSource text

theorem routes_of_node (h : d.node path = .ok (.file content modified)) :
    routes d path = (parse path content).mapError .definition := by
  rw [routes, readText_of_node h, parse]
  cases String.fromUTF8? content <;> rfl

theorem parse_eq_ok_iff : parse path content = .ok rs ↔ Defines content rs := by
  rw [parse, Defines]
  cases String.fromUTF8? content <;> simp

theorem routes_eq_ok_iff (h : d.node path = .ok (.file content modified)) :
    routes d path = .ok rs ↔ Defines content rs := by
  rw [routes_of_node h, mapError_eq_ok_iff, parse_eq_ok_iff]

theorem modifiedAt_cases (d : Disk) (path : String) :
    (∃ content modified, d.node path = .ok (.file content modified) ∧ modifiedAt d path = .ok modified) ∨
    (∀ content modified, d.node path ≠ .ok (.file content modified)) ∧
      ∃ cause, modifiedAt d path = .error (.sourceUnavailable path cause) := by
  rw [modifiedAt]
  cases d.node path with
  | error cause => exact .inr ⟨by simp, cause, rfl⟩
  | ok n =>
      cases n with
      | file content modified => exact .inl ⟨content, modified, rfl, rfl⟩
      | locked _ | directory | device => exact .inr ⟨by simp, _, rfl⟩

end Source

namespace Loader

variable {l : Loader} {c : Cache} {w : World} {path : String}

theorem load_of_error (l : Loader) {f : Failure} (h : Source.modifiedAt w.disk path = .error f) :
    l.load path w = ⟨.error f, w, []⟩ := by
  rw [load, h]

theorem cache_of_activeCache? (h : l.activeCache? w = some c) : l.cache = some c :=
  (Option.filter_eq_some_iff.1 h).1

def IsCurrent (c : Cache) (w : World) (modified : Timestamp) : Prop :=
  c.filled w = true ∧ ∃ s, c.read w = .ok s ∧ s.modified = modified

/-- The ways that a load can go. -/
inductive Course (l : Loader) (path : String) (w : World) : Load → Prop
  | unavailable {cause} (hsource : ∀ content modified, w.disk.node path ≠ .ok (.file content modified)) :
      Course l path w ⟨.error (.sourceUnavailable path cause), w, []⟩
  | direct {content modified} (hsource : w.disk.node path = .ok (.file content modified))
      (hcache : l.activeCache? w = none) :
      Course l path w ⟨((Source.parse path content).mapError .definition).map (⟨·, .direct⟩), w, []⟩
  | served {content modified c s} (hsource : w.disk.node path = .ok (.file content modified))
      (hcache : l.activeCache? w = some c) (hfilled : c.filled w = true) (hread : c.read w = .ok s)
      (hfresh : s.modified = modified) : Course l path w ⟨.ok ⟨s.routes, .cache⟩, w, [.read]⟩
  | spoilt {content modified c e uses} (hsource : w.disk.node path = .ok (.file content modified))
      (hcache : l.activeCache? w = some c) (hstale : ¬IsCurrent c w modified)
      (hparse : Source.parse path content = .error e) (huses : uses = [] ∨ uses = [.read]) :
      Course l path w ⟨.error (.definition e), w, uses⟩
  | parsed {content modified c rs} (hsource : w.disk.node path = .ok (.file content modified))
      (hcache : l.activeCache? w = some c) (hfilled : c.filled w = false)
      (hparse : Source.parse path content = .ok rs) :
      Course l path w ⟨.ok ⟨rs, .parsed⟩, (c.write ⟨modified, rs⟩ w).2, [.write ⟨modified, rs⟩]⟩
  | refreshed {content modified c rs} (hsource : w.disk.node path = .ok (.file content modified))
      (hcache : l.activeCache? w = some c) (hfilled : c.filled w = true) (hstale : ¬IsCurrent c w modified)
      (hparse : Source.parse path content = .ok rs) :
      Course l path w ⟨.ok ⟨rs, .refreshed⟩, (c.write ⟨modified, rs⟩ w).2, [.read, .write ⟨modified, rs⟩]⟩

variable {content : ByteArray} {modified : Timestamp}

theorem course_refreshed (hsource : w.disk.node path = .ok (.file content modified)) (hcache : l.activeCache? w = some c)
    (hfilled : c.filled w = true) (hstale : ¬IsCurrent c w modified) :
    Course l path w (parseAndStore c path modified .refreshed [.read] w) := by
  rw [parseAndStore, Source.routes_of_node hsource]
  cases hparse : Source.parse path content with
  | error e => exact .spoilt hsource hcache hstale hparse (.inr rfl)
  | ok rs => exact .refreshed hsource hcache hfilled hstale hparse

theorem course_load (l : Loader) (path : String) (w : World) : Course l path w (l.load path w) := by
  obtain ⟨content, modified, hsource, hmodified⟩ | ⟨hsource, cause, hmodified⟩ := Source.modifiedAt_cases w.disk path
  case inr =>
    rw [load_of_error l hmodified]
    exact .unavailable hsource
  rw [load, hmodified]
  cases hcache : l.activeCache? w with
  | none =>
      dsimp only
      rw [loadPlain, Source.routes_of_node hsource]
      exact .direct hsource hcache
  | some c =>
      dsimp only
      rw [loadCached]
      cases hfilled : c.filled w with
      | false =>
          rw [if_neg Bool.false_ne_true, parseAndStore, Source.routes_of_node hsource]
          cases hparse : Source.parse path content with
          | error e => exact .spoilt hsource hcache (by simp [IsCurrent, hfilled]) hparse (.inl rfl)
          | ok rs => exact .parsed hsource hcache hfilled hparse
      | true =>
          rw [if_pos rfl]
          cases hread : c.read w with
          | error e => exact course_refreshed hsource hcache hfilled (by simp [IsCurrent, hread])
          | ok s =>
              dsimp only
              by_cases hfresh : s.modified = modified
              · have hcurrent : s.isFresh modified = true := beq_iff_eq.2 hfresh
                rw [if_pos hcurrent]
                exact .served hsource hcache hfilled hread hfresh
              · rw [if_neg (by simpa [Snapshot.isFresh] using hfresh)]
                exact course_refreshed hsource hcache hfilled (by simp [IsCurrent, hread, hfresh])

end Loader
end Signpost
