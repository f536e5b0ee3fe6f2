import Signpost.Proofs.Cache.Holding
import Signpost.Proofs.Load.Session

namespace Signpost

namespace Session

variable {c : CacheSettings} {s s' : Session} {d : Disk} {e : Snapshot}

def stowedDisk (s : Session) : Disk :=
  { s.world.disk with nodes := s.stowed }

/-- The snapshot is in the cache, or in a document of the cache that was taken away. -/
def Holds (c : CacheSettings) (s : Session) (e : Snapshot) : Prop :=
  c.Holds s.world e ∨
  c.backend = .file ∧ ∃ content, s.stowedDisk.Stores (c.place s.world.disk) content ∧ Snapshot.decode? content = some e

/-- From one session to another the cache gets only new snapshots of this kind. -/
structure Learns (c : CacheSettings) (s : Session) (new : Snapshot → Prop) (s' : Session) : Prop where
  home : s'.world.disk.home = s.world.disk.home
  holds : ∀ e, s'.Holds c e → s.Holds c e ∨ new e

def nothing : Snapshot → Prop :=
  fun _ => False

theorem Learns.of_nothing {new : Snapshot → Prop} (h : s.Learns c nothing s') : s.Learns c new s' :=
  ⟨h.home, fun e he => (h.holds e he).imp_right False.elim⟩

theorem Learns.refl (s : Session) : s.Learns c nothing s :=
  ⟨rfl, fun _ h => .inl h⟩

/-- What was taken away is not touched by what becomes of the world. -/
theorem learns_world {new : Snapshot → Prop} (w : World) (hhome : w.disk.home = s.world.disk.home)
    (h : ∀ e, c.Holds w e → c.Holds s.world e ∨ new e) : s.Learns c new { s with world := w } := by
  refine ⟨hhome, ?_⟩
  rintro e (hw | ⟨hb, content, hstores, hdecode⟩)
  · exact (h e hw).imp_left .inl
  · rw [CacheSettings.place_eq_of_home hhome] at hstores
    exact .inl (.inr ⟨hb, content, hstores, hdecode⟩)

theorem learns_withDisk (h : s.world.disk.Adds Disk.noFile d) : s.Learns c nothing (s.withDisk d) :=
  learns_world _ h.home fun _ he => .inl (CacheSettings.holds_of_adds_noFile h he)

theorem learns_attempt {result : Except SystemError Disk}
    (h : ∀ d, result = .ok d → s.world.disk.Adds Disk.noFile d) : s.Learns c nothing (s.attempt result) := by
  cases result with
  | error cause => exact .refl s
  | ok d => exact learns_withDisk (h d rfl)

theorem learns_stow (s : Session) (path : String) : s.Learns c nothing (s.stow path) := by
  rw [stow]
  split
  · rename_i place n hspot
    refine ⟨rfl, ?_⟩
    rintro e (hw | ⟨hb, content, hstores, hdecode⟩)
    · exact .inl (.inl (CacheSettings.holds_of_adds_noFile (Disk.adds_withoutSubtree _ place) hw))
    · rcases Disk.stores_append hstores with htaken | hstowed
      · rcases (Disk.adds_subtree _ place).stores _ _ htaken with hthere | hno
        · exact .inl (.inl ((CacheSettings.holds_file_iff hb).2 ⟨content, hthere, hdecode⟩))
        · exact hno.elim
      · exact .inl (.inr ⟨hb, content, hstowed, hdecode⟩)
  · exact .refl s

theorem learns_restore (s : Session) :
    s.Learns c nothing { s.withDisk (s.world.disk.putBack s.stowed) with stowed := [] } := by
  refine ⟨rfl, ?_⟩
  rintro e (hw | ⟨-, content, hstores, -⟩)
  · left
    cases hb : c.backend with
    | memory =>
        rw [CacheSettings.holds_memory_iff hb] at hw
        exact .inl ((CacheSettings.holds_memory_iff hb).2 hw)
    | file =>
        obtain ⟨content, hstores, hdecode⟩ := (CacheSettings.holds_file_iff hb).1 hw
        rcases Disk.stores_append hstores with hstowed | hkept
        · exact .inr ⟨hb, content, hstowed, hdecode⟩
        · have hadds := s.world.disk.adds_filter fun place => (s.stowed.lookup place).isNone
          rcases hadds.stores _ _ hkept with hthere | hno
          · exact .inl ((CacheSettings.holds_file_iff hb).2 ⟨content, hthere, hdecode⟩)
          · exact hno.elim
  · exact (Disk.not_stores_nil hstores).elim

/-- An edit in the place of the cache's document leaves no snapshot there. -/
def Step.Spares (c : CacheSettings) (d : Disk) : Step → Prop
  | .edit path content _ => c.backend = .file → d.placeOf path = c.place d → Snapshot.decode? content = none
  | _ => True

instance (c : CacheSettings) (d : Disk) (a : Step) : Decidable (a.Spares c d) :=
  match a with
  | .edit path content _ =>
    inferInstanceAs (Decidable (c.backend = .file → d.placeOf path = c.place d → Snapshot.decode? content = none))
  | .touch .. | .remove .. | .makeDirectories .. | .stow .. | .restore | .wait .. | .setCaching .. | .setWritable ..
  | .clear | .load .. => isTrue trivial

theorem learns_edit {path : String} {content : ByteArray} {modified : Timestamp}
    (hspares : (Step.edit path content modified).Spares c s.world.disk) :
    s.Learns c nothing (s.attempt (s.world.disk.putFile path content modified)) := by
  cases hput : s.world.disk.putFile path content modified with
  | error cause => exact .refl s
  | ok d =>
      have hadds := Disk.putFile_adds hput
      refine learns_world _ hadds.home fun e he => .inl ?_
      rcases CacheSettings.holds_of_adds hadds he with hold | ⟨hb, bytes, ⟨hplace, rfl⟩, hdecode⟩
      · exact hold
      · rw [hspares hb hplace.symm] at hdecode
        cases hdecode

theorem loader_cache_eq {cache : Cache} (h : (s.loader c).cache = some cache) :
    cache = c.cache ∨ cache = c.cache.readOnly := by
  rw [loader, Option.some.injEq] at h
  split at h
  · exact .inl h.symm
  · exact .inr h.symm

/-- What a load writes to the cache is what it has just read. -/
theorem learns_load (s : Session) (path ticket : String) :
    s.Learns c (fun e => ∃ v, s.visit? c (.load path ticket) = some v ∧ v.Reads e) (s.step c (.load path ticket)) := by
  rw [step, visit?]
  have hsame : ∀ e, c.Holds { s.world with ticket } e → c.Holds s.world e := fun e he => he
  have hhome : ({ s.world with ticket } : World).disk.home = s.world.disk.home := rfl
  -- what follows does not depend on how the world got its ticket
  generalize ({ s.world with ticket } : World) = w at hsame hhome ⊢
  have hkeep : s.Learns c nothing { s with world := w } := learns_world w hhome fun e he => .inl (hsame e he)
  obtain hworld | ⟨cache, modified, rs, hcache, hmodified, hroutes, hworld⟩ := (s.loader c).world_load path w
  · rw [hworld]
    exact hkeep.of_nothing
  · rw [hworld]
    obtain rfl | rfl := loader_cache_eq hcache
    · refine learns_world _ ((c.home_write _ w).trans hhome) fun e he => ?_
      rcases CacheSettings.holds_of_write he with hold | rfl
      · exact .inl (hsame e hold)
      · right
        obtain ⟨content, hnode⟩ := Source.modifiedAt_eq_ok hmodified
        exact ⟨_, rfl, content, Visit.seen?_of_node hnode, (Source.routes_eq_ok_iff hnode).1 hroutes⟩
    · exact hkeep.of_nothing

theorem learns_step (s : Session) (a : Step) (hspares : a.Spares c s.world.disk) :
    s.Learns c (fun e => ∃ v, s.visit? c a = some v ∧ v.Reads e) (s.step c a) := by
  cases a with
  | edit path content modified => exact (learns_edit hspares).of_nothing
  | touch path modified => exact (learns_attempt fun d => Disk.touch_adds).of_nothing
  | remove path => exact (learns_withDisk (Disk.adds_removeTree _ path)).of_nothing
  | makeDirectories path => exact (learns_attempt fun d => Disk.makeDirectories_adds).of_nothing
  | stow path => exact (learns_stow s path).of_nothing
  | restore => exact (learns_restore s).of_nothing
  | wait now =>
      have hadds : s.world.disk.Adds Disk.noFile { s.world.disk with now } := ⟨rfl, fun _ _ h => .inl h⟩
      exact (learns_withDisk hadds).of_nothing
  | setCaching on | setWritable on => exact ⟨rfl, fun e he => .inl he⟩
  | clear => exact (learns_world _ (c.home_clear _) fun e he => .inl (CacheSettings.holds_of_clear he)).of_nothing
  | load path ticket => exact learns_load s path ticket

theorem spares_of_home {a : Step} {d d' : Disk} (h : d'.home = d.home) (ha : a.Spares c d) : a.Spares c d' := by
  cases a with
  | edit path content modified =>
      intro hb hplace
      refine ha hb ?_
      rw [CacheSettings.place_eq_of_home h] at hplace
      rwa [Disk.placeOf, Disk.start, h] at hplace
  | touch | remove | makeDirectories | stow | restore | wait | setCaching | setWritable | clear | load => trivial

/-- A snapshot that is served was read before from a file of the same time, and so of the same content. -/
theorem transparent_visit {a : Step} {v : Visit} {visits : List Visit} (hv : s.visit? c a = some v)
    (hheld : ∀ e, s.Holds c e → ∃ v' ∈ visits, v'.Reads e) (hmem : v ∈ visits) (hsteady : Visit.Steady visits) :
    v.Transparent := by
  cases a with
  | edit | touch | remove | makeDirectories | stow | restore | wait | setCaching | setWritable | clear => cases hv
  | load path ticket =>
      cases hv
      obtain hplain | ⟨cache, e, hcache, hread, hmodified, hroutes⟩ :=
        (s.loader c).routes_load path { s.world with ticket }
      · exact hplain
      · have hread : c.cache.read { s.world with ticket } = .ok e := by
          obtain rfl | rfl := loader_cache_eq hcache
          · exact hread
          · exact hread
        have hholds : c.Holds s.world e := CacheSettings.holds_of_read (w := { s.world with ticket }) hread
        obtain ⟨v', hv', content', hseen', hdefines⟩ := hheld e (.inl hholds)
        obtain ⟨content, hnode⟩ := Source.modifiedAt_eq_ok hmodified
        rw [hsteady.eq hv' hmem hseen' (Visit.seen?_of_node hnode)] at hdefines
        rw [Visit.Transparent, hroutes, Loader.routes_plain hmodified]
        exact ((Source.routes_eq_ok_iff hnode).2 hdefines).symm

/-- The run may start with a cache that is filled, if earlier loads saw what it was filled from. -/
theorem transparent_of_held {steps : List Step} {seen : List Visit}
    (hheld : ∀ e, s.Holds c e → ∃ v ∈ seen, v.Reads e) (hspares : ∀ a ∈ steps, a.Spares c s.world.disk)
    (hsteady : Visit.Steady (seen ++ s.visits c steps)) :
    ∀ v ∈ s.visits c steps, v.Transparent := by
  -- each step adds its own load, if it is one, to the loads seen so far
  induction steps generalizing s seen with
  | nil => simp [visits]
  | cons a steps ih =>
      have hlearns := s.learns_step a (hspares a List.mem_cons_self)
      rw [visits, ← List.append_assoc] at hsteady
      intro v hv
      rw [visits, List.mem_append] at hv
      rcases hv with hv | hv
      · refine transparent_visit (Option.mem_toList.1 hv) ?_ (by simp [hv]) hsteady
        intro e he
        obtain ⟨v', hv', hreads⟩ := hheld e he
        exact ⟨v', by simp [hv'], hreads⟩
      · refine ih ?_ ?_ hsteady v hv
        · intro e he
          rcases hlearns.holds e he with hold | ⟨v', hv', hreads⟩
          · obtain ⟨v', hv', hreads⟩ := hheld e hold
            exact ⟨v', by simp [hv'], hreads⟩
          · exact ⟨v', by simp [hv'], hreads⟩
        · intro a' ha'
          exact spares_of_home hlearns.home (hspares a' (List.mem_cons_of_mem a ha'))

/-- If the cache holds nothing at first and equal times mean equal contents, then every load of a run answers
as if there were no cache. -/
theorem transparent_visits (c : CacheSettings) (s : Session) (steps : List Step) (hstart : ∀ e, ¬s.Holds c e)
    (hspares : ∀ a ∈ steps, a.Spares c s.world.disk) (hsteady : Visit.Steady (s.visits c steps)) :
    ∀ v ∈ s.visits c steps, v.Transparent := by
  have hheld : ∀ e, s.Holds c e → ∃ v ∈ ([] : List Visit), v.Reads e := fun e he => (hstart e he).elim
  exact transparent_of_held hheld hspares hsteady

/-- A definition file that is spoilt for a while, with a time before the epoch, beside a cache that is spoilt too. -/
def wavering : List Step :=
  let early := Timestamp.carry (-1) 5
  let late := Timestamp.carry 1 0
  [.edit "r" .empty late, .load "r" "n", .load "r" "n", .edit "r" "x".toUTF8 early, .load "r" "n",
    .edit "c" "[".toUTF8 early, .edit "r" .empty late, .load "r" "n"]

def blank : Session where
  world := { disk := .fresh default }

def document : CacheSettings where
  path := "c"

theorem transparent_visits_wavering :
    (∀ e, ¬blank.Holds document e) ∧ (∀ a ∈ wavering, a.Spares document blank.world.disk) ∧
      Visit.Steady (blank.visits document wavering) ∧
      ((blank.visits document wavering).map fun v => v.outcome.result.toOption.map Loaded.origin) =
        [some .parsed, some .cache, none, some .refreshed] ∧
      ∀ v ∈ blank.visits document wavering, v.Transparent := by
  have hstart : ∀ e, ¬blank.Holds document e := by
    rintro e (⟨content, ⟨modified, h⟩, -⟩ | ⟨-, content, hstores, -⟩)
    · cases h
    · exact Disk.not_stores_nil hstores
  have hspares : ∀ a ∈ wavering, a.Spares document blank.world.disk := by decide +kernel
  have hsteady : Visit.Steady (blank.visits document wavering) := by decide +kernel
  exact ⟨hstart, hspares, hsteady, by decide +kernel, transparent_visits document blank wavering hstart hspares hsteady⟩

end Session

end Signpost
