import Mathlib.Data.List.Forall2
import Signpost.Proofs.Cache.Site
import Signpost.Proofs.Load.Loader

namespace Signpost

inductive Answer where
  | done
  | stored (result : Except CacheError Unit)
  | held (result : Except CacheError Snapshot)
  | loaded (result : Except Failure Loaded)

/-- The same answer, but for a load whose path takes the document for a directory. -/
inductive Answer.Alike (d : Disk) (place : Location) : Answer → Answer → Prop
  | same (answer : Answer) : Alike d place answer answer
  | through {path : String} (h : place ∈ d.passed path) :
      Alike d place (.loaded (.error (.sourceUnavailable path .notFound)))
        (.loaded (.error (.sourceUnavailable path .notADirectory)))

/-- What the one world keeps in memory, the other has in the document at this path. -/
structure Mirrors (path : String) (place : Location) (m f : World) : Prop where
  site : FileCache.Site path place m.disk
  lacks : m.disk.Lacks place f.disk
  documented : Snapshot.Documented m.memory (f.disk.node? place)
  storable : ∀ other content modified, m.disk.node? other = some (.file content modified) → modified.Storable

namespace Mirrors

variable {path : String} {place other : Location} {m f : World} {n? : Option Node} {s : Snapshot}

theorem withTicket (h : Mirrors path place m f) (ticket : String) :
    Mirrors path place { m with ticket } { f with ticket } :=
  ⟨h.site, h.lacks, h.documented, h.storable⟩

theorem site_file (h : Mirrors path place m f) : FileCache.Site path place f.disk :=
  h.site.of_keeps h.lacks.home h.lacks.keeps h.lacks.plain (.inl h.lacks.free)

theorem useable (h : Mirrors path place m f) : (Cache.file path).useable f = Cache.memory.useable m :=
  h.site_file.useable

theorem filled (h : Mirrors path place m f) : (Cache.file path).filled f = Cache.memory.filled m := by
  have hdocumented := h.documented
  rw [Cache.file, Cache.memory]
  dsimp only
  rw [h.site_file.isFile_eq]
  generalize m.memory = s? at hdocumented ⊢
  generalize f.disk.node? place = n? at hdocumented ⊢
  cases hdocumented <;> rfl

theorem read (h : Mirrors path place m f) : (Cache.file path).read f = Cache.memory.read m := by
  rw [Cache.file, Cache.memory]
  dsimp only
  rw [h.site_file.read_eq h.documented]
  cases m.memory <;> rfl

theorem wait (h : Mirrors path place m f) (now : Timestamp) :
    Mirrors path place { m with disk := { m.disk with now } } { f with disk := { f.disk with now } } := by
  have hsite := h.site.of_keeps (e := { m.disk with now }) rfl (fun _ hdir => hdir) h.site.plain (.inl h.lacks.free)
  exact ⟨hsite, ⟨h.lacks.home, h.lacks.node?, h.lacks.free, h.lacks.plain⟩, h.documented, h.storable⟩

theorem of_together (h : Mirrors path place m f) {d e : Disk}
    (hboth : m.disk.Together f.disk place other n? d e)
    (hn : ∀ content modified, n? = some (.file content modified) → modified.Storable) :
    Mirrors path place { m with disk := d } { f with disk := e } := by
  have hlacks := h.lacks.of_together hboth
  refine ⟨?_, hlacks, ?_, fun q content modified hq => ?_⟩
  · exact h.site.of_keeps hboth.left.home hboth.left.keeps (.inl hlacks.free) (.inl h.lacks.free)
  · have hkept := hboth.right.node? place
    rw [if_neg hboth.beside.symm] at hkept
    exact hkept ▸ h.documented
  · have hnode := hboth.left.node? q
    rw [hq] at hnode
    split at hnode
    · exact hn content modified hnode.symm
    · exact h.storable q content modified hnode.symm

theorem of_replaced (h : Mirrors path place m f) {e : Disk} (he : f.disk.Replaced place n? e) {memory : Option Snapshot}
    (hdocumented : Snapshot.Documented memory n?) :
    Mirrors path place { m with memory } { f with disk := e } := by
  have hnode : e.node? place = n? := by rw [he.node?, if_pos rfl]
  have hplain : e.IsPlain place := by
    rw [Disk.IsPlain, hnode]
    cases hdocumented with
    | absent => exact .inl rfl
    | present => exact .inr ⟨_, _, rfl⟩
  exact ⟨h.site, h.lacks.of_replaced_self he hplain, hnode ▸ hdocumented, h.storable⟩

theorem clear (h : Mirrors path place m f) :
    ((Cache.file path).clear f).1 = (Cache.memory.clear m).1 ∧
    Mirrors path place (Cache.memory.clear m).2 ((Cache.file path).clear f).2 := by
  obtain ⟨e, hclear, he⟩ := h.site_file.clear_eq
  rw [Cache.file, Cache.memory]
  dsimp only
  rw [hclear]
  exact ⟨rfl, h.of_replaced he .absent⟩

theorem write (h : Mirrors path place m f) (hs : s.modified.Storable)
    (hstage : FileCache.IsStageable f.disk path f.ticket) :
    ((Cache.file path).write s f).1 = (Cache.memory.write s m).1 ∧
    Mirrors path place (Cache.memory.write s m).2 ((Cache.file path).write s f).2 := by
  obtain ⟨content, e, hwrite, hdecode, he⟩ := h.site_file.write_eq hstage hs
  rw [Cache.file, Cache.memory]
  dsimp only
  rw [hwrite]
  exact ⟨rfl, h.of_replaced he (.present hdecode)⟩

/-- What a load found and then wrote goes to the document as it goes to memory. -/
theorem load_world (h : Mirrors path place m f) (caching : Bool) (path' : String)
    (hstage : FileCache.IsStageable f.disk path f.ticket) :
    let load := (⟨some .memory, caching⟩ : Loader).load path' m
    let load' := (⟨some (.file path), caching⟩ : Loader).load path' f
    load'.uses = load.uses → Mirrors path place load.world load'.world := by
  intro load load' huses
  have hsame : load'.written = load.written := by rw [Load.written, Load.written, huses]
  obtain ⟨hwritten, hworld⟩ | ⟨c, modified, rs, hc, hmodified, -, hwritten, hworld⟩ :=
    (⟨some .memory, caching⟩ : Loader).written_cases path' m <;>
  obtain ⟨hwritten', hworld'⟩ | ⟨c', modified', rs', hc', -, -, hwritten', hworld'⟩ :=
    (⟨some (.file path), caching⟩ : Loader).written_cases path' f <;>
  rw [hwritten, hwritten'] at hsame
  · rw [hworld, hworld']
    exact h
  · cases hsame
  · cases hsame
  · cases hsame
    cases Loader.cache_of_activeCache? hc
    cases Loader.cache_of_activeCache? hc'
    obtain ⟨content, hnode⟩ := Source.modifiedAt_eq_ok hmodified
    have hs := h.storable _ _ _ (Disk.node?_of_node hnode)
    rw [hworld, hworld']
    exact (h.write (s := ⟨modified, rs⟩) hs hstage).2

theorem load (h : Mirrors path place m f) (caching : Bool) {path' : String} (hend : m.disk.placeOf path' ≠ place)
    (hstage : FileCache.IsStageable f.disk path f.ticket) :
    let load := (⟨some .memory, caching⟩ : Loader).load path' m
    let load' := (⟨some (.file path), caching⟩ : Loader).load path' f
    Answer.Alike load.world.disk place (.loaded load.result) (.loaded load'.result) ∧
      Mirrors path place load.world load'.world := by
  intro load load'
  obtain hsame | ⟨hmem, hm, hf⟩ := h.lacks.spot_cases hend
  · obtain ⟨hresult, huses⟩ := Loader.load_congr caching hsame h.useable h.filled h.read
    exact ⟨hresult ▸ .same _, h.load_world caching path' hstage huses⟩
  · have hload : load = _ := Loader.load_of_error _ (Source.modifiedAt_of_error hm)
    have hload' : load' = _ := Loader.load_of_error _ (Source.modifiedAt_of_error hf)
    rw [hload, hload']
    exact ⟨.through hmem, h⟩

end Mirrors

structure Bench where
  world : World
  caching : Bool := true
  answer : Answer := .done

inductive Bench.Step where
  | edit (path : String) (content : ByteArray) (modified : Timestamp)
  | remove (path : String)
  | wait (now : Timestamp)
  | setCaching (on : Bool)
  | clear
  | read
  | write (s : Snapshot) (ticket : String)
  | load (path ticket : String)

namespace Bench

def withDisk (b : Bench) (d : Disk) : Bench :=
  { b with world := { b.world with disk := d }, answer := .done }

def step (c : Cache) (b : Bench) : Step → Bench
  | .edit path content modified => b.withDisk (b.world.disk.after (b.world.disk.putFile path content modified))
  | .remove path => b.withDisk (b.world.disk.after (b.world.disk.remove path))
  | .wait now => b.withDisk { b.world.disk with now }
  | .setCaching on => { b with caching := on, answer := .done }
  | .clear => { b with world := (c.clear b.world).2, answer := .stored (c.clear b.world).1 }
  | .read => { b with answer := .held (c.read b.world) }
  | .write s ticket =>
    let w := { b.world with ticket }
    { b with world := (c.write s w).2, answer := .stored (c.write s w).1 }
  | .load path ticket =>
    let load := (⟨some c, b.caching⟩ : Loader).load path { b.world with ticket }
    { b with world := load.world, answer := .loaded load.result }

def states (c : Cache) (b : Bench) : List Step → List Bench
  | [] => []
  | a :: steps => b.step c a :: states c (b.step c a) steps

/-- The step leaves the document alone but through the cache, and a staging file can be made if it is a write. -/
def Step.Fits (path : String) (place : Location) (d : Disk) : Step → Prop
  | .edit path' _ modified => d.placeOf path' ≠ place ∧ modified.Storable
  | .remove path' => d.placeOf path' ≠ place
  | .write s ticket => s.modified.Storable ∧ FileCache.IsStageable d path ticket
  | .load path' ticket => d.placeOf path' ≠ place ∧ FileCache.IsStageable d path ticket
  | .wait _ | .setCaching _ | .clear | .read => True

def Fits (path : String) (place : Location) (b : Bench) : List Step → Prop
  | [] => True
  | a :: steps => a.Fits path place b.world.disk ∧ Fits path place (b.step (.file path) a) steps

instance (path : String) (place : Location) (d : Disk) : (a : Step) → Decidable (a.Fits path place d)
  | .edit path' _ modified => inferInstanceAs (Decidable (d.placeOf path' ≠ place ∧ modified.Storable))
  | .remove path' => inferInstanceAs (Decidable (d.placeOf path' ≠ place))
  | .write s ticket =>
    inferInstanceAs (Decidable (s.modified.Storable ∧ FileCache.IsStageable d path ticket))
  | .load path' ticket =>
    inferInstanceAs (Decidable (d.placeOf path' ≠ place ∧ FileCache.IsStageable d path ticket))
  | .wait _ | .setCaching _ | .clear | .read => isTrue trivial

def decidableFits (path : String) (place : Location) :
    (b : Bench) → (steps : List Step) → Decidable (b.Fits path place steps)
  | _, [] => isTrue trivial
  | b, a :: steps =>
    have := decidableFits path place (b.step (.file path) a) steps
    inferInstanceAs (Decidable (a.Fits path place b.world.disk ∧ (b.step (.file path) a).Fits path place steps))

instance (b : Bench) (steps : List Step) : Decidable (b.Fits path place steps) :=
  decidableFits path place b steps

/-- All that can be seen of the loader and its cache is the same, and so is what the cache keeps. -/
structure Indistinct (path : String) (place : Location) (m f : Bench) : Prop where
  answer : Answer.Alike m.world.disk place m.answer f.answer
  filled : (Cache.file path).filled f.world = Cache.memory.filled m.world
  read : (Cache.file path).read f.world = Cache.memory.read m.world
  documented : Snapshot.Documented m.world.memory (f.world.disk.node? place)

variable {path : String} {place : Location} {m f : Bench} {a : Step} {steps : List Step}

theorem step_mirrors (h : Mirrors path place m.world f.world) (hcaching : f.caching = m.caching)
    (ha : a.Fits path place f.world.disk) :
    Mirrors path place (m.step .memory a).world (f.step (.file path) a).world ∧
    (f.step (.file path) a).caching = (m.step .memory a).caching ∧
    Answer.Alike (m.step .memory a).world.disk place (m.step .memory a).answer (f.step (.file path) a).answer := by
  have hplaceOf : ∀ path', f.world.disk.placeOf path' = m.world.disk.placeOf path' :=
    fun path' => Disk.placeOf_eq_of_home h.lacks.home path'
  cases a with
  | edit path' content modified =>
      refine ⟨?_, hcaching, .same _⟩
      rw [Step.Fits, hplaceOf] at ha
      obtain ⟨hm, hf⟩ | hboth := h.lacks.after_putFile ha.1 content modified
      · rw [step, step, hm, hf]
        exact h
      · refine h.of_together hboth fun content' modified' hn => ?_
        cases hn
        exact ha.2
  | remove path' =>
      refine ⟨?_, hcaching, .same _⟩
      rw [Step.Fits, hplaceOf] at ha
      obtain ⟨hm, hf⟩ | hboth := h.lacks.after_remove ha
      · rw [step, step, hm, hf]
        exact h
      · exact h.of_together hboth nofun
  | wait now => exact ⟨h.wait now, hcaching, .same _⟩
  | setCaching on => exact ⟨h, rfl, .same _⟩
  | clear =>
      obtain ⟨hresult, hworld⟩ := h.clear
      simp only [step, hresult]
      exact ⟨hworld, hcaching, .same _⟩
  | read =>
      refine ⟨h, hcaching, ?_⟩
      rw [step, step, h.read]
      exact .same _
  | write s ticket =>
      obtain ⟨hresult, hworld⟩ := (h.withTicket ticket).write ha.1 ha.2
      simp only [step, hresult]
      exact ⟨hworld, hcaching, .same _⟩
  | load path' ticket =>
      rw [Step.Fits, hplaceOf] at ha
      obtain ⟨hanswer, hworld⟩ := (h.withTicket ticket).load m.caching ha.1 ha.2
      rw [step, step, hcaching]
      exact ⟨hworld, rfl, hanswer⟩

theorem indistinct_states_of_mirrors (h : Mirrors path place m.world f.world) (hcaching : f.caching = m.caching)
    (hfits : f.Fits path place steps) :
    List.Forall₂ (Indistinct path place) (m.states .memory steps) (f.states (.file path) steps) := by
  -- the answers of a step need not agree for the worlds to go on mirroring each other
  induction steps generalizing m f with
  | nil => exact .nil
  | cons a steps ih =>
      rw [Fits] at hfits
      obtain ⟨hworld, hcaching', hanswer⟩ := step_mirrors h hcaching hfits.1
      rw [states, states]
      refine .cons ⟨hanswer, hworld.filled, hworld.read, hworld.documented⟩ ?_
      exact ih hworld hcaching' hfits.2

/-- Where the directory of the document is there, its path is free and the times of all files can be stored, the two
caches cannot be told apart, but by a load that goes through the document. -/
theorem indistinct_states (path : String) (place : Location) (b : Bench) (steps : List Step)
    (huse : FileCache.isUseable b.world.disk path = true) (hfree : b.world.disk.spot path = .ok (.free place))
    (hempty : b.world.memory = none)
    (hstorable : ∀ other content modified,
      b.world.disk.node? other = some (.file content modified) → modified.Storable)
    (hfits : b.Fits path place steps) :
    List.Forall₂ (Indistinct path place) (b.states .memory steps) (b.states (.file path) steps) := by
  have hnone := Disk.node?_of_free hfree
  have hdocumented : Snapshot.Documented b.world.memory (b.world.disk.node? place) := by
    rw [hempty, hnone]
    exact .absent
  exact indistinct_states_of_mirrors ⟨FileCache.site_of_free huse hfree, .refl hnone, hdocumented, hstorable⟩ rfl hfits

def bare : Bench where
  world := { disk := ⟨[], [], default⟩ }

def trial : List Step :=
  [.edit "r" .empty (.carry 5 0), .load "r" "t", .load "r" "t", .write ⟨.carry 6 1, []⟩ "t", .read, .load "c/x" "t",
    .clear, .remove "r", .load "r" "t"]

theorem indistinct_states_trial :
    bare.Fits "c" ["c"] trial ∧
      (bare.states (.file "c") trial).map (fun b => b.world.disk.isFile "c") =
        [false, true, true, true, true, true, false, false, false] ∧
      List.Forall₂ (Indistinct "c" ["c"]) (bare.states .memory trial) (bare.states (.file "c") trial) := by
  have hfits : bare.Fits "c" ["c"] trial := by decide +kernel
  have hstorable : ∀ other content modified,
      bare.world.disk.node? other = some (.file content modified) → modified.Storable := by
    intro other content modified h
    cases other <;> cases h
  exact ⟨hfits, by decide +kernel, indistinct_states "c" ["c"] bare trial rfl rfl rfl hstorable hfits⟩

/-- The document is no directory, but the cache in memory has none. -/
theorem answers_differ_through :
    let steps := [Step.write ⟨.carry 6 1, []⟩ "t", .load "c/x" "t"]
    FileCache.isUseable bare.world.disk "c" = true ∧ bare.world.disk.spot "c" = .ok (.free ["c"]) ∧
      bare.Fits "c" ["c"] steps ∧
      (bare.states .memory steps).map answer =
        [.stored (.ok ()), .loaded (.error (.sourceUnavailable "c/x" .notFound))] ∧
      (bare.states (.file "c") steps).map answer =
        [.stored (.ok ()), .loaded (.error (.sourceUnavailable "c/x" .notADirectory))] := by
  intro steps
  have hfits : bare.Fits "c" ["c"] steps := by decide +kernel
  exact ⟨rfl, rfl, hfits, rfl, rfl⟩

end Bench
end Signpost
