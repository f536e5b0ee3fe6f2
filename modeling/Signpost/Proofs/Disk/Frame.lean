import Signpost.Proofs.Disk.Walk
import Signpost.Proofs.Lookup

namespace Signpost

namespace Disk

variable {d e : Disk} {path : String} {place : Location}

/-- The root stays a directory whatever is put there. -/
theorem node?_put (d : Disk) (place other : Location) (n : Node) :
    (d.put place n).node? other = if other = place ∧ other ≠ [] then some n else d.node? other := by
  cases other with
  | nil => simp [node?]
  | cons name names =>
      have hlookup := lookup_filter (· != place) d.nodes (name :: names)
      by_cases h : name :: names = place
      · subst h
        simp [node?, put]
      · have hne : (name :: names == place) = false := beq_eq_false_iff_ne.2 h
        rw [if_pos (bne_iff_ne.2 h)] at hlookup
        simp [node?, put, List.lookup_cons, h, hne, hlookup]

theorem node?_of_filter {f : Location → Bool} {n : Node}
    (h : ({ d with nodes := d.nodes.filter fun entry => f entry.1 } : Disk).node? place = some n) :
    d.node? place = some n := by
  cases place with
  | nil => exact h
  | cons name names =>
      simp only [node?, List.isEmpty_cons, Bool.false_eq_true, if_false, lookup_filter] at h ⊢
      split at h
      · exact h
      · cases h

def Stores (d : Disk) (place : Location) (content : ByteArray) : Prop :=
  ∃ modified, d.node? place = some (.file content modified)

theorem not_stores_nil {content : ByteArray} : ¬({ d with nodes := [] } : Disk).Stores place content := by
  rintro ⟨modified, h⟩
  cases place <;> cases h

theorem stores_append {xs ys : List (Location × Node)} {content : ByteArray}
    (h : ({ d with nodes := xs ++ ys } : Disk).Stores place content) :
    ({ d with nodes := xs } : Disk).Stores place content ∨ ({ d with nodes := ys } : Disk).Stores place content := by
  obtain ⟨modified, h⟩ := h
  cases place with
  | nil => cases h
  | cons name names =>
      simp only [node?, List.isEmpty_cons, Bool.false_eq_true, if_false, List.lookup_append] at h
      cases hx : xs.lookup (name :: names) with
      | none =>
          rw [hx, Option.none_or] at h
          exact .inr ⟨modified, h⟩
      | some n =>
          rw [hx, Option.some_or] at h
          exact .inl ⟨modified, hx.trans h⟩

def placeOf (d : Disk) (path : String) : Location :=
  (Path.steps path).foldl stepTo (d.start path)

theorem placeOf_eq_of_home (h : e.home = d.home) (path : String) : e.placeOf path = d.placeOf path := by
  rw [placeOf, placeOf, start_eq_of_home h]

theorem spot_eq_ok {spot : Spot} (h : d.spot path = .ok spot) :
    spot.place = d.placeOf path ∧ ∀ n, spot = .taken spot.place n → d.node? spot.place = some n := by
  obtain ⟨-, hleads, -⟩ := spot_eq_ok_iff.1 h
  refine ⟨hleads.place_eq, fun n hn => ?_⟩
  rw [hn] at hleads
  exact hleads.node?_taken

theorem node?_of_spot {n : Node} (h : d.spot path = .ok (.taken place n)) : d.node? (d.placeOf path) = some n := by
  obtain ⟨hplace, hn⟩ := spot_eq_ok h
  rw [← hplace]
  exact hn n rfl

theorem spot_of_node {n : Node} (h : d.node path = .ok n) : d.spot path = .ok (.taken (d.placeOf path) n) := by
  rw [node, bind_eq_ok_iff] at h
  obtain ⟨spot, hspot, h⟩ := h
  cases spot with
  | free place => cases h
  | taken place m =>
      cases h
      rw [← (spot_eq_ok hspot).1]
      exact hspot

theorem node?_of_node {n : Node} (h : d.node path = .ok n) : d.node? (d.placeOf path) = some n :=
  node?_of_spot (spot_of_node h)

theorem isFile_of_node {content : ByteArray} {modified : Timestamp} (h : d.node path = .ok (.file content modified)) :
    d.isFile path = true := by
  simp only [isFile, h]

theorem isDirectory_of_keeps (hhome : e.home = d.home) (hkeeps : d.Keeps e) (h : d.isDirectory path = true) :
    e.isDirectory path = true := by
  rw [isDirectory] at h
  split at h
  · next hnode =>
      have hspot := spot_of_node hnode
      have hdir := hkeeps _ (node?_of_spot hspot)
      have hkept := spot_of_keeps hhome hkeeps hspot (.inr ⟨_, hdir⟩)
      rw [Spot.place, spotAt_of_node hdir] at hkept
      rw [isDirectory, node, hkept]
      rfl
  · cases h

structure Adds (d : Disk) (fresh : Location → ByteArray → Prop) (e : Disk) : Prop where
  home : e.home = d.home
  stores : ∀ place content, e.Stores place content → d.Stores place content ∨ fresh place content

def noFile : Location → ByteArray → Prop :=
  fun _ _ => False

namespace Adds

variable {fresh fresh' : Location → ByteArray → Prop} {f : Disk}

theorem refl (d : Disk) : d.Adds fresh d :=
  ⟨rfl, fun _ _ h => .inl h⟩

theorem trans (h : d.Adds fresh e) (h' : e.Adds fresh f) : d.Adds fresh f := by
  refine ⟨h'.home.trans h.home, fun place content hf => ?_⟩
  rcases h'.stores place content hf with he | hnew
  · exact h.stores place content he
  · exact .inr hnew

theorem mono (h : d.Adds fresh e) (himp : ∀ place content, fresh place content → fresh' place content) :
    d.Adds fresh' e :=
  ⟨h.home, fun place content he => (h.stores place content he).imp_right (himp place content)⟩

theorem of_noFile (h : d.Adds noFile e) : d.Adds fresh e :=
  h.mono fun _ _ hno => hno.elim

theorem placeOf (h : d.Adds fresh e) (path : String) : e.placeOf path = d.placeOf path :=
  placeOf_eq_of_home h.home path

end Adds

theorem adds_put (d : Disk) (place : Location) (n : Node) :
    d.Adds (fun other content => other = place ∧ ∃ modified, n = .file content modified) (d.put place n) := by
  refine ⟨rfl, ?_⟩
  rintro other content ⟨modified, h⟩
  rw [node?_put] at h
  split at h
  · rename_i hother
    exact .inr ⟨hother.1, modified, Option.some.inj h⟩
  · exact .inl ⟨modified, h⟩

theorem adds_put_directory (d : Disk) (place : Location) : d.Adds noFile (d.put place .directory) :=
  (d.adds_put place .directory).mono fun _ _ ⟨_, _, h⟩ => by cases h

theorem adds_filter (d : Disk) (f : Location → Bool) :
    d.Adds noFile { d with nodes := d.nodes.filter fun entry => f entry.1 } :=
  ⟨rfl, fun _ _ ⟨modified, h⟩ => .inl ⟨modified, node?_of_filter h⟩⟩

theorem adds_erase (d : Disk) (place : Location) : d.Adds noFile (d.erase place) :=
  d.adds_filter (· != place)

theorem adds_clearBelow (d : Disk) (place : Location) : d.Adds noFile (d.clearBelow place) :=
  d.adds_filter fun other => other == place || !place.isPrefixOf other

/-- A device forgets what it is given; everywhere else the content lies at its place. -/
theorem putFile_eq_ok {content : ByteArray} {modified : Timestamp} (h : d.putFile path content modified = .ok e) :
    e = d ∧ d.node? (d.placeOf path) = some .device ∨ e = d.put (d.placeOf path) (.file content modified) := by
  rw [putFile] at h
  split at h
  · obtain ⟨_, _, h⟩ := bind_eq_ok_iff.1 h
    cases h
  · obtain ⟨spot, hspot, h⟩ := bind_eq_ok_iff.1 h
    have hplace := (spot_eq_ok hspot).1
    cases spot with
    | free place =>
        cases h
        exact .inr (by rw [← hplace]; rfl)
    | taken place n =>
        cases n with
        | directory | locked _ => cases h
        | device =>
            cases h
            exact .inl ⟨rfl, node?_of_spot hspot⟩
        | file old time =>
            cases h
            exact .inr (by rw [← hplace]; rfl)

theorem putFile_adds {content : ByteArray} {modified : Timestamp} (h : d.putFile path content modified = .ok e) :
    d.Adds (fun other bytes => other = d.placeOf path ∧ bytes = content) e := by
  obtain ⟨rfl, -⟩ | rfl := putFile_eq_ok h
  · exact .refl e
  · refine (d.adds_put _ _).mono ?_
    rintro other bytes ⟨rfl, time, hnode⟩
    cases hnode
    exact ⟨rfl, rfl⟩

theorem touch_adds {modified : Timestamp} (h : d.touch path modified = .ok e) : d.Adds noFile e := by
  rw [touch] at h
  obtain ⟨spot, hspot, h⟩ := bind_eq_ok_iff.1 h
  cases spot with
  | free place => cases h
  | taken place n =>
      have hplace := (spot_eq_ok hspot).1
      have hn := node?_of_spot hspot
      cases n with
      | locked _ => cases h
      | directory | device =>
          cases h
          exact .refl d
      | file content time =>
          cases h
          refine ⟨rfl, fun other bytes hstores => ?_⟩
          rcases (d.adds_put place (.file content modified)).stores other bytes hstores with hold | ⟨rfl, _, hnode⟩
          · exact .inl hold
          · cases hnode
            exact .inl ⟨time, by rw [← hn, ← hplace]; rfl⟩

theorem remove_eq_ok (h : d.remove path = .ok e) : e = d.erase (d.placeOf path) := by
  rw [remove] at h
  obtain ⟨spot, hspot, h⟩ := bind_eq_ok_iff.1 h
  cases spot with
  | free place => cases h
  | taken place n =>
      rw [← (spot_eq_ok hspot).1]
      cases n with
      | directory => cases h
      | file _ _ | locked _ | device =>
          cases h
          rfl

theorem remove_adds (h : d.remove path = .ok e) : d.Adds noFile e := by
  rw [remove_eq_ok h]
  exact d.adds_erase _

theorem moveTarget_eq_ok_iff : d.moveTarget path = .ok place ↔
    endsInName path = true ∧ Path.endsInSlash path = false ∧
      ∃ spot, d.spot path = .ok spot ∧ spot.place = place ∧ d.node? place ≠ some .directory := by
  rw [moveTarget]
  cases hname : endsInName path with
  | false =>
      rw [Bool.not_false, if_pos rfl]
      refine ⟨fun h => ?_, fun h => absurd h.1 Bool.false_ne_true⟩
      obtain ⟨_, _, h⟩ := bind_eq_ok_iff.1 h
      cases h
  | true =>
      rw [Bool.not_true, if_neg Bool.false_ne_true]
      cases hslash : Path.endsInSlash path with
      | true =>
          rw [if_pos rfl]
          exact ⟨nofun, fun h => absurd h.2.1.symm Bool.false_ne_true⟩
      | false =>
          rw [if_neg Bool.false_ne_true, bind_eq_ok_iff]
          simp only [true_and]
          refine exists_congr fun spot => and_congr_right fun hspot => ?_
          have hleads := (spot_eq_ok_iff.1 hspot).2.1
          cases spot with
          | free goal =>
              have hnone := hleads.node?_free
              constructor
              · rintro ⟨⟩
                exact ⟨rfl, by simp [hnone]⟩
              · rintro ⟨rfl, -⟩
                rfl
          | taken goal n =>
              have hn := hleads.node?_taken
              cases n with
              | directory =>
                  refine ⟨nofun, ?_⟩
                  rintro ⟨rfl, hdir⟩
                  exact absurd hn hdir
              | file _ _ | locked _ | device =>
                  constructor
                  · rintro ⟨⟩
                    exact ⟨rfl, by simp [hn]⟩
                  · rintro ⟨rfl, -⟩
                    rfl

theorem moveTarget_eq_ok (h : d.moveTarget path = .ok place) : place = d.placeOf path := by
  obtain ⟨-, -, spot, hspot, hplace, -⟩ := moveTarget_eq_ok_iff.1 h
  rw [← hplace, (spot_eq_ok hspot).1]

theorem move_eq_ok {target : String} (h : d.move path target = .ok e) :
    ∃ n, d.node? (d.placeOf path) = some n ∧ e = (d.erase (d.placeOf path)).put (d.placeOf target) n := by
  rw [move] at h
  obtain ⟨spot, hspot, h⟩ := bind_eq_ok_iff.1 h
  cases spot with
  | free place => cases h
  | taken place n =>
      refine ⟨n, node?_of_spot hspot, ?_⟩
      rw [← (spot_eq_ok hspot).1]
      cases n with
      | directory => cases h
      | file _ _ | locked _ | device =>
          obtain ⟨goal, hgoal, h⟩ := bind_eq_ok_iff.1 h
          rw [← moveTarget_eq_ok hgoal]
          cases h
          rfl

theorem makeDirectory_adds (h : d.makeDirectory path = .ok e) : d.Adds noFile e := by
  rw [makeDirectory] at h
  obtain ⟨spot, -, h⟩ := bind_eq_ok_iff.1 h
  cases spot with
  | taken place n => cases h
  | free place =>
      cases h
      exact d.adds_put_directory place

theorem ensureDirectory_adds (h : d.ensureDirectory path = .ok e) : d.Adds noFile e := by
  rw [ensureDirectory] at h
  cases hmake : d.makeDirectory path with
  | ok d' =>
      simp only [hmake, Except.ok.injEq] at h
      subst h
      exact makeDirectory_adds hmake
  | error cause =>
      simp only [hmake] at h
      split at h <;> cases h
      exact .refl d

theorem makeWithParents_adds {fuel : Nat} (h : makeWithParents fuel d path = .ok e) : d.Adds noFile e := by
  induction fuel generalizing d e path with
  | zero =>
      cases h
      exact .refl d
  | succ fuel ih =>
      rw [makeWithParents] at h
      split at h
      · cases h
        exact .refl d
      · split at h
        · obtain ⟨d', hparents, h⟩ := bind_eq_ok_iff.1 h
          exact (ih hparents).trans (ensureDirectory_adds h)
        · exact ensureDirectory_adds h

theorem makeDirectories_adds (h : d.makeDirectories path = .ok e) : d.Adds noFile e :=
  makeWithParents_adds h

theorem adds_removeTree (d : Disk) (path : String) : d.Adds noFile (d.removeTree path) := by
  rw [removeTree]
  split
  · dsimp only
    split
    · exact (d.adds_clearBelow _).trans (adds_erase _ _)
    · exact d.adds_clearBelow _
  · exact d.adds_erase _
  · exact .refl d

end Disk
end Signpost
