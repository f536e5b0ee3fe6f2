import Signpost.Proofs.Disk.Frame

namespace Signpost.Disk

variable {d e : Disk} {path : String} {place other : Location} {n : Node} {n? : Option Node} {content : ByteArray}
  {modified : Timestamp}

theorem node?_erase (d : Disk) (place other : Location) :
    (d.erase place).node? other = if other = place ∧ other ≠ [] then none else d.node? other := by
  cases other with
  | nil => simp [node?]
  | cons name names =>
      have hlookup := lookup_filter (· != place) d.nodes (name :: names)
      by_cases h : name :: names = place
      · subst h
        simp [node?, erase, hlookup]
      · simp [node?, erase, hlookup, h]

theorem erase_put (hne : place ≠ []) (h : d.node? place = none) (n : Node) : (d.put place n).erase place = d := by
  have habsent : d.nodes.filter (·.1 != place) = d.nodes := by
    rw [List.filter_eq_self]
    intro entry hentry
    have hlookup : d.nodes.lookup place = none := by
      rwa [node?, if_neg (by simpa using hne)] at h
    rw [List.lookup_eq_none_iff] at hlookup
    exact bne_iff_ne.2 fun heq => absurd (hlookup entry hentry) (by simp [heq])
  simp [erase, put, habsent]

theorem free_ne_nil (h : d.spot path = .ok (.free place)) : place ≠ [] := by
  rintro rfl
  obtain ⟨-, hleads, -⟩ := spot_eq_ok_iff.1 h
  have hroot : d.node? [] = none := hleads.node?_free
  cases hroot

theorem node?_of_free (h : d.spot path = .ok (.free place)) : d.node? place = none :=
  (spot_eq_ok_iff.1 h).2.1.node?_free

theorem endsInName_of_free (h : d.spot path = .ok (.free place)) : endsInName path = true := by
  obtain ⟨step, hlast, hname⟩ := (spot_eq_ok_iff.1 h).2.1.last_of_free
  rw [endsInName, hlast]
  have hdot := hname.ne_dot
  have hdots := hname.ne_dots
  split <;> simp_all

theorem last_of_endsInName (h : endsInName path = true) :
    ∃ step, (Path.steps path).getLast? = some step ∧ step ≠ "." ∧ step ≠ ".." := by
  rw [endsInName] at h
  cases hlast : (Path.steps path).getLast? with
  | none => simp [hlast] at h
  | some step =>
      refine ⟨step, rfl, ?_, ?_⟩
      · rintro rfl
        simp [hlast] at h
      · rintro rfl
        simp [hlast] at h

theorem endsInSlash_of_free (h : d.spot path = .ok (.free place)) : Path.endsInSlash path = false := by
  obtain ⟨-, -, hslash⟩ := spot_eq_ok_iff.1 h
  cases hends : Path.endsInSlash path with
  | false => rfl
  | true =>
      obtain ⟨place', h'⟩ := hslash hends
      cases h'

theorem read_of_file (h : d.spot path = .ok (.taken place (.file content modified))) : d.read path = .ok content := by
  rw [read, node, h]
  rfl

/-- One disk is the other with this, or with nothing, in a place where no directory was. -/
structure Replaced (d : Disk) (place : Location) (n? : Option Node) (e : Disk) : Prop where
  home : e.home = d.home
  plain : d.node? place ≠ some .directory
  node? : ∀ other, e.node? other = if other = place then n? else d.node? other

theorem ne_nil_of_plain (h : d.node? place ≠ some .directory) : place ≠ [] := by
  rintro rfl
  exact h rfl

theorem replaced_put (h : d.node? place ≠ some .directory) (n : Node) : d.Replaced place (some n) (d.put place n) := by
  refine ⟨rfl, h, fun other => ?_⟩
  rw [node?_put]
  by_cases hother : other = place
  · subst hother
    simp [ne_nil_of_plain h]
  · simp [hother]

theorem replaced_erase (h : d.node? place ≠ some .directory) : d.Replaced place none (d.erase place) := by
  refine ⟨rfl, h, fun other => ?_⟩
  rw [node?_erase]
  by_cases hother : other = place
  · subst hother
    simp [ne_nil_of_plain h]
  · simp [hother]

theorem replaced_self (h : d.node? place = none) : d.Replaced place none d := by
  refine ⟨rfl, by simp [h], fun other => ?_⟩
  by_cases hother : other = place
  · rw [if_pos hother, hother, h]
  · rw [if_neg hother]

namespace Replaced

theorem keeps (h : d.Replaced place n? e) : d.Keeps e := by
  intro other hdir
  have hother : other ≠ place := by
    rintro rfl
    exact h.plain hdir
  rwa [h.node?, if_neg hother]

/-- A file that can be reached is still reached after the replacement of another or of itself. -/
theorem spot_taken {m : Node} (h : d.Replaced place (some n) e)
    (hspot : d.spot path = .ok (.taken (d.placeOf path) m)) :
    e.spot path = .ok (.taken (d.placeOf path) (if d.placeOf path = place then n else m)) := by
  have hm : d.node? (d.placeOf path) = some m := node?_of_spot hspot
  have hthere : e.node? (d.placeOf path) = some (if d.placeOf path = place then n else m) := by
    rw [h.node?]
    split
    · rfl
    · exact hm
  have hkept := spot_of_keeps h.home h.keeps hspot (.inr ⟨_, hthere⟩)
  rwa [Spot.place, spotAt_of_node hthere] at hkept

end Replaced

theorem not_directory_of_moveTarget (h : d.moveTarget path = .ok place) : d.node? place ≠ some .directory := by
  obtain ⟨-, -, -, -, -, hplain⟩ := moveTarget_eq_ok_iff.1 h
  exact hplain

theorem moveTarget_of_keeps (hhome : e.home = d.home) (hkeeps : d.Keeps e) (h : d.moveTarget path = .ok place)
    (hend : d.node? place = none ∨ ∃ n, e.node? place = some n) (hplain : e.node? place ≠ some .directory) :
    e.moveTarget path = .ok place := by
  obtain ⟨hname, hslash, spot, hspot, rfl, -⟩ := moveTarget_eq_ok_iff.1 h
  have hkept := spot_of_keeps hhome hkeeps hspot (hend.imp_left fun hnone => by
    rw [eq_spotAt_of_spot hspot, spotAt_place, spotAt_of_none hnone])
  exact moveTarget_eq_ok_iff.2 ⟨hname, hslash, _, hkept, spotAt_place _ _, hplain⟩

namespace Replaced

/-- No directory comes with the node, so that the disk had all directories before. -/
theorem keeps_back (h : d.Replaced place (some n) e) (hn : n ≠ .directory) : e.Keeps d := by
  intro other hdir
  rw [h.node?] at hdir
  split at hdir
  · exact absurd (Option.some.inj hdir) hn
  · exact hdir

theorem moveTarget_of_free {goal : Location} (h : d.Replaced place (some n) e) (hfree : d.node? place = none)
    (hn : n ≠ .directory) (hgoal : e.moveTarget path = .ok goal) : d.moveTarget path = .ok goal := by
  by_cases hsame : goal = place
  · subst hsame
    obtain ⟨hname, hslash, spot, hspot, hplace, -⟩ := moveTarget_eq_ok_iff.1 hgoal
    have hthere : e.node? goal = some n := by rw [h.node?, if_pos rfl]
    rw [eq_spotAt_of_spot hspot, hplace, spotAt_of_node hthere] at hspot
    obtain ⟨hfit, hleads, -⟩ := spot_eq_ok_iff.1 hspot
    rw [start_eq_of_home h.home] at hleads
    have hback := hleads.free_of_keeps (h.keeps_back hn) (last_of_endsInName hname) hfree
    have hfound : d.spot path = .ok (.free goal) := spot_eq_ok_iff.2 ⟨hfit, hback, by simp [hslash]⟩
    exact moveTarget_eq_ok_iff.2 ⟨hname, hslash, _, hfound, rfl, by simp [hfree]⟩
  · have hnode : e.node? goal = d.node? goal := by rw [h.node?, if_neg hsame]
    refine moveTarget_of_keeps h.home.symm (h.keeps_back hn) hgoal ?_ ?_
    · rw [hnode, ← Option.ne_none_iff_exists']
      exact Classical.em _
    · rw [← hnode]
      exact not_directory_of_moveTarget hgoal

/-- A file more in a free place makes no difference to whether a file can be moved to a path. -/
theorem exists_moveTarget_iff (h : d.Replaced place (some n) e) (hfree : d.node? place = none) (hn : n ≠ .directory) :
    (∃ goal, e.moveTarget path = .ok goal) ↔ ∃ goal, d.moveTarget path = .ok goal := by
  refine ⟨fun ⟨goal, hgoal⟩ => ⟨goal, h.moveTarget_of_free hfree hn hgoal⟩, fun ⟨goal, hgoal⟩ => ⟨goal, ?_⟩⟩
  refine moveTarget_of_keeps h.home h.keeps hgoal ?_ ?_
  · rw [h.node?]
    split
    · exact .inr ⟨_, rfl⟩
    · rw [← Option.ne_none_iff_exists']
      exact Classical.em _
  · rw [h.node?]
    split
    · simp [hn]
    · exact not_directory_of_moveTarget hgoal

end Replaced
end Signpost.Disk
