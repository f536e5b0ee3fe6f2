import Signpost.Disk.Tree
import Signpost.Proofs.Except

namespace Signpost

def Spot.place : Spot → Location
  | .taken place _ | .free place => place

namespace Disk

structure IsName (step : String) : Prop where
  ne_dot : step ≠ "."
  ne_dots : step ≠ ".."
  size_le : step.utf8ByteSize ≤ maxNameSize

/-- The steps lead from the place to the spot. -/
inductive Leads (d : Disk) : Location → List String → Spot → Prop
  | here {place : Location} {n : Node} (hn : d.node? place = some n) : Leads d place [] (.taken place n)
  | free {place : Location} {step : String} (hdir : d.node? place = some .directory) (hname : IsName step)
      (hfree : d.node? (place ++ [step]) = none) : Leads d place [step] (.free (place ++ [step]))
  | stay {place : Location} {steps : List String} {spot : Spot} (hdir : d.node? place = some .directory)
      (hrest : Leads d place steps spot) : Leads d place ("." :: steps) spot
  | up {place : Location} {steps : List String} {spot : Spot} (hdir : d.node? place = some .directory)
      (hrest : Leads d place.dropLast steps spot) : Leads d place (".." :: steps) spot
  | down {place : Location} {step : String} {steps : List String} {spot : Spot} {n : Node}
      (hdir : d.node? place = some .directory) (hname : IsName step) (hn : d.node? (place ++ [step]) = some n)
      (hrest : Leads d (place ++ [step]) steps spot) : Leads d place (step :: steps) spot

variable {d e : Disk} {path step : String} {place other : Location} {spot : Spot} {steps : List String} {n : Node}

theorem mem_places_self (place : Location) (steps : List String) : place ∈ places place steps := by
  cases steps <;> exact List.mem_cons_self

theorem IsName.stepTo_eq (h : IsName step) (place : Location) : stepTo place step = place ++ [step] := by
  rw [stepTo, if_neg h.ne_dot, if_neg h.ne_dots]

theorem follow_of_none (h : d.node? place = none) (steps : List String) : d.follow place steps = .error .notFound := by
  cases steps <;> simp [follow, h]

theorem follow_cons (hdir : d.node? place = some .directory) (step : String) (steps : List String) :
    d.follow place (step :: steps) =
      if step = "." ∨ step = ".." then d.follow (stepTo place step) steps
      else if maxNameSize < step.utf8ByteSize then .error .nameTooLong
      else if steps = [] ∧ d.node? (stepTo place step) = none then .ok (.free (stepTo place step))
      else d.follow (stepTo place step) steps := by
  rw [follow.eq_def, hdir, stepTo]
  by_cases hdot : step = "."
  · simp [hdot]
  by_cases hdots : step = ".."
  · simp [hdots]
  simp only [hdot, hdots, or_self, if_false]
  cases hnext : d.node? (place ++ [step]) with
  | some n => simp
  | none =>
      rw [follow_of_none hnext]
      cases steps <;> simp

theorem leads_of_follow (h : d.follow place steps = .ok spot) : d.Leads place steps spot := by
  induction steps generalizing place with
  | nil =>
      rw [follow] at h
      cases hn : d.node? place with
      | none => simp only [hn] at h; cases h
      | some n =>
          simp only [hn, Except.ok.injEq] at h
          subst h
          exact .here hn
  | cons step steps ih =>
      cases hn : d.node? place with
      | none => rw [follow_of_none hn] at h; cases h
      | some n =>
          cases n with
          | file _ _ | locked _ | device => simp only [follow, hn] at h; cases h
          | directory =>
              rw [follow_cons hn] at h
              by_cases hspecial : step = "." ∨ step = ".."
              · rw [if_pos hspecial] at h
                rcases hspecial with rfl | rfl
                · exact .stay hn (ih h)
                · exact .up hn (ih h)
              rw [if_neg hspecial] at h
              rw [not_or] at hspecial
              split at h
              · cases h
              have hname : IsName step := ⟨hspecial.1, hspecial.2, Nat.not_lt.1 ‹_›⟩
              rw [hname.stepTo_eq] at h
              split at h
              · rename_i hfree
                cases h
                rw [hfree.1]
                exact .free hn hname hfree.2
              · cases hnext : d.node? (place ++ [step]) with
                | some m => exact .down hn hname hnext (ih h)
                | none => rw [follow_of_none hnext] at h; cases h

theorem Leads.follow_eq (h : d.Leads place steps spot) : d.follow place steps = .ok spot := by
  induction h with
  | here hn => simp [follow, hn]
  | free hdir hname hfree => simp [follow_cons hdir, hname.stepTo_eq, hname.ne_dot, hname.ne_dots, hname.size_le, hfree]
  | stay hdir _ ih => simpa [follow_cons hdir, stepTo] using ih
  | up hdir _ ih => simpa [follow_cons hdir, stepTo] using ih
  | down hdir hname hn _ ih =>
      simpa [follow_cons hdir, hname.stepTo_eq, hname.ne_dot, hname.ne_dots, Nat.not_lt.2 hname.size_le, hn] using ih
namespace Leads

theorem place_eq (h : d.Leads place steps spot) : spot.place = steps.foldl stepTo place := by
  induction h with
  | here => rfl
  | free _ hname =>
      rw [List.foldl_cons, hname.stepTo_eq]
      rfl
  | stay _ _ ih | up _ _ ih => exact ih
  | down _ hname _ _ ih => rwa [List.foldl_cons, hname.stepTo_eq]

theorem node?_taken (h : d.Leads place steps (.taken other n)) : d.node? other = some n := by
  generalize hspot : Spot.taken other n = spot at h
  induction h with
  | here hn => cases hspot; exact hn
  | free => cases hspot
  | stay _ _ ih | up _ _ ih | down _ _ _ _ ih => exact ih hspot

theorem node?_free (h : d.Leads place steps (.free other)) : d.node? other = none := by
  generalize hspot : Spot.free other = spot at h
  induction h with
  | here => cases hspot
  | free _ _ hfree => cases hspot; exact hfree
  | stay _ _ ih | up _ _ ih | down _ _ _ _ ih => exact ih hspot

theorem last_of_free (h : d.Leads place steps (.free other)) :
    ∃ step, steps.getLast? = some step ∧ IsName step := by
  generalize hspot : Spot.free other = spot at h
  induction h with
  | here => cases hspot
  | free _ hname => exact ⟨_, rfl, hname⟩
  | stay _ _ ih | up _ _ ih | down _ _ _ _ ih =>
      obtain ⟨step, hlast, hname⟩ := ih hspot
      exact ⟨step, by simp [List.getLast?_cons, hlast], hname⟩

theorem directory_of_mem (h : d.Leads place steps spot) (hq : other ∈ places place steps) :
    other = spot.place ∨ d.node? other = some .directory := by
  induction h with
  | here => exact .inl (List.mem_singleton.1 hq)
  | free hdir hname =>
      rw [places, hname.stepTo_eq] at hq
      rcases List.mem_cons.1 hq with rfl | hq
      · exact .inr hdir
      · exact .inl (List.mem_singleton.1 hq)
  | stay hdir _ ih | up hdir _ ih =>
      rcases List.mem_cons.1 hq with rfl | hq
      · exact .inr hdir
      · exact ih hq
  | down hdir hname _ _ ih =>
      rw [places, hname.stepTo_eq] at hq
      rcases List.mem_cons.1 hq with rfl | hq
      · exact .inr hdir
      · exact ih hq

end Leads

def spotAt (d : Disk) (place : Location) : Spot :=
  match d.node? place with
  | some n => .taken place n
  | none => .free place

theorem spotAt_of_node {n : Node} (h : d.node? place = some n) : d.spotAt place = .taken place n := by
  rw [spotAt, h]

theorem spotAt_of_none (h : d.node? place = none) : d.spotAt place = .free place := by
  rw [spotAt, h]

theorem spotAt_place (d : Disk) (place : Location) : (d.spotAt place).place = place := by
  rw [spotAt]
  split <;> rfl

def Keeps (d e : Disk) : Prop :=
  ∀ place, d.node? place = some .directory → e.node? place = some .directory

/-- What is at the end may change, if it can still be reached. -/
theorem Leads.of_keeps (hkeeps : d.Keeps e) (h : d.Leads place steps spot)
    (hend : spot = .free spot.place ∨ ∃ n, e.node? spot.place = some n) :
    e.Leads place steps (e.spotAt spot.place) := by
  induction h with
  | here hn =>
      obtain hfree | ⟨n, hn⟩ := hend
      · cases hfree
      · rw [spotAt_of_node hn]
        exact .here hn
  | @free place step hdir hname hfree =>
      rw [Spot.place]
      cases hn : e.node? (place ++ [step]) with
      | none =>
          rw [spotAt_of_none hn]
          exact .free (hkeeps place hdir) hname hn
      | some n =>
          rw [spotAt_of_node hn]
          exact .down (hkeeps place hdir) hname hn (.here hn)
  | stay hdir _ ih => exact .stay (hkeeps _ hdir) (ih hend)
  | up hdir _ ih => exact .up (hkeeps _ hdir) (ih hend)
  | @down place step steps spot n hdir hname hn hrest ih =>
      have hnext : ∃ m, e.node? (place ++ [step]) = some m := by
        rcases hrest.directory_of_mem (mem_places_self _ steps) with hspot | hdir
        · rw [hspot]
          rcases hend with hfree | hn'
          · rw [hfree] at hrest
            rw [hspot, hrest.node?_free] at hn
            cases hn
          · exact hn'
        · exact ⟨_, hkeeps _ hdir⟩
      obtain ⟨m, hm⟩ := hnext
      exact .down (hkeeps place hdir) hname hm (ih hend)

theorem Leads.directory_of_cons (h : d.Leads place (step :: steps) spot) : d.node? place = some .directory := by
  cases h <;> assumption

/-- Where only the last step leads to something new, the place was free before. -/
theorem Leads.free_of_keeps (hkeeps : e.Keeps d) (h : e.Leads place steps (.taken other n))
    (hlast : ∃ step, steps.getLast? = some step ∧ step ≠ "." ∧ step ≠ "..") (hfree : d.node? other = none) :
    d.Leads place steps (.free other) := by
  generalize hspot : Spot.taken other n = spot at h
  induction h with
  | here =>
      obtain ⟨step, hstep, -⟩ := hlast
      cases hstep
  | free => cases hspot
  | @stay place steps spot hdir hrest ih =>
      cases steps with
      | nil => simp at hlast
      | cons next steps =>
          rw [List.getLast?_cons_cons] at hlast
          exact .stay (hkeeps _ hdir) (ih hlast hspot)
  | @up place steps spot hdir hrest ih =>
      cases steps with
      | nil => simp at hlast
      | cons next steps =>
          rw [List.getLast?_cons_cons] at hlast
          exact .up (hkeeps _ hdir) (ih hlast hspot)
  | @down place step steps spot m hdir hname hn hrest ih =>
      cases steps with
      | nil =>
          cases hrest
          cases hspot
          exact .free (hkeeps _ hdir) hname hfree
      | cons next steps =>
          rw [List.getLast?_cons_cons] at hlast
          exact .down (hkeeps _ hdir) hname (hkeeps _ hrest.directory_of_cons) (ih hlast hspot)

theorem follow_congr (h : ∀ q ∈ places place steps, e.node? q = d.node? q) :
    e.follow place steps = d.follow place steps := by
  induction steps generalizing place with
  | nil => rw [follow, follow, h place (List.mem_singleton_self place)]
  | cons step steps ih =>
      rw [places, List.forall_mem_cons] at h
      obtain ⟨hplace, h⟩ := h
      cases hn : d.node? place with
      | none => rw [follow_of_none hn, follow_of_none (hplace.trans hn)]
      | some n =>
          cases n with
          | file _ _ | locked _ | device => simp [follow, hplace, hn]
          | directory =>
              have hnext := h _ (mem_places_self (stepTo place step) steps)
              rw [follow_cons hn, follow_cons (hplace.trans hn), ih h, hnext]

structure IsFit (path : String) : Prop where
  no_zero : path.toList.contains '\x00' = false
  nonempty : path.isEmpty = false
  size_le : path.utf8ByteSize ≤ maxPathSize

theorem walk_eq_ok_iff : d.walk path steps = .ok spot ↔ IsFit path ∧ d.Leads (d.start path) steps spot := by
  constructor
  · intro h
    rw [walk] at h
    split at h
    · cases h
    split at h
    · cases h
    split at h
    · cases h
    · rename_i hzero hempty hsize
      exact ⟨⟨by simpa using hzero, by simpa using hempty, Nat.not_lt.1 hsize⟩, leads_of_follow h⟩
  · rintro ⟨⟨hzero, hempty, hsize⟩, h⟩
    rw [walk, hzero, hempty, if_neg Bool.false_ne_true, if_neg Bool.false_ne_true, if_neg (Nat.not_lt.2 hsize),
      h.follow_eq]

theorem checkSlash_eq_ok_iff {slash : Bool} {spot' : Spot} :
    checkSlash slash spot' = .ok spot ↔ spot' = spot ∧ (slash = true → ∃ place, spot = .taken place .directory) := by
  unfold checkSlash
  split
  · next hslash =>
      split
      · next place =>
          rw [Except.ok.injEq]
          refine ⟨fun h => ⟨h, fun _ => ⟨place, h.symm⟩⟩, fun h => h.1⟩
      · next place n hne =>
          refine ⟨nofun, ?_⟩
          rintro ⟨rfl, h⟩
          obtain ⟨place', h⟩ := h hslash
          cases h
          exact absurd rfl hne
      · refine ⟨nofun, ?_⟩
        rintro ⟨rfl, h⟩
        obtain ⟨place', h⟩ := h hslash
        cases h
  · next hslash =>
      rw [Except.ok.injEq]
      exact ⟨fun h => ⟨h, fun ht => absurd ht hslash⟩, fun h => h.1⟩

theorem spot_eq_ok_iff :
    d.spot path = .ok spot ↔ IsFit path ∧ d.Leads (d.start path) (Path.steps path) spot ∧
      (Path.endsInSlash path = true → ∃ place, spot = .taken place .directory) := by
  rw [Disk.spot, bind_eq_ok_iff]
  constructor
  · rintro ⟨spot', hwalk, hslash⟩
    obtain ⟨rfl, hslash⟩ := checkSlash_eq_ok_iff.1 hslash
    obtain ⟨hfit, hleads⟩ := walk_eq_ok_iff.1 hwalk
    exact ⟨hfit, hleads, hslash⟩
  · rintro ⟨hfit, hleads, hslash⟩
    exact ⟨spot, walk_eq_ok_iff.2 ⟨hfit, hleads⟩, checkSlash_eq_ok_iff.2 ⟨rfl, hslash⟩⟩

theorem eq_spotAt_of_spot (h : d.spot path = .ok spot) : spot = d.spotAt spot.place := by
  have hleads := (spot_eq_ok_iff.1 h).2.1
  cases spot with
  | free other => exact (spotAt_of_none hleads.node?_free).symm
  | taken other n => exact (spotAt_of_node hleads.node?_taken).symm

theorem start_eq_of_home (h : e.home = d.home) (path : String) : e.start path = d.start path := by
  rw [start, start, h]

theorem spot_congr (hhome : e.home = d.home) (h : ∀ q ∈ d.passed path, e.node? q = d.node? q) :
    e.spot path = d.spot path := by
  rw [spot, spot, walk, walk, start_eq_of_home hhome, follow_congr h]

theorem spot_of_keeps (hhome : e.home = d.home) (hkeeps : d.Keeps e) (h : d.spot path = .ok spot)
    (hend : spot = .free spot.place ∨ ∃ n, e.node? spot.place = some n) :
    e.spot path = .ok (e.spotAt spot.place) := by
  obtain ⟨hfit, hleads, hslash⟩ := spot_eq_ok_iff.1 h
  have hleads' := hleads.of_keeps hkeeps hend
  rw [← start_eq_of_home hhome] at hleads'
  refine spot_eq_ok_iff.2 ⟨hfit, hleads', fun htrue => ?_⟩
  obtain ⟨place, rfl⟩ := hslash htrue
  exact ⟨place, spotAt_of_node (hkeeps place hleads.node?_taken)⟩

end Disk
end Signpost
