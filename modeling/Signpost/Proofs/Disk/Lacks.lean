import Mathlib.Tactic.SplitIfs
import Signpost.Proofs.Disk.Replace

namespace Signpost.Disk

variable {d d' e e' : Disk} {path : String} {place other : Location} {n? : Option Node} {content : ByteArray}
  {modified : Timestamp}

def IsPlain (d : Disk) (place : Location) : Prop :=
  d.node? place = none ∨ ∃ content modified, d.node? place = some (.file content modified)

theorem IsPlain.not_directory (h : d.IsPlain place) : d.node? place ≠ some .directory := by
  rcases h with h | ⟨content, modified, h⟩ <;> simp [h]

/-- One disk has at most a file more than the other, in this place. -/
structure Lacks (d : Disk) (place : Location) (e : Disk) : Prop where
  home : e.home = d.home
  node? : ∀ other, other ≠ place → e.node? other = d.node? other
  free : d.node? place = none
  plain : e.IsPlain place

def after (d : Disk) (result : Except SystemError Disk) : Disk :=
  match result with
  | .ok e => e
  | .error _ => d

structure Together (d e : Disk) (place other : Location) (n? : Option Node) (d' e' : Disk) : Prop where
  beside : other ≠ place
  left : d.Replaced other n? d'
  right : e.Replaced other n? e'

namespace Lacks

theorem refl (h : d.node? place = none) : d.Lacks place d :=
  ⟨rfl, fun _ _ => rfl, h, .inl h⟩

theorem keeps (h : d.Lacks place e) : d.Keeps e := by
  intro other hdir
  have hother : other ≠ place := by
    rintro rfl
    rw [h.free] at hdir
    cases hdir
  rwa [h.node? other hother]

theorem of_together (h : d.Lacks place e) (hboth : d.Together e place other n? d' e') : d'.Lacks place e' := by
  obtain ⟨hother, hd, he⟩ := hboth
  refine ⟨?_, fun q hq => ?_, ?_, ?_⟩
  · rw [he.home, hd.home, h.home]
  · rw [he.node?, hd.node?, h.node? q hq]
  · rw [hd.node?, if_neg hother.symm, h.free]
  · rw [IsPlain, he.node?, if_neg hother.symm]
    exact h.plain

theorem of_replaced_self (h : d.Lacks place e) (he : e.Replaced place n? e') (hplain : e'.IsPlain place) :
    d.Lacks place e' := by
  refine ⟨he.home.trans h.home, fun q hq => ?_, h.free, hplain⟩
  rw [he.node?, if_neg hq, h.node? q hq]

theorem follow_cases (h : d.Lacks place e) (hfile : e.node? place = some (.file content modified))
    {first : Location} {steps : List String} (hend : steps.foldl stepTo first ≠ place) :
    e.follow first steps = d.follow first steps ∨
    place ∈ places first steps ∧ d.follow first steps = .error .notFound ∧
      e.follow first steps = .error .notADirectory := by
  -- the two walks part only if they come to the place itself, with steps left to take
  induction steps generalizing first with
  | nil =>
      left
      rw [follow, follow, h.node? first hend]
  | cons step steps ih =>
      by_cases hfirst : first = place
      · subst hfirst
        right
        refine ⟨mem_places_self first _, ?_, ?_⟩
        · rw [follow.eq_def]
          simp [h.free]
        · rw [follow.eq_def]
          simp [hfile]
      have hnode := h.node? first hfirst
      cases hn : d.node? first with
      | none => exact .inl (by rw [follow_of_none hn, follow_of_none (hnode.trans hn)])
      | some n =>
          cases n with
          | file _ _ | locked _ | device => exact .inl (by simp [follow, hnode, hn])
          | directory =>
              have hlast : steps = [] ∧ e.node? (stepTo first step) = none ↔
                  steps = [] ∧ d.node? (stepTo first step) = none := by
                refine and_congr_right fun hsteps => ?_
                subst hsteps
                rw [h.node? (stepTo first step) hend]
              rw [follow_cons hn, follow_cons (hnode.trans hn)]
              simp only [hlast]
              obtain hsame | ⟨hmem, hd, he⟩ := ih hend
              · exact .inl (by rw [hsame])
              · rw [hd, he]
                split_ifs
                · exact .inr ⟨List.mem_cons_of_mem _ hmem, rfl, rfl⟩
                · exact .inl rfl
                · exact .inl rfl
                · exact .inr ⟨List.mem_cons_of_mem _ hmem, rfl, rfl⟩

/-- A path that does not end in the place leads the same way on both disks, unless it takes the file for a
directory. -/
theorem spot_cases (h : d.Lacks place e) (hend : d.placeOf path ≠ place) :
    e.spot path = d.spot path ∨
    place ∈ d.passed path ∧ d.spot path = .error .notFound ∧ e.spot path = .error .notADirectory := by
  obtain hnone | ⟨content, modified, hfile⟩ := h.plain
  · left
    refine spot_congr h.home fun q _ => ?_
    by_cases hq : q = place
    · rw [hq, hnone, h.free]
    · exact h.node? q hq
  rw [spot, spot, walk, walk, start_eq_of_home h.home]
  obtain hsame | ⟨hmem, hd, he⟩ := h.follow_cases hfile hend
  · exact .inl (by rw [hsame])
  · rw [hd, he]
    split_ifs
    · exact .inl rfl
    · exact .inl rfl
    · exact .inl rfl
    · exact .inr ⟨hmem, rfl, rfl⟩

theorem together_put (h : d.Lacks place e) (hother : other ≠ place) (hplain : d.node? other ≠ some .directory)
    (n : Node) : d.Together e place other (some n) (d.put other n) (e.put other n) :=
  ⟨hother, replaced_put hplain n, replaced_put (by rwa [h.node? other hother]) n⟩

theorem together_erase (h : d.Lacks place e) (hother : other ≠ place) (hplain : d.node? other ≠ some .directory) :
    d.Together e place other none (d.erase other) (e.erase other) :=
  ⟨hother, replaced_erase hplain, replaced_erase (by rwa [h.node? other hother])⟩

/-- Both disks have the same at the end of a path, or it leads nowhere on either. -/
theorem ends (h : d.Lacks place e) (hend : d.placeOf path ≠ place) :
    (∃ cause cause', d.spot path = .error cause ∧ e.spot path = .error cause') ∨
    (∃ n, d.spot path = .ok (.taken (d.placeOf path) n) ∧ e.spot path = .ok (.taken (d.placeOf path) n) ∧
      d.node? (d.placeOf path) = some n) ∨
    d.spot path = .ok (.free (d.placeOf path)) ∧ e.spot path = .ok (.free (d.placeOf path)) ∧
      d.node? (d.placeOf path) = none := by
  obtain hsame | ⟨-, hd, he⟩ := h.spot_cases hend
  · rw [hsame]
    cases hspot : d.spot path with
    | error cause => exact .inl ⟨cause, cause, rfl, rfl⟩
    | ok spot =>
        right
        have hleads := (spot_eq_ok_iff.1 hspot).2.1
        rw [← (spot_eq_ok hspot).1]
        cases spot with
        | taken other n => exact .inl ⟨n, rfl, rfl, hleads.node?_taken⟩
        | free other => exact .inr ⟨rfl, rfl, hleads.node?_free⟩
  · exact .inl ⟨_, _, hd, he⟩

theorem after_putFile (h : d.Lacks place e) (hend : d.placeOf path ≠ place) (content : ByteArray)
    (modified : Timestamp) :
    let d' := d.after (d.putFile path content modified)
    let e' := e.after (e.putFile path content modified)
    d' = d ∧ e' = e ∨ d.Together e place (d.placeOf path) (some (.file content modified)) d' e' := by
  intro d' e'
  cases hslash : Path.endsInSlash path with
  | true =>
      have hkept : ∀ a : Disk, a.after (a.putFile path content modified) = a := by
        intro a
        rw [putFile, hslash, if_pos rfl]
        cases a.checkParent path <;> rfl
      exact .inl ⟨hkept d, hkept e⟩
  | false =>
      change d.after _ = d ∧ e.after _ = e ∨ d.Together e place _ _ (d.after _) (e.after _)
      rw [putFile, putFile, hslash, if_neg Bool.false_ne_true, if_neg Bool.false_ne_true]
      obtain ⟨cause, cause', hd, he⟩ | ⟨n, hd, he, hnode⟩ | ⟨hd, he, hnode⟩ := h.ends hend
      · rw [hd, he]
        exact .inl ⟨rfl, rfl⟩
      · rw [hd, he]
        cases n with
        | directory | locked _ | device => exact .inl ⟨rfl, rfl⟩
        | file _ _ => exact .inr (h.together_put hend (by simp [hnode]) _)
      · rw [hd, he]
        exact .inr (h.together_put hend (by simp [hnode]) _)

theorem after_remove (h : d.Lacks place e) (hend : d.placeOf path ≠ place) :
    let d' := d.after (d.remove path)
    let e' := e.after (e.remove path)
    d' = d ∧ e' = e ∨ d.Together e place (d.placeOf path) none d' e' := by
  intro d' e'
  change d.after _ = d ∧ e.after _ = e ∨ d.Together e place _ _ (d.after _) (e.after _)
  rw [remove, remove]
  obtain ⟨cause, cause', hd, he⟩ | ⟨n, hd, he, hnode⟩ | ⟨hd, he, hnode⟩ := h.ends hend
  · rw [hd, he]
    exact .inl ⟨rfl, rfl⟩
  · rw [hd, he]
    cases n with
    | directory => exact .inl ⟨rfl, rfl⟩
    | file _ _ | locked _ | device => exact .inr (h.together_erase hend (by simp [hnode]))
  · rw [hd, he]
    exact .inl ⟨rfl, rfl⟩

end Lacks
end Signpost.Disk
