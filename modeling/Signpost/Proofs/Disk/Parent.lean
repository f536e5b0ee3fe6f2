import Signpost.Proofs.Disk.Frame
import Signpost.Proofs.Text.Split

namespace Signpost

namespace Path

open Text

theorem trimEnd_suffix (s : List Char) : trimEnd s <:+ s := by
  induction s using trimEnd.induct with
  | case1 => exact List.suffix_refl _
  | case2 s hroot ih =>
      rw [trimEnd.eq_2 s hroot]
      exact ih.trans (List.suffix_cons '/' s)
  | case3 s ih =>
      rw [trimEnd]
      exact ih.trans (List.suffix_cons '.' _)
  | case4 s hroot hslash hdot => exact ⟨[], trimEnd.eq_4 s hroot hslash hdot⟩

theorem trimEnd_ne_nil {s : List Char} (h : s ≠ []) : trimEnd s ≠ [] := by
  induction s using trimEnd.induct with
  | case1 => exact h
  | case2 s hroot ih =>
      rw [trimEnd.eq_2 s hroot]
      exact ih hroot
  | case3 s ih =>
      rw [trimEnd]
      exact ih (List.cons_ne_nil _ _)
  | case4 s hroot hslash hdot => rwa [trimEnd.eq_4 s hroot hslash hdot]

theorem head_trimEnd (s : List Char) : trimEnd s = ['/'] ∨ (trimEnd s).head? ≠ some '/' := by
  induction s using trimEnd.induct with
  | case1 => exact .inl rfl
  | case2 s hroot ih => rwa [trimEnd.eq_2 s hroot]
  | case3 s ih => rwa [trimEnd]
  | case4 s hroot hslash hdot =>
      rw [trimEnd.eq_4 s hroot hslash hdot]
      refine .inr fun hs => ?_
      cases s with
      | nil => cases hs
      | cons c s => exact hslash s (by rw [Option.some.inj hs])

theorem runs_slash_cons (s : List Char) : runs (· == '/') ('/' :: s).reverse = runs (· == '/') s.reverse := by
  rw [List.reverse_cons, runs_append_cons _ _ rfl]
  exact List.append_nil _

/-- Steps in place are all that trimming takes away. -/
theorem runs_trimEnd (s : List Char) : ∃ n, runs (· == '/') s.reverse =
    runs (· == '/') (trimEnd s).reverse ++ List.replicate n ['.'] := by
  induction s using trimEnd.induct with
  | case1 => exact ⟨0, rfl⟩
  | case2 s hroot ih => rwa [trimEnd.eq_2 s hroot, runs_slash_cons]
  | case3 s ih =>
      obtain ⟨n, hn⟩ := ih
      refine ⟨n + 1, ?_⟩
      rw [runs_slash_cons] at hn
      rw [trimEnd, List.replicate_succ', ← List.append_assoc, ← hn, List.reverse_cons, List.reverse_cons,
        List.append_assoc, List.singleton_append, runs_append_cons _ _ rfl]
      rfl
  | case4 s hroot hslash hdot =>
      rw [trimEnd.eq_4 s hroot hslash hdot]
      exact ⟨0, (List.append_nil _).symm⟩

/-- The last step of a path stands behind its last slash. -/
theorem runs_eq_append_last {t : List Char} (hhead : t = ['/'] ∨ t.head? ≠ some '/')
    (h : runs (· == '/') t.reverse ≠ []) :
    t.takeWhile isInStep ≠ [] ∧ runs (· == '/') t.reverse =
      runs (· == '/') (t.dropWhile isInStep).reverse ++ [(t.takeWhile isInStep).reverse] := by
  cases t with
  | nil => exact absurd rfl h
  | cons c t =>
      have hc : isInStep c = true := by
        refine bne_iff_ne.2 ?_
        rintro rfl
        rcases hhead with hroot | hhead
        · rw [hroot] at h
          exact h rfl
        · exact hhead rfl
      have hlast : (c :: t).takeWhile isInStep ≠ [] := by simp [hc]
      refine ⟨hlast, ?_⟩
      have hplain : ∀ d ∈ ((c :: t).takeWhile isInStep).reverse, (d == '/') = false := fun d hd => by
        simpa [isInStep] using List.mem_takeWhile_imp (List.mem_reverse.1 hd)
      have hruns := runs_of_unmarked (p := (· == '/')) (by simpa using hlast) hplain
      have ht := List.takeWhile_append_dropWhile (p := isInStep) (l := c :: t)
      have hslash := head_dropWhile isInStep (c :: t)
      generalize (c :: t).takeWhile isInStep = w at *
      generalize (c :: t).dropWhile isInStep = u at *
      rw [← ht, List.reverse_append]
      cases u with
      | nil => exact hruns
      | cons d u =>
          obtain rfl : d = '/' := by simpa [isInStep] using hslash d rfl
          rw [runs_slash_cons, List.reverse_cons, List.append_assoc, List.singleton_append, runs_append_cons _ _ rfl,
            hruns]

/-- Trimming takes nothing away from a path that ends in a name. -/
theorem steps_eq_of_name {path name : String} {front : List String} (hsteps : steps path = front ++ [name])
    (hname : name ≠ ".") : steps path = (runs (· == '/') (trimEnd path.toList.reverse).reverse).map String.ofList := by
  obtain ⟨n, hruns⟩ := runs_trimEnd path.toList.reverse
  rw [List.reverse_reverse] at hruns
  cases n with
  | zero => rw [steps, hruns, List.replicate_zero, List.append_nil]
  | succ n =>
      rw [steps, hruns, List.replicate_succ', ← List.append_assoc, List.map_append] at hsteps
      exact absurd (List.append_inj_right' hsteps rfl) (by simpa using hname.symm)

theorem parent?_of_name {path name : String} {front : List String} (hsteps : steps path = front ++ [name])
    (hname : name ≠ ".") :
    parent? path = some (String.ofList (trimEnd ((trimEnd path.toList.reverse).dropWhile isInStep)).reverse) := by
  rw [steps_eq_of_name hsteps hname] at hsteps
  rw [parent?]
  split
  · next hnil =>
      rw [hnil] at hsteps
      exact absurd (congrArg List.length hsteps) (by simp [runs, split])
  · next hroot =>
      rw [hroot] at hsteps
      exact absurd (congrArg List.length hsteps) (by simp [runs, split])
  · rfl

theorem directory_of_parent? {path p : String} (h : parent? path = some p) :
    directory path = if p = "" then "." else p := by
  rw [directory, h]
  split
  · next hp => cases hp
  · next hp => cases hp; rfl
  · next hp hne =>
      cases hne
      exact (if_neg fun he => hp (by rw [he])).symm

/-- Where a path ends in a name, its directory is the start of the path, unless the name is all of it. -/
theorem directory_cases {path name : String} {front : List String} (hsteps : steps path = front ++ [name])
    (hname : name ≠ ".") :
    (directory path = "." ∧ isAbsolute path = false ∧ front = []) ∨
      ∃ n, front = steps (directory path) ++ List.replicate n "." ∧ directory path ≠ "" ∧
        (directory path).toList <+: path.toList := by
  have hruns := steps_eq_of_name hsteps hname
  have hsuffix := trimEnd_suffix path.toList.reverse
  have hhead := head_trimEnd path.toList.reverse
  rw [directory_of_parent? (parent?_of_name hsteps hname)]
  generalize trimEnd path.toList.reverse = t at hruns hsuffix hhead
  rw [hruns] at hsteps
  obtain ⟨hw, hlast⟩ := runs_eq_append_last hhead (by rintro hnil; simp [hnil] at hsteps)
  rw [hlast, List.map_append] at hsteps
  have hfront := List.append_inj_left' hsteps rfl
  cases hu : t.dropWhile isInStep with
  | nil =>
      left
      rw [hu] at hfront
      refine ⟨rfl, ?_, hfront.symm⟩
      obtain ⟨junk, hjunk⟩ := hsuffix
      rw [← List.reverse_inj, List.reverse_append, List.reverse_reverse] at hjunk
      rw [isAbsolute, ← hjunk]
      have hplain : ∀ c ∈ t.reverse, c ≠ '/' := fun c hc => by
        simpa [isInStep] using List.dropWhile_eq_nil_iff.1 hu c (List.mem_reverse.1 hc)
      cases ht : t.reverse with
      | nil => simp [List.reverse_eq_nil_iff.1 ht] at hw
      | cons c s =>
          rw [ht] at hplain
          simpa using hplain c List.mem_cons_self
  | cons c u =>
      right
      rw [hu] at hfront
      obtain ⟨n, htrim⟩ := runs_trimEnd (c :: u)
      have hp : String.ofList (trimEnd (c :: u)).reverse ≠ "" := by
        simpa using trimEnd_ne_nil (List.cons_ne_nil c u)
      rw [if_neg hp]
      refine ⟨n, ?_, hp, ?_⟩
      · rw [← hfront, htrim, List.map_append, List.map_replicate, steps, String.toList_ofList]
      · rw [String.toList_ofList, ← List.reverse_suffix, List.reverse_reverse]
        have hdrop := List.dropWhile_suffix isInStep (l := t)
        rw [hu] at hdrop
        exact ((trimEnd_suffix _).trans hdrop).trans hsuffix

end Path

namespace Disk

variable {d : Disk} {path step : String} {place other : Location} {spot : Spot} {front steps : List String} {n : Node}

/-- Before its last step a path is in a directory. -/
theorem Leads.directory_of_append (h : d.Leads place (front ++ step :: steps) spot) :
    d.Leads place front (.taken (front.foldl stepTo place) .directory) := by
  induction front generalizing place with
  | nil => exact .here h.directory_of_cons
  | cons first front ih =>
      rw [List.cons_append] at h
      generalize hall : first :: (front ++ step :: steps) = all at h
      cases h with
      | here => cases hall
      | free hdir hname hfree => cases front <;> cases hall
      | stay hdir hrest =>
          cases hall
          exact .stay hdir (ih hrest)
      | up hdir hrest =>
          cases hall
          exact .up hdir (ih hrest)
      | down hdir hname hn hrest =>
          cases hall
          rw [List.foldl_cons, hname.stepTo_eq]
          exact .down hdir hname hn (ih hrest)

theorem Leads.ne_dot_of_taken (h : d.Leads place (front ++ [step]) (.taken other n)) (hn : n ≠ .directory) :
    step ≠ "." := by
  rintro rfl
  have hplace := h.place_eq
  rw [List.foldl_append] at hplace
  have hdir := h.directory_of_append.node?_taken
  have hthere := h.node?_taken
  rw [show other = front.foldl stepTo place from hplace, hdir] at hthere
  exact hn (Option.some.inj hthere).symm

theorem exists_name_of_spot (h : d.spot path = .ok (.taken other n)) (hn : n ≠ .directory) :
    ∃ front name, Path.steps path = front ++ [name] ∧ name ≠ "." := by
  obtain ⟨hfit, hleads, hslash⟩ := spot_eq_ok_iff.1 h
  rcases List.eq_nil_or_concat (Path.steps path) with hnil | ⟨front, name, hsteps⟩
  · have hall := Text.forall_marked_of_runs_eq_nil (List.map_eq_nil_iff.1 hnil)
    have hne : path.toList ≠ [] := by simpa using hfit.nonempty
    have hend : Path.endsInSlash path = true := by
      rw [Path.endsInSlash, List.getLast?_eq_some_getLast hne]
      simpa using hall _ (List.getLast_mem hne)
    obtain ⟨place, hdir⟩ := hslash hend
    cases hdir
    exact absurd rfl hn
  · rw [List.concat_eq_append] at hsteps
    rw [hsteps] at hleads
    exact ⟨front, name, hsteps, hleads.ne_dot_of_taken hn⟩

section

variable {parent : String} (hne : parent ≠ "") (hpre : parent.toList <+: path.toList)

include hne hpre

theorem start_of_prefix (d : Disk) : d.start parent = d.start path := by
  obtain ⟨rest, hrest⟩ := hpre
  obtain ⟨c, s, hc⟩ := List.exists_cons_of_ne_nil (show parent.toList ≠ [] by simpa using hne)
  rw [start, start, Path.isAbsolute, Path.isAbsolute, ← hrest, hc]
  rfl

theorem IsFit.of_prefix (h : IsFit path) : IsFit parent := by
  obtain ⟨rest, hrest⟩ := hpre
  have hzero := h.no_zero
  have hsize := h.size_le
  have hpath : path = parent ++ String.ofList rest := by
    rw [← String.toList_inj, String.toList_append, String.toList_ofList, hrest]
  rw [hpath] at hzero hsize
  rw [String.utf8ByteSize_append] at hsize
  refine ⟨?_, by simpa using hne, by omega⟩
  simp only [String.toList_append, List.contains_eq_mem, List.mem_append, decide_eq_false_iff_not, not_or] at hzero ⊢
  exact hzero.1

end

/-- A file lies in the directory of its path. -/
theorem isDirectory_of_node (h : d.node path = .ok n) (hn : n ≠ .directory) :
    d.isDirectory (Path.directory path) = true := by
  have hspot := spot_of_node h
  obtain ⟨front, name, hsteps, hname⟩ := exists_name_of_spot hspot hn
  obtain ⟨hfit, hleads, -⟩ := spot_eq_ok_iff.1 hspot
  rw [hsteps] at hleads
  suffices hdir : ∃ place, d.spot (Path.directory path) = .ok (.taken place .directory) by
    obtain ⟨place, hdir⟩ := hdir
    rw [isDirectory, node, hdir]
    rfl
  rcases Path.directory_cases hsteps hname with ⟨hdot, hrelative, rfl⟩ | ⟨k, rfl, hne, hpre⟩
  · have hstart : d.start path = d.start "." := by
      rw [start, start, hrelative]
      rfl
    rw [hdot]
    rw [hstart] at hleads
    have hhome := hleads.directory_of_append
    exact ⟨_, spot_eq_ok_iff.2 ⟨⟨rfl, rfl, by decide⟩, .stay hhome.node?_taken hhome, fun h => absurd h (by decide)⟩⟩
  · obtain ⟨step, rest, hrest⟩ := List.exists_cons_of_ne_nil (show List.replicate k "." ++ [name] ≠ [] by simp)
    rw [List.append_assoc, hrest, ← start_of_prefix hne hpre] at hleads
    exact ⟨_, spot_eq_ok_iff.2 ⟨IsFit.of_prefix hne hpre hfit, hleads.directory_of_append, fun _ => ⟨_, rfl⟩⟩⟩

end Disk
end Signpost
