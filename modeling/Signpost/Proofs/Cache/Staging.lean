import Signpost.Cache.File
import Signpost.Proofs.Disk.Replace

namespace Signpost

namespace FileCache

open Disk

variable {d staged : Disk} {path ticket : String} {place : Location} {content : ByteArray} {s : Snapshot}

def IsFresh (d : Disk) (path ticket : String) : Prop :=
  ∀ n, d.node (stagingPath path ticket) ≠ .ok n

theorem isFresh_of_free (h : d.spot (stagingPath path ticket) = .ok (.free place)) : IsFresh d path ticket := by
  intro n hn
  rw [Disk.node, h] at hn
  cases hn

theorem write_staging (hfresh : IsFresh d path ticket) (h : d.write (stagingPath path ticket) content = .ok staged) :
    ∃ place, d.spot (stagingPath path ticket) = .ok (.free place) ∧ staged = d.put place (.file content d.now) := by
  rw [Disk.write, putFile] at h
  split at h
  · obtain ⟨_, _, h⟩ := bind_eq_ok_iff.1 h
    cases h
  · obtain ⟨spot, hspot, h⟩ := bind_eq_ok_iff.1 h
    cases spot with
    | free place =>
        cases h
        exact ⟨place, hspot, rfl⟩
    | taken place n =>
        refine absurd ?_ (hfresh n)
        rw [Disk.node, hspot]
        rfl

theorem spot_staged (h : d.spot (stagingPath path ticket) = .ok (.free place)) (n : Node) :
    (d.put place n).spot (stagingPath path ticket) = .ok (.taken place n) := by
  have hplain : d.node? place ≠ some .directory := by
    rw [node?_of_free h]
    nofun
  have hreplaced := replaced_put hplain n
  have hspot := spot_of_keeps hreplaced.home hreplaced.keeps h (.inl rfl)
  rwa [Spot.place, spotAt_of_node] at hspot
  rw [hreplaced.node?, if_pos rfl]

theorem unstage_staged (h : d.spot (stagingPath path ticket) = .ok (.free place)) (content : ByteArray)
    (modified : Timestamp) :
    unstage (d.put place (.file content modified)) (stagingPath path ticket) = d := by
  have hremove : (d.put place (.file content modified)).remove (stagingPath path ticket) = .ok d := by
    rw [remove, spot_staged h]
    exact congrArg Except.ok (erase_put (free_ne_nil h) (node?_of_free h) _)
  rw [unstage, hremove]

theorem replaced_of_move {goal : Location} (h : d.spot (stagingPath path ticket) = .ok (.free place)) (n : Node)
    (hgoal : (d.put place n).moveTarget path = .ok goal) : d.Replaced (d.placeOf path) (some n) (d.put goal n) := by
  have hplace : goal = (d.put place n).placeOf path := moveTarget_eq_ok hgoal
  have hhome : (d.put place n).placeOf path = d.placeOf path := rfl
  rw [hhome] at hplace
  subst hplace
  refine replaced_put (fun hdir => ?_) n
  have hplain := not_directory_of_moveTarget hgoal
  rw [node?_put] at hplain
  split at hplain
  · rename_i hsame
    rw [hsame.1, node?_of_free h] at hdir
    cases hdir
  · exact hplain hdir

theorem move_staged (h : d.spot (stagingPath path ticket) = .ok (.free place)) (content : ByteArray)
    (modified : Timestamp) :
    let staged := d.put place (.file content modified)
    staged.move (stagingPath path ticket) path = do
      let goal ← staged.moveTarget path
      return d.put goal (.file content modified) := by
  intro staged
  have herase : staged.erase place = d := erase_put (free_ne_nil h) (node?_of_free h) _
  rw [move, spot_staged h, ← herase]
  rfl

/-- Where the staging file can be made, a write fails for want of a document or of a place to move it to. -/
theorem write_of_free (huse : isUseable d path = true) (h : d.spot (stagingPath path ticket) = .ok (.free place))
    (s : Snapshot) :
    write d path ticket s =
      match s.encode? with
      | none => (.error .corrupt, d)
      | some content =>
        match (d.put place (.file content d.now)).moveTarget path with
        | .error cause => (.error (.io cause), d)
        | .ok goal => (.ok (), d.put goal (.file content d.now)) := by
  have hwrite (content : ByteArray) :
      d.write (stagingPath path ticket) content = .ok (d.put place (.file content d.now)) := by
    rw [Disk.write, putFile, endsInSlash_of_free h, h]
    rfl
  rw [write, if_pos huse]
  dsimp only
  rw [hwrite]
  cases s.encode? with
  | none => simp only [Option.isNone_none, if_true, unstage_staged h]
  | some content =>
      simp only [Option.isNone_some, Bool.false_eq_true, if_false, Option.getD_some]
      rw [move_staged h content d.now]
      cases (d.put place (.file content d.now)).moveTarget path with
      | error cause =>
          change (_, unstage _ _) = _
          rw [unstage_staged h]
      | ok goal =>
          change (_, _) = _
          rfl

theorem write_of_not_free (hfresh : IsFresh d path ticket)
    (h : ∀ place, d.spot (stagingPath path ticket) ≠ .ok (.free place)) (s : Snapshot) :
    ∃ cause, write d path ticket s = (.error cause, d) := by
  rw [write]
  split
  · dsimp only
    cases hwrite : d.write (stagingPath path ticket) (s.encode?.getD .empty) with
    | error cause => exact ⟨_, rfl⟩
    | ok staged =>
        obtain ⟨place, hfree, -⟩ := write_staging hfresh hwrite
        exact absurd hfree (h place)
  · exact ⟨_, rfl⟩

theorem write_of_not_useable (h : isUseable d path = false) (ticket : String) (s : Snapshot) :
    ∃ reason, write d path ticket s = (.error (.unusable reason), d) := by
  rw [write, h]
  exact ⟨_, rfl⟩

/-- A write of the cache does all or nothing. -/
theorem write_cases (s : Snapshot) (hfresh : IsFresh d path ticket) :
    (∃ cause, write d path ticket s = (.error cause, d)) ∨
    ∃ content e, s.encode? = some content ∧ write d path ticket s = (.ok (), e) ∧
      d.Replaced (d.placeOf path) (some (.file content d.now)) e := by
  cases huse : isUseable d path with
  | false =>
      obtain ⟨reason, hwrite⟩ := write_of_not_useable huse ticket s
      exact .inl ⟨_, hwrite⟩
  | true =>
      by_cases hstage : ∃ place, d.spot (stagingPath path ticket) = .ok (.free place)
      case neg => exact .inl (write_of_not_free hfresh (not_exists.1 hstage) s)
      obtain ⟨place, hfree⟩ := hstage
      rw [write_of_free huse hfree]
      cases s.encode? with
      | none => exact .inl ⟨_, rfl⟩
      | some content =>
          dsimp only
          cases hgoal : (d.put place (.file content d.now)).moveTarget path with
          | error cause => exact .inl ⟨_, rfl⟩
          | ok goal => exact .inr ⟨content, _, rfl, rfl, replaced_of_move hfree _ hgoal⟩

end FileCache
end Signpost
