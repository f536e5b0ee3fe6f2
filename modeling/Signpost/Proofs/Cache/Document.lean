import Signpost.Cache.File
import Signpost.Proofs.Disk.Parent
import Signpost.Proofs.Disk.Replace

namespace Signpost.FileCache

open Disk

theorem decode?_empty : Snapshot.decode? .empty = none :=
  rfl

theorem stores_of_read {d : Disk} {path : String} {content : ByteArray} (hfile : d.isFile path = true)
    (h : d.read path = .ok content) : d.Stores (d.placeOf path) content := by
  rw [Disk.read] at h
  obtain ⟨n, hn, h⟩ := bind_eq_ok_iff.1 h
  rw [isFile, hn] at hfile
  cases n with
  | file old modified =>
      cases h
      exact ⟨modified, node?_of_node hn⟩
  | locked _ => cases h
  | directory | device => cases hfile

/-- The directory of a document that is there is there too. -/
theorem isUseable_of_isFile {d : Disk} {path : String} (h : d.isFile path = true) : isUseable d path = true := by
  obtain ⟨n, hnode, hn⟩ : ∃ n, d.node path = .ok n ∧ n ≠ .directory := by
    rw [isFile] at h
    split at h
    · next hnode => exact ⟨_, hnode, by simp⟩
    · next hnode => exact ⟨_, hnode, by simp⟩
    · cases h
  have hfit := (spot_eq_ok_iff.1 (spot_of_node hnode)).1
  rw [isUseable, isDirectory_of_node hnode hn, hfit.nonempty]
  rfl

theorem read_of_node {d : Disk} {path : String} {content : ByteArray} {modified : Timestamp}
    (h : d.node path = .ok (.file content modified)) :
    read d path = (Snapshot.decode? content).elim (.error .corrupt) .ok := by
  rw [read, if_pos (isFile_of_node h), read_of_file (spot_of_node h)]
  dsimp only
  cases Snapshot.decode? content <;> rfl

theorem read_eq_ok {d : Disk} {path : String} {s : Snapshot} (h : read d path = .ok s) :
    ∃ content, d.Stores (d.placeOf path) content ∧ Snapshot.decode? content = some s := by
  rw [read] at h
  split at h
  · rename_i hfile
    cases hread : d.read path with
    | error cause => simp only [hread] at h; cases h
    | ok content =>
        simp only [hread] at h
        cases hdecode : Snapshot.decode? content with
        | none => simp only [hdecode] at h; cases h
        | some found =>
            simp only [hdecode, Except.ok.injEq] at h
            subst h
            exact ⟨content, stores_of_read hfile hread, hdecode⟩
  · cases h

def written (s : Snapshot) : Location → ByteArray → Prop :=
  fun _ content => content = s.encode?.getD .empty

theorem adds_unstage (d : Disk) (staging : String) : d.Adds noFile (unstage d staging) := by
  rw [unstage]
  split
  · exact remove_adds ‹_›
  · exact .refl d

/-- What lies at the staging path is what was just written there, unless it is a device. -/
theorem file_eq_of_write {d staged : Disk} {staging : String} {content bytes : ByteArray} {modified : Timestamp}
    (hwrite : d.write staging content = .ok staged)
    (h : staged.node? (staged.placeOf staging) = some (.file bytes modified)) : bytes = content := by
  obtain ⟨rfl, hdevice⟩ | rfl := putFile_eq_ok hwrite
  · rw [h] at hdevice
    cases hdevice
  · rw [node?_put] at h
    split at h
    · cases h
      rfl
    · rename_i hroot
      have hplace : placeOf (d.put (d.placeOf staging) (.file content d.now)) staging = d.placeOf staging := rfl
      rw [hplace] at h hroot
      have hnil : d.placeOf staging = [] := Classical.byContradiction fun hne => hroot ⟨rfl, hne⟩
      rw [hnil] at h
      cases h

theorem move_adds {d staged e : Disk} {staging path : String} {content : ByteArray}
    (hwrite : d.write staging content = .ok staged) (hmove : staged.move staging path = .ok e) :
    staged.Adds (fun _ bytes => bytes = content) e := by
  obtain ⟨n, hn, rfl⟩ := move_eq_ok hmove
  refine .trans (staged.adds_erase (staged.placeOf staging)).of_noFile ((adds_put _ _ n).mono ?_)
  rintro other bytes ⟨-, modified, rfl⟩
  exact file_eq_of_write hwrite hn

theorem adds_write (d : Disk) (path ticket : String) (s : Snapshot) : d.Adds (written s) (write d path ticket s).2 := by
  rw [write]
  split
  · dsimp only
    cases hwrite : d.write (stagingPath path ticket) (s.encode?.getD .empty) with
    | error cause => exact .refl d
    | ok staged =>
        have hstage : d.Adds (written s) staged := (putFile_adds hwrite).mono fun _ _ h => h.2
        have hunstage := hstage.trans (adds_unstage staged (stagingPath path ticket)).of_noFile
        dsimp only
        split
        · dsimp only
          exact hunstage
        · split
          · dsimp only
            exact hunstage
          · exact hstage.trans (move_adds hwrite ‹_›)
  · exact .refl d

theorem adds_clear (d : Disk) (path : String) : d.Adds noFile (clear d path).2 := by
  rw [clear]
  split
  · exact remove_adds ‹_›
  · exact .refl d
  · exact .refl d

end Signpost.FileCache
