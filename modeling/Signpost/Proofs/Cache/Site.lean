import Signpost.Proofs.Cache.Codec
import Signpost.Proofs.Cache.Staging
import Signpost.Proofs.Disk.Lacks

namespace Signpost

def Timestamp.Storable (t : Timestamp) : Prop :=
  0 ≤ t.seconds ∧ t.seconds < (Word.count 63 : Int)

instance (t : Timestamp) : Decidable t.Storable :=
  inferInstanceAs (Decidable (_ ∧ _))

/-- The node is the document of the snapshot, or there is neither. -/
inductive Snapshot.Documented : Option Snapshot → Option Node → Prop
  | absent : Documented none none
  | present {s : Snapshot} {content : ByteArray} {modified : Timestamp} (h : decode? content = some s) :
      Documented (some s) (some (.file content modified))

theorem Snapshot.exists_document {s : Snapshot} (h : s.modified.Storable) :
    ∃ content, s.encode? = some content ∧ decode? content = some s := by
  obtain ⟨n, hn⟩ := Int.eq_ofNat_of_zero_le h.1
  have hencode := encode?_eq_some_iff.2 ⟨n, hn, rfl⟩
  refine ⟨_, hencode, ?_⟩
  rw [decode?_of_encode? hencode, if_pos h.2]

namespace FileCache

open Disk

structure Site (path : String) (place : Location) (d : Disk) : Prop where
  useable : isUseable d path = true
  spot : d.spot path = .ok (d.spotAt place)
  named : endsInName path = true
  no_slash : Path.endsInSlash path = false
  plain : d.IsPlain place

def IsStageable (d : Disk) (path ticket : String) : Prop :=
  ∃ free, d.spot (stagingPath path ticket) = .ok (.free free)

instance (d : Disk) (path ticket : String) : Decidable (IsStageable d path ticket) :=
  match hspot : d.spot (stagingPath path ticket) with
  | .ok (.free free) => isTrue ⟨free, hspot⟩
  | .ok (.taken _ _) => isFalse fun ⟨_, hfree⟩ => nomatch hspot.symm.trans hfree
  | .error _ => isFalse fun ⟨_, hfree⟩ => nomatch hspot.symm.trans hfree

variable {d e : Disk} {path ticket : String} {place : Location} {s : Snapshot} {s? : Option Snapshot}

theorem site_of_free (huse : isUseable d path = true) (hfree : d.spot path = .ok (.free place)) :
    Site path place d := by
  have hnone := node?_of_free hfree
  refine ⟨huse, ?_, endsInName_of_free hfree, endsInSlash_of_free hfree, .inl hnone⟩
  rw [spotAt_of_none hnone, hfree]

namespace Site

theorem placeOf_eq (h : Site path place d) : d.placeOf path = place := by
  rw [← (spot_eq_ok h.spot).1, spotAt_place]

theorem of_keeps (h : Site path place d) (hhome : e.home = d.home) (hkeeps : d.Keeps e) (hplain : e.IsPlain place)
    (hstays : d.node? place = none ∨ ∃ n, e.node? place = some n) : Site path place e := by
  refine ⟨?_, ?_, h.named, h.no_slash, hplain⟩
  · have huse := h.useable
    rw [isUseable, Bool.and_eq_true] at huse ⊢
    exact ⟨huse.1, isDirectory_of_keeps hhome hkeeps huse.2⟩
  · have hkept := spot_of_keeps hhome hkeeps h.spot
    rw [spotAt_place] at hkept
    refine hkept (hstays.imp_left fun hnone => ?_)
    rw [spotAt_of_none hnone]

theorem isFile_eq (h : Site path place d) : d.isFile path = (d.node? place).isSome := by
  rw [isFile, node, h.spot]
  obtain hnone | ⟨content, modified, hfile⟩ := h.plain
  · rw [spotAt_of_none hnone, hnone]
    rfl
  · rw [spotAt_of_node hfile, hfile]
    rfl

theorem read_eq (h : Site path place d) (hdocument : Snapshot.Documented s? (d.node? place)) :
    FileCache.read d path = s?.elim (.error .empty) .ok := by
  rw [FileCache.read, h.isFile_eq]
  generalize hnode : d.node? place = n? at hdocument
  cases hdocument with
  | absent => rfl
  | present hdecode =>
      have hspot := h.spot
      rw [spotAt_of_node hnode] at hspot
      simp [read_of_file hspot, hdecode]

theorem moveTarget_eq (h : Site path place d) : d.moveTarget path = .ok place := by
  rw [moveTarget, h.named, h.no_slash, h.spot]
  obtain hnone | ⟨content, modified, hfile⟩ := h.plain
  · rw [spotAt_of_none hnone]
    rfl
  · rw [spotAt_of_node hfile]
    rfl

theorem write_eq (h : Site path place d) (hstage : IsStageable d path ticket) (hs : s.modified.Storable) :
    ∃ content e, FileCache.write d path ticket s = (.ok (), e) ∧ Snapshot.decode? content = some s ∧
      d.Replaced place (some (.file content d.now)) e := by
  obtain ⟨free, hfree⟩ := hstage
  obtain ⟨content, hencode, hdecode⟩ := Snapshot.exists_document hs
  have hplain : d.node? free ≠ some .directory := by simp [node?_of_free hfree]
  have hreplaced := replaced_put hplain (.file content d.now)
  -- should the staging file lie in the place of the document, the move would only put it there again
  have hstaged : Site path place (d.put free (.file content d.now)) := by
    refine h.of_keeps hreplaced.home hreplaced.keeps ?_ ?_
    · rw [IsPlain, hreplaced.node?]
      split_ifs
      · exact .inr ⟨_, _, rfl⟩
      · exact h.plain
    · rw [hreplaced.node?]
      split_ifs
      · exact .inr ⟨_, rfl⟩
      · obtain hnone | ⟨old, modified, hfile⟩ := h.plain
        · exact .inl hnone
        · exact .inr ⟨_, hfile⟩
  have hgoal := hstaged.moveTarget_eq
  have hmove := replaced_of_move hfree _ hgoal
  rw [h.placeOf_eq] at hmove
  refine ⟨content, _, ?_, hdecode, hmove⟩
  rw [write_of_free h.useable hfree, hencode]
  dsimp only
  rw [hgoal]

theorem clear_eq (h : Site path place d) : ∃ e, clear d path = (.ok (), e) ∧ d.Replaced place none e := by
  rw [clear, remove, h.spot]
  obtain hnone | ⟨content, modified, hfile⟩ := h.plain
  · rw [spotAt_of_none hnone]
    exact ⟨d, rfl, replaced_self hnone⟩
  · rw [spotAt_of_node hfile]
    exact ⟨_, rfl, replaced_erase h.plain.not_directory⟩

end Site
end FileCache
end Signpost
