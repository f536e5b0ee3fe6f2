import Signpost.Proofs.Cache.Site

namespace Signpost

theorem Snapshot.isSome_encode?_iff (s : Snapshot) : s.encode?.isSome = true ↔ 0 ≤ s.modified.seconds := by
  rw [Option.isSome_iff_exists]
  simp only [encode?_eq_some_iff]
  constructor
  · rintro ⟨_, n, hn, -⟩
    omega
  · intro h
    obtain ⟨n, hn⟩ := Int.eq_ofNat_of_zero_le h
    exact ⟨_, n, hn, rfl⟩

namespace FileCache

open Disk

variable {d e : Disk} {path ticket : String} {s : Snapshot} {n : Node}

theorem spot_of_write (h : d.Replaced (d.placeOf path) (some n) e) (hgoal : ∃ goal, d.moveTarget path = .ok goal) :
    e.spot path = .ok (.taken (d.placeOf path) n) := by
  obtain ⟨goal, hgoal⟩ := hgoal
  obtain rfl := moveTarget_eq_ok hgoal
  obtain ⟨-, -, spot, hspot, hplace, -⟩ := moveTarget_eq_ok_iff.1 hgoal
  have hthere : e.node? (d.placeOf path) = some n := by rw [h.node?, if_pos rfl]
  have hkept := spot_of_keeps h.home h.keeps hspot (.inr ⟨n, by rw [hplace, hthere]⟩)
  rwa [hplace, spotAt_of_node hthere] at hkept

structure Writable (d : Disk) (path ticket : String) (s : Snapshot) : Prop where
  useable : isUseable d path = true
  stageable : IsStageable d path ticket
  since_epoch : 0 ≤ s.modified.seconds
  target : ∃ goal, d.moveTarget path = .ok goal

theorem write_eq_ok_iff (s : Snapshot) (hfresh : IsFresh d path ticket) :
    (write d path ticket s).1 = .ok () ↔ Writable d path ticket s := by
  cases huse : isUseable d path with
  | false =>
      obtain ⟨reason, hwrite⟩ := write_of_not_useable huse ticket s
      rw [hwrite]
      exact ⟨nofun, fun h => absurd (huse.symm.trans h.useable) Bool.false_ne_true⟩
  | true =>
      by_cases hstage : IsStageable d path ticket
      case neg =>
        obtain ⟨cause, hwrite⟩ := write_of_not_free hfresh (not_exists.1 hstage) s
        rw [hwrite]
        exact ⟨nofun, fun h => absurd h.stageable hstage⟩
      obtain ⟨place, hfree⟩ := hstage
      rw [write_of_free huse hfree]
      have hepoch := s.isSome_encode?_iff
      cases hencode : s.encode? with
      | none =>
          rw [hencode] at hepoch
          exact ⟨nofun, fun h => absurd (hepoch.2 h.since_epoch) Bool.false_ne_true⟩
      | some content =>
          rw [hencode] at hepoch
          have hplain : d.node? place ≠ some .directory := by simp [node?_of_free hfree]
          have htarget : (∃ goal, (d.put place (.file content d.now)).moveTarget path = .ok goal) ↔
              ∃ goal, d.moveTarget path = .ok goal :=
            (replaced_put hplain (.file content d.now)).exists_moveTarget_iff (node?_of_free hfree) (by simp)
          dsimp only
          cases hgoal : (d.put place (.file content d.now)).moveTarget path with
          | error cause =>
              refine ⟨nofun, fun h => ?_⟩
              obtain ⟨goal, hgoal'⟩ := htarget.2 h.target
              rw [hgoal] at hgoal'
              cases hgoal'
          | ok goal => exact ⟨fun _ => ⟨huse, ⟨place, hfree⟩, hepoch.1 rfl, htarget.1 ⟨goal, hgoal⟩⟩, fun _ => rfl⟩

theorem write_eq_ok (hfresh : IsFresh d path ticket) (h : (write d path ticket s).1 = .ok ()) :
    ∃ content, s.encode? = some content ∧ (write d path ticket s).2.read path = .ok content ∧
      d.Replaced (d.placeOf path) (some (.file content d.now)) (write d path ticket s).2 := by
  have htarget := ((write_eq_ok_iff s hfresh).1 h).target
  obtain ⟨cause, hwrite⟩ | ⟨content, e, hencode, hwrite, hreplaced⟩ := write_cases s hfresh
  · rw [hwrite] at h
    cases h
  · rw [hwrite]
    exact ⟨content, hencode, read_of_file (spot_of_write hreplaced htarget), hreplaced⟩

/-- A write succeeds exactly where nothing stands in its way. Then the whole document lies in its place and nothing
else has changed; otherwise the disk is as it was, without a staging file. -/
theorem write_all_or_nothing (s : Snapshot) (hfresh : IsFresh d path ticket) :
    ((write d path ticket s).1 = .ok () ↔ Writable d path ticket s) ∧
    ((write d path ticket s).1 = .ok () → ∃ content, s.encode? = some content ∧
      (write d path ticket s).2.read path = .ok content ∧
      d.Replaced (d.placeOf path) (some (.file content d.now)) (write d path ticket s).2) ∧
    ∀ cause, (write d path ticket s).1 = .error cause →
      (write d path ticket s).2 = d ∧ IsFresh (write d path ticket s).2 path ticket := by
  refine ⟨write_eq_ok_iff s hfresh, write_eq_ok hfresh, fun cause hcause => ?_⟩
  obtain ⟨cause, hwrite⟩ | ⟨content, e, -, hwrite, -⟩ := write_cases s hfresh
  · rw [hwrite]
    exact ⟨rfl, hfresh⟩
  · rw [hwrite] at hcause
    cases hcause

def shelf : Disk :=
  (Disk.fresh default).put ["tmp", "work", "c.json"] (.file .empty default)

/-- The document is replaced; a directory is not. -/
theorem write_all_or_nothing_shelf :
    let s : Snapshot := ⟨.carry 5 0, []⟩
    IsFresh shelf "c.json" "t" ∧ IsFresh shelf "/tmp" "t" ∧ (write shelf "c.json" "t" s).1 = .ok () ∧
      (∃ content, s.encode? = some content ∧ (write shelf "c.json" "t" s).2.read "c.json" = .ok content) ∧
      (write shelf "/tmp" "t" s).1 = .error (.io .isADirectory) ∧ (write shelf "/tmp" "t" s).2 = shelf := by
  intro s
  have hfresh : IsFresh shelf "c.json" "t" := isFresh_of_free rfl
  have hfresh' : IsFresh shelf "/tmp" "t" := isFresh_of_free rfl
  obtain ⟨hiff, hall, -⟩ := write_all_or_nothing s hfresh
  have hwritable : Writable shelf "c.json" "t" s := ⟨rfl, ⟨_, rfl⟩, by decide, ⟨_, rfl⟩⟩
  obtain ⟨content, hencode, hread, -⟩ := hall (hiff.2 hwritable)
  have hrefused : (write shelf "/tmp" "t" s).1 = .error (.io .isADirectory) := rfl
  have hkept := ((write_all_or_nothing s hfresh').2.2 _ hrefused).1
  exact ⟨hfresh, hfresh', hiff.2 hwritable, ⟨content, hencode, hread⟩, hrefused, hkept⟩

end FileCache
end Signpost
