import Mathlib.Data.List.TakeWhile
import Signpost.Text.Blank
import Signpost.Text.Split

namespace Signpost.Text

variable {p : Char → Bool}

theorem split_eq_splitOnP (p : Char → Bool) (s : List Char) : split p s = s.splitOnP p := by
  induction s with
  | nil => simp [split]
  | cons c s ih =>
      rw [split, List.splitOnP_cons_eq_if_modifyHead, ← ih]
      split
      · rfl
      · cases h : split p s with
        | nil => exact absurd h (split_ne_nil p s)
        | cons piece pieces => rfl

theorem unmarked_of_mem_split {s piece : List Char} (h : piece ∈ split p s) : ∀ c ∈ piece, p c = false := by
  induction s generalizing piece with
  | nil =>
      rw [split, List.mem_singleton] at h
      simp [h]
  | cons c s ih =>
      rw [split] at h
      split at h
      · rcases List.mem_cons.1 h with rfl | h
        · simp
        · exact ih h
      · rename_i hc
        cases hs : split p s with
        | nil => exact absurd hs (split_ne_nil p s)
        | cons first pieces =>
            simp only [hs, List.mem_cons, forall_eq_or_imp] at h ih
            rcases h with rfl | h
            · exact List.forall_mem_cons.2 ⟨by simpa using hc, ih.1⟩
            · exact ih.2 piece h

/-- Splitting at a character undoes joining with it, for pieces that are without it. -/
theorem split_eq_iff {d : Char} {s : List Char} {pieces : List (List Char)} :
    split (· == d) s = pieces ↔ pieces ≠ [] ∧ (∀ piece ∈ pieces, d ∉ piece) ∧ s = [d].intercalate pieces := by
  constructor
  · rintro rfl
    refine ⟨split_ne_nil _ s, fun piece hpiece hd => ?_, ?_⟩
    · simpa using unmarked_of_mem_split hpiece d hd
    · rw [split_eq_splitOnP, ← List.splitOn_eq_splitOnP, List.intercalate_splitOn]
  · rintro ⟨hne, hpieces, rfl⟩
    rw [split_eq_splitOnP, ← List.splitOn_eq_splitOnP, List.splitOn_intercalate d hpieces hne]

theorem subset_intercalate {d : Char} {piece : List Char} {pieces : List (List Char)} (h : piece ∈ pieces) :
    piece ⊆ [d].intercalate pieces := by
  induction pieces with
  | nil => cases h
  | cons first pieces ih =>
      cases pieces with
      | nil =>
          obtain rfl := List.mem_singleton.1 h
          simp
      | cons next pieces =>
          rw [List.intercalate_cons_cons, List.append_assoc]
          rcases List.mem_cons.1 h with rfl | h
          · exact List.subset_append_left ..
          · exact fun c hc => List.mem_append_right _ (List.mem_append_right _ (ih h hc))

theorem runs_of_unmarked {w : List Char} (hw : w ≠ []) (h : ∀ c ∈ w, p c = false) : runs p w = [w] := by
  rw [runs, split_eq_splitOnP, List.splitOnP_eq_singleton h]
  simp [hw]

/-- Everything else about runs follows from how they end at a marked character. -/
theorem runs_append_cons (s t : List Char) {c : Char} (hc : p c = true) :
    runs p (s ++ c :: t) = runs p s ++ runs p t := by
  rw [runs, split_eq_splitOnP, List.splitOnP_append_cons s t hc, List.filter_append, ← split_eq_splitOnP,
    ← split_eq_splitOnP]
  rfl

theorem runs_append_of_marked {gap : List Char} (h : ∀ c ∈ gap, p c = true) (s : List Char) :
    runs p (gap ++ s) = runs p s := by
  induction gap with
  | nil => rfl
  | cons c gap ih =>
      rw [List.forall_mem_cons] at h
      have hc := runs_append_cons [] (gap ++ s) h.1
      rw [List.nil_append, ih h.2] at hc
      simpa [runs, split] using hc

theorem runs_cons_of_unmarked {w gap : List Char} (hw : w ≠ []) (h : ∀ c ∈ w, p c = false) (hgap : gap ≠ [])
    (hg : ∀ c ∈ gap, p c = true) (s : List Char) : runs p (w ++ gap ++ s) = w :: runs p s := by
  obtain ⟨c, gap, rfl⟩ := List.exists_cons_of_ne_nil hgap
  rw [List.forall_mem_cons] at hg
  rw [List.append_assoc, List.cons_append, runs_append_cons _ _ hg.1, runs_of_unmarked hw h,
    runs_append_of_marked hg.2]
  rfl

theorem head_dropWhile (q : Char → Bool) (s : List Char) : ∀ c ∈ (s.dropWhile q).head?, q c = false := by
  intro c hc
  have h := List.head?_dropWhile_not q s
  rw [Option.mem_def.1 hc] at h
  simpa using h

/-- The longest marked front of a text, and what follows it. -/
theorem exists_front (q : Char → Bool) (s : List Char) :
    ∃ front rest, s = front ++ rest ∧ (∀ c ∈ front, q c = true) ∧ ∀ c ∈ rest.head?, q c = false := by
  refine ⟨s.takeWhile q, s.dropWhile q, List.takeWhile_append_dropWhile.symm, fun c hc => ?_, fun c hc => ?_⟩
  · exact List.mem_takeWhile_imp hc
  · exact head_dropWhile q s c hc

/-- A run ends where the text ends or at a marked character. -/
theorem runs_gap_append {gap w rest : List Char} (hgap : ∀ c ∈ gap, p c = true) (hne : w ≠ [])
    (hw : ∀ c ∈ w, p c = false) (hrest : ∀ c ∈ rest.head?, p c = true) :
    runs p (gap ++ w ++ rest) = w :: runs p rest := by
  rw [List.append_assoc, runs_append_of_marked hgap]
  cases rest with
  | nil =>
      rw [List.append_nil, runs_of_unmarked hne hw]
      rfl
  | cons c rest =>
      have hc : ∀ d ∈ [c], p d = true := by simpa using hrest c rfl
      have hmid := runs_append_of_marked hc rest
      have hcons := runs_cons_of_unmarked hne hw (List.cons_ne_nil c []) hc rest
      rw [List.append_assoc, List.singleton_append] at hcons
      rw [hcons, ← hmid, List.singleton_append]

/-- A text has nothing but marked characters, or it has a first run. -/
theorem runs_cases (p : Char → Bool) (s : List Char) :
    ((∀ c ∈ s, p c = true) ∧ runs p s = []) ∨
      ∃ gap w rest, s = gap ++ w ++ rest ∧ (∀ c ∈ gap, p c = true) ∧ w ≠ [] ∧ (∀ c ∈ w, p c = false) ∧
        (∀ c ∈ rest.head?, p c = true) ∧ runs p s = w :: runs p rest := by
  obtain ⟨gap, s, rfl, hgap, hs⟩ := exists_front p s
  obtain ⟨w, rest, rfl, hw, hrest⟩ := exists_front (fun c => !p c) s
  replace hw : ∀ c ∈ w, p c = false := fun c hc => by simpa using hw c hc
  replace hrest : ∀ c ∈ rest.head?, p c = true := fun c hc => by simpa using hrest c hc
  cases w with
  | nil =>
      cases rest with
      | nil =>
          rw [runs_append_of_marked hgap]
          exact .inl ⟨by simpa using hgap, rfl⟩
      | cons c rest => exact absurd (hrest c rfl) (by simp [hs c rfl])
  | cons d w =>
      have hne := List.cons_ne_nil d w
      have hruns := runs_gap_append hgap hne hw hrest
      rw [← List.append_assoc]
      exact .inr ⟨gap, d :: w, rest, rfl, hgap, hne, hw, hrest, hruns⟩

theorem forall_marked_of_runs_eq_nil {s : List Char} (h : runs p s = []) : ∀ c ∈ s, p c = true := by
  rcases runs_cases p s with ⟨hs, -⟩ | ⟨gap, w, rest, -, -, -, -, -, hruns⟩
  · exact hs
  · rw [h] at hruns
    cases hruns

theorem exists_of_runs_eq_cons {s w : List Char} {ws : List (List Char)} (h : runs p s = w :: ws) :
    ∃ gap rest, s = gap ++ w ++ rest ∧ (∀ c ∈ gap, p c = true) ∧ w ≠ [] ∧ (∀ c ∈ w, p c = false) ∧
      (∀ c ∈ rest.head?, p c = true) ∧ runs p rest = ws := by
  rcases runs_cases p s with ⟨-, hruns⟩ | ⟨gap, w', rest, hs, hgap, hne, hw, hrest, hruns⟩
  · rw [h] at hruns
    cases hruns
  · rw [h] at hruns
    cases hruns
    exact ⟨gap, rest, hs, hgap, hne, hw, hrest, rfl⟩

/-- A run that is not the first has a gap in front. -/
theorem gap_ne_nil {gap w rest : List Char} (hhead : ∀ c ∈ (gap ++ w ++ rest).head?, p c = true) (hne : w ≠ [])
    (hw : ∀ c ∈ w, p c = false) : gap ≠ [] := by
  rintro rfl
  obtain ⟨c, w, rfl⟩ := List.exists_cons_of_ne_nil hne
  have hc := hhead c rfl
  rw [hw c List.mem_cons_self] at hc
  cases hc

/-- Three runs in a text with no marked character at its ends. -/
theorem runs_eq_three_iff {s m u t : List Char} (hhead : ∀ c ∈ s.head?, p c = false)
    (hlast : ∀ c ∈ s.getLast?, p c = false) :
    runs p s = [m, u, t] ↔
      ∃ gap gap', s = m ++ gap ++ u ++ gap' ++ t ∧ (gap ≠ [] ∧ ∀ c ∈ gap, p c = true) ∧
        (gap' ≠ [] ∧ ∀ c ∈ gap', p c = true) ∧ (m ≠ [] ∧ ∀ c ∈ m, p c = false) ∧
        (u ≠ [] ∧ ∀ c ∈ u, p c = false) ∧ (t ≠ [] ∧ ∀ c ∈ t, p c = false) := by
  constructor
  · intro h
    obtain ⟨lead, s, rfl, hlead, hm, hmc, hs, h⟩ := exists_of_runs_eq_cons h
    obtain ⟨gap, s, rfl, hgap, hu, huc, hs', h⟩ := exists_of_runs_eq_cons h
    obtain ⟨gap', trail, rfl, hgap', ht, htc, -, h⟩ := exists_of_runs_eq_cons h
    have htrail := forall_marked_of_runs_eq_nil h
    have hlead' : lead = [] := by
      cases lead with
      | nil => rfl
      | cons c lead => exact absurd (hlead c List.mem_cons_self) (by simp [hhead c rfl])
    have htrail' : trail = [] := by
      rcases List.eq_nil_or_concat trail with rfl | ⟨trail, c, rfl⟩
      · rfl
      · exact absurd (htrail c (by simp)) (by simp [hlast c (by simp)])
    subst hlead' htrail'
    refine ⟨gap, gap', by simp, ⟨gap_ne_nil hs hu huc, hgap⟩, ⟨gap_ne_nil hs' ht htc, hgap'⟩, ⟨hm, hmc⟩, ⟨hu, huc⟩,
      ⟨ht, htc⟩⟩
  · rintro ⟨gap, gap', rfl, ⟨hgap, hgapc⟩, ⟨hgap', hgapc'⟩, ⟨hm, hmc⟩, ⟨hu, huc⟩, ⟨ht, htc⟩⟩
    have h := runs_cons_of_unmarked hm hmc hgap hgapc (u ++ gap' ++ t)
    rw [runs_cons_of_unmarked hu huc hgap' hgapc' t, runs_of_unmarked ht htc] at h
    simpa using h

theorem cut_of_unmarked {s : List Char} (h : ∀ c ∈ s, p c = false) : cut p s = (s, none) := by
  induction s with
  | nil => rfl
  | cons c s ih =>
      rw [List.forall_mem_cons] at h
      rw [cut, ih h.2, h.1]
      rfl

theorem cut_append_cons {s : List Char} (h : ∀ c ∈ s, p c = false) {c : Char} (hc : p c = true) (t : List Char) :
    cut p (s ++ c :: t) = (s, some t) := by
  induction s with
  | nil => simp [cut, hc]
  | cons d s ih =>
      rw [List.forall_mem_cons] at h
      rw [List.cons_append, cut, ih h.2, h.1]
      rfl

theorem cut_fst (p : Char → Bool) (s : List Char) : (cut p s).1 = s.takeWhile fun c => !p c := by
  induction s with
  | nil => rfl
  | cons c s ih =>
      rw [cut, List.takeWhile_cons]
      cases p c with
      | true => rfl
      | false => simp [ih]

theorem dropWhile_of_head {q : Char → Bool} {s : List Char} (h : ∀ c ∈ s.head?, q c = false) :
    s.dropWhile q = s := by
  cases s with
  | nil => rfl
  | cons c s => simp [h c rfl]

/-- What trimming takes away are blank characters at both ends. -/
theorem exists_eq_append_trim (s : List Char) :
    ∃ lead trail, s = lead ++ trim s ++ trail ∧ (∀ c ∈ lead, isBlank c = true) ∧ ∀ c ∈ trail, isBlank c = true := by
  refine ⟨s.takeWhile isBlank, ((s.dropWhile isBlank).reverse.takeWhile isBlank).reverse, ?_, ?_, ?_⟩
  · rw [trim, trimEnd, List.append_assoc, ← List.reverse_append, List.takeWhile_append_dropWhile, List.reverse_reverse,
      List.takeWhile_append_dropWhile]
  · exact fun c hc => List.mem_takeWhile_imp hc
  · exact fun c hc => List.mem_takeWhile_imp (List.mem_reverse.1 hc)

theorem trim_cons {c : Char} (hc : isBlank c = false) (s : List Char) : ∃ rest, trim (c :: s) = c :: rest := by
  obtain ⟨lead, trail, hs, hlead, htrail⟩ := exists_eq_append_trim (c :: s)
  cases lead with
  | cons d lead =>
      rw [List.cons_append, List.cons_append, List.cons.injEq] at hs
      rw [hs.1, hlead d List.mem_cons_self] at hc
      cases hc
  | nil =>
      rw [List.nil_append] at hs
      cases htrim : trim (c :: s) with
      | nil =>
          rw [htrim, List.nil_append] at hs
          rw [htrail c (hs ▸ List.mem_cons_self)] at hc
          cases hc
      | cons d rest =>
          rw [htrim, List.cons_append, List.cons.injEq] at hs
          exact ⟨rest, by rw [hs.1]⟩

theorem last_trim (s : List Char) : ∀ c ∈ (trim s).getLast?, isBlank c = false := by
  rw [trim, trimEnd, List.getLast?_reverse]
  exact head_dropWhile isBlank _

theorem head_trim (s : List Char) : ∀ c ∈ (trim s).head?, isBlank c = false := by
  intro c hc
  have hfront : (s.dropWhile isBlank) =
      trim s ++ ((s.dropWhile isBlank).reverse.takeWhile isBlank).reverse := by
    rw [trim, trimEnd, ← List.reverse_append, List.takeWhile_append_dropWhile, List.reverse_reverse]
  refine head_dropWhile isBlank s c ?_
  rw [hfront, List.head?_append, Option.mem_def.1 hc]
  rfl

theorem trim_append {lead s trail : List Char} (hlead : ∀ c ∈ lead, isBlank c = true)
    (htrail : ∀ c ∈ trail, isBlank c = true) (hhead : ∀ c ∈ s.head?, isBlank c = false)
    (hlast : ∀ c ∈ s.getLast?, isBlank c = false) (hne : s ≠ []) : trim (lead ++ s ++ trail) = s := by
  have hfront : ∀ c ∈ (s ++ trail).head?, isBlank c = false := by
    obtain ⟨c, s, rfl⟩ := List.exists_cons_of_ne_nil hne
    exact hhead
  have hback : ∀ c ∈ s.reverse.head?, isBlank c = false := by rwa [List.head?_reverse]
  rw [trim, List.append_assoc, List.dropWhile_append_of_pos hlead, dropWhile_of_head hfront, trimEnd,
    List.reverse_append, List.dropWhile_append_of_pos (by simpa using htrail), dropWhile_of_head hback,
    List.reverse_reverse]

structure IsCore (t s : List Char) : Prop where
  ends : ∃ lead trail, s = lead ++ t ++ trail ∧ (∀ c ∈ lead, isBlank c = true) ∧ ∀ c ∈ trail, isBlank c = true
  head : ∀ c ∈ t.head?, isBlank c = false
  last : ∀ c ∈ t.getLast?, isBlank c = false

theorem trim_of_blank {s : List Char} (h : ∀ c ∈ s, isBlank c = true) : trim s = [] := by
  have hfront : s.dropWhile isBlank = [] := List.dropWhile_eq_nil_iff.2 h
  rw [trim, hfront]
  rfl

theorem trim_eq_iff {s t : List Char} : trim s = t ↔ IsCore t s := by
  constructor
  · rintro rfl
    exact ⟨exists_eq_append_trim s, head_trim s, last_trim s⟩
  · rintro ⟨⟨lead, trail, rfl, hlead, htrail⟩, hhead, hlast⟩
    by_cases hne : t = []
    · subst hne
      refine trim_of_blank fun c hc => ?_
      rw [List.append_nil] at hc
      exact (List.mem_append.1 hc).elim (hlead c) (htrail c)
    · exact trim_append hlead htrail hhead hlast hne

theorem trim_trim (s : List Char) : trim (trim s) = trim s :=
  trim_eq_iff.2 ⟨⟨[], [], by simp, by simp, by simp⟩, head_trim s, last_trim s⟩

theorem trim_append_of_blank {trail : List Char} (h : ∀ c ∈ trail, isBlank c = true) (s : List Char) :
    trim (s ++ trail) = trim s := by
  obtain ⟨⟨lead, trail', hs, hlead, htrail⟩, hhead, hlast⟩ := trim_eq_iff.1 (rfl : trim s = trim s)
  refine trim_eq_iff.2 ⟨⟨lead, trail' ++ trail, ?_, hlead, ?_⟩, hhead, hlast⟩
  · rw [← List.append_assoc, ← hs]
  · exact fun c hc => (List.mem_append.1 hc).elim (htrail c) (h c)

def Blank (s : List Char) : Prop :=
  ∀ c ∈ s, isBlank c = true

instance (s : List Char) : Decidable (Blank s) :=
  decidable_of_iff (s.all isBlank = true) List.all_eq_true

def Wraps (p q : Char → Bool) (field s : List Char) : Prop :=
  ∃ front back, s = front ++ field ++ back ∧ (∀ c ∈ front, p c = true) ∧ ∀ c ∈ back, q c = true

theorem Wraps.mono {p q p' q' : Char → Bool} {field s : List Char} (h : Wraps p q field s)
    (hp : ∀ c, p c = true → p' c = true) (hq : ∀ c, q c = true → q' c = true) : Wraps p' q' field s := by
  obtain ⟨front, back, hs, hfront, hback⟩ := h
  exact ⟨front, back, hs, fun c hc => hp c (hfront c hc), fun c hc => hq c (hback c hc)⟩

theorem trim_ne_nil {s : List Char} (h : ¬Blank s) : trim s ≠ [] := by
  intro htrim
  obtain ⟨lead, trail, hs, hlead, htrail⟩ := exists_eq_append_trim s
  rw [htrim, List.append_nil] at hs
  refine h fun c hc => ?_
  rw [hs, List.mem_append] at hc
  exact hc.elim (hlead c) (htrail c)

theorem not_blank_trim {s : List Char} (h : ¬Blank s) : ¬Blank (trim s) := by
  intro hblank
  have htrim := trim_of_blank hblank
  rw [trim_trim] at htrim
  exact trim_ne_nil h htrim

/-- Of two texts with something between them only the outer ends are trimmed. -/
theorem trim_between {lead s mid t trail : List Char} (hlead : Blank lead) (htrail : Blank trail) (hs : s ≠ [])
    (ht : t ≠ []) (hhead : ∀ c ∈ s.head?, isBlank c = false) (hlast : ∀ c ∈ t.getLast?, isBlank c = false) :
    trim (lead ++ (s ++ mid ++ t) ++ trail) = s ++ mid ++ t := by
  refine trim_append hlead htrail ?_ ?_ (by simp [hs])
  · obtain ⟨c, s, rfl⟩ := List.exists_cons_of_ne_nil hs
    exact hhead
  · have hfound := List.getLast?_eq_some_getLast ht
    rw [List.getLast?_append, hfound]
    rwa [hfound] at hlast

end Signpost.Text
