namespace Signpost

variable {κ υ : Type} [BEq κ] [LawfulBEq κ]

theorem lookup_cons [DecidableEq κ] (k j : κ) (v : υ) (entries : List (κ × υ)) :
    ((k, v) :: entries).lookup j = if j = k then some v else entries.lookup j := by
  by_cases h : j = k
  · subst h
    rw [List.lookup_cons_self, if_pos rfl]
  · rw [List.lookup_cons, beq_false_of_ne h, if_neg h]

theorem lookup_filter (p : κ → Bool) (entries : List (κ × υ)) (k : κ) :
    (entries.filter fun entry => p entry.1).lookup k = if p k then entries.lookup k else none := by
  induction entries with
  | nil => simp
  | cons entry entries ih =>
      obtain ⟨j, v⟩ := entry
      by_cases h : k = j
      · subst h
        cases hp : p k <;> simp [hp, ih]
      · have hne : (k == j) = false := beq_eq_false_iff_ne.2 h
        cases hp : p j <;> simp [List.lookup_cons, hp, hne, ih]

theorem lookup_of_not_mem {entries : List (κ × υ)} {k : κ} (h : ∀ v, (k, v) ∉ entries) : entries.lookup k = none := by
  apply List.lookup_eq_none_iff.2
  rintro ⟨j, v⟩ hmem
  rw [bne_iff_ne]
  rintro rfl
  exact h v hmem

/-- A key that occurs no more than once has the value that stands beside it. -/
theorem lookup_eq_some_iff_mem {entries : List (κ × υ)} {k : κ} {v : υ}
    (h : entries.countP (fun entry => entry.1 == k) ≤ 1) : entries.lookup k = some v ↔ (k, v) ∈ entries := by
  induction entries with
  | nil => simp
  | cons entry entries ih =>
      obtain ⟨j, u⟩ := entry
      rw [List.countP_cons] at h
      by_cases hj : j = k
      · subst hj
        have hrest : ∀ entry ∈ entries, ¬(entry.1 == j) = true := by
          apply List.countP_eq_zero.1
          simpa using h
        rw [List.lookup_cons_self, Option.some.injEq]
        constructor
        · rintro rfl
          exact List.mem_cons_self
        · intro hmem
          rcases List.mem_cons.1 hmem with heq | hmem
          · exact (Prod.mk.inj heq).2.symm
          · exact absurd (beq_self_eq_true j) (hrest _ hmem)
      · have hne : (k == j) = false := beq_eq_false_iff_ne.2 (Ne.symm hj)
        have hother : (k, v) ≠ (j, u) := fun heq => hj (Prod.mk.inj heq).1.symm
        rw [List.lookup_cons, hne]
        dsimp only
        rw [ih (Nat.le_trans (Nat.le_add_right _ _) h), List.mem_cons, or_iff_right hother]

end Signpost
