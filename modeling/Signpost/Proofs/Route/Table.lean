import Signpost.Route.Table

namespace Signpost

namespace Table

variable {q : Request} {m : Match} {n : Nat} {rs : List Route}

theorem findFrom_eq_some_iff : findFrom q n rs = some m ↔
    ∃ before after, rs = before ++ m.route :: after ∧ m.index = n + before.length ∧
      m.route.captures q = some m.captures ∧ ∀ r ∈ before, r.captures q = none := by
  induction rs generalizing n with
  | nil => simp [findFrom]
  | cons r rs ih =>
      rw [findFrom]
      cases hr : r.captures q with
      | some captures =>
          constructor
          · rintro ⟨⟩
            exact ⟨[], rs, rfl, rfl, hr, nofun⟩
          · rintro ⟨before, after, hrs, hindex, hcaptures, hbefore⟩
            cases before with
            | nil =>
                obtain ⟨rfl, -⟩ := List.cons.inj hrs
                obtain rfl := Option.some.inj (hr.symm.trans hcaptures)
                rw [← Nat.add_zero n, ← List.length_nil (α := Route), ← hindex]
            | cons r' before =>
                obtain ⟨rfl, -⟩ := List.cons.inj hrs
                have hnone := hbefore r List.mem_cons_self
                rw [hr] at hnone
                cases hnone
      | none =>
          simp only [ih]
          constructor
          · rintro ⟨before, after, rfl, hindex, hcaptures, hbefore⟩
            refine ⟨r :: before, after, rfl, ?_, hcaptures, List.forall_mem_cons.2 ⟨hr, hbefore⟩⟩
            rw [hindex, List.length_cons]
            omega
          · rintro ⟨before, after, hrs, hindex, hcaptures, hbefore⟩
            cases before with
            | nil =>
                obtain ⟨rfl, -⟩ := List.cons.inj hrs
                rw [hr] at hcaptures
                cases hcaptures
            | cons r' before =>
                obtain ⟨-, rfl⟩ := List.cons.inj hrs
                rw [List.length_cons] at hindex
                exact ⟨before, after, rfl, by omega, hcaptures, (List.forall_mem_cons.1 hbefore).2⟩

theorem findFrom_eq_none_iff : findFrom q n rs = none ↔ ∀ r ∈ rs, r.captures q = none := by
  induction rs generalizing n with
  | nil => simp [findFrom]
  | cons r rs ih =>
      rw [findFrom, List.forall_mem_cons]
      cases hr : r.captures q with
      | some captures => simp
      | none => rw [ih, and_iff_right rfl]

theorem findFrom_append (before after : List Route) :
    findFrom q n (before ++ after) = (findFrom q n before).or (findFrom q (n + before.length) after) := by
  induction before generalizing n with
  | nil => rfl
  | cons r before ih =>
      have hplace : n + 1 + before.length = n + (r :: before).length := by
        rw [List.length_cons]
        omega
      rw [List.cons_append, findFrom, findFrom, ih, hplace]
      cases r.captures q <;> rfl

end Table

def Match.later (m : Match) (k : Nat) : Match :=
  { m with index := m.index + k }

namespace Table

theorem findFrom_later (k : Nat) : findFrom q (n + k) rs = (findFrom q n rs).map (·.later k) := by
  induction rs generalizing n with
  | nil => rfl
  | cons r rs ih =>
      rw [findFrom, findFrom, Nat.add_right_comm, ih]
      cases r.captures q <;> rfl

theorem find?_eq_some {t : Table} (h : t.find? q = some m) :
    m.route ∈ t.routes ∧ m.route.captures q = some m.captures := by
  obtain ⟨before, after, hroutes, -, hcaptures, -⟩ := findFrom_eq_some_iff.1 h
  exact ⟨by simp [hroutes], hcaptures⟩

end Table

theorem Route.captures_eq_some_iff {r : Route} {q : Request} {vs : List String} :
    r.captures q = some vs ↔ r.verb.accepts q.method = true ∧ r.pattern.captures q.uri = some vs := by
  rw [Route.captures]
  split
  · simp [*]
  · simp [*]

end Signpost
