import Signpost.Proofs.Route.Printing

namespace Signpost

variable {r r' : Route} {ns ns' : String} {s stem : List Char}

namespace Target

structure IsStem (ns : String) (stem : List Char) : Prop where
  pairs : ∃ k, ns.toList = stem ++ List.replicate (2 * k) ':'
  bare : ¬"::".toList <:+ stem

theorem replicate_pair (k : Nat) :
    List.replicate (2 * (k + 1)) ':' = ':' :: ':' :: List.replicate (2 * k) ':' := by
  rw [Nat.mul_succ, List.replicate_succ, List.replicate_succ]

theorem dropColonPairs_replicate (k : Nat) (h : ¬"::".toList <+: s) :
    dropColonPairs (List.replicate (2 * k) ':' ++ s) = s := by
  induction k with
  | zero =>
      apply dropColonPairs.eq_2
      rintro t rfl
      apply h
      exact ⟨t, rfl⟩
  | succ k ih =>
      rw [replicate_pair]
      exact ih

/-- Of an odd run of colons one is left. -/
theorem exists_dropColonPairs (s : List Char) :
    (∃ k, s = List.replicate (2 * k) ':' ++ dropColonPairs s) ∧ ¬"::".toList <+: dropColonPairs s := by
  fun_induction dropColonPairs s with
  | case1 s ih =>
      obtain ⟨⟨k, hk⟩, hbare⟩ := ih
      refine ⟨⟨k + 1, ?_⟩, hbare⟩
      rw [replicate_pair, List.cons_append, List.cons_append, ← hk]
  | case2 s hs =>
      refine ⟨⟨0, rfl⟩, ?_⟩
      rintro ⟨t, rfl⟩
      exact hs t rfl

theorem isStem_trimNamespace (ns : String) : IsStem ns (trimNamespace ns) := by
  obtain ⟨⟨k, hk⟩, hbare⟩ := exists_dropColonPairs ns.toList.reverse
  constructor
  · refine ⟨k, ?_⟩
    rw [trimNamespace, ← List.reverse_replicate, ← List.reverse_append, ← hk, List.reverse_reverse]
  · intro hsuffix
    apply hbare
    rw [← List.reverse_suffix]
    exact hsuffix

theorem IsStem.trimNamespace_eq (h : IsStem ns stem) : trimNamespace ns = stem := by
  obtain ⟨⟨k, hk⟩, hbare⟩ := h
  have hreverse : ¬"::".toList <+: stem.reverse := by
    intro hprefix
    apply hbare
    rw [← List.reverse_prefix]
    exact hprefix
  rw [trimNamespace, hk, List.reverse_append, List.reverse_replicate, dropColonPairs_replicate k hreverse,
    List.reverse_reverse]

theorem trimNamespace_append (ns : String) (k : Nat) :
    trimNamespace (ns ++ String.ofList (List.replicate (2 * k) ':')) = trimNamespace ns := by
  obtain ⟨⟨j, hj⟩, hbare⟩ := isStem_trimNamespace ns
  apply IsStem.trimNamespace_eq
  refine ⟨⟨j + k, ?_⟩, hbare⟩
  rw [String.toList_append, String.toList_ofList, hj, List.append_assoc,
    List.replicate_append_replicate, Nat.mul_add]

theorem qualified_of_nil (t : Target) (h : trimNamespace ns = []) : t.qualified ns = t.controller := by
  rw [qualified, h]

theorem toList_qualified (t : Target) (h : trimNamespace ns ≠ []) :
    (t.qualified ns).toList = trimNamespace ns ++ ':' :: ':' :: t.controller.toList := by
  have hmatch : t.qualified ns = String.ofList (trimNamespace ns) ++ "::" ++ t.controller := by
    rw [qualified]
    split
    · next hnil => exact absurd hnil h
    · rfl
  rw [hmatch, String.toList_append, String.toList_append, String.toList_ofList, List.append_assoc]
  rfl

theorem colon_mem_qualified (t : Target) (h : trimNamespace ns ≠ []) : ':' ∈ (t.qualified ns).toList := by
  rw [toList_qualified t h]
  simp

/-- What stands behind the last colon is the same on both sides. -/
theorem eq_of_append_colon {a b c d : List Char} (hc : ':' ∉ c) (hd : ':' ∉ d)
    (h : a ++ ':' :: c = b ++ ':' :: d) : a = b ∧ c = d := by
  rcases List.append_eq_append_iff.1 h with ⟨e, rfl, he⟩ | ⟨e, rfl, he⟩
  all_goals
    cases e with
    | nil =>
        rw [List.nil_append, List.cons.injEq] at he
        simp [he.2]
    | cons x e =>
        obtain ⟨-, rfl⟩ := List.cons.inj he
        simp at hc hd

end Target

namespace Route

theorem Definable.colon_not_mem (h : r.Definable) : ':' ∉ r.target.controller.toList := by
  have hdefinition := h.isDefinition
  generalize r.toText.toList = line at hdefinition
  cases hdefinition with
  | intro _ _ _ _ _ hname =>
      cases hname with
      | intro hc hs =>
          rw [String.toList_ofList]
          intro hcolon
          rcases List.mem_cons.1 hcolon with rfl | hcolon
          · exact absurd hc (by decide)
          · exact absurd (hs _ hcolon) (by decide)

theorem Definable.qualified_ne_controller (h' : r'.Definable) (hns : Target.trimNamespace ns ≠ []) :
    r.target.qualified ns ≠ r'.target.controller := by
  intro hname
  apply h'.colon_not_mem
  rw [← hname]
  exact r.target.colon_mem_qualified hns

theorem Definable.eq_of_qualified (h : r.Definable) (h' : r'.Definable)
    (hname : r.target.qualified ns = r'.target.qualified ns') :
    r.target.controller = r'.target.controller ∧ Target.trimNamespace ns = Target.trimNamespace ns' := by
  by_cases hns : Target.trimNamespace ns = []
  · by_cases hns' : Target.trimNamespace ns' = []
    · rw [Target.qualified_of_nil _ hns, Target.qualified_of_nil _ hns'] at hname
      exact ⟨hname, hns.trans hns'.symm⟩
    · rw [Target.qualified_of_nil _ hns] at hname
      exact absurd hname.symm (h.qualified_ne_controller hns')
  · by_cases hns' : Target.trimNamespace ns' = []
    · rw [Target.qualified_of_nil _ hns'] at hname
      exact absurd hname (h'.qualified_ne_controller hns)
    · have hchars := congrArg String.toList hname
      rw [Target.toList_qualified _ hns, Target.toList_qualified _ hns'] at hchars
      -- the separator is two colons, and names stand behind the second
      have hsplit : (Target.trimNamespace ns ++ [':']) ++ ':' :: r.target.controller.toList =
          (Target.trimNamespace ns' ++ [':']) ++ ':' :: r'.target.controller.toList := by
        simpa using hchars
      obtain ⟨hstem, hcontroller⟩ := Target.eq_of_append_colon h.colon_not_mem h'.colon_not_mem hsplit
      exact ⟨String.toList_inj.1 hcontroller, List.append_cancel_right hstem⟩

end Route

namespace Target

open Route (Definable)

/-- Each namespace has one stem. Two controllers of definable routes have the same name in two namespaces if and only if
they are the same and the namespaces have the same stem; only a namespace with an empty stem leaves a controller its
bare name. -/
theorem qualified_unambiguous :
    (∀ ns : String, ∃! stem, IsStem ns stem) ∧
    (∀ r r' : Route, r.Definable → r'.Definable → ∀ ns ns' : String,
      r.target.qualified ns = r'.target.qualified ns' ↔
        r.target.controller = r'.target.controller ∧ ∃ stem, IsStem ns stem ∧ IsStem ns' stem) ∧
    (∀ r r' : Route, r.Definable → r'.Definable → ∀ ns : String,
      r.target.controller ≠ r'.target.controller → r.target.qualified ns ≠ r'.target.qualified ns) ∧
    (∀ (t : Target) (ns : String) (k : Nat),
      t.qualified (ns ++ String.ofList (List.replicate (2 * k) ':')) = t.qualified ns) ∧
    ∀ r r' : Route, r.Definable → r'.Definable → ∀ (ns : String) (stem : List Char),
      IsStem ns stem → stem ≠ [] → r.target.qualified ns ≠ r'.target.controller := by
  refine ⟨fun ns => ?_, fun r r' h h' ns ns' => ⟨fun hname => ?_, ?_⟩, ?_, ?_, ?_⟩
  · exact ⟨trimNamespace ns, isStem_trimNamespace ns, fun stem hstem => hstem.trimNamespace_eq.symm⟩
  · obtain ⟨hcontroller, hstem⟩ := h.eq_of_qualified h' hname
    refine ⟨hcontroller, trimNamespace ns, isStem_trimNamespace ns, ?_⟩
    rw [hstem]
    exact isStem_trimNamespace ns'
  · rintro ⟨hcontroller, stem, hstem, hstem'⟩
    have htrim : trimNamespace ns = trimNamespace ns' := hstem.trimNamespace_eq.trans hstem'.trimNamespace_eq.symm
    rw [qualified, qualified, htrim, hcontroller]
  · intro r r' h h' ns hne hname
    exact hne (h.eq_of_qualified h' hname).1
  · intro t ns k
    rw [qualified, qualified, trimNamespace_append]
  · intro r r' h h' ns stem hstem hne
    apply h'.qualified_ne_controller
    rwa [hstem.trimNamespace_eq]

-- three colons leave one behind, four leave none
theorem qualified_unambiguous_colons :
    let r : Route := ⟨.get, ⟨[.literal "a"], none⟩, ⟨"A", "b"⟩⟩
    r.Definable ∧ IsStem "app:::" "app:".toList ∧ IsStem "app::::" "app".toList ∧
      r.target.qualified "app:::" ≠ r.target.qualified "app::::" ∧
      r.target.qualified "app:::" = r.target.qualified "app:" ∧ r.target.qualified "app:::" ≠ "A" := by
  intro r
  have hdefinable : r.Definable := ⟨"GET /a A->b", by decide⟩
  have hodd : IsStem "app:::" "app:".toList := ⟨⟨1, rfl⟩, by decide⟩
  have heven : IsStem "app::::" "app".toList := ⟨⟨2, rfl⟩, by decide⟩
  have hone : IsStem "app:" "app:".toList := ⟨⟨0, rfl⟩, by decide⟩
  obtain ⟨hunique, hiff, -, -, hbare⟩ := qualified_unambiguous
  refine ⟨hdefinable, hodd, heven, fun hname => ?_, ?_, ?_⟩
  · obtain ⟨-, stem, hstem, hstem'⟩ := (hiff r r hdefinable hdefinable _ _).1 hname
    have hsame := (hunique _).unique hstem hodd
    have hsame' := (hunique _).unique hstem' heven
    rw [hsame] at hsame'
    cases hsame'
  · exact (hiff r r hdefinable hdefinable _ _).2 ⟨rfl, _, hodd, hone⟩
  · exact hbare r r hdefinable hdefinable _ _ hodd (by decide)

end Target
end Signpost
