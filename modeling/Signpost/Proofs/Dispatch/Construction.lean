import Mathlib.Data.List.Induction
import Signpost.Dispatch.Assembly
import Signpost.Proofs.Lookup

namespace Signpost

namespace Injector

variable {i : Injector} {position : Nat} {expected : DependencyKind}

theorem get_of_kind {d : Dependency} (h : i.values[position]? = some d) (hkind : d.kind = expected) :
    i.get position expected = .ok d := by
  simp only [get, h, hkind, if_true]

/-- A fetch fails in one way only, which names the controller and the position. -/
theorem get_of_forall_ne (h : ∀ d, i.values[position]? = some d → d.kind ≠ expected) :
    i.get position expected = .error (.wrongDependency i.controller position expected) := by
  rw [get]
  cases hd : i.values[position]? with
  | none => rfl
  | some d => simp only [h d hd, if_false]

end Injector

namespace Registry

variable {r : Registry} {name : String} {dependencies : List Dependency} {f : Factory}

theorem find?_register (r : Registry) (name other : String) (f : Factory) :
    (r.register name f).find? other = if other = name then some f else r.find? other := by
  have hrest := lookup_filter (· != name) r.entries other
  rw [find?, register, lookup_cons, hrest]
  by_cases h : other = name
  · rw [if_pos h, if_pos h]
  · rw [if_neg h, if_neg h, if_pos (bne_iff_ne.2 h)]
    rfl

/-- Construction with builds that have effects. -/
def constructM {m : Type → Type} [Monad m] (build : Factory → Injector → m (Except Failure Controller)) (r : Registry)
    (name : String) (dependencies : List Dependency) : m (Except Failure Instance) :=
  match r.find? name with
  | none => pure (.error (.unknownController name))
  | some f =>
    match Injector.ofArity name f.arity dependencies with
    | .error e => pure (.error e)
    | .ok injector => Except.map (⟨name, ·⟩) <$> build f injector

section Effects

variable {m : Type → Type} [Monad m] (build : Factory → Injector → m (Except Failure Controller))

theorem constructM_of_none (h : r.find? name = none) :
    r.constructM build name dependencies = pure (.error (.unknownController name)) := by
  rw [constructM, h]

theorem constructM_of_lt (h : r.find? name = some f) (hlt : dependencies.length < f.arity) :
    r.constructM build name dependencies =
      pure (.error (.tooFewDependencies name f.arity dependencies.length)) := by
  rw [constructM, h]
  simp only [Injector.ofArity, if_neg (Nat.not_le.2 hlt)]

theorem constructM_of_le (h : r.find? name = some f) (hle : f.arity ≤ dependencies.length) :
    r.constructM build name dependencies =
      Except.map (⟨name, ·⟩) <$> build f ⟨name, dependencies.take f.arity⟩ := by
  rw [constructM, h]
  simp only [Injector.ofArity, if_pos hle]

end Effects

/-- The builds of the factories have no effects. -/
theorem construct_eq (r : Registry) (name : String) (dependencies : List Dependency) :
    r.construct name dependencies =
      Id.run (r.constructM (fun f injector => pure (f.build injector)) name dependencies) := by
  rw [construct, constructM]
  cases r.find? name with
  | none => rfl
  | some f =>
      simp only [bind, Except.bind]
      cases Injector.ofArity name f.arity dependencies with
      | error e => rfl
      | ok injector => cases f.build injector <;> rfl

end Registry

namespace Assembly

variable {steps later : List Step} {name : String} {f : Factory}

def Step.pushed? : Step → Option Dependency
  | .register _ _ => none
  | .push d => some d

def pushed (steps : List Step) : List Dependency :=
  steps.filterMap Step.pushed?

/-- No factory was registered under the name after this one. -/
def Registers (steps : List Step) (name : String) (f : Factory) : Prop :=
  ∃ before later, steps = before ++ .register name f :: later ∧ ∀ g, .register name g ∉ later

theorem after_append (steps : List Step) (st : Step) : after (steps ++ [st]) = (after steps).step st := by
  rw [after, List.foldl_append]
  rfl

theorem dependencies_after (steps : List Step) : (after steps).dependencies = pushed steps := by
  induction steps using List.reverseRecOn with
  | nil => rfl
  | append_singleton steps st ih =>
      rw [after_append, pushed, List.filterMap_append]
      cases st with
      | register name f => rw [step, ih]; exact (List.append_nil _).symm
      | push d => rw [step, ih]; rfl

/-- What is registered under other names does not count. -/
theorem find?_step (a : Assembly) (st : Step) (h : ∀ g, st ≠ .register name g) :
    (a.step st).registry.find? name = a.registry.find? name := by
  cases st with
  | register other g =>
      have hne : name ≠ other := fun heq => h g (heq ▸ rfl)
      rw [step, Registry.find?_register, if_neg hne]
  | push d => rfl

theorem find?_foldl (a : Assembly) (h : ∀ g, .register name g ∉ later) :
    (later.foldl step a).registry.find? name = a.registry.find? name := by
  induction later generalizing a with
  | nil => rfl
  | cons st later ih =>
      rw [List.foldl_cons, ih _ fun g hg => h g (List.mem_cons_of_mem _ hg)]
      exact find?_step a st fun g hst => h g (hst ▸ List.mem_cons_self)

theorem find?_of_unregistered (h : ∀ f, .register name f ∉ steps) : (after steps).registry.find? name = none :=
  find?_foldl {} h

theorem Registers.find?_eq (h : Registers steps name f) : (after steps).registry.find? name = some f := by
  obtain ⟨before, later, rfl, hlater⟩ := h
  rw [after, List.foldl_append, List.foldl_cons, find?_foldl _ hlater, step, Registry.find?_register, if_pos rfl]

theorem Registers.append (h : Registers steps name f) (hlater : ∀ g, .register name g ∉ later) :
    Registers (steps ++ later) name f := by
  obtain ⟨before, between, rfl, hbetween⟩ := h
  refine ⟨before, between ++ later, by simp, fun g hg => ?_⟩
  exact (List.mem_append.1 hg).elim (hbetween g) (hlater g)

theorem exists_registers (h : Step.register name f ∈ steps) : ∃ g, Registers steps name g := by
  induction steps using List.reverseRecOn with
  | nil => cases h
  | append_singleton steps st ih =>
      by_cases hst : ∃ g, st = .register name g
      · obtain ⟨g, rfl⟩ := hst
        exact ⟨g, steps, [], rfl, fun _ => List.not_mem_nil⟩
      · rw [not_exists] at hst
        obtain ⟨g, hg⟩ := ih ((List.mem_append.1 h).resolve_right fun hmem => hst f (List.mem_singleton.1 hmem).symm)
        exact ⟨g, hg.append fun g' hmem => hst g' (List.mem_singleton.1 hmem).symm⟩

theorem pushed_append (steps later : List Step) : pushed (steps ++ later) = pushed steps ++ pushed later :=
  List.filterMap_append

def constructM {m : Type → Type} [Monad m] (build : Factory → Injector → m (Except Failure Controller)) (a : Assembly)
    (name : String) : m (Except Failure Instance) :=
  a.registry.constructM build name a.dependencies

def Quits (a : Assembly) (name : String) (e : Failure) : Prop :=
  a.construct name = .error e ∧
    ∀ (m : Type → Type) [Monad m] (build : Factory → Injector → m (Except Failure Controller)),
      a.constructM build name = pure (.error e)

def Builds (a : Assembly) (name : String) (f : Factory) (i : Injector) : Prop :=
  a.construct name = (f.build i).map (⟨name, ·⟩) ∧
    ∀ (m : Type → Type) [Monad m] (build : Factory → Injector → m (Except Failure Controller)),
      a.constructM build name = Except.map (⟨name, ·⟩) <$> build f i

theorem quits_of_none {a : Assembly} (h : a.registry.find? name = none) : a.Quits name (.unknownController name) := by
  refine ⟨?_, fun m _ build => Registry.constructM_of_none build h⟩
  rw [construct, Registry.construct_eq, Registry.constructM_of_none _ h]
  rfl

theorem quits_of_lt {a : Assembly} (h : a.registry.find? name = some f) (hlt : a.dependencies.length < f.arity) :
    a.Quits name (.tooFewDependencies name f.arity a.dependencies.length) := by
  refine ⟨?_, fun m _ build => Registry.constructM_of_lt build h hlt⟩
  rw [construct, Registry.construct_eq, Registry.constructM_of_lt _ h hlt]
  rfl

theorem builds_of_le {a : Assembly} (h : a.registry.find? name = some f) (hle : f.arity ≤ a.dependencies.length) :
    a.Builds name f ⟨name, a.dependencies.take f.arity⟩ := by
  refine ⟨?_, fun m _ build => Registry.constructM_of_le build h hle⟩
  rw [construct, Registry.construct_eq, Registry.constructM_of_le _ h hle]
  rfl

theorem construct_of_le {a : Assembly} (h : a.registry.find? name = some f) (hle : f.arity ≤ a.dependencies.length) :
    a.construct name = (f.build ⟨name, a.dependencies.take f.arity⟩).map (⟨name, ·⟩) :=
  (builds_of_le h hle).1

theorem Registers.construct_eq_of_le (h : Registers steps name f) (hle : f.arity ≤ (pushed steps).length) :
    (after steps).construct name = (f.build ⟨name, (pushed steps).take f.arity⟩).map (⟨name, ·⟩) := by
  rw [← dependencies_after] at hle ⊢
  exact (builds_of_le h.find?_eq hle).1

/-- Dependencies that are pushed later, and factories under other names, make no difference. -/
theorem Registers.construct_append (h : Registers steps name f) (hle : f.arity ≤ (pushed steps).length)
    (hlater : ∀ g, .register name g ∉ later) :
    (after (steps ++ later)).construct name = (after steps).construct name := by
  have htake : (pushed (steps ++ later)).take f.arity = (pushed steps).take f.arity := by
    rw [pushed_append, List.take_append_of_le_length hle]
  have hle' : f.arity ≤ (pushed (steps ++ later)).length := by
    rw [pushed_append, List.length_append]
    omega
  rw [(h.append hlater).construct_eq_of_le hle', h.construct_eq_of_le hle, htake]

/-- What becomes of the construction of a name after these steps. -/
structure Constructs (steps : List Step) (name : String) : Prop where
  registered : ∀ f, .register name f ∈ steps → ∃ g, Registers steps name g
  unknown : (∀ f, .register name f ∉ steps) → (after steps).Quits name (.unknownController name)
  short : ∀ f, Registers steps name f → (pushed steps).length < f.arity →
    (after steps).Quits name (.tooFewDependencies name f.arity (pushed steps).length)
  built : ∀ f, Registers steps name f → f.arity ≤ (pushed steps).length →
    (after steps).Builds name f ⟨name, (pushed steps).take f.arity⟩
  fetched : ∀ f position d, Registers steps name f → position < f.arity → (pushed steps)[position]? = some d →
    Injector.get ⟨name, (pushed steps).take f.arity⟩ position d.kind = .ok d
  not_fetched : ∀ f position expected, Registers steps name f →
    (∀ d, position < f.arity → (pushed steps)[position]? = some d → d.kind ≠ expected) →
    Injector.get ⟨name, (pushed steps).take f.arity⟩ position expected = .error (.wrongDependency name position expected)
  -- two runs whose dependencies agree as far as the factory may see them
  agree : ∀ f ds ds', Registers steps name f → f.arity ≤ ds.length → f.arity ≤ ds'.length →
    ds.take f.arity = ds'.take f.arity →
    (after steps).registry.construct name ds = (after steps).registry.construct name ds'
  settled : ∀ f later, Registers steps name f → f.arity ≤ (pushed steps).length → (∀ g, .register name g ∉ later) →
    (after (steps ++ later)).construct name = (after steps).construct name

/-- A name is built by the factory that was registered last under it, from the dependencies that were pushed first; all
else that is registered and pushed, before or later, goes unseen. -/
theorem constructs_after (steps : List Step) (name : String) : Constructs steps name := by
  have hdependencies := dependencies_after steps
  refine ⟨fun f hf => exists_registers hf, fun h => quits_of_none (find?_of_unregistered h), ?_, ?_, ?_, ?_, ?_, ?_⟩
  · intro f hf hlt
    rw [← hdependencies] at hlt ⊢
    exact quits_of_lt hf.find?_eq hlt
  · intro f hf hle
    rw [← hdependencies] at hle ⊢
    exact builds_of_le hf.find?_eq hle
  · intro f position d hf hlt hd
    refine Injector.get_of_kind ?_ rfl
    rw [List.getElem?_take_of_lt hlt]
    exact hd
  · intro f position expected hf h
    refine Injector.get_of_forall_ne fun d hd => ?_
    rw [List.getElem?_take] at hd
    split at hd
    · exact h d ‹_› hd
    · cases hd
  · intro f ds ds' hf hle hle' htake
    have hbuilt := @construct_of_le name f ⟨(after steps).registry, ds⟩ hf.find?_eq hle
    have hbuilt' := @construct_of_le name f ⟨(after steps).registry, ds'⟩ hf.find?_eq hle'
    rw [← htake] at hbuilt'
    exact hbuilt.trans hbuilt'.symm
  · intro f later hf hle hlater
    exact hf.construct_append hle hlater

-- the factory that was registered last may not see the flag
example :
    let eager : Factory := ⟨1, fun i => (i.get 1 .bool).map fun _ => fun _ _ => .value .null⟩
    let first : Factory := ⟨0, fun _ => .ok fun _ _ => .value .null⟩
    (after [.push (.int 4), .register "A" first, .push (.bool true), .register "A" eager]).construct "A" =
      .error (.wrongDependency "A" 1 .bool) := by
  rfl

end Assembly
end Signpost
