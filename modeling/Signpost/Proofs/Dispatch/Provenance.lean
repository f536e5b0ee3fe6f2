import Signpost.Proofs.Dispatch.Login
import Signpost.Proofs.Except

namespace Signpost

/-- The event is about a match of the table. -/
inductive Event.From (t : Table) (ns : String) : Event → Prop
  | guarded {q found} (hfound : t.find? q = some found) : From t ns (.guarded (found.route.target.qualified ns))
  | invoked {q found} (hfound : t.find? q = some found) :
      From t ns (.invoked (found.route.target.qualified ns) found.route.target.action found.params)

theorem Registry.name_construct {registry : Registry} {name : String} {dependencies : List Dependency} {c : Instance}
    (h : registry.construct name dependencies = .ok c) : c.name = name := by
  rw [construct] at h
  split at h
  · cases h
  · obtain ⟨injector, -, h⟩ := bind_eq_ok_iff.1 h
    obtain ⟨call, -, h⟩ := bind_eq_ok_iff.1 h
    cases h
    rfl

namespace Router

variable {r : Router} {q : Request}

theorem find?_of_locate {found : Match} (h : r.locate q = .ok found) : ∃ q', r.table.find? q' = some found := by
  rw [locate] at h
  split at h
  · cases h
    exact ⟨_, ‹_›⟩
  · split at h
    · cases h
      exact ⟨_, ‹_›⟩
    · cases h

/-- A resolved request has a match of the table and the controller that this names. -/
theorem find?_of_resolve {x : Resolved} (h : r.resolve q = .ok x) :
    (∃ q', r.table.find? q' = some x.found) ∧ x.controller.name = x.found.route.target.qualified r.settings.ns := by
  cases hl : r.locate q with
  | error f =>
      rw [resolve_of_error hl] at h
      cases h
  | ok found =>
      rw [resolve_of_ok hl] at h
      cases hc : r.registry.construct (found.route.target.qualified r.settings.ns) r.dependencies with
      | error f =>
          rw [hc] at h
          cases h
      | ok controller =>
          rw [hc] at h
          cases h
          exact ⟨find?_of_locate hl, Registry.name_construct hc⟩

theorem guarded_from {x : Resolved} (h : r.resolve q = .ok x) :
    (Event.guarded x.controller.name).From r.table r.settings.ns := by
  obtain ⟨⟨q', hfound⟩, hname⟩ := find?_of_resolve h
  rw [hname]
  exact .guarded hfound

theorem invoked_from {x : Resolved} (h : r.resolve q = .ok x) :
    (Event.invoked x.controller.name x.action x.params).From r.table r.settings.ns := by
  obtain ⟨⟨q', hfound⟩, hname⟩ := find?_of_resolve h
  rw [hname]
  exact .invoked hfound

variable {events : List Event}

theorem finish_from {x : Resolved} (hevents : ∀ e ∈ events, e.From r.table r.settings.ns) (h : r.resolve q = .ok x) :
    ∀ e ∈ (finish events x).events, e.From r.table r.settings.ns := by
  intro e he
  obtain he | he := List.mem_append.1 he
  · exact hevents e he
  · rw [List.mem_singleton.1 he]
    exact invoked_from h

theorem refuse_from (refusal : Failure) (hevents : ∀ e ∈ events, e.From r.table r.settings.ns) :
    ∀ e ∈ (r.refuse events refusal).events, e.From r.table r.settings.ns := by
  cases hlogin : r.settings.login with
  | none =>
      rw [refuse_of_none _ _ hlogin]
      exact hevents
  | some login =>
      cases hl : r.resolve login with
      | error f =>
          rw [refuse_of_error _ _ hlogin hl]
          exact hevents
      | ok y =>
          rw [refuse_of_ok _ _ hlogin hl]
          exact finish_from hevents hl

theorem dispatch_from (r : Router) (q : Request) : ∀ e ∈ (r.dispatch q).events, e.From r.table r.settings.ns := by
  cases hq : r.resolve q with
  | error f =>
      rw [dispatch_of_error hq]
      exact fun e he => absurd he List.not_mem_nil
  | ok x =>
      have hguarded : ∀ e ∈ [Event.guarded x.controller.name], e.From r.table r.settings.ns := by
        intro e he
        rw [List.mem_singleton.1 he]
        exact guarded_from hq
      rcases r.admits_or_refuses x.controller with h | ⟨refusal, h⟩
      · rw [dispatch_of_admits hq h]
        refine finish_from (fun e he => ?_) hq
        cases hg : r.guard with
        | none =>
            rw [hg] at he
            cases he
        | some guard =>
            rw [hg] at he
            exact hguarded e he
      · rw [dispatch_of_refuses hq h]
        exact refuse_from refusal hguarded

end Router
end Signpost
