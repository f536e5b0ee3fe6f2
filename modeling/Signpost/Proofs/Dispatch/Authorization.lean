import Signpost.Metrics

namespace Signpost

def Event.guarded? : Event → Option String
  | .guarded controller => some controller
  | .invoked _ _ _ => none

def Run.guarded (run : Run) : List String :=
  run.events.filterMap Event.guarded?

def Run.invocations (run : Run) : List Event :=
  run.events.filter (·.guarded?.isNone)

/-- Just this action is called, and its reply goes out as it is. -/
structure Run.Calls (run : Run) (c : Instance) (action : String) (params : Option (List String)) : Prop where
  invocations : run.invocations = [.invoked c.name action params]
  reply : run.reply = c.call action params

section Effects

variable {m : Type → Type} [Monad m] (ask : Guard → Instance → m (Except Failure Unit))
  (call : Instance → String → Option (List String) → m Reply)

def Resolved.invokeM (x : Resolved) : m Reply :=
  call x.controller x.found.route.target.action x.found.params

def Router.refuseM (r : Router) (refusal : Failure) : m Reply :=
  match r.settings.login with
  | none => pure (.failure refusal)
  | some login =>
    match r.resolve login with
    | .error f => pure (.failure f)
    | .ok x => x.invokeM call

/-- A dispatch whose guard and actions have effects. -/
def Router.dispatchM (r : Router) (q : Request) : m Reply :=
  match r.resolve q with
  | .error f => pure (.failure f)
  | .ok x =>
    match r.guard with
    | none => x.invokeM call
    | some guard => do
      match ← ask guard x.controller with
      | .ok () => x.invokeM call
      | .error refusal => r.refuseM call refusal

end Effects

def Guard.noted (guard : Guard) (c : Instance) : StateM (List Event) (Except Failure Unit) := do
  modify (· ++ [.guarded c.name])
  return guard c

def Instance.noted (c : Instance) (action : String) (params : Option (List String)) : StateM (List Event) Reply := do
  modify (· ++ [.invoked c.name action params])
  return c.call action params

namespace Router

/-- Without a guard every controller may be called. -/
def Admits (r : Router) (c : Instance) : Prop :=
  ∀ guard, r.guard = some guard → guard c = .ok ()

def Refuses (r : Router) (c : Instance) (refusal : Failure) : Prop :=
  ∃ guard, r.guard = some guard ∧ guard c = .error refusal

def Rejects (r : Router) (q : Request) : Prop :=
  ∃ x refusal, r.resolve q = .ok x ∧ r.Refuses x.controller refusal

/-- What the guard allows of the run of a request. -/
structure Authorized (r : Router) (q : Request) (run : Run) : Prop where
  -- every event is noted by the call that it is about
  noted : r.dispatchM Guard.noted Instance.noted q [] = (run.reply, run.events)
  guard_first : run.events = run.guarded.map .guarded ++ run.invocations
  guarded_once : run.guarded.length ≤ 1
  guarded_iff : ∀ name, name ∈ run.guarded ↔ r.guard.isSome ∧ ∃ x, r.resolve q = .ok x ∧ x.controller.name = name
  invoked_once : run.invocations.length ≤ 1
  unresolved : ∀ f, r.resolve q = .error f → run.invocations = [] ∧ run.reply = .failure f
  -- whatever the action replies, also a failure of the kinds that lookups and guards give
  admitted : ∀ x, r.resolve q = .ok x → r.Admits x.controller →
    run.Calls x.controller x.found.route.target.action x.found.params
  refused : ∀ x refusal, r.resolve q = .ok x → r.Refuses x.controller refusal → r.settings.login = none →
    run.invocations = [] ∧ run.reply = .failure refusal
  login_unresolved : ∀ login f, r.Rejects q → r.settings.login = some login → r.resolve login = .error f →
    run.invocations = [] ∧ run.reply = .failure f
  login_resolved : ∀ login x, r.Rejects q → r.settings.login = some login → r.resolve login = .ok x →
    run.Calls x.controller x.found.route.target.action x.found.params

variable {r : Router} {q : Request}

theorem admits_or_refuses (r : Router) (c : Instance) : r.Admits c ∨ ∃ refusal, r.Refuses c refusal := by
  cases hg : r.guard with
  | none => exact .inl fun guard h => by rw [hg] at h; cases h
  | some guard =>
      cases hc : guard c with
      | error refusal => exact .inr ⟨refusal, guard, hg, hc⟩
      | ok =>
          refine .inl fun guard' h => ?_
          rw [hg] at h
          cases h
          exact hc

theorem dispatch_of_error {f : Failure} (hq : r.resolve q = .error f) : r.dispatch q = ⟨[], .failure f⟩ := by
  rw [dispatch, hq]

theorem dispatch_of_admits {x : Resolved} (hq : r.resolve q = .ok x) (h : r.Admits x.controller) :
    r.dispatch q = finish (r.guard.map fun _ => Event.guarded x.controller.name).toList x := by
  rw [dispatch, hq]
  cases hg : r.guard with
  | none => rfl
  | some guard =>
      simp only [h guard hg]
      rfl

theorem dispatch_of_refuses {x : Resolved} {refusal : Failure} (hq : r.resolve q = .ok x)
    (h : r.Refuses x.controller refusal) : r.dispatch q = r.refuse [.guarded x.controller.name] refusal := by
  obtain ⟨guard, hg, hc⟩ := h
  rw [dispatch, hq]
  simp only [hg, hc]

theorem refuse_of_none (events : List Event) (refusal : Failure) (h : r.settings.login = none) :
    r.refuse events refusal = ⟨events, .failure refusal⟩ := by
  rw [refuse, h]

theorem refuse_of_error {login : Request} {f : Failure} (events : List Event) (refusal : Failure)
    (h : r.settings.login = some login) (hl : r.resolve login = .error f) :
    r.refuse events refusal = ⟨events, .failure f⟩ := by
  rw [refuse, h]
  simp only [hl]

theorem refuse_of_ok {login : Request} {x : Resolved} (events : List Event) (refusal : Failure)
    (h : r.settings.login = some login) (hl : r.resolve login = .ok x) :
    r.refuse events refusal = finish events x := by
  rw [refuse, h]
  simp only [hl]

/-- The ways that a dispatch can go. -/
inductive Course (r : Router) (q : Request) : Run → Prop
  | unresolved {f} (hq : r.resolve q = .error f) : Course r q ⟨[], .failure f⟩
  | admitted {x} (hq : r.resolve q = .ok x) (h : r.Admits x.controller) :
      Course r q (finish (r.guard.map fun _ => Event.guarded x.controller.name).toList x)
  | refused {x refusal f} (hq : r.resolve q = .ok x) (h : r.Refuses x.controller refusal) :
      Course r q ⟨[.guarded x.controller.name], .failure f⟩
  | login {x refusal y} (hq : r.resolve q = .ok x) (h : r.Refuses x.controller refusal) :
      Course r q (finish [.guarded x.controller.name] y)

theorem course_dispatch (r : Router) (q : Request) : Course r q (r.dispatch q) := by
  cases hq : r.resolve q with
  | error f =>
      rw [dispatch_of_error hq]
      exact .unresolved hq
  | ok x =>
      rcases r.admits_or_refuses x.controller with h | ⟨refusal, h⟩
      · rw [dispatch_of_admits hq h]
        exact .admitted hq h
      · rw [dispatch_of_refuses hq h]
        cases hlogin : r.settings.login with
        | none =>
            rw [refuse_of_none _ _ hlogin]
            exact .refused hq h
        | some login =>
            cases hl : r.resolve login with
            | error f =>
                rw [refuse_of_error _ _ hlogin hl]
                exact .refused hq h
            | ok y =>
                rw [refuse_of_ok _ _ hlogin hl]
                exact .login hq h

theorem Refuses.guard_isSome {c : Instance} {refusal : Failure} (h : r.Refuses c refusal) : r.guard.isSome := by
  obtain ⟨guard, hg, -⟩ := h
  rw [hg]
  rfl

namespace Course

variable {run : Run}

theorem guard_first (h : Course r q run) : run.events = run.guarded.map .guarded ++ run.invocations := by
  cases h with
  | unresolved hq => rfl
  | admitted hq h => cases r.guard <;> rfl
  | refused hq h => rfl
  | login hq h => rfl

theorem guarded_eq (h : Course r q run) :
    run.guarded = [] ∧ (r.guard = none ∨ ∃ f, r.resolve q = .error f) ∨
    ∃ x, run.guarded = [x.controller.name] ∧ r.guard.isSome ∧ r.resolve q = .ok x := by
  cases h with
  | unresolved hq => exact .inl ⟨rfl, .inr ⟨_, hq⟩⟩
  | admitted hq h =>
      cases hg : r.guard with
      | none => exact .inl ⟨rfl, .inl rfl⟩
      | some guard => exact .inr ⟨_, rfl, rfl, hq⟩
  | refused hq h => exact .inr ⟨_, rfl, h.guard_isSome, hq⟩
  | login hq h => exact .inr ⟨_, rfl, h.guard_isSome, hq⟩

theorem guarded_once (h : Course r q run) : run.guarded.length ≤ 1 := by
  obtain ⟨h, -⟩ | ⟨x, h, -⟩ := h.guarded_eq
  · rw [h]
    exact Nat.zero_le 1
  · rw [h]
    exact Nat.le_refl 1

theorem mem_guarded_iff (h : Course r q run) (name : String) :
    name ∈ run.guarded ↔ r.guard.isSome ∧ ∃ x, r.resolve q = .ok x ∧ x.controller.name = name := by
  obtain ⟨h, hg | ⟨f, hf⟩⟩ | ⟨x, h, hg, hx⟩ := h.guarded_eq
  · simp [h, hg]
  · simp [h, hf]
  · simp [h, hg, hx, eq_comm]

theorem invoked_once (h : Course r q run) : run.invocations.length ≤ 1 := by
  cases h with
  | unresolved hq => exact Nat.zero_le 1
  | admitted hq h => cases r.guard <;> exact Nat.le_refl 1
  | refused hq h => exact Nat.zero_le 1
  | login hq h => exact Nat.le_refl 1

end Course

theorem dispatch_of_rejects (h : r.Rejects q) :
    ∃ controller refusal, r.dispatch q = r.refuse [.guarded controller] refusal := by
  obtain ⟨x, refusal, hq, h⟩ := h
  exact ⟨x.controller.name, refusal, dispatch_of_refuses hq h⟩

theorem noted_refuse (r : Router) (events : List Event) (refusal : Failure) :
    r.refuseM Instance.noted refusal events = ((r.refuse events refusal).reply, (r.refuse events refusal).events) := by
  cases hlogin : r.settings.login with
  | none =>
      rw [refuse_of_none _ _ hlogin, refuseM, hlogin]
      rfl
  | some login =>
      cases hl : r.resolve login with
      | error f =>
          rw [refuse_of_error _ _ hlogin hl, refuseM, hlogin]
          simp only [hl]
          rfl
      | ok x =>
          rw [refuse_of_ok _ _ hlogin hl, refuseM, hlogin]
          simp only [hl]
          rfl

theorem noted_dispatch (r : Router) (q : Request) :
    r.dispatchM Guard.noted Instance.noted q [] = ((r.dispatch q).reply, (r.dispatch q).events) := by
  rw [dispatchM, dispatch]
  cases r.resolve q with
  | error f => rfl
  | ok x =>
      cases r.guard with
      | none => rfl
      | some guard =>
          dsimp only [Guard.noted]
          cases guard x.controller with
          | ok _ => rfl
          | error refusal => exact noted_refuse r [.guarded x.controller.name] refusal

theorem authorized_dispatch (r : Router) (q : Request) : r.Authorized q (r.dispatch q) := by
  have hcourse := course_dispatch r q
  refine ⟨noted_dispatch r q, hcourse.guard_first, hcourse.guarded_once, hcourse.mem_guarded_iff, hcourse.invoked_once,
    ?_, ?_, ?_, ?_, ?_⟩
  · intro f hq
    rw [dispatch_of_error hq]
    exact ⟨rfl, rfl⟩
  · intro x hq h
    rw [dispatch_of_admits hq h]
    cases r.guard <;> exact ⟨rfl, rfl⟩
  · intro x refusal hq h hlogin
    rw [dispatch_of_refuses hq h, refuse_of_none _ _ hlogin]
    exact ⟨rfl, rfl⟩
  · intro login f h hlogin hl
    obtain ⟨controller, refusal, hrun⟩ := dispatch_of_rejects h
    rw [hrun, refuse_of_error _ _ hlogin hl]
    exact ⟨rfl, rfl⟩
  · intro login x h hlogin hl
    obtain ⟨controller, refusal, hrun⟩ := dispatch_of_rejects h
    rw [hrun, refuse_of_ok _ _ hlogin hl]
    exact ⟨rfl, rfl⟩

def withGuard (r : Router) (guard : Option Guard) : Router :=
  { r with guard }

/-- Two rejected requests cannot be told apart by what is called and answered, even if other guards
rejected them. -/
theorem dispatch_congr_of_rejects {q' : Request} {guard : Option Guard} (h : r.Rejects q)
    (h' : (r.withGuard guard).Rejects q') (hlogin : r.settings.login.isSome) :
    (r.dispatch q).invocations = ((r.withGuard guard).dispatch q').invocations ∧
      (r.dispatch q).reply = ((r.withGuard guard).dispatch q').reply := by
  obtain ⟨login, hlogin⟩ := Option.isSome_iff_exists.1 hlogin
  have hq := authorized_dispatch r q
  have hq' := authorized_dispatch (r.withGuard guard) q'
  cases hl : r.resolve login with
  | error f =>
      obtain ⟨hcalls, hreply⟩ := hq.login_unresolved login f h hlogin hl
      obtain ⟨hcalls', hreply'⟩ := hq'.login_unresolved login f h' hlogin hl
      exact ⟨hcalls.trans hcalls'.symm, hreply.trans hreply'.symm⟩
  | ok x =>
      obtain ⟨hcalls, hreply⟩ := hq.login_resolved login x h hlogin hl
      obtain ⟨hcalls', hreply'⟩ := hq'.login_resolved login x h' hlogin hl
      exact ⟨hcalls.trans hcalls'.symm, hreply.trans hreply'.symm⟩

/-- The guard is asked about nothing but the controller of the request. -/
theorem dispatch_congr_guard {guard guard' : Guard} (hg : r.guard = some guard)
    (h : ∀ x, r.resolve q = .ok x → guard' x.controller = guard x.controller) :
    (r.withGuard guard').dispatch q = r.dispatch q := by
  have hresolve : (r.withGuard guard').resolve q = r.resolve q := rfl
  have hguard : (r.withGuard guard').guard = some guard' := rfl
  rw [dispatch, dispatch, hresolve, hguard, hg]
  cases hq : r.resolve q with
  | error f => rfl
  | ok x =>
      simp only [h x hq]
      rfl

theorem run_execute (r : Router) (q : Request) (m : Metrics) : (r.execute q m).1 = r.dispatch q := by
  rw [execute]
  split <;> rfl

/-- The guard decides alone, and at most once, whether the action that a request leads to is called. -/
theorem authorized_execute (r : Router) (q : Request) (m : Metrics) :
    r.Authorized q (r.execute q m).1 ∧
    (∀ guard guard' : Guard, r.guard = some guard →
      (∀ x, r.resolve q = .ok x → guard' x.controller = guard x.controller) →
      ((r.withGuard guard').execute q m).1 = (r.execute q m).1) ∧
    (∀ (guard : Option Guard) q' m', r.Rejects q → (r.withGuard guard).Rejects q' → r.settings.login.isSome →
      (r.execute q m).1.invocations = ((r.withGuard guard).execute q' m').1.invocations ∧
      (r.execute q m).1.reply = ((r.withGuard guard).execute q' m').1.reply) := by
  refine ⟨?_, ?_, ?_⟩
  · rw [run_execute]
    exact authorized_dispatch r q
  · intro guard guard' hg h
    rw [run_execute, run_execute]
    exact dispatch_congr_guard hg h
  · intro guard q' m' h h' hlogin
    rw [run_execute, run_execute]
    exact dispatch_congr_of_rejects h h' hlogin

/-- Answers with its name, the action and the parameters, but `lost` fails as a lookup does. -/
def repeater (name : String) : Factory :=
  ⟨0, fun _ => .ok fun action params =>
    if action = "lost" then .failure (.routeNotFound ⟨name, action⟩)
    else .value (.arr (.str name :: .str action :: (params.getD []).map .str))⟩

def secluded : Router where
  table :=
    ⟨[⟨.get, ⟨[.literal "home", .text], none⟩, ⟨"Home", "show"⟩⟩, ⟨.get, ⟨[.literal "lost"], none⟩, ⟨"Home", "lost"⟩⟩,
      ⟨.get, ⟨[.literal "safe", .digits], none⟩, ⟨"Safe", "open"⟩⟩]⟩
  registry := ⟨["Home", "Safe"].map fun name => (name, repeater name)⟩
  guard := some fun c => if c.name = "Home" then .ok () else .error (.rejected c.name "closed")
  settings := { fallback := ⟨"GET", "/home/hall"⟩, login := some ⟨"GET", "/home/door"⟩ }

theorem secluded_rejects : secluded.Rejects ⟨"GET", "/safe/7"⟩ :=
  ⟨⟨⟨2, _, ["7"]⟩, ⟨"Safe", _⟩⟩, .rejected "Safe" "closed", rfl, _, rfl, rfl⟩

def nobody : Guard :=
  fun c => .error (.rejected c.name "nobody")

theorem nobody_rejects : (secluded.withGuard nobody).Rejects ⟨"GET", "/lost"⟩ :=
  ⟨⟨⟨1, _, []⟩, ⟨"Home", _⟩⟩, .rejected "Home" "nobody", rfl, _, rfl, rfl⟩

theorem authorized_execute_secluded :
    secluded.Rejects ⟨"GET", "/safe/7"⟩ ∧
      (secluded.execute ⟨"GET", "/safe/7"⟩ {}).1.invocations = [.invoked "Home" "show" (some ["door"])] ∧
      (secluded.execute ⟨"GET", "/safe/7"⟩ {}).1.reply = .value (.arr [.str "Home", .str "show", .str "door"]) ∧
      (secluded.execute ⟨"GET", "/lost"⟩ {}).1.invocations = [.invoked "Home" "lost" none] ∧
      (secluded.execute ⟨"GET", "/lost"⟩ {}).1.reply = .failure (.routeNotFound ⟨"Home", "lost"⟩) ∧
      ((secluded.withGuard nobody).execute ⟨"GET", "/lost"⟩ {}).1.reply =
        .value (.arr [.str "Home", .str "show", .str "door"]) := by
  obtain ⟨h, -, hrejected⟩ := authorized_execute secluded ⟨"GET", "/safe/7"⟩ {}
  obtain ⟨h', -⟩ := authorized_execute secluded ⟨"GET", "/lost"⟩ {}
  have hadmits : ∀ call, secluded.Admits ⟨"Home", call⟩ := by
    intro call guard hguard
    cases hguard
    rfl
  obtain ⟨hcalls, hreply⟩ :=
    h.login_resolved ⟨"GET", "/home/door"⟩ ⟨⟨0, _, ["door"]⟩, ⟨"Home", _⟩⟩ secluded_rejects rfl rfl
  obtain ⟨hcalls', hreply'⟩ := h'.admitted ⟨⟨1, _, []⟩, ⟨"Home", _⟩⟩ rfl (hadmits _)
  obtain ⟨-, hsame⟩ := hrejected nobody ⟨"GET", "/lost"⟩ {} secluded_rejects nobody_rejects rfl
  exact ⟨secluded_rejects, hcalls, hreply, hcalls', hreply', hsame.symm.trans hreply⟩

end Router
end Signpost
