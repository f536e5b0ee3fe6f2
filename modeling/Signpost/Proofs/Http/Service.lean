import Signpost.Http.Service
import Signpost.Proofs.Dispatch.Provenance
import Signpost.Proofs.Load.Staleness

namespace Signpost.Http

def Server.on (s : Server) : Option (List Route) → Server
  | none => s
  | some routes =>
    { router :=
        { table := ⟨routes⟩
          registry := s.router.registry
          dependencies := s.router.dependencies
          guard := s.router.guard
          settings := s.router.settings }
      post := s.post }

theorem Server.on_on (s : Server) (update update' : Option (List Route)) :
    (s.on update).on update' = s.on (update'.or update) := by
  cases update' with
  | none => rfl
  | some routes => cases update <;> rfl

namespace Service

variable {s : Service} {st : Step} {steps : List Step}

def Step.world (l : Loader) (path : String) (w : World) : Step → World
  | .edit w' => w'
  | .reload => (l.load path w).world
  | .swap | .accept _ _ => w

def Step.loaded? (l : Loader) (path : String) (w : World) : Step → Option (Except Failure Loaded)
  | .reload => some (l.load path w).result
  | .edit _ | .swap | .accept _ _ => none

/-- What the loads among the steps come to, each in the world that the steps before it leave behind. -/
def loads (l : Loader) (path : String) : World → List Step → List (Except Failure Loaded)
  | _, [] => []
  | w, st :: steps => (st.loaded? l path w).toList ++ loads l path (st.world l path w) steps

def taken? (s : Service) : Step → Option (List Route)
  | .swap => s.updates.head?
  | .edit _ | .reload | .accept _ _ => none

def accepted? (s : Service) : Step → Option Job
  | .accept call generated => some ⟨call, generated, s.server⟩
  | .edit _ | .reload | .swap => none

def Step.isAccept : Step → Bool
  | .accept _ _ => true
  | .edit _ | .reload | .swap => false

def observe {α : Type} (see : Service → Step → Option α) : Service → List Step → List α
  | _, [] => []
  | s, st :: steps => (see s st).toList ++ observe see (s.step st) steps

def tables (results : List (Except Failure Loaded)) : List (List Route) :=
  results.filterMap fun result => result.toOption.map Loaded.routes

def taken (s : Service) (steps : List Step) : List (List Route) :=
  observe taken? s steps

theorem files_step (s : Service) (st : Step) : (s.step st).loader = s.loader ∧ (s.step st).path = s.path ∧
    (s.step st).world = st.world s.loader s.path s.world := by
  cases st with
  | edit | accept => exact ⟨rfl, rfl, rfl⟩
  | reload =>
      rw [step]
      split <;> exact ⟨rfl, rfl, rfl⟩
  | swap =>
      rw [step]
      split <;> exact ⟨rfl, rfl, rfl⟩

theorem server_step (s : Service) (st : Step) : (s.step st).server = s.server.on (s.taken? st) := by
  cases st with
  | edit | accept => rfl
  | reload =>
      rw [step]
      split <;> rfl
  | swap =>
      rw [step, taken?]
      cases s.updates <;> rfl

theorem updates_step (s : Service) (st : Step) :
    (s.taken? st).toList ++ (s.step st).updates =
      s.updates ++ tables (st.loaded? s.loader s.path s.world).toList := by
  cases st with
  | edit | accept => exact (List.append_nil _).symm
  | reload =>
      rw [step, Step.loaded?, ← load]
      cases s.load.result with
      | error f => exact (List.append_nil _).symm
      | ok loaded => rfl
  | swap =>
      rw [step, taken?, Step.loaded?]
      cases hupdates : s.updates with
      | nil => exact hupdates
      | cons routes updates => exact (List.append_nil _).symm

theorem jobs_step (s : Service) (st : Step) : (s.step st).jobs = s.jobs ++ (s.accepted? st).toList := by
  cases st with
  | edit => exact (List.append_nil _).symm
  | reload =>
      rw [step]
      split <;> exact (List.append_nil _).symm
  | swap =>
      rw [step]
      split <;> exact (List.append_nil _).symm
  | accept => rfl

theorem server_run (s : Service) (steps : List Step) : (s.run steps).server = s.server.on (s.taken steps).getLast? := by
  induction steps generalizing s with
  | nil => rfl
  | cons st steps ih =>
      -- a table that is taken later hides the one that the first step takes
      have hlast : (s.taken (st :: steps)).getLast? = ((s.step st).taken steps).getLast?.or (s.taken? st) := by
        rw [taken, observe, List.getLast?_append]
        cases s.taken? st <;> rfl
      calc (s.run (st :: steps)).server = (s.server.on (s.taken? st)).on ((s.step st).taken steps).getLast? := by
            rw [← server_step]
            exact ih (s.step st)
        _ = s.server.on (s.taken (st :: steps)).getLast? := by rw [Server.on_on, hlast]

theorem files_run (s : Service) (steps : List Step) : (s.run steps).loader = s.loader ∧ (s.run steps).path = s.path ∧
    (s.run steps).world = steps.foldl (Step.world s.loader s.path) s.world := by
  induction steps generalizing s with
  | nil => exact ⟨rfl, rfl, rfl⟩
  | cons st steps ih =>
      obtain ⟨hloader, hpath, hworld⟩ := files_step s st
      have hrest := ih (s.step st)
      rw [hloader, hpath, hworld] at hrest
      exact hrest

theorem updates_run (s : Service) (steps : List Step) :
    s.taken steps ++ (s.run steps).updates = s.updates ++ tables (loads s.loader s.path s.world steps) := by
  induction steps generalizing s with
  | nil => exact (List.append_nil _).symm
  | cons st steps ih =>
      obtain ⟨hloader, hpath, hworld⟩ := files_step s st
      calc s.taken (st :: steps) ++ (s.run (st :: steps)).updates
          = (s.taken? st).toList ++ ((s.step st).taken steps ++ ((s.step st).run steps).updates) :=
            List.append_assoc ..
        _ = (s.taken? st).toList ++ (s.step st).updates ++
              tables (loads s.loader s.path (st.world s.loader s.path s.world) steps) := by
            rw [ih, List.append_assoc, hloader, hpath, hworld]
        _ = s.updates ++ tables (loads s.loader s.path s.world (st :: steps)) := by
            rw [updates_step, List.append_assoc, tables, tables, ← List.filterMap_append]
            rfl

theorem jobs_run (s : Service) (steps : List Step) : (s.run steps).jobs = s.jobs ++ observe accepted? s steps := by
  induction steps generalizing s with
  | nil => exact (List.append_nil _).symm
  | cons st steps ih =>
      calc (s.run (st :: steps)).jobs = (s.step st).jobs ++ observe accepted? (s.step st) steps := ih (s.step st)
        _ = s.jobs ++ observe accepted? s (st :: steps) := by rw [jobs_step, List.append_assoc, observe]

theorem run_append (s : Service) (steps steps' : List Step) : s.run (steps ++ steps') = (s.run steps).run steps' :=
  List.foldl_append

theorem length_accepted (s : Service) (steps : List Step) :
    (observe accepted? s steps).length = steps.countP Step.isAccept := by
  induction steps generalizing s with
  | nil => rfl
  | cons st steps ih =>
      rw [observe, List.length_append, ih, List.countP_cons, Nat.add_comm]
      cases st <;> rfl

theorem length_jobs_run (s : Service) (steps : List Step) :
    (s.run steps).jobs.length = s.jobs.length + steps.countP Step.isAccept := by
  rw [jobs_run, List.length_append, length_accepted]

/-- The job of a call stays what it was when the call came in. -/
theorem job_run (s : Service) (before rest : List Step) (call : Call) (generated : String) :
    (s.run (before ++ .accept call generated :: rest)).jobs[(s.run before).jobs.length]? =
      some ⟨call, generated, (s.run before).server⟩ := by
  have hjobs : ((s.run before).step (.accept call generated)).jobs =
      (s.run before).jobs ++ [⟨call, generated, (s.run before).server⟩] := jobs_step ..
  have hrun : s.run (before ++ .accept call generated :: rest) =
      ((s.run before).step (.accept call generated)).run rest := run_append ..
  rw [hrun, jobs_run, hjobs, List.append_assoc, List.getElem?_append_right (Nat.le_refl _), Nat.sub_self]
  rfl

/-- A load that fails leaves everything as it was. -/
theorem step_reload_of_error {f : Failure} (h : s.load.result = .error f) : s.step .reload = s := by
  have hworld : s.load.world = s.world := ((Loader.course_load ..).written_of_error h).2
  rw [step, h, hworld]

theorem step_reload_of_ok {loaded : Loaded} (h : s.load.result = .ok loaded) :
    s.step .reload = { s with world := s.load.world, updates := s.updates ++ [loaded.routes] } := by
  rw [step, h]

theorem router_reload_swap (h : s.updates = []) :
    ((s.step .reload).step .swap).server.router = s.server.router.reload s.load.result := by
  cases hresult : s.load.result with
  | error f =>
      rw [step_reload_of_error hresult, step, h]
      rfl
  | ok loaded =>
      rw [step_reload_of_ok hresult, h]
      rfl

/-- What becomes of the server and of the calls while a service makes these steps. -/
structure Follows (s : Service) (steps : List Step) : Prop where
  active : (s.run steps).server = s.server.on (s.taken steps).getLast?
  files : (s.run steps).loader = s.loader ∧ (s.run steps).path = s.path ∧
    (s.run steps).world = steps.foldl (Step.world s.loader s.path) s.world
  in_order : s.taken steps ++ (s.run steps).updates = tables (loads s.loader s.path s.world steps)
  failed : ∀ f, (s.loader.load s.path (s.run steps).world).result = .error f →
    s.run (steps ++ [.reload]) = s.run steps
  prompt : (s.run steps).updates = [] → (s.run (steps ++ [.reload, .swap])).server.router =
    (s.run steps).server.router.reload (s.loader.load s.path (s.run steps).world).result
  calls : (s.run steps).jobs.length = steps.countP Step.isAccept
  answered : ∀ before call generated rest, steps = before ++ .accept call generated :: rest →
    let server := s.server.on (s.taken before).getLast?
    ∃ job, (s.run steps).jobs[before.countP Step.isAccept]? = some job ∧
      job.run = server.router.dispatch ⟨call.method, pathOf call.target⟩ ∧
      job.answer = server.answer generated call ∧
      ∀ e ∈ job.run.events, e.From server.router.table server.router.settings.ns

/-- However loads, swaps and calls come together, only the table of the server changes, to that of one load after the
other, and each call is answered on a single table. -/
theorem follows_run (server : Server) (loader : Loader) (path : String) (w : World) (steps : List Step) :
    (start server loader path w).Follows steps := by
  have hfiles := files_run (start server loader path w) steps
  have hload : ((start server loader path w).run steps).load =
      loader.load path ((start server loader path w).run steps).world := by
    rw [load, hfiles.1, hfiles.2.1]
    rfl
  refine ⟨server_run _ steps, hfiles, updates_run _ steps, fun f hf => ?_, fun hupdates => ?_, ?_, ?_⟩
  · rw [run_append]
    apply step_reload_of_error
    rw [hload]
    exact hf
  · have hrouter := router_reload_swap hupdates
    rw [hload] at hrouter
    rw [run_append]
    exact hrouter
  · rw [length_jobs_run]
    exact Nat.zero_add _
  · rintro before call generated rest rfl on
    have hnumber : ((start server loader path w).run before).jobs.length = before.countP Step.isAccept := by
      rw [length_jobs_run]
      exact Nat.zero_add _
    have hon : ((start server loader path w).run before).server = on := server_run _ before
    have hjob := job_run (start server loader path w) before rest call generated
    rw [hnumber, hon] at hjob
    exact ⟨_, hjob, rfl, rfl, on.router.dispatch_from _⟩

-- a call that comes in between the load of an emptied file and the swap is answered on the old table
example :
    let home : Router :=
      { table := ⟨[⟨.any, ⟨[.literal ""], none⟩, ⟨"Home", "index"⟩⟩]⟩
        registry := ⟨[("Home", ⟨0, fun _ => .ok fun _ _ => .value .null⟩)]⟩ }
    let w : World := { disk := ⟨[(["r"], .file .empty (.carry 5 1))], [], default⟩ }
    let s := (start ⟨home, id⟩ {} "r" w).run
      [.reload, .accept ⟨"GET", "/", none⟩ "1", .swap, .accept ⟨"GET", "/", none⟩ "2"]
    s.jobs.map (·.answer.response.status) = [200, 404] := by
  rfl

end Service
end Signpost.Http
