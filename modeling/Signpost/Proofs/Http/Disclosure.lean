import Signpost.Http.Server
import Signpost.Proofs.Dispatch.Authorization

namespace Signpost

def Outcome.status : Outcome → Nat
  | ok => 200
  | notFound => 404
  | rejected => 403
  | error => 500

theorem Outcome.status_inj {o o' : Outcome} : o.status = o'.status ↔ o = o' := by
  cases o <;> cases o' <;> decide

/-- Every dispatch of the request is counted under this outcome. -/
def Router.Records (r : Router) (q : Request) (o : Outcome) : Prop :=
  ∀ m, (r.execute q m).2 = m.recordDispatch q.method o

theorem Metrics.outcome_eq_of_recordDispatch {method : String} {o o' : Outcome}
    (h : ({} : Metrics).recordDispatch method o = ({} : Metrics).recordDispatch method o') : o = o' := by
  have hdurations := congrArg (fun m => m.durations.series) h
  simpa [recordDispatch, Counter.increment, Counter.bump] using hdurations

theorem Router.records_iff {r : Router} {q : Request} {o : Outcome}
    (h : Outcome.ofReply? (r.dispatch q).reply = some o) (o' : Outcome) : r.Records q o' ↔ o = o' := by
  have hrecords : r.Records q o := by
    intro m
    rw [execute]
    simp only [h]
  constructor
  · intro h'
    exact Metrics.outcome_eq_of_recordDispatch ((hrecords {}).symm.trans (h' {}))
  · rintro rfl
    exact hrecords

namespace Http

def Call.request (c : Call) : Request :=
  ⟨c.method, pathOf c.target⟩

namespace Response

def ofOutcome : Outcome → Response
  | .notFound => ofFailure (.routeNotFound {})
  | .rejected => ofFailure (.rejected "" "")
  | .ok | .error => crashed

/-- The names and texts in a failure go no further. -/
theorem ofFailure_eq (f : Failure) : ofFailure f = ofOutcome (Outcome.ofFailure f) := by
  cases f <;> rfl

theorem status_ofFailure (f : Failure) : (ofFailure f).status = (Outcome.ofFailure f).status := by
  cases f <;> rfl

theorem status_ofValue (v : Json) : (ofValue v).status = 200 := by
  cases v <;> rfl

/-- Responses with a last step that has effects. -/
def ofReplyM {m : Type → Type} [Monad m] (post : Json → m Json) : Reply → m Response
  | .value v => ofValue <$> post v
  | .failure f => pure (ofFailure f)
  | .crash => pure crashed

theorem ofReply_eq (post : Json → Json) (reply : Reply) :
    ofReply post reply = Id.run (ofReplyM (fun v => pure (post v)) reply) := by
  cases reply <;> rfl

end Response

namespace Server

variable {s s' : Server} {c c' : Call}

def reply (s : Server) (c : Call) : Reply :=
  (s.router.dispatch c.request).reply

/-- The response to a call as it is before the method of the call takes its body away. -/
def respond (s : Server) (c : Call) : Response :=
  .ofReply s.post (s.reply c)

def respondM {m : Type → Type} [Monad m] (post : Json → m Json) (s : Server) (c : Call) : m Response :=
  Response.ofReplyM post (s.reply c)

/-- A `HEAD` call gets all of the response but its body, and any other call gets it whole. -/
structure Sends (a : Answer) (c : Call) (r : Response) : Prop where
  status : a.response.status = r.status
  contentType : a.response.contentType = r.contentType
  body : a.response.body = if c.method = "HEAD" then "" else r.body
  requestId : ∀ id, c.requestId = some id → a.requestId = id

theorem sends_answer (s : Server) (generated : String) (c : Call) : Sends (s.answer generated c) c (s.respond c) := by
  have hresponse : (s.answer generated c).response = trimBody c.method (s.respond c) := rfl
  refine ⟨?_, ?_, ?_, fun id hid => ?_⟩
  · rw [hresponse, trimBody]
    split <;> rfl
  · rw [hresponse, trimBody]
    split <;> rfl
  · rw [hresponse, trimBody]
    split <;> rfl
  · rw [answer, hid]
    rfl

theorem status_respond {o : Outcome} (h : Outcome.ofReply? (s.reply c) = some o) : (s.respond c).status = o.status := by
  rw [respond]
  cases hreply : s.reply c with
  | crash => rw [hreply] at h; cases h
  | value v =>
      rw [hreply] at h
      cases h
      exact Response.status_ofValue _
  | failure f =>
      rw [hreply] at h
      cases h
      exact Response.status_ofFailure f

theorem respond_of_value {v : Json} (h : s.reply c = .value v) : s.respond c = .ofValue (s.post v) := by
  rw [respond, h]
  rfl

theorem respond_of_failure {f : Failure} (h : s.reply c = .failure f) :
    s.respond c = .ofOutcome (Outcome.ofFailure f) := by
  rw [respond, h]
  exact Response.ofFailure_eq f

theorem respond_of_crash (h : s.reply c = .crash) : s.respond c = .crashed := by
  rw [respond, h]
  rfl

theorem status_respond_iff (h : s.reply c ≠ .crash) (o : Outcome) :
    (s.respond c).status = o.status ↔ s.router.Records c.request o := by
  obtain ⟨o', ho'⟩ : ∃ o', Outcome.ofReply? (s.reply c) = some o' := by
    cases hreply : s.reply c with
    | value v => exact ⟨_, rfl⟩
    | failure f => exact ⟨_, rfl⟩
    | crash => exact absurd hreply h
  rw [status_respond ho', Outcome.status_inj, Router.records_iff ho']

/-- Failures that show the same status were counted alike, and nothing but that shows. -/
theorem respond_eq_of_failures {f f' : Failure} (h : s.reply c = .failure f) (h' : s'.reply c' = .failure f')
    (hstatus : (s.respond c).status = (s'.respond c').status) : s.respond c = s'.respond c' := by
  rw [status_respond (congrArg Outcome.ofReply? h), status_respond (congrArg Outcome.ofReply? h'),
    Outcome.status_inj] at hstatus
  rw [respond_of_failure h, respond_of_failure h', hstatus]

theorem respond_eq_of_crash {f : Failure} (h : s.reply c = .failure f) (h' : s'.reply c' = .crash)
    (hstatus : (s.respond c).status = 500) : s.respond c = s'.respond c' := by
  have herror : Outcome.ofFailure f = .error := by
    rw [status_respond (congrArg Outcome.ofReply? h)] at hstatus
    exact Outcome.status_inj.1 hstatus
  rw [respond_of_failure h, respond_of_crash h', herror]
  rfl

/-- What the response to a call says of the dispatch, and which part the last step has in it. -/
structure Tells (s : Server) (c : Call) : Prop where
  executed : ∀ m, (s.router.execute c.request m).1.reply = s.reply c
  status : s.reply c ≠ .crash → ∀ o, (s.respond c).status = o.status ↔ s.router.Records c.request o
  value : ∀ v, s.reply c = .value v → s.respond c = .ofValue (s.post v) ∧
    ∀ (m : Type → Type) [Monad m] (post : Json → m Json), s.respondM post c = Response.ofValue <$> post v
  failure : ∀ f, s.reply c = .failure f →
    ∀ (m : Type → Type) [Monad m] (post : Json → m Json), s.respondM post c = pure (s.respond c)
  plain : s.respond c = Id.run (s.respondM (fun v => pure (s.post v)) c)
  sent : ∀ generated, Sends (s.answer generated c) c (s.respond c)

theorem tells (s : Server) (c : Call) : s.Tells c where
  executed m := congrArg Run.reply (s.router.run_execute c.request m)
  status := status_respond_iff
  value v h := by
    refine ⟨respond_of_value h, fun m _ post => ?_⟩
    rw [respondM, h]
    rfl
  failure f h m _ post := by
    rw [respondM, respond, h]
    rfl
  plain := Response.ofReply_eq s.post (s.reply c)
  sent generated := sends_answer s generated c

/-- The status of a response is that of the outcome under which the dispatch was counted, and two failures with one
status cannot be told apart, nor from an action that broke off. -/
theorem tells_outcome_alone :
    (∀ (s : Server) (c : Call), s.Tells c) ∧
    (∀ (s s' : Server) (c c' : Call) (f f' : Failure), s.reply c = .failure f → s'.reply c' = .failure f' →
      (s.respond c).status = (s'.respond c').status → s.respond c = s'.respond c') ∧
    ∀ (s s' : Server) (c c' : Call) (f : Failure), s.reply c = .failure f → s'.reply c' = .crash →
      (s.respond c).status = 500 → s.respond c = s'.respond c' :=
  ⟨tells, fun _ _ _ _ _ _ => respond_eq_of_failures, fun _ _ _ _ _ => respond_eq_of_crash⟩

def ending (reply : Reply) : Server where
  router :=
    { table := ⟨[⟨.any, ⟨[.literal "a"], none⟩, ⟨"Vault", "open"⟩⟩]⟩
      registry := ⟨[("Vault", ⟨0, fun _ => .ok fun _ _ => reply⟩)]⟩ }

def vacant : Server where
  router := { table := (ending .crash).router.table }

-- neither the text of the one failure nor the name in the other shows
theorem tells_outcome_alone_of_errors :
    ((ending (.failure (.handler "bad key 7"))).respond ⟨"GET", "/a", none⟩).status = 500 ∧
      (ending (.failure (.handler "bad key 7"))).router.Records ⟨"GET", "/a"⟩ .error ∧
      (ending (.failure (.handler "bad key 7"))).respond ⟨"GET", "/a", none⟩ = vacant.respond ⟨"POST", "/a", none⟩ ∧
      (ending (.failure (.handler "bad key 7"))).respond ⟨"GET", "/a", none⟩ =
        (ending .crash).respond ⟨"GET", "/a", none⟩ := by
  obtain ⟨htells, hfailures, hcrash⟩ := tells_outcome_alone
  have hfailing : (ending (.failure (.handler "bad key 7"))).reply ⟨"GET", "/a", none⟩ =
      .failure (.handler "bad key 7") := by rfl
  have hvacant : vacant.reply ⟨"POST", "/a", none⟩ = .failure (.unknownController "Vault") := by rfl
  have hbroken : (ending .crash).reply ⟨"GET", "/a", none⟩ = .crash := by rfl
  have hstatus : ((ending (.failure (.handler "bad key 7"))).respond ⟨"GET", "/a", none⟩).status = 500 := by rfl
  have hreturns : (ending (.failure (.handler "bad key 7"))).reply ⟨"GET", "/a", none⟩ ≠ .crash := by
    rw [hfailing]
    exact fun h => by cases h
  exact ⟨hstatus, ((htells _ _).status hreturns .error).1 hstatus, hfailures _ _ _ _ _ _ hfailing hvacant (by rfl),
    hcrash _ _ _ _ _ hfailing hbroken hstatus⟩

end Server
end Http
end Signpost
