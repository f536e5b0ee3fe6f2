import Signpost.Proofs.Dispatch.Authorization
import Signpost.Proofs.Dispatch.BasePath

namespace Signpost

open Text

theorem Segment.captures_literals (ps parts : List (List Char)) :
    captures (ps.map fun part => .literal (String.ofList part)) parts = if parts = ps then some [] else none := by
  induction ps generalizing parts with
  | nil => cases parts <;> simp [captures]
  | cons part ps ih =>
      cases parts with
      | nil => simp [captures]
      | cons other parts =>
          by_cases h : other = part
          · by_cases hps : parts = ps <;> simp [captures, accepts, isPlaceholder, h, ih, hps]
          · simp [captures, accepts, h]

namespace Router

variable {r : Router} {q login : Request} {base : String}

def lookUp (r : Router) (q : Request) : Except Failure Match :=
  match r.table.find? q with
  | some found => .ok found
  | none =>
    match r.table.find? r.settings.fallback with
    | some found => .ok found
    | none => .error (.routeNotFound q)

def enter (r : Router) : Except Failure Match → Reply
  | .error f => .failure f
  | .ok found =>
    match r.registry.construct (found.route.target.qualified r.settings.ns) r.dependencies with
    | .error f => .failure f
    | .ok controller => Resolved.invoke ⟨found, controller⟩

theorem resolve_of_error {f : Failure} (h : r.locate q = .error f) : r.resolve q = .error f := by
  rw [resolve, h]
  rfl

theorem resolve_of_ok {found : Match} (h : r.locate q = .ok found) :
    r.resolve q = (r.registry.construct (found.route.target.qualified r.settings.ns) r.dependencies).map
      (⟨found, ·⟩) := by
  simp only [resolve, h, bind, Except.bind]
  cases r.registry.construct (found.route.target.qualified r.settings.ns) r.dependencies <;> rfl

theorem reply_refuse (events : List Event) (refusal : Failure) (hlogin : r.settings.login = some login) :
    (r.refuse events refusal).reply = r.enter (r.locate login) := by
  cases hl : r.locate login with
  | error f => rw [refuse_of_error events refusal hlogin (resolve_of_error hl), enter]
  | ok found =>
      have hresolve := resolve_of_ok hl
      rw [enter]
      cases hc : r.registry.construct (found.route.target.qualified r.settings.ns) r.dependencies with
      | error f =>
          rw [hc] at hresolve
          rw [refuse_of_error events refusal hlogin hresolve]
      | ok controller =>
          rw [hc] at hresolve
          rw [refuse_of_ok events refusal hlogin hresolve, finish]

theorem reply_of_rejects (h : r.Rejects q) (hlogin : r.settings.login = some login) :
    (r.dispatch q).reply = r.enter (r.locate login) := by
  obtain ⟨controller, refusal, hrun⟩ := dispatch_of_rejects h
  rw [hrun, reply_refuse _ _ hlogin]

/-- Of a URI only its parts between slashes count. -/
theorem find?_congr_parts (t : Table) {q q' : Request} (hmethod : q.method = q'.method)
    (hparts : Pattern.parts? q.uri.toList = Pattern.parts? q'.uri.toList) : t.find? q = t.find? q' := by
  have hcaptures (route : Route) : route.captures q = route.captures q' := by
    rw [Route.captures, Route.captures, hmethod, Pattern.captures, Pattern.captures, hparts]
  have hfrom (n : Nat) (routes : List Route) : Table.findFrom q n routes = Table.findFrom q' n routes := by
    induction routes generalizing n with
    | nil => rfl
    | cons route routes ih => rw [Table.findFrom, Table.findFrom, hcaptures, ih]
  exact hfrom 0 t.routes

def Spares (base uri : String) : Prop :=
  Pattern.parts? (stripBase base uri).toList = Pattern.parts? uri.toList

instance (base uri : String) : Decidable (Spares base uri) :=
  inferInstanceAs (Decidable (Pattern.parts? (stripBase base uri).toList = Pattern.parts? uri.toList))

theorem spares_of_not_below {uri : String} (h : ¬IsBelow base uri) : Spares base uri := by
  rw [Spares, stripBase_of_not_below h]

theorem locate_eq_lookUp (h : Spares r.settings.basePath q.uri) : r.locate q = r.lookUp q := by
  have hfind : r.table.find? { q with uri := stripBase r.settings.basePath q.uri } = r.table.find? q :=
    find?_congr_parts r.table rfl h
  rw [locate, hfind]
  rfl

theorem exists_parts {uri : String} {rest : List Char} (h : uri.toList = '/' :: rest) :
    ∃ ps, Pattern.parts? uri.toList = some ps := by
  rw [h]
  exact ⟨_, rfl⟩

def gate (ps : List (List Char)) : Route :=
  ⟨.any, ⟨ps.map fun part => .literal (String.ofList part), none⟩, ⟨"Gate", "open"⟩⟩

def gatehouse (base : String) (login : Request) (ps : List (List Char)) : Router where
  table := ⟨[gate ps]⟩
  registry := ⟨[("Gate", ⟨0, fun _ => .ok fun _ _ => .crash⟩)]⟩
  guard := some fun c => .error (.rejected c.name "closed")
  settings := { basePath := base, fallback := ⟨"", ""⟩, login := some login }

theorem find?_gatehouse (ps : List (List Char)) (q : Request) :
    (gatehouse base login ps).table.find? q =
      if Pattern.parts? q.uri.toList = some ps then some ⟨0, gate ps, []⟩ else none := by
  have hcaptures : (gate ps).captures q =
      (Pattern.parts? q.uri.toList).bind fun parts => if parts = ps then some [] else none := by
    simp only [Route.captures, gate, Verb.accepts, if_true, Pattern.captures]
    exact congrArg _ (funext (Segment.captures_literals ps))
  simp only [Table.find?, gatehouse, Table.findFrom, hcaptures]
  cases Pattern.parts? q.uri.toList with
  | none => simp
  | some parts => by_cases h : parts = ps <;> simp [h]

/-- Wherever the base path changes the parts of the login path, some router answers otherwise than the table
says for the login path itself. -/
theorem gatehouse_astray {ps : List (List Char)} (hps : Pattern.parts? (stripBase base login.uri).toList = some ps)
    (hne : Pattern.parts? login.uri.toList ≠ some ps) :
    let r := gatehouse base login ps
    r.Rejects login ∧ (r.dispatch login).reply = .crash ∧ r.enter (r.lookUp login) = .failure (.routeNotFound login) := by
  intro r
  have hlocate : r.locate login = .ok ⟨0, gate ps, []⟩ := by
    have hfind : r.table.find? { login with uri := stripBase base login.uri } = some ⟨0, gate ps, []⟩ := by
      rw [find?_gatehouse, if_pos hps]
    have hbase : r.settings.basePath = base := rfl
    rw [locate, hbase, hfind]
  have hlookUp : r.lookUp login = .error (.routeNotFound login) := by
    have hfallback : r.table.find? r.settings.fallback = none := by
      rw [find?_gatehouse]
      rfl
    rw [lookUp, find?_gatehouse, if_neg hne, hfallback]
  have hrejects : r.Rejects login :=
    ⟨⟨⟨0, gate ps, []⟩, ⟨"Gate", fun _ _ => .crash⟩⟩, .rejected "Gate" "closed", resolve_of_ok hlocate, _, rfl, rfl⟩
  refine ⟨hrejects, ?_, ?_⟩
  · rw [reply_of_rejects hrejects rfl, hlocate]
    rfl
  · rw [hlookUp, enter]

def withBase (r : Router) (base : String) : Router :=
  { r with settings := { r.settings with basePath := base } }

theorem reply_of_spares (h : r.Rejects q) (hlogin : r.settings.login = some login)
    (hspares : Spares r.settings.basePath login.uri) : (r.dispatch q).reply = r.enter (r.lookUp login) := by
  rw [reply_of_rejects h hlogin, locate_eq_lookUp hspares]

theorem spares_of_reply (base : String) (login : Request)
    (h : ∀ r : Router, r.settings.basePath = base → r.settings.login = some login → r.Rejects login →
      (r.dispatch login).reply = r.enter (r.lookUp login)) : Spares base login.uri := by
  by_cases hspares : Spares base login.uri
  · exact hspares
  · obtain hsame | ⟨rest, hrest⟩ := stripBase_cases base login.uri
    · rw [Spares, hsame]
    · obtain ⟨ps, hps⟩ := exists_parts hrest
      rw [Spares, hps] at hspares
      obtain ⟨hrejects, hreply, hmissed⟩ := gatehouse_astray hps (Ne.symm hspares)
      have hanswer := h (gatehouse base login ps) rfl rfl hrejects
      rw [hreply, hmissed] at hanswer
      cases hanswer

/-- A refused request is answered by the login path as a path of the table, on all routers with a base path,
exactly if the base path spares the login path. It does so unless the login path lies below it, and base
paths that spare it cannot be told apart. -/
theorem login_answers_iff_spares (base : String) (login : Request) :
    ((∀ (r : Router) q m, r.settings.basePath = base → r.settings.login = some login → r.Rejects q →
        (r.execute q m).1.reply = r.enter (r.lookUp login)) ↔ Spares base login.uri) ∧
    (¬IsBelow base login.uri → Spares base login.uri) ∧
    ∀ (r : Router) base' q q' m m', r.settings.basePath = base → r.settings.login = some login →
      Spares base login.uri → Spares base' login.uri → r.Rejects q → (r.withBase base').Rejects q' →
      ((r.withBase base').execute q' m').1.reply = (r.execute q m).1.reply := by
  simp only [run_execute]
  refine ⟨⟨fun h => ?_, fun hspares r q m hbase hlogin h => ?_⟩, spares_of_not_below, ?_⟩
  · exact spares_of_reply base login fun r hbase hlogin hrejects => h r login {} hbase hlogin hrejects
  · subst hbase
    exact reply_of_spares h hlogin hspares
  · rintro r base' q q' m m' rfl hlogin hspares hspares' h h'
    rw [reply_of_spares h hlogin hspares]
    exact reply_of_spares (r := r.withBase base') h' hlogin hspares'

def safe : Route :=
  ⟨.get, ⟨[.literal "safe"], none⟩, ⟨"Safe", "open"⟩⟩

/-- A site below a base path whose login page is a path of the table. -/
def lobby (base : String) : Router where
  table := ⟨[safe, ⟨.get, ⟨[.literal "app", .literal "login"], none⟩, ⟨"Login", "show"⟩⟩,
    ⟨.get, ⟨[.literal "login"], none⟩, ⟨"Other", "show"⟩⟩]⟩
  registry := ⟨["Safe", "Login", "Other"].map fun name => (name, ⟨0, fun _ => .ok fun _ _ => .value (.str name)⟩)⟩
  guard := some fun c => if c.name = "Safe" then .error (.rejected c.name "closed") else .ok ()
  settings := { basePath := base, login := some ⟨"GET", "/app/login"⟩ }

theorem lobby_rejects {base uri : String} (h : stripBase base uri = "/safe") :
    (lobby base).Rejects ⟨"GET", uri⟩ := by
  have hfind : (lobby base).table.find? ⟨"GET", stripBase base uri⟩ = some ⟨0, safe, []⟩ := by
    rw [h]
    rfl
  have hlocate : (lobby base).locate ⟨"GET", uri⟩ = .ok ⟨0, safe, []⟩ := by
    have hbase : (lobby base).settings.basePath = base := rfl
    rw [locate, hbase, hfind]
  exact ⟨⟨⟨0, safe, []⟩, ⟨"Safe", _⟩⟩, .rejected "Safe" "closed", resolve_of_ok hlocate, _, rfl, rfl⟩

theorem login_answers_iff_spares_lobby :
    Spares "/application" "/app/login" ∧ Spares "" "/app/login" ∧
      (lobby "/application").Rejects ⟨"GET", "/application/safe"⟩ ∧ (lobby "").Rejects ⟨"GET", "/safe"⟩ ∧
      ((lobby "/application").execute ⟨"GET", "/application/safe"⟩ {}).1.reply = .value (.str "Login") ∧
      ((lobby "").execute ⟨"GET", "/safe"⟩ {}).1.reply = .value (.str "Login") := by
  have hspares : Spares "/application" "/app/login" := by decide
  have hspares' : Spares "" "/app/login" := by decide
  have hrejects : (lobby "/application").Rejects ⟨"GET", "/application/safe"⟩ := lobby_rejects (by decide)
  have hrejects' : (lobby "").Rejects ⟨"GET", "/safe"⟩ := lobby_rejects (by decide)
  obtain ⟨hanswers, -, hsame⟩ := login_answers_iff_spares "/application" ⟨"GET", "/app/login"⟩
  have hlogin : ((lobby "/application").execute ⟨"GET", "/application/safe"⟩ {}).1.reply = .value (.str "Login") :=
    hanswers.2 hspares (lobby "/application") _ {} rfl rfl hrejects
  refine ⟨hspares, hspares', hrejects, hrejects', hlogin, ?_⟩
  rw [← hlogin]
  exact hsame (lobby "/application") "" _ _ {} {} rfl rfl hspares hspares' hrejects hrejects'

/-- Below the base path the login page is looked up without it, and another page answers. -/
theorem login_astray_lobby :
    (lobby "/app").Rejects ⟨"GET", "/app/safe"⟩ ∧
      (lobby "/app").enter ((lobby "/app").lookUp ⟨"GET", "/app/login"⟩) = .value (.str "Login") ∧
      ((lobby "/app").execute ⟨"GET", "/app/safe"⟩ {}).1.reply = .value (.str "Other") := by
  have hrejects : (lobby "/app").Rejects ⟨"GET", "/app/safe"⟩ := lobby_rejects (by decide)
  refine ⟨hrejects, rfl, ?_⟩
  rw [run_execute, reply_of_rejects hrejects rfl]
  rfl

end Router
end Signpost
