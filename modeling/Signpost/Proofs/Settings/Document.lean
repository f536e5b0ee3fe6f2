import Signpost.Proofs.Json.Record
import Signpost.Proofs.Json.RoundTrip
import Signpost.Settings.Document

namespace Signpost

open Json (Slot IsRecord Chosen Dialect fieldOr required string? bool? natBelow? optional?)

variable {d : Dialect} {v : Json}

def Request.slots (q : Request) : List Slot :=
  [.exact "method" (.str q.method) False, .exact "uri" (.str q.uri) False]

def Request.Written (q : Request) : Json → Prop :=
  IsRecord q.slots

def RouteSettings.slots (s : RouteSettings) : List Slot :=
  let dflt : RouteSettings := {}
  [.exact "file" (.str s.file) (dflt.file = s.file)]

def RouteSettings.Written (s : RouteSettings) : Json → Prop :=
  IsRecord s.slots

/-- No request is written as null. -/
def Request.WrittenOrNull : Option Request → Json → Prop
  | none, v => v = .null
  | some q, v => q.Written v

def DispatchSettings.slots (s : DispatchSettings) : List Slot :=
  let dflt : DispatchSettings := {}
  [.exact "namespace" (.str s.ns) (dflt.ns = s.ns), .exact "base_path" (.str s.basePath) (dflt.basePath = s.basePath),
    ⟨"fallback", s.fallback.Written, dflt.fallback = s.fallback⟩,
    ⟨"login", Request.WrittenOrNull s.login, dflt.login = s.login⟩]

def DispatchSettings.Written (s : DispatchSettings) : Json → Prop :=
  IsRecord s.slots

def CacheSettings.slots (s : CacheSettings) : List Slot :=
  let dflt : CacheSettings := {}
  [.exact "enabled" (.bool s.enabled) (dflt.enabled = s.enabled),
    .exact "backend" s.backend.toJson (dflt.backend = s.backend), .exact "path" (.str s.path) (dflt.path = s.path)]

def CacheSettings.Written (s : CacheSettings) : Json → Prop :=
  IsRecord s.slots

def ServerSettings.slots (s : ServerSettings) : List Slot :=
  let dflt : ServerSettings := {}
  [.exact "bind_address" (.str s.bindAddress) (dflt.bindAddress = s.bindAddress),
    .exact "request_timeout_secs" (.int s.requestTimeout) (dflt.requestTimeout = s.requestTimeout),
    .exact "watch_routes" (.bool s.watchRoutes) (dflt.watchRoutes = s.watchRoutes)]

def ServerSettings.Written (s : ServerSettings) : Json → Prop :=
  IsRecord s.slots

def ObservabilitySettings.slots (s : ObservabilitySettings) : List Slot :=
  let dflt : ObservabilitySettings := {}
  [.exact "log_level" (.str s.logLevel) (dflt.logLevel = s.logLevel),
    .exact "metrics_enabled" (.bool s.metricsEnabled) (dflt.metricsEnabled = s.metricsEnabled),
    .exact "metrics_address" (.str s.metricsAddress) (dflt.metricsAddress = s.metricsAddress)]

def ObservabilitySettings.Written (s : ObservabilitySettings) : Json → Prop :=
  IsRecord s.slots

def Settings.slots (s : Settings) : List Slot :=
  let dflt : Settings := {}
  [⟨"routes", s.routes.Written, dflt.routes = s.routes⟩, ⟨"dispatch", s.dispatch.Written, dflt.dispatch = s.dispatch⟩,
    ⟨"cache", s.cache.Written, dflt.cache = s.cache⟩, ⟨"server", s.server.Written, dflt.server = s.server⟩,
    ⟨"observability", s.observability.Written, dflt.observability = s.observability⟩]

def Settings.Written (s : Settings) : Json → Prop :=
  IsRecord s.slots

theorem Request.ofJson?_of_written {q : Request} (h : q.Written v) : ofJson? d v = some q := by
  obtain ⟨fields, rfl, hfields⟩ := h.fills ["method", "uri"] rfl (by decide)
  have hmethod : required fields "method" string? = some q.method := hfields.required_exact_eq (.head _) rfl
  have huri : required fields "uri" string? = some q.uri := hfields.required_exact_eq (.tail _ (.head _)) rfl
  rw [ofJson?, hfields.record?_eq]
  simp only [hmethod, huri, Option.bind_eq_bind, Option.bind_some, Option.pure_def]

theorem Request.optional?_of_written {login : Option Request} (h : WrittenOrNull login v) :
    optional? (ofJson? d) v = some login := by
  cases login with
  | none =>
      obtain rfl : v = .null := h
      rfl
  | some q =>
      have hread : ofJson? d v = some q := ofJson?_of_written h
      obtain ⟨fields, rfl, -⟩ := IsRecord.fills h ["method", "uri"] rfl (by decide)
      rw [optional?, hread]
      · rfl
      · simp

theorem RouteSettings.ofJson?_of_written {s : RouteSettings} (h : s.Written v) : ofJson? d v = some s := by
  obtain ⟨fields, rfl, hfields⟩ := h.fills ["file"] rfl (by decide)
  have hfile : fieldOr fields "file" ({} : RouteSettings).file string? = some s.file :=
    hfields.fieldOr_exact_eq (.head _) rfl id
  rw [ofJson?, hfields.partialRecord?_eq]
  simp only [hfile, Option.bind_eq_bind, Option.bind_some, Option.pure_def]

theorem DispatchSettings.ofJson?_of_written {s : DispatchSettings} (h : s.Written v) : ofJson? d v = some s := by
  obtain ⟨fields, rfl, hfields⟩ := h.fills ["namespace", "base_path", "fallback", "login"] rfl (by decide)
  have hns : fieldOr fields "namespace" ({} : DispatchSettings).ns string? = some s.ns :=
    hfields.fieldOr_exact_eq (.head _) rfl id
  have hbase : fieldOr fields "base_path" ({} : DispatchSettings).basePath string? = some s.basePath :=
    hfields.fieldOr_exact_eq (.tail _ (.head _)) rfl id
  have hfallback : fieldOr fields "fallback" ({} : DispatchSettings).fallback (Request.ofJson? d) = some s.fallback :=
    hfields.fieldOr_eq (.tail _ (.tail _ (.head _))) (fun _ => Request.ofJson?_of_written) id
  have hlogin : fieldOr fields "login" ({} : DispatchSettings).login (optional? (Request.ofJson? d)) = some s.login :=
    hfields.fieldOr_eq (.tail _ (.tail _ (.tail _ (.head _)))) (fun _ => Request.optional?_of_written) id
  rw [ofJson?, hfields.partialRecord?_eq]
  simp only [hns, hbase, hfallback, hlogin, Option.bind_eq_bind, Option.bind_some, Option.pure_def]

theorem CacheKind.ofJson?_toJson (k : CacheKind) : ofJson? d k.toJson = some k := by
  cases k <;> rfl

theorem CacheSettings.ofJson?_of_written {s : CacheSettings} (h : s.Written v) : ofJson? d v = some s := by
  obtain ⟨fields, rfl, hfields⟩ := h.fills ["enabled", "backend", "path"] rfl (by decide)
  have henabled : fieldOr fields "enabled" ({} : CacheSettings).enabled bool? = some s.enabled :=
    hfields.fieldOr_exact_eq (.head _) rfl id
  have hbackend : fieldOr fields "backend" ({} : CacheSettings).backend (CacheKind.ofJson? d) = some s.backend :=
    hfields.fieldOr_exact_eq (.tail _ (.head _)) s.backend.ofJson?_toJson id
  have hpath : fieldOr fields "path" ({} : CacheSettings).path string? = some s.path :=
    hfields.fieldOr_exact_eq (.tail _ (.tail _ (.head _))) rfl id
  rw [ofJson?, hfields.partialRecord?_eq]
  simp only [henabled, hbackend, hpath, Option.bind_eq_bind, Option.bind_some, Option.pure_def]

/-- The time limit has to fit 64 bits. -/
theorem ServerSettings.ofJson?_of_written {s : ServerSettings} (hfit : s.requestTimeout < Word.count 64)
    (h : s.Written v) : ofJson? d v = some s := by
  obtain ⟨fields, rfl, hfields⟩ := h.fills ["bind_address", "request_timeout_secs", "watch_routes"] rfl (by decide)
  have haddress : fieldOr fields "bind_address" ({} : ServerSettings).bindAddress string? = some s.bindAddress :=
    hfields.fieldOr_exact_eq (.head _) rfl id
  have htimeout : fieldOr fields "request_timeout_secs" ({} : ServerSettings).requestTimeout
      (natBelow? (Word.count 64)) = some s.requestTimeout :=
    hfields.fieldOr_exact_eq (.tail _ (.head _)) (Json.natBelow?_int hfit) id
  have hwatch : fieldOr fields "watch_routes" ({} : ServerSettings).watchRoutes bool? = some s.watchRoutes :=
    hfields.fieldOr_exact_eq (.tail _ (.tail _ (.head _))) rfl id
  rw [ofJson?, hfields.partialRecord?_eq]
  simp only [haddress, htimeout, hwatch, Option.bind_eq_bind, Option.bind_some, Option.pure_def]

theorem ObservabilitySettings.ofJson?_of_written {s : ObservabilitySettings} (h : s.Written v) :
    ofJson? d v = some s := by
  obtain ⟨fields, rfl, hfields⟩ := h.fills ["log_level", "metrics_enabled", "metrics_address"] rfl (by decide)
  have hlevel : fieldOr fields "log_level" ({} : ObservabilitySettings).logLevel string? = some s.logLevel :=
    hfields.fieldOr_exact_eq (.head _) rfl id
  have henabled : fieldOr fields "metrics_enabled" ({} : ObservabilitySettings).metricsEnabled bool? =
      some s.metricsEnabled :=
    hfields.fieldOr_exact_eq (.tail _ (.head _)) rfl id
  have haddress : fieldOr fields "metrics_address" ({} : ObservabilitySettings).metricsAddress string? =
      some s.metricsAddress :=
    hfields.fieldOr_exact_eq (.tail _ (.tail _ (.head _))) rfl id
  rw [ofJson?, hfields.partialRecord?_eq]
  simp only [hlevel, henabled, haddress, Option.bind_eq_bind, Option.bind_some, Option.pure_def]

namespace Settings

variable {s : Settings}

theorem ofJson?_of_written (hfit : s.server.requestTimeout < Word.count 64) (h : s.Written v) :
    ofJson? d v = some s := by
  obtain ⟨fields, rfl, hfields⟩ :=
    h.fills ["routes", "dispatch", "cache", "server", "observability"] rfl (by decide)
  have hroutes : fieldOr fields "routes" ({} : Settings).routes (RouteSettings.ofJson? d) = some s.routes :=
    hfields.fieldOr_eq (.head _) (fun _ => RouteSettings.ofJson?_of_written) id
  have hdispatch : fieldOr fields "dispatch" ({} : Settings).dispatch (DispatchSettings.ofJson? d) = some s.dispatch :=
    hfields.fieldOr_eq (.tail _ (.head _)) (fun _ => DispatchSettings.ofJson?_of_written) id
  have hcache : fieldOr fields "cache" ({} : Settings).cache (CacheSettings.ofJson? d) = some s.cache :=
    hfields.fieldOr_eq (.tail _ (.tail _ (.head _))) (fun _ => CacheSettings.ofJson?_of_written) id
  have hserver : fieldOr fields "server" ({} : Settings).server (ServerSettings.ofJson? d) = some s.server :=
    hfields.fieldOr_eq (.tail _ (.tail _ (.tail _ (.head _)))) (fun _ => ServerSettings.ofJson?_of_written hfit) id
  have hobservability : fieldOr fields "observability" ({} : Settings).observability (ObservabilitySettings.ofJson? d) =
      some s.observability :=
    hfields.fieldOr_eq (.tail _ (.tail _ (.tail _ (.tail _ (.head _)))))
      (fun _ => ObservabilitySettings.ofJson?_of_written) id
  rw [ofJson?, hfields.partialRecord?_eq]
  simp only [hroutes, hdispatch, hcache, hserver, hobservability, Option.bind_eq_bind, Option.bind_some,
    Option.pure_def]

end Settings

theorem Request.written_toJson (q : Request) : q.Written q.toJson :=
  Json.isRecord_of_chosen (.keep rfl (.keep rfl .nil))

theorem DispatchSettings.written_toJson (s : DispatchSettings) : s.Written s.toJson := by
  have hlogin : Request.WrittenOrNull s.login (s.login.elim .null Request.toJson) := by
    cases s.login with
    | none => rfl
    | some q => exact q.written_toJson
  exact Json.isRecord_of_chosen (.keep rfl (.keep rfl (.keep s.fallback.written_toJson (.keep hlogin .nil))))

theorem Settings.written_toJson (s : Settings) : s.Written s.toJson := by
  have hroutes : s.routes.Written s.routes.toJson := Json.isRecord_of_chosen (.keep rfl .nil)
  have hcache : s.cache.Written s.cache.toJson := Json.isRecord_of_chosen (.keep rfl (.keep rfl (.keep rfl .nil)))
  have hserver : s.server.Written s.server.toJson := Json.isRecord_of_chosen (.keep rfl (.keep rfl (.keep rfl .nil)))
  have hobservability : s.observability.Written s.observability.toJson :=
    Json.isRecord_of_chosen (.keep rfl (.keep rfl (.keep rfl .nil)))
  apply Json.isRecord_of_chosen
  exact .keep hroutes (.keep s.dispatch.written_toJson (.keep hcache (.keep hserver (.keep hobservability .nil))))

section

variable {fields endpoint : List (String × Json)} {name : String}

/-- One of the two fields of a request is not there. -/
def Request.Lacks (fields : List (String × Json)) : Prop :=
  (∀ v, ("method", v) ∉ fields) ∨ ∀ v, ("uri", v) ∉ fields

theorem Request.ofJson?_of_lacks (h : Lacks fields) : ofJson? d (.obj fields) = none := by
  rw [ofJson?, Option.bind_eq_bind, Option.bind_eq_none_iff]
  intro found hfound
  obtain ⟨-, rfl⟩ := Json.record?_obj_eq_some_iff.1 hfound
  rcases h with h | h
  · rw [Json.required_eq_none h]
    rfl
  · rw [Json.required_eq_none h]
    cases required fields "method" string? <;> rfl

theorem DispatchSettings.ofJson?_of_lacks (hlacks : Request.Lacks endpoint) (hmem : (name, .obj endpoint) ∈ fields)
    (hname : name = "fallback" ∨ name = "login") : ofJson? d (.obj fields) = none := by
  have hread : Request.ofJson? d (.obj endpoint) = none := Request.ofJson?_of_lacks hlacks
  rw [ofJson?, Option.bind_eq_bind, Option.bind_eq_none_iff]
  intro found hfound
  obtain ⟨honce, rfl⟩ := Json.partialRecord?_obj_eq_some_iff.1 hfound
  simp only [Option.bind_eq_bind, Option.bind_eq_none_iff]
  intro ns hns basePath hbase fallback hfallback login hlogin
  rcases hname with rfl | rfl
  · rw [Json.fieldOr_of_mem honce (by decide) hmem, hread] at hfallback
    cases hfallback
  · rw [Json.fieldOr_of_mem honce (by decide) hmem, optional?, hread] at hlogin
    · cases hlogin
    · simp

theorem Settings.ofJson?_of_lacks {dispatch : List (String × Json)} (hlacks : Request.Lacks endpoint)
    (hdispatch : ("dispatch", .obj dispatch) ∈ fields) (hmem : (name, .obj endpoint) ∈ dispatch)
    (hname : name = "fallback" ∨ name = "login") : ofJson? d (.obj fields) = none := by
  have hread : DispatchSettings.ofJson? d (.obj dispatch) = none :=
    DispatchSettings.ofJson?_of_lacks hlacks hmem hname
  rw [ofJson?, Option.bind_eq_bind, Option.bind_eq_none_iff]
  intro found hfound
  obtain ⟨honce, rfl⟩ := Json.partialRecord?_obj_eq_some_iff.1 hfound
  simp only [Option.bind_eq_bind, Option.bind_eq_none_iff]
  intro routes hroutes settings hsettings
  rw [Json.fieldOr_of_mem honce (by decide) hdispatch, hread] at hsettings
  cases hsettings

end

namespace Settings

/-- Settings are read back from every document that writes them, in whatever order, with whatever fields of unknown
names and without whatever is as by default, and the text of such a document can be read. One of the two fields of a
request is never left out. -/
theorem ofJsonText?_faithful :
    (∀ (s : Settings) (v : Json), s.server.requestTimeout < Word.count 64 → s.Written v →
      (∀ text, Json.ofText? text = some v → ofJsonText? text = some s) ∧
        (v.IsPlain → ofJsonText? v.toText = some s)) ∧
    (∀ s : Settings, s.Written s.toJson) ∧
    ∀ (text name : String) (fields dispatch endpoint : List (String × Json)),
      Json.ofText? text = some (.obj fields) → ("dispatch", .obj dispatch) ∈ fields →
      (name, .obj endpoint) ∈ dispatch → name = "fallback" ∨ name = "login" → Request.Lacks endpoint →
      ofJsonText? text = none := by
  refine ⟨fun s v hfit hwritten => ?_, written_toJson, ?_⟩
  · have hdecode : ∀ text, Json.ofText? text = some v → ofJsonText? text = some s := by
      intro text htext
      rw [ofJsonText?, htext]
      exact ofJson?_of_written hfit hwritten
    exact ⟨hdecode, fun hplain => hdecode _ (Json.ofText?_toText hplain)⟩
  · intro text name fields dispatch endpoint htext hdispatch hmem hname hlacks
    rw [ofJsonText?, htext]
    exact ofJson?_of_lacks hlacks hdispatch hmem hname

def withLogin : Settings :=
  { dispatch := { ns := "app", login := some ⟨"POST", "/in"⟩ }, server := { requestTimeout := 5 } }

def withLoginDocument : Json :=
  .obj [("x", .real "1.5e3"), ("server", .obj [("request_timeout_secs", .int 5)]),
    ("dispatch", .obj [("login", .obj [("n", .real "-0"), ("uri", .str "/in"), ("method", .str "POST")]),
      ("namespace", .str "app")])]

theorem written_withLoginDocument : withLogin.Written withLoginDocument := by
  have hlogin : Request.WrittenOrNull withLogin.dispatch.login
      (.obj [("n", .real "-0"), ("uri", .str "/in"), ("method", .str "POST")]) := by
    have hforeign : ∀ field ∈ [("n", Json.real "-0")], ∀ slot ∈ Request.slots ⟨"POST", "/in"⟩, field.1 ≠ slot.name := by
      simp [Request.slots, Slot.exact]
    exact .intro (.keep rfl (.keep rfl .nil)) hforeign (List.reverse_perm _).symm
  have hdispatch : withLogin.dispatch.Written (.obj [("login", _), ("namespace", .str "app")]) :=
    .intro (.keep rfl (.lack rfl (.lack rfl (.keep hlogin .nil)))) (by simp) (List.reverse_perm _).symm
  have hserver : withLogin.server.Written (.obj [("request_timeout_secs", .int 5)]) :=
    Json.isRecord_of_chosen (.lack rfl (.keep rfl (.lack rfl .nil)))
  have hforeign : ∀ field ∈ [("x", Json.real "1.5e3")], ∀ slot ∈ withLogin.slots, field.1 ≠ slot.name := by
    simp [slots]
  exact .intro (.lack rfl (.keep hdispatch (.lack rfl (.keep hserver (.lack rfl .nil))))) hforeign
    (List.reverse_perm _).symm

theorem isPlain_withLoginDocument : withLoginDocument.IsPlain := by
  have hone : Json.IsWhole ['1'] := ⟨⟨by simp, by simp⟩, by simp⟩
  have hzero : Json.IsWhole ['0'] := ⟨⟨by simp, by simp⟩, by simp⟩
  have hfloat : Json.IsPlain (.real "1.5e3") :=
    @Json.IsReal.decimal false ['1'] ['.', '5'] ['e', '3'] hone (.present ⟨by simp, by simp⟩)
      (.present (.inl rfl) (.inl rfl) ⟨by simp, by simp⟩) (.inl (by simp))
  have hminus : Json.IsPlain (.real "-0") := by
    apply @Json.IsReal.integer true ['0'] hzero
    rw [Json.ofDigits]
    rfl
  have hfive : Json.IsPlain (.int 5) := ⟨by decide, by decide⟩
  exact ⟨hfloat, ⟨hfive, trivial⟩, ⟨⟨hminus, trivial, trivial, trivial⟩, trivial, trivial⟩, trivial⟩

theorem ofJsonText?_faithful_withLogin :
    withLogin.Written withLoginDocument ∧ withLoginDocument.IsPlain ∧
      ofJsonText? withLoginDocument.toText = some withLogin ∧
      ofJsonText? (Json.toText (.obj [("dispatch", .obj [("login", .obj [("uri", .str "/in")])])])) = none := by
  obtain ⟨hread, -, hlacks⟩ := ofJsonText?_faithful
  have hwritten := written_withLoginDocument
  have hplain := isPlain_withLoginDocument
  have hlacking : Json.IsPlain (.obj [("dispatch", .obj [("login", .obj [("uri", .str "/in")])])]) :=
    ⟨⟨⟨trivial, trivial⟩, trivial⟩, trivial⟩
  refine ⟨hwritten, hplain, (hread _ _ (by decide) hwritten).2 hplain, ?_⟩
  exact hlacks _ _ _ _ _ (Json.ofText?_toText hlacking) (.head _) (.head _) (.inr rfl) (.inl (by simp))

end Settings
end Signpost
