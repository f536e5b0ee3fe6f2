import Signpost.Json.Reader
import Signpost.Json.Record
import Signpost.Settings.Basic
import Signpost.Word

namespace Signpost

open Json (Dialect fieldOr partialRecord? record? required string? bool? natBelow? optional?)

variable (d : Dialect)

/-- The only record without defaults. -/
def Request.ofJson? (v : Json) : Option Request := do
  let fields ← record? d ["method", "uri"] v
  let method ← required fields "method" string?
  let uri ← required fields "uri" string?
  return ⟨method, uri⟩

def RouteSettings.ofJson? (v : Json) : Option RouteSettings := do
  let dflt : RouteSettings := {}
  let fields ← partialRecord? d ["file"] v
  let file ← fieldOr fields "file" dflt.file string?
  return ⟨file⟩

def DispatchSettings.ofJson? (v : Json) : Option DispatchSettings := do
  let dflt : DispatchSettings := {}
  let fields ← partialRecord? d ["namespace", "base_path", "fallback", "login"] v
  let ns ← fieldOr fields "namespace" dflt.ns string?
  let basePath ← fieldOr fields "base_path" dflt.basePath string?
  let fallback ← fieldOr fields "fallback" dflt.fallback (Request.ofJson? d)
  let login ← fieldOr fields "login" dflt.login (optional? (Request.ofJson? d))
  return ⟨ns, basePath, fallback, login⟩

def CacheKind.ofJson? (v : Json) : Option CacheKind :=
  match Json.bareChoice? d v with
  | some "file" => some .file
  | some "memory" => some .memory
  | _ => none

def CacheSettings.ofJson? (v : Json) : Option CacheSettings := do
  let dflt : CacheSettings := {}
  let fields ← partialRecord? d ["enabled", "backend", "path"] v
  let enabled ← fieldOr fields "enabled" dflt.enabled bool?
  let backend ← fieldOr fields "backend" dflt.backend (CacheKind.ofJson? d)
  let path ← fieldOr fields "path" dflt.path string?
  return ⟨enabled, backend, path⟩

def ServerSettings.ofJson? (v : Json) : Option ServerSettings := do
  let dflt : ServerSettings := {}
  let fields ← partialRecord? d ["bind_address", "request_timeout_secs", "watch_routes"] v
  let bindAddress ← fieldOr fields "bind_address" dflt.bindAddress string?
  let requestTimeout ← fieldOr fields "request_timeout_secs" dflt.requestTimeout (natBelow? (Word.count 64))
  let watchRoutes ← fieldOr fields "watch_routes" dflt.watchRoutes bool?
  return ⟨bindAddress, requestTimeout, watchRoutes⟩

def ObservabilitySettings.ofJson? (v : Json) : Option ObservabilitySettings := do
  let dflt : ObservabilitySettings := {}
  let fields ← partialRecord? d ["log_level", "metrics_enabled", "metrics_address"] v
  let logLevel ← fieldOr fields "log_level" dflt.logLevel string?
  let metricsEnabled ← fieldOr fields "metrics_enabled" dflt.metricsEnabled bool?
  let metricsAddress ← fieldOr fields "metrics_address" dflt.metricsAddress string?
  return ⟨logLevel, metricsEnabled, metricsAddress⟩

def Settings.ofJson? (v : Json) : Option Settings := do
  let dflt : Settings := {}
  let fields ← partialRecord? d ["routes", "dispatch", "cache", "server", "observability"] v
  let routes ← fieldOr fields "routes" dflt.routes (RouteSettings.ofJson? d)
  let dispatch ← fieldOr fields "dispatch" dflt.dispatch (DispatchSettings.ofJson? d)
  let cache ← fieldOr fields "cache" dflt.cache (CacheSettings.ofJson? d)
  let server ← fieldOr fields "server" dflt.server (ServerSettings.ofJson? d)
  let observability ← fieldOr fields "observability" dflt.observability (ObservabilitySettings.ofJson? d)
  return ⟨routes, dispatch, cache, server, observability⟩

def Settings.ofJsonText? (text : String) : Option Settings :=
  (Json.ofText? text).bind (Settings.ofJson? .json)

def Request.toJson (q : Request) : Json :=
  .obj [("method", .str q.method), ("uri", .str q.uri)]

def RouteSettings.toJson (s : RouteSettings) : Json :=
  .obj [("file", .str s.file)]

def DispatchSettings.toJson (s : DispatchSettings) : Json :=
  .obj [("namespace", .str s.ns), ("base_path", .str s.basePath),
    ("fallback", s.fallback.toJson), ("login", s.login.elim .null Request.toJson)]

def CacheKind.toJson : CacheKind → Json
  | file => .str "file"
  | memory => .str "memory"

def CacheSettings.toJson (s : CacheSettings) : Json :=
  .obj [("enabled", .bool s.enabled), ("backend", s.backend.toJson), ("path", .str s.path)]

def ServerSettings.toJson (s : ServerSettings) : Json :=
  .obj [("bind_address", .str s.bindAddress), ("request_timeout_secs", .int s.requestTimeout),
    ("watch_routes", .bool s.watchRoutes)]

def ObservabilitySettings.toJson (s : ObservabilitySettings) : Json :=
  .obj [("log_level", .str s.logLevel), ("metrics_enabled", .bool s.metricsEnabled),
    ("metrics_address", .str s.metricsAddress)]

def Settings.toJson (s : Settings) : Json :=
  .obj [("routes", s.routes.toJson), ("dispatch", s.dispatch.toJson), ("cache", s.cache.toJson),
    ("server", s.server.toJson), ("observability", s.observability.toJson)]

end Signpost
