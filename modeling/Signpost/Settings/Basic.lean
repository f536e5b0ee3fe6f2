import Signpost.Route.Table

namespace Signpost

structure RouteSettings where
  file : String := "routes.txt"
  deriving DecidableEq, Repr

structure DispatchSettings where
  ns : String := ""
  /-- Where the router is mounted. -/
  basePath : String := ""
  /-- The request to look up when nothing matches. -/
  fallback : Request := {}
  /-- The request to answer instead when a controller is refused. -/
  login : Option Request := none
  deriving DecidableEq, Repr

inductive CacheKind where
  | file
  | memory
  deriving DecidableEq, Repr

structure CacheSettings where
  enabled : Bool := false
  backend : CacheKind := .file
  path : String := "routerunner-cache.json"
  deriving DecidableEq, Repr

structure ServerSettings where
  bindAddress : String := "127.0.0.1:8080"
  requestTimeout : Nat := 30
  watchRoutes : Bool := false
  deriving DecidableEq, Repr

structure ObservabilitySettings where
  logLevel : String := "info"
  metricsEnabled : Bool := false
  metricsAddress : String := "127.0.0.1:9090"
  deriving DecidableEq, Repr

structure Settings where
  routes : RouteSettings := {}
  dispatch : DispatchSettings := {}
  cache : CacheSettings := {}
  server : ServerSettings := {}
  observability : ObservabilitySettings := {}
  deriving DecidableEq, Repr

end Signpost
