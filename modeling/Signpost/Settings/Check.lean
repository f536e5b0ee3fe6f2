import Signpost.Settings.Address
import Signpost.Settings.Basic
import Signpost.Text.Blank

namespace Signpost

inductive Complaint where
  | method (field value : String)
  | uri (field value : String)
  | basePath (value : String)
  | routesFile
  | cachePath
  | timeout
  | address (field value : String)
  deriving DecidableEq, Repr

namespace Complaint

def field : Complaint → String
  | method field _ | uri field _ | address field _ => field
  | basePath _ => "dispatch.base_path"
  | routesFile => "routes.file"
  | cachePath => "cache.path"
  | timeout => "server.request_timeout_secs"

def message : Complaint → String
  | method field value => s!"{field}: method `{value}` is empty or contains whitespace"
  | uri field value => s!"{field}: URI `{value}` must start with `/`"
  | basePath value => s!"dispatch.base_path `{value}` must be empty or start with `/`"
  | routesFile => "routes.file must not be empty"
  | cachePath => "cache.path must not be empty when the file cache is enabled"
  | timeout => "server.request_timeout_secs must be greater than 0"
  | address field value => s!"{field}: `{value}` is not a socket address"

end Complaint

namespace Settings

def startsWithSlash (s : String) : Bool :=
  s.toList.head? == some '/'

def complaintIf (b : Bool) (c : Complaint) : List Complaint :=
  if b then [c] else []

def checkRequest (field : String) (q : Request) : List Complaint :=
  complaintIf (q.method.isEmpty || q.method.toList.any Text.isBlank) (.method field q.method) ++
    complaintIf (!startsWithSlash q.uri) (.uri field q.uri)

def checkAddress (field value : String) : List Complaint :=
  complaintIf (!Address.isSocket value) (.address field value)

def check (s : Settings) : List Complaint :=
  complaintIf s.routes.file.isEmpty .routesFile ++
    checkRequest "dispatch.fallback" s.dispatch.fallback ++
    s.dispatch.login.elim [] (checkRequest "dispatch.login") ++
    complaintIf (!s.dispatch.basePath.isEmpty && !startsWithSlash s.dispatch.basePath)
      (.basePath s.dispatch.basePath) ++
    complaintIf (s.cache.enabled && s.cache.backend == .file && s.cache.path.isEmpty) .cachePath ++
    complaintIf (s.server.requestTimeout == 0) .timeout ++
    checkAddress "server.bind_address" s.server.bindAddress ++
    if s.observability.metricsEnabled then
      checkAddress "observability.metrics_address" s.observability.metricsAddress
    else []

end Settings

end Signpost
