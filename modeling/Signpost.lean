import Signpost.Cli.Run
import Signpost.Disk.Tree
import Signpost.Dispatch.Assembly
import Signpost.Dispatch.Stub
import Signpost.Http.RequestId
import Signpost.Http.Server
import Signpost.Http.Service
import Signpost.Main
import Signpost.Metrics
import Signpost.Proofs.Cache.Atomicity
import Signpost.Proofs.Cache.Codec
import Signpost.Proofs.Cache.Document
import Signpost.Proofs.Cache.Site
import Signpost.Proofs.Cache.Staging
import Signpost.Proofs.Cli.Status
import Signpost.Proofs.Decimal
import Signpost.Proofs.Disk.Parent
import Signpost.Proofs.Dispatch.Authorization
import Signpost.Proofs.Dispatch.BasePath
import Signpost.Proofs.Dispatch.Construction
import Signpost.Proofs.Dispatch.Fragment
import Signpost.Proofs.Dispatch.Login
import Signpost.Proofs.Dispatch.Mount
import Signpost.Proofs.Dispatch.Provenance
import Signpost.Proofs.Except
import Signpost.Proofs.Http.Disclosure
import Signpost.Proofs.Http.Rendering
import Signpost.Proofs.Http.Service
import Signpost.Proofs.Json.Atom
import Signpost.Proofs.Json.Canonical
import Signpost.Proofs.Json.Locality
import Signpost.Proofs.Json.RoundTrip
import Signpost.Proofs.Json.Truncation
import Signpost.Proofs.Load.Backends
import Signpost.Proofs.Load.Loader
import Signpost.Proofs.Load.Preservation
import Signpost.Proofs.Load.Session
import Signpost.Proofs.Load.Staleness
import Signpost.Proofs.Load.Transparency
import Signpost.Proofs.Load.Truncation
import Signpost.Proofs.Lookup
import Signpost.Proofs.Metrics
import Signpost.Proofs.Route.Captures
import Signpost.Proofs.Route.Document
import Signpost.Proofs.Route.Faults
import Signpost.Proofs.Route.Grammar
import Signpost.Proofs.Route.Line
import Signpost.Proofs.Route.Lookup
import Signpost.Proofs.Route.Namespace
import Signpost.Proofs.Route.Parts
import Signpost.Proofs.Route.Printing
import Signpost.Proofs.Route.Shadowing
import Signpost.Proofs.Route.Source
import Signpost.Proofs.Settings.Document
import Signpost.Proofs.Settings.Reachability
import Signpost.Proofs.Text.Split
import Signpost.Route.Lookup
