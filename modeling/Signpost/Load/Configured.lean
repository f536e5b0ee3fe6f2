import Signpost.Cache.File
import Signpost.Load.Loader
import Signpost.Settings.Basic

namespace Signpost

def CacheSettings.cache (s : CacheSettings) : Cache :=
  match s.backend with
  | .file => .file s.path
  | .memory => .memory

/-- The cache is there even if loads are not to use it. -/
def CacheSettings.loader (s : CacheSettings) : Loader :=
  ⟨some s.cache, s.enabled⟩

end Signpost
