namespace Signpost

inductive Origin where
  /-- Read without a cache. -/
  | direct
  /-- Read because the cache was empty. -/
  | parsed
  | cache
  /-- Read because the cache was out of date or unreadable. -/
  | refreshed
  deriving DecidableEq, Repr

def Origin.text : Origin → String
  | direct => "direct"
  | parsed => "parsed"
  | cache => "cache"
  | refreshed => "refreshed"

end Signpost
