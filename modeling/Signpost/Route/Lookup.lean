import Signpost.Failure

namespace Signpost.Table

def find (t : Table) (q : Request) : Except Failure Match :=
  match t.find? q with
  | some m => .ok m
  | none => .error (.routeNotFound q)

end Signpost.Table
