import Signpost.Text.Split

namespace Signpost.Path

open Text

def isAbsolute (path : String) : Bool :=
  path.toList.head? == some '/'

def endsInSlash (path : String) : Bool :=
  path.toList.getLast? == some '/'

def steps (path : String) : List String :=
  (runs (· == '/') path.toList).map String.ofList

/-- A path from its end, without the slashes and the steps in place that stand there. The root and a
single dot remain. -/
def trimEnd : List Char → List Char
  | ['/'] => ['/']
  | '/' :: s => trimEnd s
  | '.' :: '/' :: s => trimEnd ('/' :: s)
  | s => s

def isInStep (c : Char) : Bool :=
  c != '/'

def parent? (path : String) : Option String :=
  match trimEnd path.toList.reverse with
  | [] | ['/'] => none
  | s => some (String.ofList (trimEnd (s.dropWhile isInStep)).reverse)

def fileName? (path : String) : Option String :=
  match String.ofList ((trimEnd path.toList.reverse).takeWhile isInStep).reverse with
  | "" | "." | ".." => none
  | name => some name

def join (directory name : String) : String :=
  if directory.isEmpty || endsInSlash directory then directory ++ name else directory ++ "/" ++ name

def sibling (path name : String) : String :=
  match fileName? path with
  | some _ => join ((parent? path).getD "") name
  | none => join path name

def directory (path : String) : String :=
  match parent? path with
  | none | some "" => "."
  | some p => p

end Signpost.Path
