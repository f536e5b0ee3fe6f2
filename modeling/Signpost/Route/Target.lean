import Signpost.Route.Fault

namespace Signpost

structure Target where
  controller : String
  action : String
  deriving DecidableEq, Repr

namespace Target

def cutArrow : List Char → Option (List Char × List Char)
  | [] => none
  | '-' :: '>' :: s => some ([], s)
  | c :: s => (cutArrow s).map fun (before, after) => (c :: before, after)

def isNameChar (c : Char) : Bool :=
  c.isAlphanum || c == '_'

def isControllerName : List Char → Bool
  | c :: s => c.isAlpha && s.all isNameChar
  | [] => false

def isActionName : List Char → Bool
  | c :: s => (c.isAlpha || c == '_') && s.all isNameChar
  | [] => false

def ofChars (s : List Char) : Except Fault Target :=
  match cutArrow s with
  | some (controller, action) =>
    if isControllerName controller && isActionName action then
      .ok ⟨String.ofList controller, String.ofList action⟩
    else .error (.target (String.ofList s))
  | none => .error (.target (String.ofList s))

def toText (t : Target) : String :=
  t.controller ++ "->" ++ t.action

def dropColonPairs : List Char → List Char
  | ':' :: ':' :: s => dropColonPairs s
  | s => s

def trimNamespace (ns : String) : List Char :=
  (dropColonPairs ns.toList.reverse).reverse

def qualified (t : Target) (ns : String) : String :=
  match trimNamespace ns with
  | [] => t.controller
  | ns => String.ofList ns ++ "::" ++ t.controller

end Target

end Signpost
