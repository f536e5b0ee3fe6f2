import Signpost.Route.Fault
import Signpost.Text.Split

namespace Signpost

open Text

inductive Segment where
  | literal (text : String)
  | text
  | digits
  deriving DecidableEq, Repr

namespace Segment

def isPlaceholder : Segment → Bool
  | literal _ => false
  | _ => true

def toText : Segment → String
  | literal t => t
  | text => "[string]"
  | digits => "[numeric]"

def ofChars (s : List Char) : Except Fault Segment :=
  if s = "[string]".toList then .ok text
  else if s = "[numeric]".toList then .ok digits
  else if s.all Char.isAlphanum then .ok (literal (String.ofList s))
  else .error (.segment (String.ofList s))

def accepts : Segment → List Char → Bool
  | literal t, part => part = t.toList
  | text, part => !part.isEmpty
  | digits, part => !part.isEmpty && part.all Char.isDigit

def captures : List Segment → List (List Char) → Option (List String)
  | [], [] => some []
  | seg :: segs, part :: parts =>
    if seg.accepts part then
      (captures segs parts).map fun found =>
        if seg.isPlaceholder then String.ofList part :: found else found
    else none
  | _, _ => none

end Segment

structure Pattern where
  segments : List Segment
  anchor : Option String
  deriving DecidableEq, Repr

namespace Pattern

def anchorOfChars (s : List Char) : Except Fault String :=
  if !s.isEmpty && s.all Char.isAlphanum then .ok (String.ofList s)
  else .error (.anchor (String.ofList s))

/-- A field without its anchor, and the anchor. The first `#` starts it. -/
def splitAnchor (s : List Char) : Except Fault (List Char × Option String) :=
  match cut (· == '#') s with
  | (rest, none) => .ok (rest, none)
  | (rest, some a) => do
    let anchor ← anchorOfChars a
    return (rest, some anchor)

def ofChars (s : List Char) : Except Fault Pattern := do
  let (path, anchor) ← splitAnchor s
  match path with
  | '/' :: rest =>
    let segments ← (split (· == '/') rest).mapM Segment.ofChars
    return ⟨segments, anchor⟩
  | _ => throw (.uri (String.ofList s))

def hasPlaceholder (p : Pattern) : Bool :=
  p.segments.any Segment.isPlaceholder

def parts? (uri : List Char) : Option (List (List Char)) :=
  match (cut (· == '#') uri).1 with
  | '/' :: rest => some (split (· == '/') rest)
  | _ => none

def captures (p : Pattern) (uri : String) : Option (List String) :=
  (parts? uri.toList).bind (Segment.captures p.segments)

def accepts (p : Pattern) (uri : String) : Bool :=
  (p.captures uri).isSome

def toText (p : Pattern) : String :=
  String.join (p.segments.map ("/" ++ ·.toText)) ++
    match p.anchor with
    | some a => "#" ++ a
    | none => ""

end Pattern

end Signpost
