namespace Signpost.Http

abbrev Headers := List (String × List UInt8)

def isNameChar (c : Char) : Bool :=
  c.isAlphanum || "!#$%&'*+-.^_`|~".toList.contains c

def isName (name : String) : Bool :=
  !name.isEmpty && name.toList.all isNameChar

/-- Bytes beyond ASCII can be sent, control characters other than tabs cannot. -/
def isSendable (b : UInt8) : Bool :=
  b == 9 || (32 ≤ b && b != 127)

def requestIdHeader : String := "x-request-id"

def isVisible (b : UInt8) : Bool :=
  b == 9 || (32 ≤ b && b < 127)

/-- The first such header counts. Without one, or with a value that is not visible ASCII text, the
identifier is `unknown`. -/
def requestId (headers : Headers) : String :=
  match headers.find? fun (name, _) => name.toLower == requestIdHeader with
  | some (_, value) =>
    if value.all isVisible then String.ofList (value.map fun b => Char.ofNat b.toNat) else "unknown"
  | none => "unknown"

end Signpost.Http
