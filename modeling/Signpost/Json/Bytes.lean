import Signpost.Json.Reader

namespace Signpost.Json

/-- Trailing halves of surrogate pairs, of which the second never has a partner. -/
def strayHalves : List Char :=
  "\\udc00\\udc00".toList

/-- The characters from place `i` on, with halves in place of the bytes that belong to none. Such a
byte may not be `escaped`, which means that a backslash stands right before it. -/
def charsFrom (content : ByteArray) : Nat → Bool → Nat → Option (List Char)
  | 0, _, _ => some []
  | fuel + 1, escaped, i =>
    if i < content.size then
      match content.utf8DecodeChar? i with
      | some c => (charsFrom content fuel (!escaped && c == '\\') (i + c.utf8Size)).map (c :: ·)
      | none =>
        if escaped then none else (charsFrom content fuel false (i + 1)).map (strayHalves ++ ·)
    else some []

def ofBytes? (content : ByteArray) : Option Json :=
  match String.fromUTF8? content with
  | some text => ofText? text
  | none => (charsFrom content content.size false 0).bind ofChars?

end Signpost.Json
