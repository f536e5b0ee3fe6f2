import Signpost.Text.Split
import Signpost.Word

namespace Signpost.Address

open Text

def isHexDigit (c : Char) : Bool :=
  c.isDigit || ('a' ≤ c && c ≤ 'f') || ('A' ≤ c && c ≤ 'F')

def isNumberBelow (bound : Nat) (s : List Char) : Bool :=
  !s.isEmpty && s.all Char.isDigit && Nat.ofDigitChars 10 s 0 < bound

def isOctet (s : List Char) : Bool :=
  isNumberBelow 256 s && (s.length == 1 || s.head? != some '0') && s.length ≤ 3

def isIPv4 (s : List Char) : Bool :=
  let octets := split (· == '.') s
  octets.length == 4 && octets.all isOctet

def isGroup (s : List Char) : Bool :=
  !s.isEmpty && s.length ≤ 4 && s.all isHexDigit

def groupCount? : List (List Char) → Option Nat
  | [] => some 0
  | [last] => if isGroup last then some 1 else if isIPv4 last then some 2 else none
  | piece :: pieces => if isGroup piece then (groupCount? pieces).map (· + 1) else none

def pieces (s : List Char) : List (List Char) :=
  if s.isEmpty then [] else split (· == ':') s

def cutGap : List Char → Option (List Char × List Char)
  | [] => none
  | ':' :: ':' :: s => some ([], s)
  | c :: s => (cutGap s).map fun (before, after) => (c :: before, after)

def isIPv6 (s : List Char) : Bool :=
  match cutGap s with
  | none => groupCount? (pieces s) == some 8
  | some (before, after) =>
    (pieces before).all isGroup &&
      match groupCount? (pieces after) with
      | some n => (pieces before).length + n ≤ 7
      | none => false

def isScoped (s : List Char) : Bool :=
  match cut (· == '%') s with
  | (address, none) => isIPv6 address
  | (address, some scope) => isIPv6 address && isNumberBelow (Word.count 32) scope

def isSocketNumber (s : List Char) : Bool :=
  isNumberBelow (Word.count 16) s

def isSocketV4 (s : List Char) : Bool :=
  match cut (· == ':') s with
  | (address, some number) => isIPv4 address && isSocketNumber number
  | (_, none) => false

def isSocketV6 : List Char → Bool
  | '[' :: s =>
    match cut (· == ']') s with
    | (address, some (':' :: number)) => isScoped address && isSocketNumber number
    | _ => false
  | _ => false

def isSocket (s : String) : Bool :=
  isSocketV4 s.toList || isSocketV6 s.toList

end Signpost.Address
