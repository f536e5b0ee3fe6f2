namespace Signpost

inductive SystemError where
  | notFound
  | busy
  | alreadyThere
  | notADirectory
  | isADirectory
  | denied
  | nameTooLong
  | unreachable
  | notAFile
  | zeroInName
  | notText
  | other (text : String)
  deriving DecidableEq, Repr

namespace SystemError

def number? : SystemError → Option (String × Nat)
  | notFound => some ("No such file or directory", 2)
  | denied => some ("Permission denied", 13)
  | busy => some ("Device or resource busy", 16)
  | alreadyThere => some ("File exists", 17)
  | notADirectory => some ("Not a directory", 20)
  | isADirectory => some ("Is a directory", 21)
  | nameTooLong => some ("File name too long", 36)
  | unreachable => some ("Network is unreachable", 101)
  | _ => none

def message (e : SystemError) : String :=
  match e.number? with
  | some (text, n) => s!"{text} (os error {n})"
  | none =>
    match e with
    | notAFile => "not a regular file"
    | zeroInName => "file name contained an unexpected NUL byte"
    | notText => "stream did not contain valid UTF-8"
    | other text => text
    | _ => ""

end SystemError

end Signpost
