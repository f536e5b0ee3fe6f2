namespace Signpost

inductive Verb where
  | get
  | post
  | any
  deriving DecidableEq, Repr

namespace Verb

def text : Verb → String
  | get => "GET"
  | post => "POST"
  | any => "*"

def ofText? : String → Option Verb
  | "GET" => some get
  | "POST" => some post
  | "*" => some any
  | _ => none

def accepts : Verb → String → Bool
  | any, _ => true
  | v, method => v.text == method

theorem ofText?_text (v : Verb) : ofText? v.text = some v := by
  cases v <;> rfl

theorem ofText?_eq_some_iff {s : String} {v : Verb} : ofText? s = some v ↔ s = v.text := by
  constructor
  · intro h
    unfold ofText? at h
    split at h <;> cases h <;> rfl
  · rintro rfl
    exact ofText?_text v

end Verb

end Signpost
