namespace Signpost.Text

variable (p : Char → Bool)

def cut : List Char → List Char × Option (List Char)
  | [] => ([], none)
  | c :: s =>
    if p c then ([], some s)
    else
      let (before, after) := cut s
      (c :: before, after)

def split : List Char → List (List Char)
  | [] => [[]]
  | c :: s =>
    if p c then [] :: split s
    else
      match split s with
      | [] => [[c]]
      | piece :: pieces => (c :: piece) :: pieces

def runs (s : List Char) : List (List Char) :=
  (split p s).filter (!·.isEmpty)

theorem split_ne_nil (s : List Char) : split p s ≠ [] := by
  cases s with
  | nil => simp [split]
  | cons c s => unfold split; split <;> (try split) <;> simp

end Signpost.Text
