namespace Signpost.Word

def count (bits : Nat) : Nat :=
  Nat.pow 2 bits

end Signpost.Word
