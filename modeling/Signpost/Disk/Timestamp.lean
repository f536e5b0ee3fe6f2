namespace Signpost

structure Timestamp where
  seconds : Int
  nanos : Nat
  nanos_lt : nanos < 1000000000 := by decide
  deriving DecidableEq, Repr

namespace Timestamp

instance : Inhabited Timestamp := ⟨{ seconds := 0, nanos := 0 }⟩

def ofParts? (seconds : Int) (nanos : Nat) : Option Timestamp :=
  if h : nanos < 1000000000 then some ⟨seconds, nanos, h⟩ else none

def carry (seconds : Int) (nanos : Nat) : Timestamp :=
  ⟨seconds + (nanos / 1000000000 : Nat), nanos % 1000000000, Nat.mod_lt _ (by decide)⟩

end Timestamp

end Signpost
