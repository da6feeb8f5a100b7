/-!
# `Word`: integers of a fixed width

A word of `n` bits is kept as the integer that it stands for. `wrap` takes any integer to the word with the
same lowest bits, and `fitsSigned` and `fitsUnsigned` say which integers are words already.
-/

namespace Resumable

/-- The integer of the given width that `n` wraps around to. -/
def wrap (bits : Nat) (signed : Bool) (n : Int) : Int :=
  if signed then Int.bmod n (Nat.pow 2 bits) else n % (Nat.pow 2 bits : Nat)

/-- Whether `n` is a signed word. -/
def fitsSigned (bits : Nat) (n : Int) : Bool :=
  0 ≤ n + (Nat.pow 2 (bits - 1) : Nat) && n < (Nat.pow 2 (bits - 1) : Nat)

/-- Whether `n` is an unsigned word. -/
def fitsUnsigned (bits : Nat) (n : Int) : Bool := 0 ≤ n && n < (Nat.pow 2 bits : Nat)

end Resumable
