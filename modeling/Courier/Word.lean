/-! # Words

The numbers that a word of so many bits can hold.
-/

namespace Courier

/-- How many numbers there are in so many bits. -/
def wordSize (bits : Nat) : Nat :=
  Nat.pow 2 bits

theorem wordSize_pos (bits : Nat) : 0 < wordSize bits :=
  Nat.pow_pos (by decide)

end Courier
