import Courier.Word

/-! # Uniform choice

A generator yields 64-bit words, and zeros once its words are used up. A number below a bound is
the high word of the product of the bound and a word; words whose low half falls into the biased
remainder are passed over.
-/

namespace Courier

abbrev Generator := List UInt64

namespace Generator

/-- A number chosen, how many words that took, and the words left. -/
structure Choice where
  value : Nat
  draws : Nat
  rest : Generator
  deriving DecidableEq, Repr

/-- The largest low half that is not passed over for this bound. -/
def zone (bound : Nat) : Nat :=
  bound * Nat.pow 2 (63 - bound.log2) - 1

def below (bound : Nat) : Generator → Choice
  | [] => ⟨0, 1, []⟩
  | w :: rest =>
    let product := w.toNat * bound
    if product % wordSize 64 ≤ zone bound then ⟨product / wordSize 64, 1, rest⟩
    else
      let c := below bound rest
      { c with draws := c.draws + 1 }

/-- No choice is made, no word taken. -/
def fixed (value : Nat) (g : Generator) : Choice :=
  ⟨value, 0, g⟩

end Generator

end Courier
