/-! # Numerals

Digits in a radix up to thirty-six, letters in either case. A numeral may carry one plus sign and
stands for a number below a bound.
-/

namespace Courier.Text

def digit? (radix : Nat) (c : Char) : Option Nat :=
  let n := c.toNat
  let value :=
    if 48 ≤ n ∧ n ≤ 57 then n - 48
    else if 97 ≤ n ∧ n ≤ 122 then n - 87
    else if 65 ≤ n ∧ n ≤ 90 then n - 55
    else radix
  if value < radix then some value else none

def ofDigits (radix : Nat) (ds : List Nat) : Nat :=
  ds.foldl (fun n d => n * radix + d) 0

/-- The number one or more digits spell. -/
def digits? (radix : Nat) (cs : List Char) : Option Nat :=
  if cs.isEmpty then none else (cs.mapM (digit? radix)).map (ofDigits radix)

def unsigned : List Char → List Char
  | '+' :: cs => cs
  | cs => cs

/-- The number below the bound that a numeral spells, a plus sign in front allowed. -/
def numeral? (radix bound : Nat) (s : String) : Option Nat :=
  (digits? radix (unsigned s.toList)).filter (· < bound)

def decimal? (bound : Nat) (s : String) : Option Nat :=
  numeral? 10 bound s

end Courier.Text
