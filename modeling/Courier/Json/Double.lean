import Courier.Word

/-! # How large a number may be

A number that is not an integer of 64 bits is read as a significand of 64 bits and a power of ten.
Both are rounded to doubles, and so is their product, which has to be finite.
-/

namespace Courier.Json

/-- The nearest number of at most 53 significant bits; of two equally near, the even one. -/
def roundDouble (n : Nat) : Nat :=
  let step := wordSize (n.log2 - 52)
  let (whole, rest) := (n / step, n % step)
  if step < 2 * rest || (step = 2 * rest && whole % 2 = 1) then (whole + 1) * step
  else whole * step

/-- The least number that rounds to none of the finite doubles. -/
def doubleLimit : Nat := wordSize 1024 - wordSize 970

/-- Takes digits into a significand for as long as it fits 64 bits, and tells which are left. -/
def absorb (significand : Nat) : List Char → Nat × List Char
  | [] => (significand, [])
  | d :: ds =>
    let next := significand * 10 + (d.toNat - 48)
    if next < wordSize 64 then absorb next ds else (significand, d :: ds)

/-- Is a significand times a power of ten finite? -/
def isFinite (significand : Nat) (power : Int) : Bool :=
  if significand = 0 || power ≤ 0 then true
  else if 308 < power then false
  else roundDouble significand * roundDouble (Nat.pow 10 power.toNat) < doubleLimit

/-- Whole digits that are left raise the power of ten. Digits after the point that are left are
dropped, even where digits before the point are left as well. -/
def isFiniteDecimal (whole fraction : List Char) (exponent : Int) : Bool :=
  let (significand, left) := absorb 0 whole
  let (significand, dropped) := absorb significand fraction
  isFinite significand (exponent + left.length + dropped.length - fraction.length)

end Courier.Json
