import Courier.Json.Basic
import Courier.Json.Double

/-! # JSON's lexical level

White space, numbers and strings, each read from the front of a list of characters.
-/

namespace Courier.Json

def isBlank (c : Char) : Bool :=
  c = ' ' || c = '\n' || c = '\t' || c = '\r'

def skipBlank (cs : List Char) : List Char :=
  cs.dropWhile isBlank

def digitsValue (cs : List Char) : Nat :=
  cs.foldl (fun n c => n * 10 + (c.toNat - 48)) 0

/-- One or more digits. -/
def digits? (cs : List Char) : Option (List Char × List Char) :=
  let (ds, rest) := cs.span Char.isDigit
  if ds.isEmpty then none else some (ds, rest)

/-- Zero, or digits that do not start with zero. -/
def integerPart? (cs : List Char) : Option (List Char × List Char) :=
  match digits? cs with
  | some ('0' :: _ :: _, _) => none
  | found => found

def fractionPart? : List Char → Option (List Char × List Char)
  | '.' :: cs => digits? cs
  | cs => some ([], cs)

def exponentPart? : List Char → Option (Option Int × List Char)
  | c :: cs =>
    if c = 'e' || c = 'E' then
      let (negative, cs) :=
        match cs with
        | '-' :: cs => (true, cs)
        | '+' :: cs => (false, cs)
        | cs => (false, cs)
      (digits? cs).map fun (ds, rest) =>
        let n : Int := digitsValue ds
        (some (if negative then -n else n), rest)
    else some (none, c :: cs)
  | [] => some (none, [])

def number? (cs : List Char) : Option (Numeral × List Char) := do
  let (negative, cs) :=
    match cs with
    | '-' :: cs => (true, cs)
    | cs => (false, cs)
  let (whole, cs) ← integerPart? cs
  let (fraction, cs) ← fractionPart? cs
  let (exponent, cs) ← exponentPart? cs
  return (
    { negative
      mantissa := digitsValue (whole ++ fraction)
      exponent := exponent.getD 0 - fraction.length
      integral := fraction.isEmpty && exponent.isNone
      finite := isFiniteDecimal whole fraction (exponent.getD 0) }, cs)

def hexDigit? (c : Char) : Option Nat :=
  let n := c.toNat
  if 48 ≤ n ∧ n ≤ 57 then some (n - 48)
  else if 97 ≤ n ∧ n ≤ 102 then some (n - 87)
  else if 65 ≤ n ∧ n ≤ 70 then some (n - 55)
  else none

def unit? : List Char → Option (Nat × List Char)
  | a :: b :: c :: d :: cs => do
    let a ← hexDigit? a
    let b ← hexDigit? b
    let c ← hexDigit? c
    let d ← hexDigit? d
    return (((a * 16 + b) * 16 + c) * 16 + d, cs)
  | _ => none

def simpleEscape? (c : Char) : Option Nat :=
  match c with
  | '"' => some 0x22
  | '\\' => some 0x5C
  | '/' => some 0x2F
  | 'b' => some 8
  | 'f' => some 12
  | 'n' => some 10
  | 'r' => some 13
  | 't' => some 9
  | _ => none

/-- The code points and half pairs up to the closing quote. -/
def codes? : Nat → List Char → Option (List Nat × List Char)
  | 0, _ => none
  | fuel + 1, cs =>
    match cs with
    | [] => none
    | '"' :: cs => some ([], cs)
    | '\\' :: 'u' :: cs => do
      let (n, cs) ← unit? cs
      let (ns, cs) ← codes? fuel cs
      return (n :: ns, cs)
    | '\\' :: c :: cs => do
      let n ← simpleEscape? c
      let (ns, cs) ← codes? fuel cs
      return (n :: ns, cs)
    | c :: cs =>
      if c.toNat < 0x20 || c = '\\' then none
      else do
        let (ns, cs) ← codes? fuel cs
        return (c.toNat :: ns, cs)

/-- Joins surrogate pairs; half of a pair on its own spells nothing. -/
def text? : List Nat → Option (List Char)
  | [] => some []
  | [n] => if 0xD800 ≤ n ∧ n < 0xE000 then none else some [Char.ofNat n]
  | n :: m :: ns =>
    if 0xD800 ≤ n ∧ n < 0xDC00 then
      if 0xDC00 ≤ m ∧ m < 0xE000 then
        (text? ns).map (Char.ofNat (0x10000 + (n - 0xD800) * 0x400 + (m - 0xDC00)) :: ·)
      else none
    else if 0xDC00 ≤ n ∧ n < 0xE000 then none
    else (text? (m :: ns)).map (Char.ofNat n :: ·)

/-- The rest of a string behind its opening quote. -/
def string? (cs : List Char) : Option (Option String × List Char) :=
  (codes? (cs.length + 1) cs).map fun (ns, rest) => ((text? ns).map String.ofList, rest)

end Courier.Json
