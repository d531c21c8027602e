import Courier.Stream.Filter

/-! # Filters given by rules -/

namespace Courier.Filter.Rule

/-- Changes every chunk. -/
def mapping (name : String) (f : Bytes → Bytes) : Rule where
  name
  onChunk _ chunk := .ok (some (f chunk))
  onComplete _ := .ok ()

/-- Withholds the second chunk, the fourth, and so on. -/
def everyOther (name : String) : Rule where
  name
  onChunk seen chunk := .ok (if seen.length % 2 = 0 then some chunk else none)
  onComplete _ := .ok ()

/-- Passes so many chunks and fails at each one after them. -/
def failingAfter (name : String) (n : Nat) (e : Error) : Rule where
  name
  onChunk seen chunk := if seen.length < n then .ok (some chunk) else .error e
  onComplete _ := .ok ()

/-- Fails at the end. -/
def failingAtEnd (name : String) (e : Error) : Rule where
  name
  onChunk _ chunk := .ok (some chunk)
  onComplete _ := .error e

/-! ## Letter case -/

def upperByte (b : UInt8) : UInt8 :=
  if 97 ≤ b && b ≤ 122 then b - 32 else b

/-- Makes ASCII letters upper case. -/
def upper : Rule :=
  mapping "upper" (·.map upperByte)

end Courier.Filter.Rule
