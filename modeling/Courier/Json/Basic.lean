/-! # JSON values

A value as its text gives it: numbers keep whether they were written as integers, strings whose
escapes leave half of a surrogate pair have no reading, and objects keep every member in order.
-/

namespace Courier

structure Json.Numeral where
  negative : Bool
  mantissa : Nat
  exponent : Int
  integral : Bool
  /-- Is it finite when it is read as a double? -/
  finite : Bool
  deriving DecidableEq, Repr, Inhabited

inductive Json
  | null
  | bool (b : Bool)
  | number (n : Json.Numeral)
  | string (s : Option String)
  | array (items : List Json)
  | object (members : List (Option String × Json))
  deriving Repr, Inhabited

namespace Json

def ofNat (n : Nat) : Json :=
  .number ⟨false, n, 0, true, true⟩

def ofInt (i : Int) : Json :=
  .number ⟨i < 0, i.natAbs, 0, true, true⟩

def ofText (s : String) : Json :=
  .string (some s)

def record (members : List (String × Json)) : Json :=
  .object (members.map fun (name, value) => (some name, value))

mutual

/-- How many arrays and objects lie around the innermost value. -/
def depth : Json → Nat
  | array items => depthItems items + 1
  | object members => depthMembers members + 1
  | _ => 0

def depthItems : List Json → Nat
  | [] => 0
  | j :: js => max (depth j) (depthItems js)

def depthMembers : List (Option String × Json) → Nat
  | [] => 0
  | (_, j) :: ms => max (depth j) (depthMembers ms)

end

mutual

/-- Every string has a reading and every number is finite. -/
def isReadable : Json → Bool
  | number n => n.finite
  | string s => s.isSome
  | array items => itemsReadable items
  | object members => membersReadable members
  | _ => true

def itemsReadable : List Json → Bool
  | [] => true
  | j :: js => isReadable j && itemsReadable js

def membersReadable : List (Option String × Json) → Bool
  | [] => true
  | (name, j) :: ms => name.isSome && isReadable j && membersReadable ms

end

end Json

end Courier
