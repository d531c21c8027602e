import Courier.Json.Basic
import Courier.Word

/-! # Reading values out of JSON

Integers are written without fraction or exponent and lie in the range of their type. A record is
an object, with unknown members left aside and no known one repeated, or an array of its fields in
order. A name from a closed list may also be the only member of an object, with nothing in it.
-/

namespace Courier.Json

/-- The deepest nesting a text may have where its values are looked at. -/
def maxDepth : Nat := 127

def natural? (bound : Nat) : Json → Option Nat
  | number n => if n.integral && !n.negative && n.mantissa < bound then some n.mantissa else none
  | _ => none

/-- A signed integer of 64 bits. Zero has no sign. -/
def integer? : Json → Option Int
  | number n =>
    if !n.integral then none
    else if n.negative then
      if n.mantissa = 0 || wordSize 63 < n.mantissa then none else some (-(n.mantissa : Int))
    else if n.mantissa < wordSize 63 then some n.mantissa
    else none
  | _ => none

def flag? : Json → Option Bool
  | bool b => some b
  | _ => none

def textValue? : Json → Option String
  | string s => s
  | _ => none

def list? {α : Type} (item? : Json → Option α) : Json → Option (List α)
  | array items => items.mapM item?
  | _ => none

def isNull : Json → Bool
  | null => true
  | _ => false

/-- The values under a name. -/
def valuesOf (members : List (Option String × Json)) (name : String) : List Json :=
  (members.filter fun m => m.1 = some name).map (·.2)

/-- The value of each field, in order, where there is one. -/
def fields? (names : List String) : Json → Option (List (Option Json))
  | object members =>
    if members.all (·.1.isSome) then
      names.mapM fun name =>
        match valuesOf members name with
        | [] => some none
        | [value] => some (some value)
        | _ => none
    else none
  | array items =>
    if items.length ≤ names.length then
      some (items.map some ++ List.replicate (names.length - items.length) none)
    else none
  | _ => none

/-- A field that may be left out. -/
def orElse {α : Type} (field : Option Json) (read? : Json → Option α) (otherwise : α) : Option α :=
  match field with
  | some value => read? value
  | none => some otherwise

/-- The one of a closed list that has this name. -/
def named? {α : Type} (all : List α) (name : α → String) (s : String) : Option α :=
  all.find? fun a => name a = s

def choice? {α : Type} (all : List α) (name : α → String) : Json → Option α
  | string (some s) => named? all name s
  | object [(some s, null)] => named? all name s
  | _ => none

end Courier.Json
