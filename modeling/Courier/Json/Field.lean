import Courier.Json.Decode

/-! # Fields with a fallback

Lenient access to a value: what is missing, null or of another type counts as zero, false or empty.
-/

namespace Courier.Json

def toNat (j : Json) : Nat := (natural? (wordSize 64) j).getD 0
def toInt (j : Json) : Int := (integer? j).getD 0
def toText (j : Json) : String := j.textValue?.getD ""
def toFlag (j : Json) : Bool := j.flag?.getD false
def items (j : Json) : List Json := (list? some j).getD []

def toPair (j : Json) : String × String :=
  match j.items with
  | [a, b] => (a.toText, b.toText)
  | _ => ("", "")

/-- Is there such a field, be it null? -/
def names (j : Json) (k : String) : Bool :=
  match j with
  | object members => !(valuesOf members k).isEmpty
  | _ => false

/-- The first value of the field that is not null. -/
def field? (j : Json) (k : String) : Option Json :=
  match j with
  | object members => (valuesOf members k).find? (!·.isNull)
  | _ => none

def field (j : Json) (k : String) : Json := (j.field? k).getD null
def has (j : Json) (k : String) : Bool := (j.field? k).isSome
def nat (j : Json) (k : String) : Nat := (j.field k).toNat
def nat? (j : Json) (k : String) : Option Nat := (j.field? k).map toNat
def int (j : Json) (k : String) : Int := (j.field k).toInt
def str (j : Json) (k : String) : String := (j.field k).toText
def str? (j : Json) (k : String) : Option String := (j.field? k).map toText
def flag (j : Json) (k : String) : Bool := (j.field k).toFlag
def list (j : Json) (k : String) : List Json := (j.field k).items
def pairs (j : Json) (k : String) : List (String × String) := (j.list k).map toPair

/-- A flag that is up unless it is said to be down. -/
def flagOrTrue (j : Json) (k : String) : Bool := !j.has k || j.flag k

def choiceOr {α : Type} (all : List α) (name : α → String) (otherwise : α) (j : Json) : α :=
  (choice? all name j).getD otherwise

end Courier.Json
