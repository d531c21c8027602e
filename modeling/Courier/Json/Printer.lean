import Courier.Bytes
import Courier.Json.Basic

/-! # Writing JSON

Without white space, members in order, control characters escaped.
-/

namespace Courier.Json

def escape (c : Char) : List Char :=
  match c with
  | '"' => ['\\', '"']
  | '\\' => ['\\', '\\']
  | '\n' => ['\\', 'n']
  | '\r' => ['\\', 'r']
  | '\t' => ['\\', 't']
  | c =>
    if c.toNat = 8 then ['\\', 'b']
    else if c.toNat = 12 then ['\\', 'f']
    else if c.toNat < 0x20 then
      ['\\', 'u', '0', '0', Bytes.hexDigit (c.toNat / 16), Bytes.hexDigit (c.toNat % 16)]
    else [c]

/-- A string without a reading is written as half of a pair. -/
def writeString : Option String → List Char
  | some s => '"' :: s.toList.flatMap escape ++ ['"']
  | none => "\"\\ud800\"".toList

def writeNumber (n : Numeral) : List Char :=
  (if n.negative then ['-'] else []) ++ (toString n.mantissa).toList ++
    (if n.integral then [] else 'e' :: (toString n.exponent).toList)

mutual

def write : Json → List Char
  | null => "null".toList
  | bool true => "true".toList
  | bool false => "false".toList
  | number n => writeNumber n
  | string s => writeString s
  | array items => '[' :: writeItems items ++ [']']
  | object members => '\x7b' :: writeMembers members ++ ['\x7d']

def writeItems : List Json → List Char
  | [] => []
  | [j] => write j
  | j :: js => write j ++ ',' :: writeItems js

def writeMembers : List (Option String × Json) → List Char
  | [] => []
  | [(name, j)] => writeString name ++ ':' :: write j
  | (name, j) :: ms => writeString name ++ ':' :: (write j ++ ',' :: writeMembers ms)

end

def render (j : Json) : String :=
  String.ofList (write j)

end Courier.Json
