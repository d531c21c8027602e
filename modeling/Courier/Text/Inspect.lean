import Courier.Text.Hidden

/-! # Inspection

How values are shown in diagnostics: text in double quotes with hidden characters spelt out,
options, lists and records.
-/

namespace Courier.Inspect

def escapeChar (c : Char) : List Char :=
  if c = '"' then ['\\', '"']
  else if c = '\\' then ['\\', '\\']
  else if c = '\n' then ['\\', 'n']
  else if c = '\r' then ['\\', 'r']
  else if c = '\t' then ['\\', 't']
  else if c.toNat = 0 then ['\\', '0']
  else if Text.isHidden c then
    ['\\', 'u', Char.ofNat 123] ++ Nat.toDigits 16 c.toNat ++ [Char.ofNat 125]
  else [c]

def text (s : String) : String :=
  String.ofList ('"' :: s.toList.flatMap escapeChar ++ ['"'])

def flag : Bool → String
  | true => "true"
  | false => "false"

def option (shown : Option String) : String :=
  match shown with
  | none => "None"
  | some s => "Some(" ++ s ++ ")"

def list (shown : List String) : String :=
  "[" ++ ", ".intercalate shown ++ "]"

def fields (named : List (String × String)) : String :=
  ", ".intercalate (named.map fun (name, shown) => name ++ ": " ++ shown)

/-- A record with every field shown. -/
def record (name : String) (named : List (String × String)) : String :=
  name ++ " \x7b " ++ fields named ++ " \x7d"

/-- A record of which some fields are left out. -/
def partialRecord (name : String) (named : List (String × String)) : String :=
  name ++ " \x7b " ++ fields named ++ ", .. \x7d"

end Courier.Inspect
