import Courier.Json.Lexical

/-! # Reading JSON

A text is one value with white space around it. Every value takes at least one character, so the
length of the text bounds the recursion.
-/

namespace Courier.Json

/-- What is left behind a word at the front. -/
def word? (word : String) (cs : List Char) : Option (List Char) :=
  if word.toList.isPrefixOf cs then some (cs.drop word.length) else none

mutual

def value? : Nat → List Char → Option (Json × List Char)
  | 0, _ => none
  | fuel + 1, cs =>
    match cs with
    | '"' :: cs => (string? cs).map fun (s, rest) => (string s, rest)
    | '[' :: cs =>
      match skipBlank cs with
      | ']' :: rest => some (array [], rest)
      | cs => (items? fuel cs).map fun (items, rest) => (array items, rest)
    | '\x7b' :: cs =>
      match skipBlank cs with
      | '\x7d' :: rest => some (object [], rest)
      | cs => (members? fuel cs).map fun (members, rest) => (object members, rest)
    | 'n' :: _ => (word? "null" cs).map (null, ·)
    | 't' :: _ => (word? "true" cs).map (bool true, ·)
    | 'f' :: _ => (word? "false" cs).map (bool false, ·)
    | _ => (number? cs).map fun (n, rest) => (number n, rest)

/-- Items up to the closing bracket, at least one. -/
def items? : Nat → List Char → Option (List Json × List Char)
  | 0, _ => none
  | fuel + 1, cs =>
    match value? fuel cs with
    | none => none
    | some (item, cs) =>
      match skipBlank cs with
      | ']' :: rest => some ([item], rest)
      | ',' :: cs =>
        (items? fuel (skipBlank cs)).map fun (items, rest) => (item :: items, rest)
      | _ => none

/-- Members up to the closing brace, at least one. -/
def members? : Nat → List Char → Option (List (Option String × Json) × List Char)
  | 0, _ => none
  | fuel + 1, cs =>
    match cs with
    | '"' :: cs =>
      match string? cs with
      | none => none
      | some (name, cs) =>
        match skipBlank cs with
        | ':' :: cs =>
          match value? fuel (skipBlank cs) with
          | none => none
          | some (value, cs) =>
            match skipBlank cs with
            | '\x7d' :: rest => some ([(name, value)], rest)
            | ',' :: cs =>
              (members? fuel (skipBlank cs)).map fun (members, rest) =>
                ((name, value) :: members, rest)
            | _ => none
        | _ => none
    | _ => none

end

def parseChars? (cs : List Char) : Option Json :=
  match value? (cs.length + 1) (skipBlank cs) with
  | some (value, rest) => if (skipBlank rest).isEmpty then some value else none
  | none => none

def parse? (s : String) : Option Json :=
  parseChars? s.toList

end Courier.Json
