import Courier.Bytes

/-! # Lines

Lines end with a carriage return and a line feed; an empty line ends a head.
-/

namespace Courier.Wire

/-- What stands before and behind the first occurrence of a mark. -/
def cutAt? {α : Type} [BEq α] (mark : List α) : List α → Option (List α × List α)
  | [] => if mark.isEmpty then some ([], []) else none
  | a :: l =>
    if mark.isPrefixOf (a :: l) then some ([], (a :: l).drop mark.length)
    else
      match cutAt? mark l with
      | some (before, behind) => some (a :: before, behind)
      | none => none

def crlf : Bytes := [13, 10]

def headEnd : Bytes := [13, 10, 13, 10]

/-- The lines of a text, its ends of line taken out. -/
def lines : List Char → List (List Char)
  | [] => [[]]
  | '\r' :: '\n' :: cs => [] :: lines cs
  | c :: cs =>
    match lines cs with
    | line :: rest => (c :: line) :: rest
    | [] => [[c]]

theorem lines_ne_nil (cs : List Char) : lines cs ≠ [] := by
  fun_cases lines cs <;> simp_all

end Courier.Wire
