/-! # Letters without regard to case

Only the ASCII letters are folded; every other character stands for itself.
-/

namespace Courier.Text

def fold (s : String) : List Char :=
  s.toList.map Char.toLower

/-- Equal but for the case of ASCII letters. -/
def sameFold (s t : String) : Bool :=
  fold s == fold t

@[simp]
theorem sameFold_iff {s t : String} : sameFold s t = true ↔ fold s = fold t := by
  simp [sameFold]

theorem sameFold_refl (s : String) : sameFold s s = true := by
  simp

/-- Does the second list hold the first as a block? -/
def occursIn [BEq α] (block : List α) : List α → Bool
  | [] => block.isEmpty
  | c :: r => block.isPrefixOf (c :: r) || occursIn block r

/-- Does the text hold the word, in any case? -/
def mentions (s word : String) : Bool :=
  occursIn (fold word) (fold s)

end Courier.Text
