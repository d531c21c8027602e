/-! # Byte strings

Bodies, digests and wire data are lists of bytes. Text goes to bytes as UTF-8.
-/

namespace Courier

abbrev Bytes := List UInt8

namespace Bytes

def ofText (s : String) : Bytes :=
  s.toUTF8.data.toList

/-- The text the bytes spell in UTF-8, if they spell one. -/
def text? (b : Bytes) : Option String :=
  String.fromUTF8? ⟨b.toArray⟩

/-- How many bytes a list of chunks has. -/
def totalLength : List Bytes → Nat
  | [] => 0
  | chunk :: chunks => chunk.length + totalLength chunks

theorem totalLength_eq (chunks : List Bytes) : totalLength chunks = chunks.flatten.length := by
  induction chunks with
  | nil => rfl
  | cons c cs ih => simp [totalLength, ih]

def hexDigit (n : Nat) : Char :=
  if n < 10 then Char.ofNat (n + 48) else Char.ofNat (n + 87)

def hexPair (b : UInt8) : List Char :=
  [hexDigit (b.toNat / 16), hexDigit (b.toNat % 16)]

/-- Two lower-case hexadecimal digits a byte. -/
def hex (b : Bytes) : String :=
  String.ofList (b.flatMap hexPair)

end Bytes

end Courier
