import Courier.Text.Blank
import Courier.Text.Numeral
import Courier.Wire.Fault
import Courier.Wire.Line
import Courier.Word

/-! # Chunk sizes

A size line holds the size in hexadecimal, and may hold extensions behind a semicolon.
-/

namespace Courier.Wire

def chunkSize (line : Bytes) : Except Fault Nat :=
  match line.text? with
  | none => .error .chunkSizeNotText
  | some text =>
    let digits := Text.trim (String.ofList (text.toList.takeWhile (· ≠ ';')))
    match Text.numeral? 16 (wordSize 64) digits with
    | some n => .ok n
    | none => .error (.chunkSize digits)

/-- What is written for a chunk: its size, its bytes, and an end of line after each. -/
def chunkParts (chunk : Bytes) : List Bytes :=
  [Bytes.ofText (String.ofList (Nat.toDigits 16 chunk.length)) ++ crlf, chunk, crlf]

/-- What ends a chunked body. -/
def lastChunk : Bytes :=
  Bytes.ofText "0\r\n\r\n"

end Courier.Wire
