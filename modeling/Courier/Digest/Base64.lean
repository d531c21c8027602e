import Courier.Bytes

/-! # Base64

Three bytes are four characters of the standard alphabet; a short last group is padded.
-/

namespace Courier.Base64

def character (n : Nat) : Char :=
  if n < 26 then Char.ofNat (n + 65)
  else if n < 52 then Char.ofNat (n + 71)
  else if n < 62 then Char.ofNat (n - 4)
  else if n = 62 then '+'
  else '/'

def encodeChars : Bytes → List Char
  | x :: y :: z :: r =>
    let n := x.toNat * 65536 + y.toNat * 256 + z.toNat
    character (n / 262144) :: character (n / 4096 % 64) :: character (n / 64 % 64) ::
      character (n % 64) :: encodeChars r
  | [x, y] =>
    let n := x.toNat * 1024 + y.toNat * 4
    [character (n / 4096), character (n / 64 % 64), character (n % 64), '=']
  | [x] =>
    let n := x.toNat * 16
    [character (n / 64), character (n % 64), '=', '=']
  | [] => []

def encode (data : Bytes) : String :=
  String.ofList (encodeChars data)

end Courier.Base64
