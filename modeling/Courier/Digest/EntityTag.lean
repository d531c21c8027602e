import Courier.Digest.Md5
import Courier.Text.Blank
import Courier.Text.Numeral

/-! # Entity tags as digests

A plain upload is tagged with the MD5 of its bytes in hexadecimal. Other tags name no digest.
-/

namespace Courier.EntityTag

/-- The bytes that pairs of hexadecimal digits spell. -/
def ofHex? : List Char → Option Bytes
  | [] => some []
  | x :: y :: r =>
    match Text.digit? 16 x, Text.digit? 16 y, ofHex? r with
    | some h, some l, some bytes => some (UInt8.ofNat (h * 16 + l) :: bytes)
    | _, _, _ => none
  | [_] => none

/-- The tag's characters without white space and then without quotes around them. -/
def bare (tag : String) : List Char :=
  Text.stripBoth (· == '"') (Text.trim tag).toList

/-- The digest a tag spells. -/
def digest? (tag : String) : Option Digest :=
  (ofHex? (bare tag)).filter (·.length = 16)

end Courier.EntityTag
