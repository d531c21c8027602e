import Courier.Digest.EntityTag
import Courier.Error
import Courier.Http.Message

/-! # Checking an upload

The entity tag of an upload names the digest of what the server stored. Where both digests are
known they have to agree; where either is not, there is nothing to check.
-/

namespace Courier.Integrity

def verifyUpload (computed : Option Digest) (head : ResponseHead) : Except Error Unit :=
  match (head.headers.first? Headers.entityTag).bind EntityTag.digest?, computed with
  | some expected, some computed =>
    if expected = computed then .ok ()
    else .error (.integrityMismatch ⟨.upload, expected, computed⟩)
  | _, _ => .ok ()

end Courier.Integrity
