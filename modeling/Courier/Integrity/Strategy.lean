import Courier.Http.Headers

/-! # When to validate

Which checks a transfer takes part in follows from the settings, the kind of operation and the
headers of its request or response.
-/

namespace Courier

inductive OperationKind
  | download
  | upload
  | md5Required
  | other
  deriving DecidableEq, Repr, Inhabited

namespace OperationKind

def all : List OperationKind := [download, upload, md5Required, other]

def name : OperationKind → String
  | download => "download"
  | upload => "upload"
  | md5Required => "md5_required"
  | other => "other"

/-- The kind of an operation that says nothing of its own. -/
def unspecified : OperationKind := other

end OperationKind

namespace Integrity

structure Settings where
  clientSide : Bool
  serverSide : Bool
  deriving DecidableEq, Repr

def Settings.enabled : Settings := ⟨true, true⟩
def Settings.disabled : Settings := ⟨false, false⟩

instance : Inhabited Settings := ⟨.enabled⟩

def trailingRequest : String := "x-amz-te"
def trailingMarker : String := "x-amz-transfer-encoding"
def appendMd5 : String := "append-md5"
def customerKey : String := "x-amz-server-side-encryption-customer-key"
def managedKey : String := "x-amz-server-side-encryption-aws-kms-key-id"
def octetStream : String := "application/octet-stream"

/-- No check by the client is asked for with this request. -/
def skipsClientRequest (s : Settings) (kind : OperationKind) (request : Headers) : Bool :=
  !s.clientSide ||
    match kind with
    | .download => request.contains Headers.range || request.contains customerKey
    | .upload =>
      request.contains customerKey || request.contains managedKey ||
        request.contains Headers.contentMd5
    | .md5Required => true
    | .other => true

/-- The response gives the client nothing to check. -/
def skipsClientResponse (s : Settings) (kind : OperationKind) (response : Headers) : Bool :=
  !s.clientSide ||
    match kind with
    | .download => !response.firstMatches trailingMarker appendMd5
    | .upload => !response.contains Headers.entityTag
    | .md5Required => true
    | .other => true

/-- No digest is sent along for the server to check. -/
def skipsServer (s : Settings) (kind : OperationKind) (request : Headers) : Bool :=
  match kind with
  | .md5Required => request.contains Headers.contentMd5
  | .upload =>
    !s.serverSide || request.firstMatches Headers.contentType octetStream ||
      request.contains Headers.contentMd5
  | .download => true
  | .other => true

end Integrity

end Courier
