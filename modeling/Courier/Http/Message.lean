import Courier.Http.Headers

/-! # Methods and message heads -/

namespace Courier

inductive Method
  | get
  | head
  | put
  | post
  | delete
  | patch
  deriving DecidableEq, Repr

namespace Method

def all : List Method := [get, head, put, post, delete, patch]

def name : Method → String
  | get => "GET"
  | head => "HEAD"
  | put => "PUT"
  | post => "POST"
  | delete => "DELETE"
  | patch => "PATCH"

end Method

/-- The first line and the header fields of a request, as they go on the wire. -/
structure RequestHead where
  method : Method
  path : String
  headers : Headers
  deriving DecidableEq, Repr

structure ResponseHead where
  status : Nat
  reason : String
  headers : Headers
  deriving DecidableEq, Repr, Inhabited

def ResponseHead.isSuccess (h : ResponseHead) : Bool :=
  200 ≤ h.status && h.status < 300

end Courier
