import Courier.Http.Body
import Courier.Http.Endpoint
import Courier.Http.Message

/-! # Requests -/

namespace Courier

structure Request where
  method : Method
  address : Address
  headers : Headers
  body : RequestBody

namespace Request

def parse (method : Method) (uri : String) : Except Error Request :=
  match Address.parse uri with
  | .ok address => .ok ⟨method, address, .empty, .empty⟩
  | .error e => .error e

def endpoint (r : Request) : Endpoint :=
  r.address.endpoint

def path (r : Request) : String :=
  r.address.path

def uri (r : Request) : String :=
  r.address.text

def withHeader (r : Request) (name value : String) : Request :=
  { r with headers := r.headers.append name value }

def withBody (r : Request) (body : RequestBody) : Request :=
  { r with body }

/-- The headers with those that follow from the endpoint and the body, where not given. -/
def wireHeaders (r : Request) : Headers :=
  let h :=
    if r.headers.contains Headers.host then r.headers
    else r.headers.insert Headers.host r.endpoint.authority
  if r.body.isPresent && !h.contains Headers.contentLength then
    match r.body.declared with
    | some n => h.insert Headers.contentLength (toString n)
    | none => h
  else h

def head (r : Request) : RequestHead :=
  ⟨r.method, r.path, r.wireHeaders⟩

end Request

end Courier
