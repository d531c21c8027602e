import Courier.Http.Endpoint
import Courier.Http.Headers
import Courier.Json.Decode

/-! # Endpoints and headers as JSON -/

namespace Courier

open Json

namespace Endpoint

def fieldNames : List String := ["scheme", "host", "port"]

def toJson (e : Endpoint) : Json :=
  .record (fieldNames.zip [.ofText e.scheme.name, .ofText e.host, .ofNat e.port])

def ofJson? (j : Json) : Option Endpoint :=
  match j.fields? fieldNames with
  | some [some scheme, some host, some port] => do
    return ⟨← choice? Scheme.all Scheme.name scheme, ← host.textValue?, ← natural? 65536 port⟩
  | _ => none

end Endpoint

namespace Headers

def toJson (h : Headers) : Json :=
  .record [("entries", .array (h.entries.map fun (n, v) => .array [.ofText n, .ofText v]))]

def entry? : Json → Option (String × String)
  | .array [name, value] => do return (← name.textValue?, ← value.textValue?)
  | _ => none

def ofJson? (j : Json) : Option Headers :=
  match j.fields? ["entries"] with
  | some [some entries] => (list? entry? entries).map ofList
  | _ => none

end Headers

end Courier
