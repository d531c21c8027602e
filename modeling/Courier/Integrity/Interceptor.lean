import Courier.Digest.Base64
import Courier.Integrity.Upload
import Courier.Interceptor

/-! # The content integrity interceptor

On the way out it adds a digest for the server, asks for a trailing checksum on a download, and
arranges for the digest of an upload to be known. On the way back it checks what it asked for.
-/

namespace Courier.Integrity

variable {ξ : Type}

def priority : Int := 1000

def effective (settings : Settings) (a : Attributes) : Settings × OperationKind :=
  ((a.get? .settings).getD settings, (a.get? .operationKind).getD .unspecified)

/-- Forgets what an earlier attempt left. -/
def forget (a : Attributes) : Attributes :=
  (((a.remove .trailingRequested).2).remove .uploadDigest).2

/-- Adds the digest of a body in memory for the server to check. -/
def addServerDigest (r : Request) : Request :=
  match r.body.buffered? with
  | some bytes =>
    { r with headers := r.headers.insert Headers.contentMd5 (Base64.encode (md5 bytes)) }
  | none => r

def askTrailing : Hook ξ Request := fun r state =>
  (.ok { r with headers := r.headers.insert trailingRequest appendMd5 },
    { state with attributes := state.attributes.put .trailingRequested true })

/-- Sees to it that the digest of the body is in a slot once the body has been sent. -/
def noteUpload : Hook ξ Request := fun r state =>
  match r.body with
  | .empty => (.ok r, state)
  | .buffered bytes =>
    let (slot, cells) := state.cells.newSlot (some (md5 bytes))
    (.ok r, { state with cells, attributes := state.attributes.put .uploadDigest slot })
  | .streaming provider =>
    let (slot, cells) := state.cells.newSlot none
    (.ok (r.withBody (.streaming (provider.digestingInto slot))),
      { state with cells, attributes := state.attributes.put .uploadDigest slot })

def onRequest (settings : Settings) : Hook ξ Request := fun r state =>
  let (settings, kind) := effective settings state.attributes
  let skipsClient := skipsClientRequest settings kind r.headers
  let skipsServer := skipsServer settings kind r.headers
  let state := { state with attributes := forget state.attributes }
  let r := if skipsServer then r else addServerDigest r
  if skipsClient then (.ok r, state)
  else
    match kind with
    | .download => askTrailing r state
    | .upload => noteUpload r state
    | .md5Required => (.ok r, state)
    | .other => (.ok r, state)

def undeclaredTrailing : Error :=
  .responseDecode "trailing checksum response without Content-Length"

/-- Parts the trailing checksum from the body and declares what is left. -/
def splitTrailing (r : Response) : Except Error Response :=
  match r.head.headers.declaredLength? with
  | none => .error undeclaredTrailing
  | some n =>
    match Trailing.Splitter.ofLength? n with
    | .error f => .error f.error
    | .ok s =>
      let payload := s.payloadLength
      .ok
        { head := { r.head with
            headers := r.head.headers.insert Headers.contentLength (toString payload) }
          body := (r.body.withFilter (.trailing s)).withLength (some payload) }

def checkUpload (r : Response) (state : HookState ξ) : Except Error Response :=
  match state.attributes.get? .uploadDigest with
  | none => .ok r
  | some slot => (verifyUpload (state.cells.digest? slot) r.head).map fun _ => r

def onResponse (settings : Settings) : Hook ξ Response := fun r state =>
  let (settings, kind) := effective settings state.attributes
  if !r.head.isSuccess || skipsClientResponse settings kind r.head.headers then (.ok r, state)
  else
    match kind with
    | .download =>
      if (state.attributes.get? .trailingRequested).getD false then (splitTrailing r, state)
      else (.ok r, state)
    | .upload => (checkUpload r state, state)
    | .md5Required => (.ok r, state)
    | .other => (.ok r, state)

def interceptor (settings : Settings) : Interceptor ξ where
  name := "content-integrity"
  priority := priority
  onRequest := onRequest settings
  onResponse := onResponse settings

end Courier.Integrity
