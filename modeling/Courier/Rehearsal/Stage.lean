import Courier.Network.Basic

/-! # The scripted network

A stand-in for the network. Requests are answered from a script in the order they arrive, whatever
connection they come over, and from a fallback once the script is used up. The stage records the
requests and counts what becomes of connections.
-/

namespace Courier.Rehearsal

structure Reply where
  head : ResponseHead
  chunks : List Bytes
  keepAlive : Bool
  /-- How many chunks are delivered before the connection breaks. -/
  breaksAfter : Option Nat
  headDelay : Nat
  chunkDelay : Nat
  /-- The end of the body never comes. -/
  stalls : Bool

namespace Reply

def ofStatus (status : Nat) (reason : String) : Reply :=
  ⟨⟨status, reason, .empty⟩, [], true, none, 0, 0, false⟩

def withHeader (r : Reply) (name value : String) : Reply :=
  { r with head := { r.head with headers := r.head.headers.insert name value } }

def withChunks (r : Reply) (chunks : List Bytes) : Reply :=
  { r.withHeader Headers.contentLength (toString (Bytes.totalLength chunks)) with chunks }

def ok (body : Bytes) : Reply :=
  (ofStatus 200 "OK").withChunks [body]

/-- The reason that goes with an error status. -/
def reasonOf : Nat → String
  | 404 => "Not Found"
  | 429 => "Too Many Requests"
  | 500 => "Internal Server Error"
  | 503 => "Service Unavailable"
  | _ => "Error"

end Reply

structure Received where
  head : RequestHead
  body : Bytes
  deriving DecidableEq, Repr

structure Traffic where
  connects : Nat
  requests : Nat
  aborts : Nat
  closes : Nat
  deriving DecidableEq, Repr

structure Stage where
  script : List Reply
  fallback : Option Reply
  dialDelay : Nat
  /-- What the next dials fail with. -/
  dialErrors : List Error
  /-- How many of the dials after that are refused. -/
  refusals : Nat
  /-- Can endpoints be reached that ask for encryption? -/
  secure : Bool
  received : List Received
  traffic : Traffic

/-- One connection: the reply it is giving, and what it has given of it. -/
structure Line where
  reply : Option Reply
  pending : List Bytes
  delivered : Nat
  finished : Bool
  failed : Bool
  aborted : Bool

namespace Line

def fresh : Line := ⟨none, [], 0, false, false, false⟩

/-- Does the connection break before it delivers another chunk? -/
def breaks (l : Line) : Bool :=
  (l.reply.bind (·.breaksAfter)).any (· ≤ l.delivered)

def isReusable (l : Line) : Bool :=
  !l.failed && !l.aborted && l.reply.all fun r => r.keepAlive && l.finished

def headDelay (l : Line) : Nat :=
  (l.reply.map (·.headDelay)).getD 0

def chunkDelay (l : Line) : Option Nat :=
  match l.reply with
  | none => some 0
  | some r =>
    if l.breaks then some 0
    else if !l.pending.isEmpty then some r.chunkDelay
    else if r.stalls then none
    else some 0

def noRequest : Error :=
  .responseDecode "no request in flight"

def readHead (l : Line) : Except Error ResponseHead :=
  match l.reply with
  | none => .error noRequest
  | some r => .ok r.head

def reset : Error :=
  .transmission "connection reset by peer"

def readChunk (l : Line) : Except Error (Option Bytes) × Line :=
  if l.reply.isNone then (.ok none, l)
  else if l.breaks then (.error reset, { l with failed := true })
  else
    match l.pending with
    | chunk :: pending => (.ok (some chunk), { l with pending, delivered := l.delivered + 1 })
    | [] => (.ok none, { l with finished := true })

end Line

namespace Stage

def empty : Stage :=
  ⟨[], none, 0, [], 0, true, [], ⟨0, 0, 0, 0⟩⟩

def push (s : Stage) (r : Reply) : Stage :=
  { s with script := s.script ++ [r] }

def refused (e : Endpoint) : Error :=
  .connectionAcquisition e.text "connection refused"

def insecure (e : Endpoint) : Error :=
  .connectionAcquisition e.text "TLS is not supported by the plain TCP connector"

def dial (e : Endpoint) (s : Stage) : Except Error Line × Stage :=
  match s.dialErrors with
  | error :: dialErrors => (.error error, { s with dialErrors })
  | [] =>
    if e.scheme = .https && !s.secure then (.error (insecure e), s)
    else if 0 < s.refusals then (.error (refused e), { s with refusals := s.refusals - 1 })
    else (.ok .fresh, { s with traffic := { s.traffic with connects := s.traffic.connects + 1 } })

def connectionAborted : Error :=
  .transmission "connection aborted"

def unscripted : Error :=
  .transmission "no scripted response"

def receive (s : Stage) (head : RequestHead) (body : Bytes) : Stage :=
  { s with
    received := s.received ++ [⟨head, body⟩]
    traffic := { s.traffic with requests := s.traffic.requests + 1 } }

/-- The reply to the next request. -/
def answer (s : Stage) : Option Reply × Stage :=
  match s.script with
  | reply :: script => (some reply, { s with script })
  | [] => (s.fallback, s)

/-- A request arrives in full. -/
def serve (s : Stage) (head : RequestHead) (body : Bytes) (l : Line) :
    Except Error Unit × Line × Stage :=
  match (s.receive head body).answer with
  | (none, s) => (.error unscripted, { l with failed := true }, s)
  | (some reply, s) =>
    let pending := reply.chunks
    (.ok (), { l with reply := some reply, pending, delivered := 0, finished := false }, s)

def bodyOf (body : Option ByteStream) (cells : Cells) : Except Error Bytes × Cells :=
  match body with
  | none => (.ok [], cells)
  | some stream =>
    let (result, cells) := stream.collect cells
    (result.getD (.error Channel.droppedProducer), cells)

def send (head : RequestHead) (body : Option ByteStream) (l : Line) (s : Stage) (cells : Cells) :
    Network.Sent Stage Line :=
  if l.aborted then ⟨.error connectionAborted, l, s, cells⟩
  else
    match bodyOf body cells with
    | (.error e, cells) => ⟨.error e, l, s, cells⟩
    | (.ok bytes, cells) =>
      let (result, l, s) := s.serve head bytes l
      ⟨result, l, s, cells⟩

def abort (l : Line) (s : Stage) : Line × Stage :=
  if l.aborted then (l, s)
  else
    ({ l with aborted := true },
      { s with traffic := { s.traffic with aborts := s.traffic.aborts + 1 } })

def close (_ : Line) (s : Stage) : Stage :=
  { s with traffic := { s.traffic with closes := s.traffic.closes + 1 } }

end Stage

def network : Network Stage Line where
  dialDelay _ s := some s.dialDelay
  dial := Stage.dial
  sendDelay _ _ := some 0
  send := Stage.send
  headDelay l _ := some l.headDelay
  readHead l s := (l.readHead, l, s)
  chunkDelay l _ := l.chunkDelay
  readChunk l s :=
    let (result, l) := l.readChunk
    (result, l, s)
  isReusable := Line.isReusable
  abort := Stage.abort
  close := Stage.close

end Courier.Rehearsal
