import Courier.Stream.ByteStream
import Courier.Wire.ChunkSize
import Courier.Wire.Head
import Courier.Wire.Transport

/-! # HTTP/1.1 connections

A connection writes requests and reads responses over a transport. Bytes that have come but belong
to no answer yet wait in a buffer; the framing says what of the body is still to come.
-/

namespace Courier.Wire

inductive ChunkState
  | size
  | data (remaining : Nat)
  | dataEnd
  | trailers
  deriving DecidableEq, Repr

inductive Framing
  | done
  | length (remaining : Nat)
  | chunked (state : ChunkState)
  | untilClose
  deriving DecidableEq, Repr

structure Connection where
  transport : Transport
  buffer : Bytes
  framing : Framing
  method : Option Method
  keepAlive : Bool
  broken : Bool
  deriving DecidableEq, Repr

namespace Connection

def ofTransport (t : Transport) : Connection :=
  ⟨t, [], .done, none, true, false⟩

def unread (c : Connection) : Nat :=
  c.buffer.length + c.transport.unread

def breakOff (c : Connection) : Connection :=
  { c with broken := true }

def refuse {α : Type} (c : Connection) (f : Fault) : Except Error α × Connection :=
  (.error f.error, c.breakOff)

/-- May another request follow on this connection? -/
def isReusable (c : Connection) : Bool :=
  c.keepAlive && !c.broken && c.framing = .done && c.buffer.isEmpty

def abort (c : Connection) : Connection :=
  { c with broken := true, keepAlive := false, buffer := [] }

def close (c : Connection) : Connection :=
  { c with keepAlive := false, transport := c.transport.shutdown }

/-! ## Writing -/

def write (c : Connection) (data : Bytes) : Except Error Unit × Connection :=
  match c.transport.write data with
  | (.ok (), t) => (.ok (), { c with transport := t })
  | (.error message, t) =>
    (.error (.transmission message), { c with transport := t, broken := true })

def flush (c : Connection) : Except Error Unit × Connection :=
  match c.transport.flush with
  | .ok () => (.ok (), c)
  | .error message => (.error (.transmission message), c.breakOff)

/-- Writes the parts in order, up to the first that fails. -/
def writeParts : List Bytes → Connection → Except Error Unit × Connection
  | [], c => (.ok (), c)
  | part :: parts, c =>
    match c.write part with
    | (.ok (), c) => writeParts parts c
    | failed => failed

/-- How a request went out: no outcome means that its body never came to an end. -/
structure Sent where
  outcome : Option (Except Error Unit)
  connection : Connection
  cells : Cells

/-- Writes chunks as they are pulled. -/
def writeChunks (chunked : Bool) : Nat → Connection → Subscription → Channel → Cells → Sent
  | 0, c, _, _, cells => ⟨none, c, cells⟩
  | pulls + 1, c, sub, ch, cells =>
    let p := sub.pull ch cells
    match p.outcome with
    | .pending => ⟨none, c, p.cells⟩
    | .failed e => ⟨some (.error e), c.breakOff, p.cells⟩
    | .chunk chunk =>
      match writeParts (if chunked then chunkParts chunk else [chunk]) c with
      | (.ok (), c) => writeChunks chunked pulls c p.subscription p.channel p.cells
      | (.error e, c) => ⟨some (.error e), c, p.cells⟩
    | .finished =>
      let (result, c) := if chunked then c.write lastChunk else (.ok (), c)
      ⟨some result, c, p.cells⟩

def writeBody (c : Connection) (chunked : Bool) (body : ByteStream) (cells : Cells) : Sent :=
  match body.subscribe with
  | .error e => ⟨some (.error e), c, cells⟩
  | .ok (sub, body) =>
    writeChunks chunked (body.channel.stored + 1) c sub body.channel cells

def headText (head : RequestHead) (chunked : Bool) : String :=
  head.method.name ++ " " ++ head.path ++ " HTTP/1.1\r\n" ++
    String.join (head.headers.entries.map fun (name, value) => name ++ ": " ++ value ++ "\r\n") ++
    (if chunked then "Transfer-Encoding: chunked\r\n" else "") ++ "\r\n"

/-- A body whose length the head does not give is sent in chunks. -/
def isChunkedRequest (head : RequestHead) (body : Option ByteStream) : Bool :=
  body.isSome && !head.headers.contains Headers.contentLength

def sendRequest (c : Connection) (head : RequestHead) (body : Option ByteStream) (cells : Cells) :
    Sent :=
  let chunked := isChunkedRequest head body
  let c := { c with method := some head.method, framing := .done }
  match c.write (Bytes.ofText (headText head chunked)) with
  | (.error e, c) => ⟨some (.error e), c, cells⟩
  | (.ok (), c) =>
    let sent :=
      match body with
      | some body => c.writeBody chunked body cells
      | none => ⟨some (.ok ()), c, cells⟩
    match sent.outcome with
    | some (.ok ()) =>
      let (result, c) := sent.connection.flush
      ⟨some result, c, sent.cells⟩
    | _ => sent

/-! ## Reading -/

/-- Reads once more into the buffer; no bytes at the end. -/
def fill (c : Connection) : Except Error Nat × Connection :=
  match c.transport.read with
  | (.ok bytes, t) => (.ok bytes.length, { c with transport := t, buffer := c.buffer ++ bytes })
  | (.error message, t) =>
    (.error (.transmission message), { c with transport := t, broken := true })

def maxHead : Nat := 65536

/-- Takes over what a head says about the body behind it. -/
def adopt (c : Connection) (h : Head) : Connection :=
  let bodiless := c.method = some .head || h.head.status = 204 || h.head.status = 304
  let c := { c with keepAlive := h.keepAlive }
  if bodiless then { c with framing := .done }
  else if h.chunked then { c with framing := .chunked .size }
  else
    match h.head.headers.declaredLength? with
    | some 0 => { c with framing := .done }
    | some n => { c with framing := .length n }
    | none => { c with framing := .untilClose, keepAlive := false }

/-- Each round reads once or takes a head off the buffer, so what is unread bounds the rounds. -/
def awaitHead : Nat → Connection → Except Error ResponseHead × Connection
  | 0, c => c.refuse .closedBeforeHead
  | rounds + 1, c =>
    match cutAt? headEnd c.buffer with
    | some (raw, rest) =>
      let c := { c with buffer := rest }
      match Head.parse raw with
      | .error f => c.refuse f
      | .ok h => if h.isInterim then awaitHead rounds c else (.ok h.head, c.adopt h)
    | none =>
      if maxHead < c.buffer.length then c.refuse .headTooLarge
      else
        match c.fill with
        | (.error e, c) => (.error e, c)
        | (.ok 0, c) => c.refuse .closedBeforeHead
        | (.ok (_ + 1), c) => awaitHead rounds c

def readHead (c : Connection) : Except Error ResponseHead × Connection :=
  awaitHead (c.unread + 1) c

def awaitLine : Nat → Connection → Except Error Bytes × Connection
  | 0, c => c.refuse .closedInChunkedBody
  | rounds + 1, c =>
    match cutAt? crlf c.buffer with
    | some (line, rest) => (.ok line, { c with buffer := rest })
    | none =>
      match c.fill with
      | (.error e, c) => (.error e, c)
      | (.ok 0, c) => c.refuse .closedInChunkedBody
      | (.ok (_ + 1), c) => awaitLine rounds c

def takeLine (c : Connection) : Except Error Bytes × Connection :=
  awaitLine (c.unread + 1) c

/-- Makes sure that the buffer holds something, if anything is to come: false at the end. -/
def ensure (c : Connection) : Except Error Bool × Connection :=
  if c.buffer.isEmpty then
    match c.fill with
    | (.error e, c) => (.error e, c)
    | (.ok n, c) => (.ok (n != 0), c)
  else (.ok true, c)

/-- Takes at most `n` bytes off the buffer. -/
def takeBuffered (c : Connection) (n : Nat) : Bytes × Connection :=
  (c.buffer.take n, { c with buffer := c.buffer.drop n })

def inChunk (c : Connection) (s : ChunkState) : Connection :=
  { c with framing := .chunked s }

/-- Each round but the last takes a line, so what is unread bounds the rounds. -/
def readChunked : Nat → ChunkState → Connection → Except Error (Option Bytes) × Connection
  | 0, _, c => c.refuse .closedInChunkedBody
  | rounds + 1, .size, c =>
    match c.takeLine with
    | (.error e, c) => (.error e, c)
    | (.ok line, c) =>
      match chunkSize line with
      | .error f => (.error f.error, c)
      | .ok 0 => readChunked rounds .trailers (c.inChunk .trailers)
      | .ok (n + 1) => readChunked rounds (.data (n + 1)) (c.inChunk (.data (n + 1)))
  | _ + 1, .data remaining, c =>
    match c.ensure with
    | (.error e, c) => (.error e, c)
    | (.ok false, c) => c.refuse .closedInChunk
    | (.ok true, c) =>
      let (chunk, c) := c.takeBuffered remaining
      let left := remaining - chunk.length
      (.ok (some chunk), c.inChunk (if left = 0 then .dataEnd else .data left))
  | rounds + 1, .dataEnd, c =>
    match c.takeLine with
    | (.error e, c) => (.error e, c)
    | (.ok [], c) => readChunked rounds .size (c.inChunk .size)
    | (.ok (_ :: _), c) => c.refuse .chunkEnd
  | rounds + 1, .trailers, c =>
    match c.takeLine with
    | (.error e, c) => (.error e, c)
    | (.ok [], c) => (.ok none, { c with framing := .done })
    | (.ok (_ :: _), c) => readChunked rounds .trailers (c.inChunk .trailers)

def readLength (c : Connection) (remaining : Nat) : Except Error (Option Bytes) × Connection :=
  match c.ensure with
  | (.error e, c) => (.error e, c)
  | (.ok false, c) => c.refuse (.closedInBody remaining)
  | (.ok true, c) =>
    let (chunk, c) := c.takeBuffered remaining
    let left := remaining - chunk.length
    (.ok (some chunk), { c with framing := if left = 0 then .done else .length left })

def readUntilClose (c : Connection) : Except Error (Option Bytes) × Connection :=
  match c.ensure with
  | (.error e, c) => (.error e, c)
  | (.ok false, c) => (.ok none, { c with framing := .done })
  | (.ok true, c) => (.ok (some c.buffer), { c with buffer := [] })

/-- The next piece of the body, none once it has ended. -/
def readChunk (c : Connection) : Except Error (Option Bytes) × Connection :=
  match c.framing with
  | .done => (.ok none, c)
  | .length remaining => c.readLength remaining
  | .chunked state => readChunked (c.unread + 2) state c
  | .untilClose => c.readUntilClose

end Connection

end Courier.Wire
