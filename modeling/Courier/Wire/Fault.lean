import Courier.Error

/-! # What can be wrong with a response on the wire -/

namespace Courier.Wire

inductive Fault
  | closedBeforeHead
  | headTooLarge
  | headNotText
  | statusLine (line : String)
  | headerLine (line : String)
  | closedInBody (outstanding : Nat)
  | closedInChunk
  | closedInChunkedBody
  | chunkEnd
  | chunkSizeNotText
  | chunkSize (text : String)
  deriving DecidableEq, Repr

def Fault.error : Fault → Error
  | closedBeforeHead => .transmission "connection closed before response head"
  | headTooLarge => .responseDecode "response head too large"
  | headNotText => .responseDecode "response head is not UTF-8"
  | statusLine line => .responseDecode ("invalid status line: " ++ line)
  | headerLine line => .responseDecode ("invalid header line: " ++ line)
  | closedInBody n =>
    .transmission ("connection closed with " ++ toString n ++ " body bytes outstanding")
  | closedInChunk => .transmission "connection closed inside chunk"
  | closedInChunkedBody => .transmission "connection closed inside chunked body"
  | chunkEnd => .responseDecode "missing CRLF after chunk data"
  | chunkSizeNotText => .responseDecode "invalid chunk size line"
  | chunkSize text => .responseDecode ("invalid chunk size: " ++ text)

end Courier.Wire
