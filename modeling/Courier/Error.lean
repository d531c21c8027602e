import Courier.Bytes

/-! # Errors

Everything that can go wrong in a transfer, its kind, and its wording.
-/

namespace Courier

inductive ErrorKind
  | connectionAcquisition
  | transmission
  | responseDecode
  | timeout
  | integrityMismatch
  | serviceStatus
  | retryExhausted
  | cancelled
  | poolClosed
  | configuration
  | stream
  | pagination
  deriving DecidableEq, Repr

namespace ErrorKind

def all : List ErrorKind :=
  [connectionAcquisition, transmission, responseDecode, timeout, integrityMismatch, serviceStatus,
   retryExhausted, cancelled, poolClosed, configuration, stream, pagination]

def name : ErrorKind → String
  | connectionAcquisition => "connection_acquisition"
  | transmission => "transmission"
  | responseDecode => "response_decode"
  | timeout => "timeout"
  | integrityMismatch => "integrity_mismatch"
  | serviceStatus => "service_status"
  | retryExhausted => "retry_exhausted"
  | cancelled => "cancelled"
  | poolClosed => "pool_closed"
  | configuration => "configuration"
  | stream => "stream"
  | pagination => "pagination"

/-- The kinds that a second attempt may well not meet again. -/
def transient : List ErrorKind :=
  [connectionAcquisition, transmission, responseDecode, timeout, integrityMismatch]

end ErrorKind

inductive Direction
  | upload
  | download
  deriving DecidableEq, Repr

namespace Direction

def name : Direction → String
  | upload => "upload"
  | download => "download"

def title : Direction → String
  | upload => "Upload"
  | download => "Download"

end Direction

/-- Two digests of the same data that should have been one. -/
structure Mismatch where
  direction : Direction
  expected : Bytes
  computed : Bytes
  deriving DecidableEq, Repr

def Mismatch.message (m : Mismatch) : String :=
  "Unable to verify integrity of data " ++ m.direction.title ++
    ". Client calculated content hash " ++ m.computed.hex ++
    " didn't match expected hash " ++ m.expected.hex ++ ". The data may be corrupt."

inductive Error
  | connectionAcquisition (endpoint message : String)
  | transmission (message : String)
  | responseDecode (message : String)
  | socketTimeout (millis : Nat) (during : String)
  | integrityMismatch (mismatch : Mismatch)
  | status (code : Nat) (text : String)
  | retryExhausted (attempts : Nat) (last : Error)
  | cancelled (reason : String)
  | poolClosed
  | doubleRelease (lease : Nat)
  | configuration (field message : String)
  | alreadySubscribed
  | endOfPages
  | endOfItems
  | device (message : String)
  deriving DecidableEq, Repr, Inhabited

namespace Error

/-- A setting that may be zero or more is below zero. -/
def negative (field : String) : Error :=
  configuration field "must not be negative"

def kind : Error → ErrorKind
  | connectionAcquisition _ _ => .connectionAcquisition
  | transmission _ => .transmission
  | device _ => .transmission
  | responseDecode _ => .responseDecode
  | socketTimeout _ _ => .timeout
  | integrityMismatch _ => .integrityMismatch
  | status _ _ => .serviceStatus
  | retryExhausted _ _ => .retryExhausted
  | cancelled _ => .cancelled
  | poolClosed => .poolClosed
  | configuration _ _ => .configuration
  | doubleRelease _ => .stream
  | alreadySubscribed => .stream
  | endOfPages => .pagination
  | endOfItems => .pagination

/-- The status the service answered with, also where retries ended on it. -/
def statusCode? : Error → Option Nat
  | status code _ => some code
  | retryExhausted _ last => last.statusCode?
  | _ => none

def isCancelled (e : Error) : Bool :=
  e.kind = .cancelled

def isTransient (e : Error) : Bool :=
  ErrorKind.transient.contains e.kind

def message : Error → String
  | connectionAcquisition endpoint message =>
    "Unable to acquire connection to " ++ endpoint ++ ": " ++ message
  | transmission message => "Transmission failure: " ++ message
  | responseDecode message => "Unable to decode response: " ++ message
  | socketTimeout millis during =>
    "Socket timeout after " ++ toString millis ++ "ms while " ++ during
  | integrityMismatch mismatch => mismatch.message
  | status code text => "Service returned status " ++ toString code ++ " " ++ text
  | retryExhausted attempts last =>
    "Request failed after " ++ toString attempts ++ " attempts: " ++ last.message
  | cancelled reason => "Request cancelled: " ++ reason
  | poolClosed => "Connection pool is closed"
  | doubleRelease lease => "Lease " ++ toString lease ++ " was already released"
  | configuration field message => "Invalid configuration for " ++ field ++ ": " ++ message
  | alreadySubscribed => "Byte stream already has a subscriber"
  | endOfPages => "No more pages"
  | endOfItems => "No more items"
  | device message => "IO error: " ++ message

end Error

end Courier
